import FermiHV.Ipi

/-!
# Which vCPUs an SGI goes to under `linux_vgic_boot`

The value written to `ICC_SGI1R_EL1` names its targets: all vCPUs but the sender,
or the ones in a target list. `vgic_post_sgi` does not look at that. It treats
every write as one to all but the sender (`vgic.h`), so a vCPU cannot send to
itself, and a list that leaves the other vCPU out does not keep it from being
interrupted.

`sgi_routing` is what the loop does with a trapped system-register access;
`self_sgi_goes_to_the_other` is a send that the value names differently.
-/

namespace FermiHV

open RunLoop (Flow Loop)

/-! ## 1. What the write says -/

def issOp0 (iss : U64) : U64 := (iss >>> 20) &&& 3
def issOp1 (iss : U64) : U64 := (iss >>> 14) &&& 7

/-- The exit is a write to `ICC_SGI1R_EL1`, which is `S3_0_C12_C11_5`. -/
def isSgi1rWrite (iss : U64) : Bool :=
  issOp0 iss = 3 && issOp1 iss = 0 && issCrn iss = 12 && issCrm iss = 11 && issOp2 iss = 5 &&
    issDir iss = 0

/-- The value written names vCPU `c` (affinity 0.0.0.`c`) as a target of the SGI
that `self` sends. -/
def sgiNames (val : U64) (self c : Fin 2) : Bool :=
  if val.getLsbD 40 then c ≠ self
  else val &&& 0x00FFF0FF00FF0000 = 0 && val.getLsbD c.val

/-- The value that a trapped system-register write has in its register. -/
def GuestCtx.sysregValue (g : GuestCtx) : U64 := g.getX (issRt (esrIss g.exitEsr))

/-- The exit makes pending what the value written names, and nothing else. -/
def RoutedAsNamed (img : Image) (s : Smp) (e : Event) : Prop :=
  ∀ (c : Fin 2) (k : U32), sgiBit c k ((linuxVgicBoot img).body e s).state.hv = true ↔
    sgiBit c k (s.exited img e).hv = true ∨
      (isSgi1rWrite (esrIss e.ctx.exitEsr) = true ∧ k = e.ctx.sgiIntid ∧
        sgiNames e.ctx.sysregValue s.cur c = true)

/-! ## 2. What the loop does -/

/-- A trapped system-register access of a running vCPU: a write to
`ICC_SGI1R_EL1` makes its SGI pending on every vCPU but the sender, whatever
targets the value names; an access with another CRn makes nothing pending; and
no list register changes. -/
theorem sgi_routing (img : Image) (s : Smp) (e : Event)
    (hrun : ((s.exited img e).hv.vcpus s.cur).halted = false) (hsys : e.ctx.exitKind = .sysreg) :
    ∃ s', (linuxVgicBoot img).body e s = .next s' ∧
      (isSgi1rWrite (esrIss e.ctx.exitEsr) = true → ∀ (c : Fin 2) (k : U32),
        sgiBit c k s'.hv = true ↔
          sgiBit c k (s.exited img e).hv = true ∨ (c ≠ s.cur ∧ k = e.ctx.sgiIntid)) ∧
      (issCrn (esrIss e.ctx.exitEsr) ≠ 12 → ∀ (c : Fin 2) (k : U32),
        sgiBit c k s'.hv = sgiBit c k (s.exited img e).hv) ∧
      ∀ c, (s'.hv.vcpus c).ichLr = ((s.exited img e).hv.vcpus c).ichLr := by
  have hctx := Smp.exited_ctx img e s
  have hexit : (s.exited img e).hv.linuxExit s.cur e =
      if issCrn (esrIss e.ctx.exitEsr) = 12 then (s.exited img e).hv.postSgi s.cur
      else cntpEmulate s.cur s.cur (s.exited img e).hv := by
    simp only [Hv.linuxExit, hsys]
  refine ⟨_, linuxVgicBoot_body_next hrun (by rw [hsys]; decide), ?_⟩
  rw [hexit]
  by_cases hcrn : issCrn (esrIss e.ctx.exitEsr) = 12
  · rw [if_pos hcrn]
    refine ⟨fun _ c k => ?_, fun hne => absurd hcrn hne, fun c => postSgi_ichLr⟩
    rw [sgiBit_postSgi_iff, hctx]
  · rw [if_neg hcrn]
    refine ⟨fun hw => ?_, fun _ c k => ?_, fun c => cntpEmulate_ichLr _⟩
    · simp only [isSgi1rWrite, Bool.and_eq_true, decide_eq_true_eq] at hw
      exact absurd hw.1.1.1.2 hcrn
    · rw [sgiBit, cntpEmulate_vgic, sgiBit]

/-- vCPU 0 writes `val` to `ICC_SGI1R_EL1` from `x0`. -/
def writeSgi1r (val : U64) : Event := syncExit 0x623A3016 val

/-- To all but itself, with INTID 1. -/
theorem sgi_routing_broadcast :
    isSgi1rWrite (esrIss (writeSgi1r 0x10001000000).ctx.exitEsr) = true ∧
    ∃ s', (linuxVgicBoot exampleImage).body (writeSgi1r 0x10001000000) linuxStart = .next s' ∧
      sgiBit 1 1 s'.hv = true := by
  have hwrite : isSgi1rWrite (esrIss (writeSgi1r 0x10001000000).ctx.exitEsr) = true := by decide
  obtain ⟨s', hbody, hset, -, -⟩ :=
    sgi_routing exampleImage linuxStart (writeSgi1r 0x10001000000) (by decide +kernel) (by decide)
  exact ⟨hwrite, s', hbody, (hset hwrite 1 1).mpr (.inr (by decide))⟩

/-- vCPU 0 sends INTID 1 to itself: it becomes pending on vCPU 1. -/
theorem self_sgi_goes_to_the_other :
    let e := writeSgi1r 0x1000001
    let h := ((linuxVgicBoot exampleImage).body e linuxStart).state.hv
    sgiNames e.ctx.sysregValue 0 0 = true ∧ sgiBit 0 1 h = false ∧
    sgiNames e.ctx.sysregValue 0 1 = false ∧ sgiBit 1 1 h = true ∧
    ¬ RoutedAsNamed exampleImage linuxStart e := by
  intro e h
  have hself : sgiBit 0 1 h = false := by decide +kernel
  refine ⟨by decide, hself, by decide, by decide +kernel, fun hrouted => ?_⟩
  have hnamed := (hrouted 0 1).mpr (.inr ⟨by decide, by decide, by decide⟩)
  rw [hself] at hnamed
  cases hnamed

end FermiHV
