import FermiHV.Hypervisor

/-!
# What an emulated access does to its vCPU

The hypervisor emulates a trapped instruction in six places, each with its own
decoder: `mmio_emulate`, `vgic_mmio`, `virtio_mmio`, `vblk_mmio`, `mmio_zero` and
`cntp_emulate`. They share one contract (`Resumes`): the guest resumes after the
instruction, a read may have changed the register that the syndrome names, and
nothing else of the vCPU has changed. This module shows it for the decoders that
work on `Hv`; the actions that a run loop takes at a stage-2 abort follow
(`abort_resumes`, `abort_vcpus_of_not_advances`).
-/

namespace FermiHV

/-- `v'` is `v` resumed after the trapped instruction: at most register `rt` has
changed, and only if the instruction is a read. -/
structure Resumes (v v' : Vcpu) (rt : Nat) (isRead : Bool) : Prop where
  pc : v'.pc = v.pc + 4
  regs : ∀ i, v'.x i ≠ v.x i → isRead = true ∧ i.val = rt
  frame : v' = { v with pc := v'.pc, x := v'.x }

namespace Resumes

variable {v v' : Vcpu} {rt : Nat} {isRead : Bool}

theorem skip (v : Vcpu) (rt : Nat) (isRead : Bool) : Resumes v v.skip rt isRead :=
  ⟨rfl, fun _ h => absurd rfl h, rfl⟩

/-- A read into register `rt`; register 31 is discarded. -/
theorem setX_skip (v : Vcpu) (rt : Nat) (val : U64) : Resumes v (v.setX rt val).skip rt true := by
  unfold Vcpu.setX
  split_ifs with hrt
  · refine ⟨rfl, fun i hi => ⟨rfl, ?_⟩, rfl⟩
    by_contra hne
    have hi' : i ≠ ⟨rt, hrt⟩ := fun h => hne (congrArg Fin.val h)
    exact hi (Function.update_of_ne hi' ..)
  · exact skip v rt true

theorem ichLr (h : Resumes v v' rt isRead) : v'.ichLr = v.ichLr := by rw [h.frame]

theorem exitEsr (h : Resumes v v' rt isRead) : v'.exitEsr = v.exitEsr := by rw [h.frame]

theorem halted (h : Resumes v v' rt isRead) : v'.halted = v.halted := by rw [h.frame]

theorem vttbr (h : Resumes v v' rt isRead) : v'.vttbr = v.vttbr := by rw [h.frame]

end Resumes

/-! ## The decoders -/

/-- The transfer register of an MMIO access. -/
def GuestCtx.mmioRt (g : GuestCtx) : Nat := issSrt (esrIss g.exitEsr)

/-- The exit is an MMIO read with a valid syndrome. -/
def GuestCtx.mmioReads (g : GuestCtx) : Bool :=
  issIsv (esrIss g.exitEsr) && !issWnr (esrIss g.exitEsr)

theorem mmioEmulate_resumes (v : Vcpu) (ipa : U64) (u : Vuart) :
    Resumes v (mmioEmulate v ipa u).1 v.mmioRt v.mmioReads := by
  simp only [mmioEmulate, GuestCtx.mmioRt, GuestCtx.mmioReads]
  cases issIsv (esrIss v.exitEsr) with
  | false => exact .skip v _ _
  | true =>
    cases issWnr (esrIss v.exitEsr) with
    | true => exact .skip v _ _
    | false => exact .setX_skip v _ _

theorem vgicMmio_resumes (vm : Int) (v : Vcpu) (ipa : U64) (g : Vgic) :
    Resumes v (vgicMmio vm v ipa g).1 v.mmioRt v.mmioReads := by
  simp only [vgicMmio, GuestCtx.mmioRt, GuestCtx.mmioReads]
  cases issIsv (esrIss v.exitEsr) with
  | false => exact .skip v _ _
  | true =>
    cases issWnr (esrIss v.exitEsr) with
    | true => exact .skip v _ _
    | false => exact .setX_skip v _ _

theorem mmioZero_resumes (v : Vcpu) : Resumes v (mmioZero v) v.mmioRt v.mmioReads := by
  simp only [mmioZero, GuestCtx.mmioRt, GuestCtx.mmioReads]
  cases issIsv (esrIss v.exitEsr) with
  | false => exact .skip v _ _
  | true =>
    cases issWnr (esrIss v.exitEsr) with
    | true => exact .skip v _ _
    | false => exact .setX_skip v _ _

section Handlers

variable {c d : Fin 2} {h : Hv}

/-- The transfer register and the direction of a system-register access are at
other places of the syndrome. -/
theorem cntpEmulate_resumes (vm : Fin 2) :
    Resumes (h.vcpus c) ((cntpEmulate vm c h).vcpus c) (issRt (esrIss (h.vcpus c).exitEsr))
      (issDir (esrIss (h.vcpus c).exitEsr) ≠ 0) := by
  simp only [cntpEmulate, Hv.skip]
  split_ifs with htimer hwrite
  · rw [setVcpu_vcpus_self]
    exact .skip (h.vcpus c) _ _
  · rw [setVcpu_vcpus_self, setVcpu_vcpus_self, decide_eq_true hwrite]
    exact .setX_skip (h.vcpus c) _ _
  · rw [setVcpu_vcpus_self]
    exact .skip (h.vcpus c) _ _

theorem cntpEmulate_vcpus_of_ne (vm : Fin 2) (hne : d ≠ c) :
    (cntpEmulate vm c h).vcpus d = h.vcpus d := by
  simp only [cntpEmulate, Hv.skip]
  split_ifs
  · exact setVcpu_vcpus_of_ne _ hne
  · rw [setVcpu_vcpus_of_ne _ hne, setVcpu_vcpus_of_ne _ hne]
  · exact setVcpu_vcpus_of_ne _ hne

theorem psciHandle_vcpus_of_ne (hne : d ≠ c) : (psciHandle c h).vcpus d = h.vcpus d := by
  simp only [psciHandle]
  split_ifs <;> exact setVcpu_vcpus_of_ne _ hne

/-! ## Stage-2 aborts -/

/-- The action emulates or skips the access; the others retry it. -/
def AbortAction.advances : AbortAction → Bool
  | .fault _ | .report => false
  | .vgic | .vuart | .zero | .skip => true

theorem abort_resumes (vm : Int) (ipa : U64) {a : AbortAction} (ha : a.advances = true) :
    Resumes (h.vcpus c) ((h.abort vm c ipa a).vcpus c) (h.vcpus c).mmioRt
      (h.vcpus c).mmioReads := by
  cases a with
  | fault base => cases ha
  | report => cases ha
  | vgic =>
    simp only [Hv.abort, setVcpu_vcpus_self]
    exact vgicMmio_resumes vm (h.vcpus c) ipa h.vgic
  | vuart =>
    simp only [Hv.abort, setVcpu_vcpus_self]
    exact mmioEmulate_resumes (h.vcpus c) ipa h.uart
  | zero =>
    simp only [Hv.abort, setVcpu_vcpus_self]
    exact mmioZero_resumes (h.vcpus c)
  | skip =>
    simp only [Hv.abort, Hv.skip, setVcpu_vcpus_self]
    exact .skip (h.vcpus c) _ _

theorem abort_vcpus_of_not_advances (vm : Int) (ipa : U64) {a : AbortAction}
    (ha : a.advances = false) : (h.abort vm c ipa a).vcpus = h.vcpus := by
  cases a with
  | fault base => rfl
  | report => rfl
  | vgic | vuart | zero | skip => cases ha

theorem abort_vcpus_of_ne (vm : Int) (ipa : U64) (a : AbortAction) (hne : d ≠ c) :
    (h.abort vm c ipa a).vcpus d = h.vcpus d := by
  cases a with
  | fault base => rfl
  | report => rfl
  | vgic | vuart | zero | skip => exact setVcpu_vcpus_of_ne _ hne

/-- What every resumption keeps of a vCPU, an abort keeps of all of them. -/
theorem abort_keeps {α : Type} (f : Vcpu → α)
    (hf : ∀ {v v' : Vcpu} {rt : Nat} {isRead : Bool}, Resumes v v' rt isRead → f v' = f v)
    (vm : Int) (ipa : U64) (a : AbortAction) :
    f ((h.abort vm c ipa a).vcpus d) = f (h.vcpus d) := by
  by_cases hd : d = c
  · subst hd
    cases ha : a.advances with
    | true => exact hf (abort_resumes vm ipa ha)
    | false => rw [abort_vcpus_of_not_advances vm ipa ha]
  · rw [abort_vcpus_of_ne vm ipa a hd]

theorem abort_ichLr (vm : Int) (ipa : U64) (a : AbortAction) :
    ((h.abort vm c ipa a).vcpus d).ichLr = (h.vcpus d).ichLr :=
  abort_keeps (·.ichLr) Resumes.ichLr vm ipa a

theorem abort_halted (vm : Int) (ipa : U64) (a : AbortAction) :
    ((h.abort vm c ipa a).vcpus d).halted = (h.vcpus d).halted :=
  abort_keeps (·.halted) Resumes.halted vm ipa a

theorem abort_exitEsr (vm : Int) (ipa : U64) (a : AbortAction) :
    ((h.abort vm c ipa a).vcpus d).exitEsr = (h.vcpus d).exitEsr :=
  abort_keeps (·.exitEsr) Resumes.exitEsr vm ipa a

theorem abort_vttbr (vm : Int) (ipa : U64) (a : AbortAction) :
    ((h.abort vm c ipa a).vcpus d).vttbr = (h.vcpus d).vttbr :=
  abort_keeps (·.vttbr) Resumes.vttbr vm ipa a

/-- The same for the emulated timer. -/
theorem cntpEmulate_keeps {α : Type} (f : Vcpu → α)
    (hf : ∀ {v v' : Vcpu} {rt : Nat} {isRead : Bool}, Resumes v v' rt isRead → f v' = f v)
    (vm : Fin 2) : f ((cntpEmulate vm c h).vcpus d) = f (h.vcpus d) := by
  by_cases hd : d = c
  · subst hd
    exact hf (cntpEmulate_resumes vm)
  · rw [cntpEmulate_vcpus_of_ne vm hd]

theorem cntpEmulate_ichLr (vm : Fin 2) :
    ((cntpEmulate vm c h).vcpus d).ichLr = (h.vcpus d).ichLr :=
  cntpEmulate_keeps (·.ichLr) Resumes.ichLr vm

theorem cntpEmulate_vttbr (vm : Fin 2) :
    ((cntpEmulate vm c h).vcpus d).vttbr = (h.vcpus d).vttbr :=
  cntpEmulate_keeps (·.vttbr) Resumes.vttbr vm

end Handlers

end FermiHV
