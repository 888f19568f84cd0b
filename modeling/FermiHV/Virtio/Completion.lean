import FermiHV.EnableBits
import FermiHV.ListRegs
import FermiHV.Virtio.Process

/-!
# Completion interrupts of the virtio devices

`virtio_irq_demo`, `vblk_demo` and `vblk_rd_demo` run one guest with one virtio
device on the emulated GIC. When the device has completed something it sets bit 0
of InterruptStatus and a flag of its own; at the end of the pass the loop takes the
flag (`virtio_take_irq`, `vblk_take_irq`) and injects the device's interrupt if the
guest has it enabled.

InterruptStatus stays set until the guest acknowledges it, but the flag is gone
after one look. So a completion that finds the interrupt disabled is not delivered
when the guest enables it later. `CompSteady` says which passes keep the interrupt
in step with InterruptStatus, from the state before the pass, the guest's steps on its
list registers and the store with which it exits; `completion_level` says that they
do so for whole runs.
-/

namespace FermiHV

open ByteMem (Mem store)
open RunLoop (Flow Loop)

/-! ## 1. The loops -/

/-- One pass: the context in which the guest exits, the memory as it leaves it, and
its steps on the list registers. -/
structure VirtioEvent where
  ctx : GuestCtx
  mem : Mem 64
  steps : List LrStep

/-- The state of the loops. `got` is `x1` of the guest's final hypercall. -/
structure VirtioDemo where
  hv : Hv
  host : VHost
  done : Bool
  guard : Nat
  got : U64

/-- The interrupt of the device. -/
def VirtioKind.intid : VirtioKind → U32
  | .con => 20
  | .blk => 21

/-- The guest runs. -/
def VirtioDemo.enter (e : VirtioEvent) (s : VirtioDemo) : VirtioDemo :=
  let v := s.hv.vcpus 0
  { s with
    hv := s.hv.setVcpu 0 (vcpuRunOnce { e.ctx with ichLr := runLrs e.steps v.ichLr } v)
    host := { s.host with mem := e.mem }
    guard := s.guard + 1 }

/-- A data abort: the device, then the GIC, then nothing. -/
def VirtioDemo.dabt (k : VirtioKind) (s : VirtioDemo) : VirtioDemo :=
  let v := s.hv.vcpus 0
  let ipa := v.exitIpa
  if k.contains ipa then
    let (v', host) := mmio k 0 v ipa s.host
    { s with hv := s.hv.setVcpu 0 v', host }
  else { s with hv := s.hv.abort 0 0 ipa (if vgicContains ipa then .vgic else .zero) }

/-- The exit; `none` is one that ends the loop. -/
def VirtioDemo.handle (k : VirtioKind) (s : VirtioDemo) : Option VirtioDemo :=
  let v := s.hv.vcpus 0
  match v.exitKind with
  | .irq => some s
  | .hvc => some { s with done := true, got := v.getX 1 }
  | .abort => if v.exitEc = ecDabtLow then some (s.dabt k) else none
  | .smc | .sysreg | .other => none

/-- Inject a completion if the guest has the interrupt enabled. -/
def VirtioDemo.complete (k : VirtioKind) (s : VirtioDemo) : VirtioDemo :=
  let (taken, host) := takeIrq k 0 s.host
  if taken && vgicIrqEnabled s.hv.vgic 0 k.intid then { s with hv := s.hv.inject 0 k.intid, host }
  else { s with host }

def completionLoop (k : VirtioKind) : Loop VirtioDemo VirtioEvent where
  cond := fun s => !s.done && s.guard < 100000
  body := fun e s =>
    match (s.enter e).handle k with
    | some t => .next (t.complete k)
    | none => .brk (s.enter e)

/-- `virtio_irq_demo`. -/
def virtioIrqDemo : Loop VirtioDemo VirtioEvent := completionLoop .con

/-- `vblk_demo`. -/
def vblkDemo : Loop VirtioDemo VirtioEvent := completionLoop .blk

/-- `vblk_rd_demo`. -/
def vblkRdDemo : Loop VirtioDemo VirtioEvent := completionLoop .blk

/-! ## 2. The level -/

/-- InterruptStatus bit 0 is set and the interrupt is enabled. -/
def CompRaised (k : VirtioKind) (s : VirtioDemo) : Prop :=
  (s.host.dev k 0).intStatus &&& 1 ≠ 0 ∧ vgicIrqEnabled s.hv.vgic 0 k.intid = true

/-- A list register holds the interrupt. -/
def CompHeld (k : VirtioKind) (s : VirtioDemo) : Prop := LrsHold k.intid (s.hv.vcpus 0).ichLr

def CompLevel (k : VirtioKind) (s : VirtioDemo) : Prop := CompRaised k s → CompHeld k s

instance (k : VirtioKind) (s : VirtioDemo) : Decidable (CompRaised k s) :=
  inferInstanceAs (Decidable (_ ∧ _))

instance (k : VirtioKind) (s : VirtioDemo) : Decidable (CompHeld k s) :=
  inferInstanceAs (Decidable (LrsHold _ _))

instance (k : VirtioKind) (s : VirtioDemo) : Decidable (CompLevel k s) :=
  inferInstanceAs (Decidable (CompRaised k s → CompHeld k s))

/-- The store of an exit to a register of the device: its offset and its value. -/
def GuestCtx.deviceStore (k : VirtioKind) (x : GuestCtx) : Option (U64 × U32) :=
  let iss := esrIss x.exitEsr
  if x.exitKind = .abort && k.contains x.exitIpa && issIsv iss && issWnr iss then
    some (x.exitIpa - k.base, (x.getX (issSrt iss)).setWidth 32)
  else none

/-- The exit is a notify, and the guest has published something that the device has not
seen. -/
def Completes (k : VirtioKind) (e : VirtioEvent) (s : VirtioDemo) : Prop :=
  (e.ctx.deviceStore k).any (fun w => w.1 = 0x050) = true ∧ (s.host.dev k 0).active = true ∧
    availIdx (queueOf (s.host.dev k 0)) e.mem ≠ (s.host.dev k 0).lastAvail

/-- The exit acknowledges bit 0 of InterruptStatus. -/
def AcksStatus (k : VirtioKind) (e : VirtioEvent) : Prop :=
  (e.ctx.deviceStore k).any (fun w => w.1 = 0x064 && w.2.getLsbD 0) = true

/-- A completion of the pass, or of an earlier one, waits to be taken. -/
def CompDue (k : VirtioKind) (e : VirtioEvent) (s : VirtioDemo) : Prop :=
  Completes k e s ∨ (s.host.dev k 0).irq = true

/-- A pass from `s` with this exit leaves the interrupt raised: bit 0 is set, or was set
and is not acknowledged, and after the exit's store, if it is one to an enable
register, the interrupt is enabled. -/
structure CompLeft (k : VirtioKind) (e : VirtioEvent) (s : VirtioDemo) : Prop where
  status : Completes k e s ∨ ((s.host.dev k 0).intStatus &&& 1 ≠ 0 ∧ ¬ AcksStatus k e)
  enabled : (e.ctx.enableAct 0 (ppiBit 0 k.intid)).getD
    (vgicIrqEnabled s.hv.vgic 0 k.intid) = true

/-- The condition on a pass. -/
structure CompSteady (k : VirtioKind) (e : VirtioEvent) (s : VirtioDemo) : Prop where
  /-- A completion finds the interrupt in a list register, or one free. -/
  room : CompLeft k e s → CompDue k e s →
    LrsHold k.intid (runLrs e.steps (s.hv.vcpus 0).ichLr) ∨
      freeSlot (runLrs e.steps (s.hv.vcpus 0).ichLr) ≠ none
  /-- The guest does not end the interrupt and leave InterruptStatus set, unless
  there is a new completion. -/
  kept : CompLeft k e s → ¬ CompDue k e s → CompHeld k s →
    LrsHold k.intid (runLrs e.steps (s.hv.vcpus 0).ichLr)
  /-- The guest does not enable the interrupt with InterruptStatus set and the
  interrupt in no list register, unless there is a new completion. -/
  early : CompLeft k e s → ¬ CompDue k e s → ¬ CompRaised k s → CompHeld k s

section Decide

variable (k : VirtioKind) (e : VirtioEvent) (s : VirtioDemo)

instance : Decidable (Completes k e s) := inferInstanceAs (Decidable (_ ∧ _))

instance : Decidable (AcksStatus k e) := inferInstanceAs (Decidable (_ = _))

instance : Decidable (CompDue k e s) := inferInstanceAs (Decidable (_ ∨ _))

instance : Decidable (CompLeft k e s) :=
  decidable_of_iff ((Completes k e s ∨ ((s.host.dev k 0).intStatus &&& 1 ≠ 0 ∧ ¬ AcksStatus k e)) ∧
      (e.ctx.enableAct 0 (ppiBit 0 k.intid)).getD (vgicIrqEnabled s.hv.vgic 0 k.intid) = true)
    ⟨fun h => ⟨h.1, h.2⟩, fun h => ⟨h.1, h.2⟩⟩

instance : Decidable (CompSteady k e s) :=
  decidable_of_iff
    ((CompLeft k e s → CompDue k e s → LrsHold k.intid (runLrs e.steps (s.hv.vcpus 0).ichLr) ∨
        freeSlot (runLrs e.steps (s.hv.vcpus 0).ichLr) ≠ none) ∧
      (CompLeft k e s → ¬ CompDue k e s → CompHeld k s →
        LrsHold k.intid (runLrs e.steps (s.hv.vcpus 0).ichLr)) ∧
      (CompLeft k e s → ¬ CompDue k e s → ¬ CompRaised k s → CompHeld k s))
    ⟨fun h => ⟨h.1, h.2.1, h.2.2⟩, fun h => ⟨h.room, h.kept, h.early⟩⟩

end Decide

/-! ## 3. One pass -/

section Pass

variable {k : VirtioKind} {e : VirtioEvent} {s t : VirtioDemo}

theorem mmio_ichLr (vm : Fin 2) (v : Vcpu) (ipa : U64) (h : VHost) :
    (mmio k vm v ipa h).1.ichLr = v.ichLr := by
  simp only [mmio]
  split_ifs <;> simp

/-- Handling an exit leaves the list registers alone. -/
theorem handle_ichLr (h : s.handle k = some t) : (t.hv.vcpus 0).ichLr = (s.hv.vcpus 0).ichLr := by
  simp only [VirtioDemo.handle] at h
  cases hkind : (s.hv.vcpus 0).exitKind with
  | irq =>
    simp only [hkind, Option.some.injEq] at h
    rw [← h]
  | hvc =>
    simp only [hkind, Option.some.injEq] at h
    rw [← h]
  | abort =>
    simp only [hkind, Option.ite_none_right_eq_some, Option.some.injEq] at h
    rw [← h.2]
    by_cases hdev : k.contains (s.hv.vcpus 0).exitIpa = true
    · rw [VirtioDemo.dabt, if_pos hdev]
      exact setVcpu_ichLr (mmio_ichLr _ _ _ _)
    · rw [VirtioDemo.dabt, if_neg hdev]
      exact abort_ichLr _ _ _
  | smc | sysreg | other =>
    simp only [hkind] at h
    cases h

/-- The device's window is not the GIC's. -/
theorem vgicContains_of_device {ipa : U64} (h : k.contains ipa = true) :
    vgicContains ipa = false := by
  rw [VirtioKind.contains, Bool.and_eq_true, decide_eq_true_eq, decide_eq_true_eq, BitVec.le_def,
    BitVec.lt_def] at h
  have hlo : 0x0A000000 ≤ ipa.toNat := by
    cases k with
    | con => exact h.1
    | blk => exact Nat.le_trans (by decide) h.1
  rw [← Bool.not_eq_true, vgicContains_iff]
  omega

/-- Handling an exit does to the device and to the GIC what its store does. -/
theorem handle_effect (h : s.handle k = some t) :
    t.host = (match (s.hv.vcpus 0).deviceStore k with
      | some w => mmioWrite k 0 w.1 w.2 s.host
      | none => s.host) ∧
    t.hv.vgic = gicExit 0 (s.hv.vcpus 0).toGuestCtx s.hv.vgic := by
  simp only [VirtioDemo.handle] at h
  by_cases hk : (s.hv.vcpus 0).exitKind = .abort
  · simp only [hk, Option.ite_none_right_eq_some, Option.some.injEq] at h
    rw [← h.2, VirtioDemo.dabt]
    by_cases hdev : k.contains (s.hv.vcpus 0).exitIpa = true
    · rw [if_pos hdev]
      refine ⟨?_, ?_⟩
      · simp only [mmio, GuestCtx.deviceStore, hk, hdev, decide_true, Bool.true_and]
        cases issIsv (esrIss (s.hv.vcpus 0).exitEsr) with
        | false => rfl
        | true => cases issWnr (esrIss (s.hv.vcpus 0).exitEsr) <;> rfl
      · rw [gicExit, if_neg (by simp [GuestCtx.onGic, vgicContains_of_device hdev])]
        rfl
    · rw [if_neg hdev]
      refine ⟨?_, abort_gicExit rfl hk AbortAction.noConfusion⟩
      have hno : (s.hv.vcpus 0).deviceStore k = none := by
        simp [GuestCtx.deviceStore, hdev]
      rw [hno]
  · have hno : (s.hv.vcpus 0).deviceStore k = none := by simp [GuestCtx.deviceStore, hk]
    rw [hno, gicExit_of_not_abort hk]
    cases hkind : (s.hv.vcpus 0).exitKind with
    | abort => exact absurd hkind hk
    | irq | hvc =>
      simp only [hkind, Option.some.injEq] at h
      rw [← h]
      exact ⟨rfl, rfl⟩
    | smc | sysreg | other =>
      simp only [hkind] at h
      cases h

theorem and_one_ne_zero_iff (x : U32) : x &&& 1 ≠ 0 ↔ x.getLsbD 0 = true :=
  Bits.and_one_shl_ne_zero_iff x 0

/-- A notify raises both flags exactly when it makes a pass. -/
theorem notify_flags (vm : Fin 2) (h : VHost) :
    let d := h.dev k vm
    let d' := (process k vm h).dev k vm
    let due := d.active = true ∧ availIdx (queueOf d) h.mem ≠ d.lastAvail
    (d'.intStatus &&& 1 ≠ 0 ↔ due ∨ d.intStatus &&& 1 ≠ 0) ∧
      (d'.irq = true ↔ due ∨ d.irq = true) := by
  intro d d' due
  cases hact : d.active with
  | false =>
    have hsame : d' = d := congrArg (fun h => VHost.dev h k vm) (process_of_not_active hact)
    have hno : ¬ due := fun h => Bool.false_ne_true (hact.symm.trans h.1)
    simp only [hsame, hno, false_or, and_self]
  | true =>
    have hends := notify_ends_active hact
    by_cases hdue : availIdx (queueOf d) h.mem = d.lastAvail
    · have hzero : entriesDue k vm h = 0 := by
        rw [entriesDue, show availIdx _ _ = _ from hdue, BitVec.sub_self]
        rfl
      have hno : ¬ due := fun h => h.2 hdue
      have hquiet : d'.intStatus = d.intStatus ∧ d'.irq = d.irq := hends.quiet hzero
      simp only [hquiet, hno, false_or, and_self]
    · have hsome : entriesDue k vm h ≠ 0 := fun hzero => hdue (backlog_eq_zero_iff.mp hzero).symm
      have hraised : d'.intStatus = d.intStatus ||| 1 ∧ d'.irq = true := hends.raised hsome
      have hdone : due := ⟨hact, hdue⟩
      refine ⟨iff_of_true ?_ (.inl hdone), iff_of_true hraised.2 (.inl hdone)⟩
      rw [hraised.1, and_one_ne_zero_iff, BitVec.getLsbD_or]
      exact Bool.or_true _

/-- The flags of a device after a register write: a notify with something published
raises both, and only an acknowledge clears bit 0 of InterruptStatus. -/
theorem mmioWrite_flags (vm : Fin 2) (off : U64) (val : U32) (h : VHost) :
    let d := h.dev k vm
    let d' := (mmioWrite k vm off val h).dev k vm
    let done := off = 0x050 ∧ d.active = true ∧ availIdx (queueOf d) h.mem ≠ d.lastAvail
    (d'.intStatus &&& 1 ≠ 0 ↔
      done ∨ (d.intStatus &&& 1 ≠ 0 ∧ ¬ (off = 0x064 ∧ val.getLsbD 0 = true))) ∧
      (d'.irq = true ↔ done ∨ d.irq = true) := by
  intro d d' done
  by_cases hn : off = 0x050
  · subst hn
    have hack : ¬ ((0x050 : U64) = 0x064 ∧ val.getLsbD 0 = true) := fun h => absurd h.1 (by decide)
    have hflags := notify_flags (k := k) vm h
    simp only [done, hack, not_false_eq_true, and_true, true_and]
    exact hflags
  · have hno : ¬ done := fun h => hn h.1
    simp only [hno, false_or]
    by_cases hack : off = 0x064
    · subst hack
      have hwrite : d' = { d with intStatus := d.intStatus &&& ~~~val } :=
        setDev_dev_self fun d => { d with intStatus := d.intStatus &&& ~~~val }
      rw [hwrite]
      refine ⟨?_, Iff.rfl⟩
      simp only [and_one_ne_zero_iff, BitVec.getLsbD_and, BitVec.getLsbD_not, true_and]
      simp
    · have hkeep : d'.intStatus = d.intStatus ∧ d'.irq = d.irq := by
        change ((mmioWrite k vm off val h).dev k vm).intStatus = _ ∧ _
        simp only [d', mmioWrite, if_neg hn, if_neg hack]
        split_ifs <;> first | exact ⟨rfl, rfl⟩ | (rw [setDev_dev_self]; exact ⟨rfl, rfl⟩)
      simp only [hkeep, hack, false_and, not_false_eq_true, and_true, and_self]

theorem enter_ichLr : ((s.enter e).hv.vcpus 0).ichLr = runLrs e.steps (s.hv.vcpus 0).ichLr := by
  rw [VirtioDemo.enter, setVcpu_vcpus_self]
  rfl

/-- The state in which the flag is looked at, in terms of the state before the pass. -/
theorem exited_effect (h : (s.enter e).handle k = some t) :
    (CompRaised k t ↔ CompLeft k e s) ∧ ((t.host.dev k 0).irq = true ↔ CompDue k e s) ∧
      (t.hv.vcpus 0).ichLr = runLrs e.steps (s.hv.vcpus 0).ichLr := by
  obtain ⟨hhost, hvgic⟩ := handle_effect h
  have hctx : ((s.enter e).hv.vcpus 0).toGuestCtx =
      { e.ctx with ichLr := runLrs e.steps (s.hv.vcpus 0).ichLr } := by
    rw [VirtioDemo.enter, setVcpu_vcpus_self]
    rfl
  have hstore : ((s.enter e).hv.vcpus 0).deviceStore k = e.ctx.deviceStore k := by
    rw [hctx]
    rfl
  have henabled : vgicIrqEnabled t.hv.vgic 0 k.intid =
      (e.ctx.enableAct 0 (ppiBit 0 k.intid)).getD (vgicIrqEnabled s.hv.vgic 0 k.intid) := by
    rw [hvgic, irqEnabled_gicExit _ 0 0 _ (by cases k <;> decide), hctx]
    rfl
  have hflags : ((t.host.dev k 0).intStatus &&& 1 ≠ 0 ↔
      Completes k e s ∨ ((s.host.dev k 0).intStatus &&& 1 ≠ 0 ∧ ¬ AcksStatus k e)) ∧
      ((t.host.dev k 0).irq = true ↔ CompDue k e s) := by
    rw [hhost, hstore, CompDue, Completes, AcksStatus]
    cases e.ctx.deviceStore k with
    | none =>
      simp only [Option.any_none, Bool.false_eq_true, false_and, false_or, not_false_eq_true,
        and_true]
      exact ⟨Iff.rfl, Iff.rfl⟩
    | some w =>
      have hw := mmioWrite_flags (k := k) 0 w.1 w.2 (s.enter e).host
      simp only [Option.any_some, decide_eq_true_eq, Bool.and_eq_true]
      exact hw
  refine ⟨?_, hflags.2, (handle_ichLr h).trans enter_ichLr⟩
  rw [CompRaised, hflags.1, henabled]
  exact ⟨fun h => ⟨h.1, h.2⟩, fun h => ⟨h.status, h.enabled⟩⟩

theorem takeIrq_intStatus (vm : Fin 2) (h : VHost) :
    ((takeIrq k vm h).2.dev k vm).intStatus = (h.dev k vm).intStatus := by
  simp only [takeIrq]
  split_ifs
  · rw [setDev_dev_self]
  · rfl

theorem compRaised_complete : CompRaised k (t.complete k) ↔ CompRaised k t := by
  have hstatus := takeIrq_intStatus (k := k) 0 t.host
  simp only [VirtioDemo.complete]
  split_ifs
  · simp only [CompRaised, hstatus]
    rfl
  · simp only [CompRaised, hstatus]

theorem compHeld_complete : CompHeld k (t.complete k) ↔ CompHeld k t ∨
    ((t.host.dev k 0).irq = true ∧ vgicIrqEnabled t.hv.vgic 0 k.intid = true ∧
      freeSlot (t.hv.vcpus 0).ichLr ≠ none) := by
  simp only [VirtioDemo.complete, takeIrq_fst]
  by_cases hinj : ((t.host.dev k 0).irq && vgicIrqEnabled t.hv.vgic 0 k.intid) = true
  · rw [if_pos hinj]
    rw [Bool.and_eq_true] at hinj
    simp only [CompHeld, Hv.inject, setVcpu_vcpus_self, lrsHold_inject_iff, hinj, true_and]
  · rw [if_neg hinj]
    rw [Bool.and_eq_true] at hinj
    exact ⟨.inl, fun h => h.resolve_right fun hno => hinj ⟨hno.1, hno.2.1⟩⟩

/-- A pass that goes on from a state with the level keeps it exactly when it is
steady. -/
theorem compSteady_iff (hlevel : CompLevel k s) (hb : (completionLoop k).body e s = .next t) :
    CompLevel k t ↔ CompSteady k e s := by
  simp only [completionLoop] at hb
  cases hhandle : (s.enter e).handle k with
  | none =>
    rw [hhandle] at hb
    cases hb
  | some u =>
    rw [hhandle] at hb
    cases hb
    obtain ⟨hraised, hdue, hlrs⟩ := exited_effect hhandle
    rw [CompLevel, compRaised_complete, compHeld_complete, hdue, CompHeld, hlrs]
    constructor
    · intro h
      refine ⟨fun hl _ => ?_, fun hl hno _ => ?_, fun hl hno _ => ?_⟩
      · exact (h (hraised.mpr hl)).imp_right fun hnew => hnew.2.2
      · exact (h (hraised.mpr hl)).resolve_right fun hnew => hno hnew.1
      · exact lrsHold_of_runLrs ((h (hraised.mpr hl)).resolve_right fun hnew => hno hnew.1)
    · rintro ⟨hroom, hkept, hearly⟩ hr
      have hl := hraised.mp hr
      by_cases hd : CompDue k e s
      · exact (hroom hl hd).imp_right fun hfree => ⟨hd, hr.2, hfree⟩
      · refine .inl (hkept hl hd ?_)
        by_cases hentry : CompRaised k s
        · exact hlevel hentry
        · exact hearly hl hd hentry

end Pass

/-! ## 4. Runs -/

/-- The loops start after a reset of the vGIC, with no interrupt enabled. -/
theorem compLevel_of_reset {k : VirtioKind} {s : VirtioDemo} {g : Vgic}
    (hg : s.hv.vgic = vgicReset g) : CompLevel k s := by
  rintro ⟨-, hen⟩
  have hmax : (0 : Int) < vgicMaxVcpus := by decide
  rw [vgicIrqEnabled, hg] at hen
  exact absurd hen (by simp [vgicReset, hmax])

/-- In every run of steady passes of the three loops, the guest is never entered
with InterruptStatus bit 0 set, the interrupt enabled, and the interrupt in none of
its list registers. And steady are exactly the passes that keep it so. -/
theorem completion_level (k : VirtioKind) (s : VirtioDemo) (hlevel : CompLevel k s)
    (es : List VirtioEvent) (hsteady : ∀ p ∈ (completionLoop k).iters s es, CompSteady k p.2 p.1) :
    (∀ p ∈ (completionLoop k).iters s es, CompLevel k p.1) ∧
    ∀ e s t, CompLevel k s → (completionLoop k).body e s = .next t →
      (CompLevel k t ↔ CompSteady k e s) := by
  refine ⟨?_, fun e s t hs hb => compSteady_iff hs hb⟩
  exact RunLoop.Loop.iters_of_invariant
    (fun _ _ _ hs hC hb => (compSteady_iff hs hb).mpr hC) hlevel hsteady

/-- The loops right after the resets. -/
def demoStart : VirtioDemo where
  hv := resetHv exampleImage 0x40080000
  host :=
    { mem := fun _ => 0
      dev := fun _ _ => resetDev
      vbBytes := fun _ => 0
      console := []
      log := [] }
  done := false
  guard := 0
  got := 0

/-- A pass in which the guest stores `val` to `ipa`. Its memory holds a queue of one
entry at `0x1000`, with one empty buffer available. -/
def demoStore (ipa val : U64) : VirtioEvent where
  ctx := { (abortExit 0x93800040 ipa).ctx with x := Function.update (fun _ => 0) 0 val }
  mem := store (fun _ => 0) 0x1012 2 1
  steps := []

/-- The guest enables INTID 20 and then notifies. -/
theorem completion_level_enabled_first :
    let es := [demoStore 0x080B0100 0x100000, demoStore 0x0A000038 1, demoStore 0x0A000040 1,
      demoStore 0x0A000050 0, demoStore 0 0]
    (∃ p ∈ virtioIrqDemo.iters demoStart es, CompRaised .con p.1) ∧
    ∀ p ∈ virtioIrqDemo.iters demoStart es, CompLevel .con p.1 := by
  intro es
  have hsteady : ∀ p ∈ virtioIrqDemo.iters demoStart es, CompSteady .con p.2 p.1 := by
    decide +kernel
  have hlevel : CompLevel .con demoStart := compLevel_of_reset rfl
  exact ⟨by decide +kernel, (completion_level .con demoStart hlevel es hsteady).1⟩

/-- The guest notifies and then enables INTID 20. -/
theorem late_enable_is_not_seen :
    let es := [demoStore 0x0A000038 1, demoStore 0x0A000040 1, demoStore 0x0A000050 0,
      demoStore 0x080B0100 0x100000, demoStore 0 0]
    ¬ ∀ p ∈ virtioIrqDemo.iters demoStart es, CompLevel .con p.1 := by
  decide +kernel

end FermiHV
