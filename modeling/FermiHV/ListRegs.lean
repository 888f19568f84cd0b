import FermiHV.Resume

/-!
# List registers

The list registers of a vCPU have two writers. The hypervisor fills idle ones
(`vgic_inject`); the guest, through the virtual CPU interface, acknowledges
(pending to active) and ends (active to idle) the interrupts in them. `LrStep` is
the guest's side.

A pending interrupt stays pending until it is acknowledged (`lrPends_runLrs`);
a slot in use is not touched by `vgic_inject` (`vgicInject_ichLr`).
-/

namespace FermiHV

/-! ## 1. The guest's side -/

/-- A list register with its state field replaced. -/
def lrSetState (st lr : U64) : U64 := (st <<< 62) ||| (lr &&& 0x3FFFFFFFFFFFFFFF)

/-- The INTID of a list register is `k`. -/
def lrIntid (k : U32) (lr : U64) : Bool := lr &&& 0xFFFFFFFF = k.setWidth 64

/-- `k` is pending in the list register: bit 62 is set. -/
def lrPends (k : U32) (lr : U64) : Bool := lr.getLsbD 62 && lrIntid k lr

/-- A step of the guest on one list register. -/
inductive LrStep
  | ack (i : Fin 4)
  | eoi (i : Fin 4)

abbrev Lrs := Fin 4 → U64

/-- The list-register state machine: acknowledge takes pending to active, EOI
takes active to idle and pending-and-active to pending. -/
def LrStep.apply (st : LrStep) (lrs : Lrs) : Lrs :=
  match st with
  | .ack i => Function.update lrs i (if lrState (lrs i) = 1 then lrSetState 2 (lrs i) else lrs i)
  | .eoi i => Function.update lrs i
      (if lrState (lrs i) = 2 then lrSetState 0 (lrs i)
       else if lrState (lrs i) = 3 then lrSetState 1 (lrs i) else lrs i)

def runLrs (steps : List LrStep) (lrs : Lrs) : Lrs := steps.foldl (fun lrs st => st.apply lrs) lrs

/-- The step acknowledges `k`. -/
def LrStep.acks (k : U32) (lrs : Lrs) : LrStep → Bool
  | .ack i => lrState (lrs i) = 1 && lrIntid k (lrs i)
  | .eoi _ => false

/-- Some step of the run acknowledges `k`. -/
def acksIn (k : U32) : List LrStep → Lrs → Bool
  | [], _ => false
  | st :: steps, lrs => st.acks k lrs || acksIn k steps (st.apply lrs)

/-! ## 2. List registers as numbers -/

theorem toNat_lrState (lr : U64) : (lrState lr).toNat = lr.toNat / 2 ^ 62 := by
  have hlt := lr.isLt
  have hmask : (lrState lr).toNat = (lr >>> 62).toNat % 2 ^ 2 :=
    Bits.toNat_and_mask (lr >>> 62) (k := 2) (by omega)
  rw [hmask, Bits.toNat_shiftRight]
  omega

theorem lrState_eq_iff (lr : U64) {st : U64} : lrState lr = st ↔ lr.toNat / 2 ^ 62 = st.toNat := by
  rw [← toNat_lrState]
  exact ⟨fun h => by rw [h], fun h => BitVec.eq_of_toNat_eq h⟩

theorem lrIntid_iff {k : U32} {lr : U64} : lrIntid k lr = true ↔ lr.toNat % 2 ^ 32 = k.toNat := by
  have hk := k.isLt
  have hmask : (lr &&& 0xFFFFFFFF).toNat = lr.toNat % 2 ^ 32 :=
    Bits.toNat_and_mask lr (k := 32) (by omega)
  have hwide : (k.setWidth 64).toNat = k.toNat := by
    rw [BitVec.toNat_setWidth]
    omega
  rw [lrIntid, decide_eq_true_eq, ← hmask, ← hwide]
  exact ⟨fun h => by rw [h], fun h => BitVec.eq_of_toNat_eq h⟩

theorem lrPends_iff {k : U32} {lr : U64} :
    lrPends k lr = true ↔ lr.toNat / 2 ^ 62 % 2 = 1 ∧ lr.toNat % 2 ^ 32 = k.toNat := by
  rw [lrPends, Bool.and_eq_true, lrIntid_iff, BitVec.getLsbD, Nat.testBit_eq_decide_div_mod_eq,
    decide_eq_true_eq]

theorem toNat_lrSetState {st : U64} (hst : st.toNat < 4) (lr : U64) :
    (lrSetState st lr).toNat = st.toNat * 2 ^ 62 + lr.toNat % 2 ^ 62 := by
  have hlow : (lr &&& 0x3FFFFFFFFFFFFFFF).toNat = lr.toNat % 2 ^ 62 :=
    Bits.toNat_and_mask lr (k := 62) (by omega)
  have hhigh : (st <<< 62).toNat = st.toNat * 2 ^ 62 := by
    rw [BitVec.toNat_shiftLeft, Nat.shiftLeft_eq]
    omega
  rw [lrSetState, Bits.toNat_or_low (k := 62) (by omega) (by omega), hlow, hhigh]

theorem lrState_ne_zero_of_pends {k : U32} {lr : U64} (h : lrPends k lr = true) :
    lrState lr ≠ 0 := by
  have hbit := (lrPends_iff.mp h).1
  rw [ne_eq, lrState_eq_iff]
  change ¬ _ = 0
  omega

theorem lrHolds_iff {k : U32} {lr : U64} :
    lrHolds k lr = true ↔ lr.toNat / 2 ^ 62 ≠ 0 ∧ lr.toNat % 2 ^ 32 = k.toNat := by
  rw [lrHolds, Bool.and_eq_true, decide_eq_true_eq, ne_eq, lrState_eq_iff]
  exact and_congr_right fun _ => lrIntid_iff

theorem toNat_pendingLr (k : U32) : (pendingLr k).toNat = 2 ^ 62 + 2 ^ 60 + k.toNat := by
  have hk := k.isLt
  have hwide : (k.setWidth 64 : U64).toNat = k.toNat := by
    rw [BitVec.toNat_setWidth]
    omega
  have hhead : ((1#64 <<< 62) ||| (1#64 <<< 60)).toNat = 2 ^ 62 + 2 ^ 60 := by decide
  rw [pendingLr, Bits.toNat_or_low (k := 32) (by omega) (by omega), hhead, hwide]

theorem lrPends_pendingLr (k : U32) : lrPends k (pendingLr k) = true := by
  have hk := k.isLt
  rw [lrPends_iff, toNat_pendingLr]
  omega

theorem lrHolds_pendingLr {j k : U32} : lrHolds j (pendingLr k) = true ↔ k = j := by
  have hk := k.isLt
  rw [lrHolds_iff, toNat_pendingLr]
  refine ⟨fun h => BitVec.eq_of_toNat_eq (by omega), ?_⟩
  rintro rfl
  omega

/-- A pending interrupt stays pending until it is acknowledged. -/
theorem lrPends_apply {k : U32} {lrs : Lrs} {i : Fin 4} {st : LrStep}
    (h : lrPends k (lrs i) = true) (hack : st.acks k lrs = false) :
    lrPends k (st.apply lrs i) = true := by
  have hp := lrPends_iff.mp h
  cases st with
  | ack j =>
    by_cases hj : i = j
    · subst hj
      have hst : ¬ lrState (lrs i) = 1 := by
        intro hst
        simp only [LrStep.acks, hst, decide_true, Bool.true_and] at hack
        rw [lrPends, hack, Bool.and_false] at h
        cases h
      simpa only [LrStep.apply, Function.update_self, if_neg hst] using h
    · simpa only [LrStep.apply, Function.update_of_ne hj] using h
  | eoi j =>
    by_cases hj : i = j
    · subst hj
      have hst : ¬ lrState (lrs i) = 2 := by
        rw [lrState_eq_iff]
        change ¬ _ = 2
        omega
      simp only [LrStep.apply, Function.update_self, if_neg hst]
      split_ifs
      · have hone : (1 : U64).toNat = 1 := rfl
        rw [lrPends_iff, toNat_lrSetState (by decide), hone]
        omega
      · exact h
    · simpa only [LrStep.apply, Function.update_of_ne hj] using h

theorem lrPends_runLrs {k : U32} {steps : List LrStep} {lrs : Lrs} {i : Fin 4}
    (h : lrPends k (lrs i) = true) (hack : acksIn k steps lrs = false) :
    lrPends k (runLrs steps lrs i) = true := by
  induction steps generalizing lrs with
  | nil => exact h
  | cons st steps ih =>
    simp only [acksIn, Bool.or_eq_false_iff] at hack
    exact ih (lrPends_apply h hack.1) hack.2

/-! ## 3. What `vgic_inject` does -/

theorem lrState_of_freeSlot {lrs : Lrs} {i : Fin 4} (h : freeSlot lrs = some i) :
    lrState (lrs i) = 0 := by
  have hfound := List.find?_some h
  simpa using hfound

/-- A slot in use is left alone. -/
theorem vgicInject_ichLr {k : U32} {v : Vcpu} {i : Fin 4} (h : lrState (v.ichLr i) ≠ 0) :
    (vgicInject k v).ichLr i = v.ichLr i := by
  unfold vgicInject
  split_ifs
  · rfl
  · cases hs : freeSlot v.ichLr with
    | none => rfl
    | some j =>
      have hne : i ≠ j := by
        rintro rfl
        exact h (lrState_of_freeSlot hs)
      simp only [Function.update_of_ne hne]

/-- When no slot holds the interrupt and one is free, it becomes pending. -/
theorem vgicInject_pends {k : U32} {v : Vcpu} {j : Fin 4}
    (hno : ¬ ∃ i, lrHolds k (v.ichLr i) = true) (hs : freeSlot v.ichLr = some j) :
    lrPends k ((vgicInject k v).ichLr j) = true := by
  simp only [vgicInject, if_neg hno, hs, Function.update_self]
  exact lrPends_pendingLr k

/-- Some list register holds `k`, pending or active. -/
def LrsHold (k : U32) (lrs : Lrs) : Prop := ∃ i, lrHolds k (lrs i) = true

instance (k : U32) (lrs : Lrs) : Decidable (LrsHold k lrs) :=
  inferInstanceAs (Decidable (∃ i, lrHolds k (lrs i) = true))

/-- `vgic_inject` leaves a slot as it is or makes its interrupt pending there. -/
theorem vgicInject_slot (k : U32) (v : Vcpu) (i : Fin 4) :
    (vgicInject k v).ichLr i = v.ichLr i ∨ (vgicInject k v).ichLr i = pendingLr k := by
  unfold vgicInject
  split_ifs
  · exact .inl rfl
  · cases freeSlot v.ichLr with
    | none => exact .inl rfl
    | some j =>
      by_cases hij : i = j
      · subst hij
        exact .inr (Function.update_self ..)
      · exact .inl (Function.update_of_ne hij _ _)

/-- What the guest's steps may do to a slot: its INTID stays, an idle slot stays
idle, and nothing becomes pending. -/
structure SlotStep (lr lr' : U64) : Prop where
  low : lr'.toNat % 2 ^ 62 = lr.toNat % 2 ^ 62
  idle : lr.toNat / 2 ^ 62 = 0 → lr'.toNat / 2 ^ 62 = 0
  pends : lr'.toNat / 2 ^ 62 % 2 = 1 → lr.toNat / 2 ^ 62 % 2 = 1

theorem SlotStep.refl (lr : U64) : SlotStep lr lr := ⟨rfl, id, id⟩

theorem SlotStep.trans {lr lr' lr'' : U64} (h : SlotStep lr lr') (h' : SlotStep lr' lr'') :
    SlotStep lr lr'' :=
  ⟨h'.low.trans h.low, fun hi => h'.idle (h.idle hi), fun hp => h.pends (h'.pends hp)⟩

theorem slotStep_setState {st lr : U64} (hst : st.toNat < 4) (hidle : lr.toNat / 2 ^ 62 ≠ 0)
    (hpend : st.toNat % 2 = 1 → lr.toNat / 2 ^ 62 % 2 = 1) : SlotStep lr (lrSetState st lr) := by
  have hval := toNat_lrSetState hst lr
  refine ⟨by omega, fun h => absurd h hidle, fun h => hpend (by omega)⟩

theorem slotStep_apply (st : LrStep) (lrs : Lrs) (i : Fin 4) :
    SlotStep (lrs i) (st.apply lrs i) := by
  cases st with
  | ack j =>
    by_cases hij : i = j
    · subst hij
      simp only [LrStep.apply, Function.update_self]
      split_ifs with h1
      · rw [lrState_eq_iff] at h1
        change _ = 1 at h1
        exact slotStep_setState (by decide) (by omega) fun h => absurd h (by decide)
      · exact .refl _
    · simp only [LrStep.apply, Function.update_of_ne hij]
      exact .refl _
  | eoi j =>
    by_cases hij : i = j
    · subst hij
      simp only [LrStep.apply, Function.update_self]
      split_ifs with h2 h3
      · rw [lrState_eq_iff] at h2
        change _ = 2 at h2
        exact slotStep_setState (by decide) (by omega) fun h => absurd h (by decide)
      · rw [lrState_eq_iff] at h3
        change _ = 3 at h3
        exact slotStep_setState (by decide) (by omega) fun _ => by omega
      · exact .refl _
    · simp only [LrStep.apply, Function.update_of_ne hij]
      exact .refl _

theorem slotStep_runLrs (steps : List LrStep) (lrs : Lrs) (i : Fin 4) :
    SlotStep (lrs i) (runLrs steps lrs i) := by
  induction steps generalizing lrs with
  | nil => exact .refl _
  | cons st steps ih => exact (slotStep_apply st lrs i).trans (ih (st.apply lrs))

/-- The guest's steps add nothing. -/
theorem lrHolds_of_runLrs {k : U32} {steps : List LrStep} {lrs : Lrs} {i : Fin 4}
    (h : lrHolds k (runLrs steps lrs i) = true) : lrHolds k (lrs i) = true := by
  have hstep := slotStep_runLrs steps lrs i
  rw [lrHolds_iff] at h
  have hlow := hstep.low
  exact lrHolds_iff.mpr ⟨fun hidle => h.1 (hstep.idle hidle), by omega⟩

theorem lrsHold_of_runLrs {k : U32} {steps : List LrStep} {lrs : Lrs}
    (h : LrsHold k (runLrs steps lrs)) : LrsHold k lrs :=
  h.imp fun _ => lrHolds_of_runLrs

/-- What the steps make of a slot depends on that slot only. -/
theorem runLrs_slot_congr (steps : List LrStep) {lrs lrs' : Lrs} {i : Fin 4}
    (h : lrs i = lrs' i) : runLrs steps lrs i = runLrs steps lrs' i := by
  induction steps generalizing lrs lrs' with
  | nil => exact h
  | cons st steps ih =>
    refine ih ?_
    cases st with
    | ack j | eoi j =>
      by_cases hij : i = j
      · subst hij
        simp only [LrStep.apply, Function.update_self, h]
      · simp only [LrStep.apply, Function.update_of_ne hij, h]

/-- `vgic_inject` and then the guest's steps: an interrupt is held where the steps leave
it of those held before, or in the free slot that it has just been put into. -/
theorem lrsHold_runLrs_inject {j k : U32} {v : Vcpu} (steps : List LrStep) :
    LrsHold j (runLrs steps (vgicInject k v).ichLr) ↔ LrsHold j (runLrs steps v.ichLr) ∨
      (k = j ∧ ¬ LrsHold j v.ichLr ∧ ∃ i, freeSlot v.ichLr = some i ∧
        lrHolds j (runLrs steps (fun _ => pendingLr j) i) = true) := by
  constructor
  · rintro ⟨i, hi⟩
    by_cases hheld : ∃ i, lrHolds k (v.ichLr i) = true
    · rw [vgicInject, if_pos hheld] at hi
      exact .inl ⟨i, hi⟩
    · rw [vgicInject, if_neg hheld] at hi
      cases hfree : freeSlot v.ichLr with
      | none =>
        rw [hfree] at hi
        exact .inl ⟨i, hi⟩
      | some m =>
        rw [hfree] at hi
        by_cases him : i = m
        · subst him
          have hslot : Function.update v.ichLr i (pendingLr k) i = pendingLr k :=
            Function.update_self ..
          have hk : k = j := lrHolds_pendingLr.mp (hslot ▸ lrHolds_of_runLrs hi)
          subst hk
          refine .inr ⟨rfl, hheld, i, rfl, ?_⟩
          rw [← runLrs_slot_congr steps hslot]
          exact hi
        · refine .inl ⟨i, ?_⟩
          rw [← runLrs_slot_congr steps (Function.update_of_ne him (pendingLr k) v.ichLr)]
          exact hi
  · rintro (⟨i, hi⟩ | ⟨rfl, hno, i, hfree, hi⟩)
    · have hstate : lrState (v.ichLr i) ≠ 0 := by
        have hnum := (lrHolds_iff.mp (lrHolds_of_runLrs hi)).1
        rwa [ne_eq, lrState_eq_iff]
      exact ⟨i, by rwa [runLrs_slot_congr steps (vgicInject_ichLr hstate)]⟩
    · have hnone : ¬ ∃ i, lrHolds k (v.ichLr i) = true := hno
      have hslot : (vgicInject k v).ichLr i = pendingLr k := by
        simp only [vgicInject, if_neg hnone, hfree, Function.update_self]
      have hrun : runLrs steps (vgicInject k v).ichLr i = runLrs steps (fun _ => pendingLr k) i :=
        runLrs_slot_congr steps hslot
      exact ⟨i, hrun ▸ hi⟩

/-- `vgic_inject` adds its interrupt, if it is not there yet and a slot is free,
and nothing else. -/
theorem lrsHold_inject_iff {j k : U32} {v : Vcpu} : LrsHold j (vgicInject k v).ichLr ↔
    LrsHold j v.ichLr ∨ (k = j ∧ freeSlot v.ichLr ≠ none) := by
  rw [show LrsHold j (vgicInject k v).ichLr ↔ _ from lrsHold_runLrs_inject []]
  constructor
  · rintro (h | ⟨hk, -, i, hi, -⟩)
    · exact .inl h
    · exact .inr ⟨hk, by simp [hi]⟩
  · rintro (h | ⟨hk, hfree⟩)
    · exact .inl h
    · by_cases hheld : LrsHold j v.ichLr
      · exact .inl hheld
      · obtain ⟨i, hi⟩ := Option.ne_none_iff_exists'.mp hfree
        exact .inr ⟨hk, hheld, i, hi, lrHolds_pendingLr.mpr rfl⟩

/-! ## 4. Handlers that leave them alone -/

@[simp] theorem setX_ichLr (v : Vcpu) (r : Nat) (val : U64) : (v.setX r val).ichLr = v.ichLr := by
  unfold Vcpu.setX
  split_ifs <;> rfl

@[simp] theorem skip_ichLr (v : Vcpu) : v.skip.ichLr = v.ichLr := rfl

section Handlers

variable {c d : Fin 2} {h : Hv}

theorem setVcpu_ichLr {v : Vcpu} (hv : v.ichLr = (h.vcpus c).ichLr) :
    ((h.setVcpu c v).vcpus d).ichLr = (h.vcpus d).ichLr := by
  by_cases hd : d = c
  · rw [hd, setVcpu_vcpus_self, hv]
  · rw [setVcpu_vcpus_of_ne _ hd]

theorem psciHandle_ichLr : ((psciHandle c h).vcpus d).ichLr = (h.vcpus d).ichLr := by
  simp only [psciHandle]
  split_ifs
  · exact setVcpu_ichLr (setX_ichLr _ _ _)
  · exact setVcpu_ichLr rfl
  · exact setVcpu_ichLr (setX_ichLr (h.vcpus c) 0 0)
  · exact setVcpu_ichLr (setX_ichLr _ _ _)

end Handlers

end FermiHV
