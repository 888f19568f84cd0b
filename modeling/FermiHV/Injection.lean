import FermiHV.ListRegs

/-!
# No interrupt in two list registers

Two list registers that hold the same INTID make the virtual CPU interface
unpredictable. `vgic_inject` avoids it by one scan over the slots, which returns
at a slot in use that holds the INTID and remembers the first idle slot; idle
slots keep the INTID they held last. The guest changes the state of slots in use
at any time in between.

1. `vgicInjectLoop_eq`: the scan of the source is `vgicInject`.
2. `inject_law`: what an injection does to the list registers.
3. `list_register_invariant`: in every run from `vcpu_init`, no interrupt is in
   two slots in use.
-/

namespace FermiHV

/-! ## 1. The scan -/

/-- A vCPU with a list register replaced. -/
def Vcpu.setLr (v : Vcpu) (i : Fin 4) (lr : U64) : Vcpu :=
  { v with ichLr := Function.update v.ichLr i lr }

theorem setLr_self (v : Vcpu) (i : Fin 4) (lr : U64) : (v.setLr i lr).ichLr i = lr :=
  Function.update_self ..

theorem setLr_of_ne (v : Vcpu) {i j : Fin 4} (h : j ≠ i) (lr : U64) :
    (v.setLr i lr).ichLr j = v.ichLr j :=
  Function.update_of_ne h ..

/-- The loop of `vgic_inject`: `none` for the early return, or the value of
`free_slot` after the loop (`none` for `-1`). -/
def injectScan (vintid : U32) (lrs : Lrs) :
    List (Fin 4) → Option (Fin 4) → Option (Option (Fin 4))
  | [], free => some free
  | i :: is, free =>
    if lrHolds vintid (lrs i) then none
    else injectScan vintid lrs is (if lrState (lrs i) = 0 ∧ free = none then some i else free)

/-- `vgic_inject` as the source has it. -/
def vgicInjectLoop (vintid : U32) (v : Vcpu) : Vcpu :=
  match injectScan vintid v.ichLr (List.finRange 4) none with
  | some (some i) => v.setLr i (pendingLr vintid)
  | some none => v
  | none => v

/-- The scan finds a slot that holds the interrupt, or ends with the first idle
slot unless it had one before. -/
theorem injectScan_eq (k : U32) (lrs : Lrs) (is : List (Fin 4)) (free : Option (Fin 4)) :
    injectScan k lrs is free =
      if ∃ i ∈ is, lrHolds k (lrs i) = true then none
      else some (free.or (is.find? fun i => lrState (lrs i) = 0)) := by
  induction is generalizing free with
  | nil => cases free <;> simp [injectScan]
  | cons i is ih =>
    rw [injectScan]
    by_cases hheld : lrHolds k (lrs i) = true
    · -- the source returns here, whatever idle slot it has seen
      rw [if_pos hheld, if_pos ⟨i, by simp, hheld⟩]
    · rw [if_neg hheld, ih]
      have hex : (∃ j ∈ i :: is, lrHolds k (lrs j) = true) ↔
          ∃ j ∈ is, lrHolds k (lrs j) = true := by
        simp [hheld]
      simp only [hex, List.find?_cons]
      by_cases hidle : lrState (lrs i) = 0
      · cases free <;> simp [hidle]
      · simp only [hidle, decide_false, false_and, if_false]

theorem vgicInjectLoop_eq (k : U32) (v : Vcpu) : vgicInjectLoop k v = vgicInject k v := by
  have hex : (∃ i ∈ List.finRange 4, lrHolds k (v.ichLr i) = true) ↔
      ∃ i, lrHolds k (v.ichLr i) = true := by
    simp
  rw [vgicInjectLoop, vgicInject, injectScan_eq]
  simp only [hex, Option.none_or]
  by_cases hheld : ∃ i, lrHolds k (v.ichLr i) = true
  · rw [if_pos hheld, if_pos hheld]
  · rw [if_neg hheld, if_neg hheld, ← freeSlot]
    cases freeSlot v.ichLr <;> rfl

/-! ## 2. One injection -/

/-- What an injection of `k` that takes `v` to `v'` does to the list registers. -/
structure InjectLaw (k : U32) (v v' : Vcpu) : Prop where
  /-- A slot in use is not modified. -/
  inUse : ∀ i, lrState (v.ichLr i) ≠ 0 → v'.ichLr i = v.ichLr i
  /-- At most one slot changes. -/
  atMostOne : ∀ i j, v'.ichLr i ≠ v.ichLr i → v'.ichLr j ≠ v.ichLr j → i = j
  /-- If no slot in use holds `k` and one is idle, `k` becomes pending, in exactly
  one slot. -/
  pends : (∀ i, lrHolds k (v.ichLr i) = false) → (∃ i, lrState (v.ichLr i) = 0) →
    ∃ i, lrState (v'.ichLr i) = 1 ∧ lrIntid k (v'.ichLr i) = true ∧
      ∀ j, lrHolds k (v'.ichLr j) = true → j = i
  /-- Otherwise nothing changes. -/
  otherwise : (∃ i, lrHolds k (v.ichLr i) = true) ∨ (∀ i, lrState (v.ichLr i) ≠ 0) → v' = v
  /-- Nothing but the list registers changes in any case. -/
  frame : v' = { v with ichLr := v'.ichLr }

theorem freeSlot_eq_none_iff {lrs : Lrs} : freeSlot lrs = none ↔ ∀ i, lrState (lrs i) ≠ 0 := by
  simp [freeSlot]

/-- An injection changes nothing, or puts the interrupt into an idle slot when
no slot in use holds it. -/
theorem vgicInject_cases (k : U32) (v : Vcpu) :
    (vgicInject k v = v ∧
      ((∃ i, lrHolds k (v.ichLr i) = true) ∨ ∀ i, lrState (v.ichLr i) ≠ 0)) ∨
    ∃ i, (∀ j, lrHolds k (v.ichLr j) = false) ∧ lrState (v.ichLr i) = 0 ∧
      vgicInject k v = v.setLr i (pendingLr k) := by
  by_cases hheld : ∃ i, lrHolds k (v.ichLr i) = true
  · exact .inl ⟨if_pos hheld, .inl hheld⟩
  · cases hfree : freeSlot v.ichLr with
    | none =>
      refine .inl ⟨?_, .inr (freeSlot_eq_none_iff.mp hfree)⟩
      rw [vgicInject, if_neg hheld, hfree]
    | some i =>
      refine .inr ⟨i, fun j => ?_, lrState_of_freeSlot hfree, ?_⟩
      · exact Bool.eq_false_iff.mpr fun hj => hheld ⟨j, hj⟩
      · rw [vgicInject, if_neg hheld, hfree]
        rfl

theorem lrState_ne_zero_of_holds {k : U32} {lr : U64} (h : lrHolds k lr = true) :
    lrState lr ≠ 0 := by
  rw [ne_eq, lrState_eq_iff]
  exact (lrHolds_iff.mp h).1

theorem lrState_pendingLr (k : U32) : lrState (pendingLr k) = 1 := by
  have hk := k.isLt
  rw [lrState_eq_iff, toNat_pendingLr]
  change _ = 1
  omega

theorem inject_law (k : U32) (v : Vcpu) : InjectLaw k v (vgicInjectLoop k v) := by
  rw [vgicInjectLoop_eq]
  rcases vgicInject_cases k v with ⟨hsame, hwhy⟩ | ⟨i, hnone, hidle, hnew⟩
  · rw [hsame]
    refine ⟨fun i _ => rfl, fun i j hi _ => absurd rfl hi, ?_, fun _ => rfl, rfl⟩
    intro hnone ⟨i, hidle⟩
    rcases hwhy with ⟨j, hj⟩ | hbusy
    · rw [hnone j] at hj
      cases hj
    · exact absurd hidle (hbusy i)
  · rw [hnew]
    have hchanged : ∀ j, (v.setLr i (pendingLr k)).ichLr j ≠ v.ichLr j → j = i := fun j hj =>
      by_contra fun hne => hj (setLr_of_ne v hne _)
    refine ⟨fun j hj => setLr_of_ne v ?_ _,
      fun j j' hj hj' => (hchanged j hj).trans (hchanged j' hj').symm,
      fun _ _ => ⟨i, ?_, ?_, ?_⟩, ?_, rfl⟩
    · rintro rfl
      exact hj hidle
    · rw [setLr_self, lrState_pendingLr]
    · have hpend := lrPends_pendingLr k
      rw [lrPends, Bool.and_eq_true] at hpend
      rw [setLr_self, hpend.2]
    · intro j hj
      by_contra hne
      rw [setLr_of_ne v hne, hnone j] at hj
      cases hj
    · rintro (⟨j, hj⟩ | hbusy)
      · rw [hnone j] at hj
        cases hj
      · exact absurd hidle (hbusy i)

/-! ## 3. Runs -/

/-- A step: an injection, or a step of the guest's CPU interface, which gives a
slot in use another state. -/
inductive LrOp where
  | inject (k : U32)
  | guest (i : Fin 4) (st : Fin 4)

def LrOp.apply (v : Vcpu) : LrOp → Vcpu
  | .inject k => vgicInjectLoop k v
  | .guest i st =>
    if lrState (v.ichLr i) = 0 then v
    else v.setLr i (lrSetState (BitVec.ofNat 64 st.val) (v.ichLr i))

/-- No interrupt is in two slots in use. -/
def NoDuplicate (lrs : Lrs) : Prop :=
  ∀ k i j, lrHolds k (lrs i) = true → lrHolds k (lrs j) = true → i = j

theorem noDuplicate_init (entry sp vttbr : U64) (id : Nat) :
    NoDuplicate (vcpuInit entry sp vttbr id).ichLr := by
  intro k i j hi
  have hidle : lrState ((vcpuInit entry sp vttbr id).ichLr i) = 0 := by
    change lrState 0 = 0
    decide
  exact absurd hidle (lrState_ne_zero_of_holds hi)

theorem noDuplicate_inject {v : Vcpu} (h : NoDuplicate v.ichLr) (k : U32) :
    NoDuplicate (vgicInject k v).ichLr := by
  rcases vgicInject_cases k v with ⟨hsame, -⟩ | ⟨i, hnone, -, hnew⟩
  · rwa [hsame]
  · have hholds : ∀ k' j, lrHolds k' ((vgicInject k v).ichLr j) = true →
        (j = i ∧ k' = k) ∨ (j ≠ i ∧ lrHolds k' (v.ichLr j) = true) := by
      intro k' j hj
      rw [hnew] at hj
      by_cases hji : j = i
      · subst hji
        rw [setLr_self, lrHolds_pendingLr] at hj
        exact .inl ⟨rfl, hj.symm⟩
      · rw [setLr_of_ne v hji] at hj
        exact .inr ⟨hji, hj⟩
    intro k' j j' hj hj'
    -- the new slot holds only `k`, which no other slot held
    rcases hholds k' j hj with ⟨rfl, rfl⟩ | ⟨hne, hold⟩
    · rcases hholds k' j' hj' with ⟨rfl, -⟩ | ⟨-, hold'⟩
      · rfl
      · rw [hnone j'] at hold'
        cases hold'
    · rcases hholds k' j' hj' with ⟨rfl, rfl⟩ | ⟨-, hold'⟩
      · rw [hnone j] at hold
        cases hold
      · exact h k' j j' hold hold'

/-- A step of the guest adds no interrupt to a slot. -/
theorem lrHolds_of_guest {v : Vcpu} {i : Fin 4} {st : Fin 4} {k : U32} {j : Fin 4}
    (h : lrHolds k ((LrOp.apply v (.guest i st)).ichLr j) = true) :
    lrHolds k (v.ichLr j) = true := by
  rw [LrOp.apply] at h
  split_ifs at h with hidle
  · exact h
  · by_cases hji : j = i
    · subst hji
      have hst : (BitVec.ofNat 64 st.val).toNat < 4 := by
        rw [BitVec.toNat_ofNat]
        omega
      -- the low 32 bits survive, and the slot was in use before the step
      rw [setLr_self, lrHolds_iff, toNat_lrSetState hst] at h
      rw [lrState_eq_iff] at hidle
      exact lrHolds_iff.mpr ⟨hidle, by omega⟩
    · rwa [setLr_of_ne v hji] at h

theorem noDuplicate_apply {v : Vcpu} (h : NoDuplicate v.ichLr) (op : LrOp) :
    NoDuplicate (op.apply v).ichLr := by
  cases op with
  | inject k =>
    rw [LrOp.apply, vgicInjectLoop_eq]
    exact noDuplicate_inject h k
  | guest i st => exact fun k j j' hj hj' => h k j j' (lrHolds_of_guest hj) (lrHolds_of_guest hj')

theorem noDuplicate_run {v : Vcpu} (h : NoDuplicate v.ichLr) (ops : List LrOp) :
    NoDuplicate (ops.foldl LrOp.apply v).ichLr := by
  induction ops generalizing v with
  | nil => exact h
  | cons op ops ih => exact ih (noDuplicate_apply h op)

/-- In every run from `vcpu_init` no interrupt is in two slots in use, and each
further injection keeps to its law. -/
theorem list_register_invariant (entry sp vttbr : U64) (id : Nat) (ops : List LrOp) :
    NoDuplicate (ops.foldl LrOp.apply (vcpuInit entry sp vttbr id)).ichLr ∧
      ∀ k, InjectLaw k (ops.foldl LrOp.apply (vcpuInit entry sp vttbr id))
        (vgicInjectLoop k (ops.foldl LrOp.apply (vcpuInit entry sp vttbr id))) :=
  ⟨noDuplicate_run (noDuplicate_init entry sp vttbr id) ops, fun k => inject_law k _⟩

end FermiHV
