import Mathlib

/-!
# Traces of accesses to registers kept in cells

Several agents read and write registers by name. `cell` says where the register that
an agent names is kept: registers kept in one cell per agent are private, registers
kept in one cell for all are shared. A trace is `Coherent` when every read returns
what its cell holds.

The rules: `coherent_append` builds a coherent trace from pieces, `read_own_iff`
says when an agent reads back its own last write.
-/

namespace AccessTrace

universe u v w x

/-- One access: who makes it, to which register, and the value read or written. -/
structure Access (A : Type u) (R : Type v) (V : Type w) where
  who : A
  reg : R
  isWrite : Bool
  val : V
deriving DecidableEq

variable {A : Type u} {R : Type v} {V : Type w} {C : Type x} [DecidableEq C]

/-- The value of the last write that meets `P`. -/
def lastWrite (P : Access A R V → Bool) (as : List (Access A R V)) : Option V :=
  (as.reverse.find? fun a => a.isWrite && P a).map Access.val

variable (cell : A → R → C)

/-- What the cells hold after an access. -/
def Access.apply (a : Access A R V) (m : C → V) : C → V :=
  if a.isWrite then Function.update m (cell a.who a.reg) a.val else m

def replay (m : C → V) (as : List (Access A R V)) : C → V := as.foldl (fun m a => a.apply cell m) m

/-- Every read returns what its cell holds. -/
def Coherent : (C → V) → List (Access A R V) → Prop
  | _, [] => True
  | m, a :: as =>
    (a.isWrite = false → a.val = m (cell a.who a.reg)) ∧ Coherent (a.apply cell m) as

variable {cell} {m : C → V}

theorem coherent_append {as bs : List (Access A R V)} :
    Coherent cell m (as ++ bs) ↔ Coherent cell m as ∧ Coherent cell (replay cell m as) bs := by
  induction as generalizing m with
  | nil => exact (iff_of_eq (true_and _)).symm
  | cons a as ih =>
    simp only [List.cons_append, Coherent, ih, and_assoc]
    rfl

theorem replay_append (as bs : List (Access A R V)) :
    replay cell m (as ++ bs) = replay cell (replay cell m as) bs :=
  List.foldl_append

theorem lastWrite_concat (P : Access A R V → Bool) (as : List (Access A R V)) (a : Access A R V) :
    lastWrite P (as ++ [a]) =
      if (a.isWrite && P a) = true then some a.val else lastWrite P as := by
  simp only [lastWrite, List.reverse_append, List.reverse_singleton, List.singleton_append,
    List.find?_cons]
  cases a.isWrite && P a <;> rfl

/-- A cell holds the last value written to it, or what it held first. -/
theorem replay_eq_lastWrite (as : List (Access A R V)) (k : C) : replay cell m as k =
    (lastWrite (fun a => decide (cell a.who a.reg = k)) as).getD (m k) := by
  induction as using List.reverseRecOn with
  | nil => rfl
  | append_singleton as a ih =>
    rw [lastWrite_concat, replay_append]
    change a.apply cell (replay cell m as) k = _
    cases hw : a.isWrite with
    | false =>
      simp only [Access.apply, hw, Bool.false_eq_true, if_false, Bool.false_and]
      exact ih
    | true =>
      by_cases hk : cell a.who a.reg = k
      · subst hk
        simp [Access.apply, hw]
      · simp only [Access.apply, hw, if_true, Bool.true_and, hk, decide_false, Bool.false_eq_true,
          if_false]
        rw [Function.update_of_ne (Ne.symm hk), ih]

/-- A read returns the last value written to its cell. -/
theorem read_eq_lastWrite {pre post : List (Access A R V)} {a : Access A R V}
    (h : Coherent cell m (pre ++ a :: post)) (hread : a.isWrite = false) :
    a.val = (lastWrite (fun b => decide (cell b.who b.reg = cell a.who a.reg)) pre).getD
      (m (cell a.who a.reg)) := by
  rw [← replay_eq_lastWrite]
  exact (coherent_append.mp h).2.1 hread

theorem lastWrite_isSome_of_imp {P Q : Access A R V → Bool} (himp : ∀ a, P a = true → Q a = true)
    {as : List (Access A R V)} (h : (lastWrite P as).isSome = true) :
    (lastWrite Q as).isSome = true := by
  simp only [lastWrite, Option.isSome_map, List.find?_isSome, Bool.and_eq_true] at h ⊢
  obtain ⟨a, ha, hw, hP⟩ := h
  exact ⟨a, ha, hw, himp a hP⟩

/-- An agent that has written a register reads back its last write exactly when that
is also the last value written to the cell of the register. -/
theorem read_own_iff [DecidableEq A] [DecidableEq R] {pre post : List (Access A R V)}
    {a : Access A R V} {w : V} (h : Coherent cell m (pre ++ a :: post)) (hread : a.isWrite = false)
    (hown : lastWrite (fun b => decide (b.who = a.who ∧ b.reg = a.reg)) pre = some w) :
    a.val = w ↔ lastWrite (fun b => decide (cell b.who b.reg = cell a.who a.reg)) pre = some w := by
  have hsome : (lastWrite (fun b => decide (cell b.who b.reg = cell a.who a.reg)) pre).isSome
      = true := by
    refine lastWrite_isSome_of_imp (fun b hb => ?_) (by rw [hown]; rfl)
    obtain ⟨hwho, hreg⟩ := of_decide_eq_true hb
    rw [hwho, hreg, decide_eq_true_eq]
  obtain ⟨w', hw'⟩ := Option.isSome_iff_exists.mp hsome
  rw [read_eq_lastWrite h hread, hw', Option.getD_some, Option.some.injEq]

end AccessTrace
