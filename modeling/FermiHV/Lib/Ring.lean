import Mathlib

/-!
# Rings with free-running cursors

A ring of `n` slots in which entry `j` of an unbounded sequence lives in slot
`j % n`, and `w`-bit cursors that count entries modulo `2 ^ w`.
-/

namespace Ring

variable {α : Type*} {n w : Nat}

/-- The slots hold the entries `lo`, ..., `hi - 1` of `xs`. -/
def Holds (n : Nat) (slot : Nat → α) (xs : List α) (lo hi : Nat) : Prop :=
  ∀ j, lo ≤ j → j < hi → xs[j]? = some (slot (j % n))

/-- Two entries of one window of `n` do not share a slot. -/
theorem eq_of_mod_eq {i j : Nat} (hij : i ≤ j) (hj : j < i + n) (h : i % n = j % n) : i = j := by
  have hdvd : n ∣ j - i := (Nat.modEq_iff_dvd' hij).mp h
  have hzero : j - i = 0 := Nat.eq_zero_of_dvd_of_lt hdvd (by omega)
  omega

/-- Appending an entry: the window of the last `n` entries moves on by one. -/
theorem holds_push {slot slot' : Nat → α} {xs : List α} {x : α} {c : Nat} (hc : xs.length = c)
    (h : Holds n slot xs (c - n) c) (hself : slot' (c % n) = x)
    (hother : ∀ i < n, i ≠ c % n → slot' i = slot i) :
    Holds n slot' (xs ++ [x]) (c + 1 - n) (c + 1) := by
  subst hc
  intro j hlo hhi
  by_cases hj : j = xs.length
  · subst hj
    rw [hself, List.getElem?_append_right (Nat.le_refl _), Nat.sub_self]
    rfl
  · have hlt : j < xs.length := by omega
    have hslot : j % n ≠ xs.length % n := by
      intro he
      exact hj (eq_of_mod_eq (by omega) (by omega) he)
    have hpos : 0 < n := by omega
    rw [List.getElem?_append_left hlt, hother _ (Nat.mod_lt _ hpos) hslot]
    exact h j (by omega) hlt

/-- A cursor selects the slot of the entry it stands for, also after it wrapped. -/
theorem cursor_mod (hdvd : n ∣ 2 ^ w) (j : Nat) : (BitVec.ofNat w j).toNat % n = j % n := by
  rw [BitVec.toNat_ofNat, Nat.mod_mod_of_dvd j hdvd]

/-- The distance of two cursors is that of their entries. -/
theorem cursor_sub {c p : Nat} (hle : c ≤ p) (h : p - c < 2 ^ w) :
    (BitVec.ofNat w p - BitVec.ofNat w c).toNat = p - c := by
  have hsplit : BitVec.ofNat w p = BitVec.ofNat w (p - c) + BitVec.ofNat w c := by
    rw [← BitVec.ofNat_add, Nat.sub_add_cancel hle]
  rw [hsplit, BitVec.add_sub_cancel, BitVec.toNat_ofNat, Nat.mod_eq_of_lt h]

end Ring
