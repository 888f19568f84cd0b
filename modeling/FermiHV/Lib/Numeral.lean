import Mathlib

/-!
# Numerals in ASCII

Positional numerals over bytes, most significant digit first, with the lower-case
letters as the digits from ten on.

* `numeral b n` is the numeral of `n` in base `b`, from Mathlib's `Nat.digits`.
* `Canonical b cs` says that `cs` is a numeral of base `b` without leading zeros,
  the numeral `0` apart.
* `readNat`, `readHex` and `readSigned` give the number that a text denotes.

`canonical_numeral`, `readNat_numeral`, `readHex_numeral`, `readSigned_numeral` and
`readSigned_minus_numeral` relate the three. Two rules for programs that print:
`numeral_of_pos` for one that collects the digits from the last to the first, and
`numeral_eq_padded` for one that goes through the positions from the first to the
last and drops the zeros in front.
-/

namespace Numeral

/-! ## 1. Digits -/

/-- The character of a digit. -/
def digitChar (d : Nat) : BitVec 8 :=
  if d < 10 then BitVec.ofNat 8 (0x30 + d) else BitVec.ofNat 8 (0x57 + d)

/-- The digit that a character stands for. -/
def digitVal (c : BitVec 8) : Option Nat :=
  if 0x30 ≤ c ∧ c ≤ 0x39 then some (c.toNat - 0x30)
  else if 0x61 ≤ c ∧ c ≤ 0x7a then some (c.toNat - 0x57)
  else none

theorem digitVal_digitChar : ∀ d < 36, digitVal (digitChar d) = some d := by
  decide

theorem digitChar_inj {d e : Nat} (hd : d < 36) (he : e < 36) (h : digitChar d = digitChar e) :
    d = e := by
  have hval : some d = some e := by
    rw [← digitVal_digitChar d hd, ← digitVal_digitChar e he, h]
  exact Option.some.inj hval

/-! ## 2. Numerals -/

/-- The numeral of `n` in base `b`. -/
def numeral (b n : Nat) : List (BitVec 8) :=
  if n = 0 then [digitChar 0] else ((Nat.digits b n).map digitChar).reverse

/-- A numeral of base `b` with no leading zero, except for `0` itself. -/
structure Canonical (b : Nat) (cs : List (BitVec 8)) : Prop where
  nonempty : cs ≠ []
  digits : ∀ c ∈ cs, ∃ d < b, c = digitChar d
  leading : cs.head? = some (digitChar 0) → cs = [digitChar 0]

theorem numeral_zero (b : Nat) : numeral b 0 = [digitChar 0] := rfl

theorem numeral_of_pos {b n : Nat} (hn : n ≠ 0) :
    numeral b n = ((Nat.digits b n).map digitChar).reverse := if_neg hn

theorem numeral_of_lt {b n : Nat} (hlt : n < b) : numeral b n = [digitChar n] := by
  by_cases hn : n = 0
  · subst hn
    exact numeral_zero b
  · rw [numeral_of_pos hn, Nat.digits_of_lt b n hn hlt]
    rfl

/-- The last digit of a numeral. -/
theorem numeral_of_le {b n : Nat} (hb : 1 < b) (hle : b ≤ n) :
    numeral b n = numeral b (n / b) ++ [digitChar (n % b)] := by
  have hn : n ≠ 0 := by omega
  have hq : n / b ≠ 0 := Nat.div_ne_zero_iff.mpr ⟨by omega, hle⟩
  rw [numeral_of_pos hn, numeral_of_pos hq, Nat.digits_def' hb (Nat.pos_of_ne_zero hn),
    List.map_cons, List.reverse_cons]

/-- The first digit of the numeral of a positive number is not zero. -/
theorem head_numeral_ne {b n : Nat} (hb : 1 < b) (hbmax : b ≤ 36) (hn : n ≠ 0) :
    (numeral b n).head? ≠ some (digitChar 0) := by
  have hne : Nat.digits b n ≠ [] := Nat.digits_ne_nil_iff_ne_zero.mpr hn
  have hlast : (Nat.digits b n).getLast hne < b :=
    Nat.digits_lt_base hb (List.getLast_mem hne)
  rw [numeral_of_pos hn, List.head?_reverse, List.getLast?_map, List.getLast?_eq_some_getLast hne,
    Option.map_some]
  intro h
  have hzero := digitChar_inj (by omega) (by omega) (Option.some.inj h)
  exact Nat.getLast_digit_ne_zero b hn hzero

theorem canonical_numeral {b : Nat} (hb : 1 < b) (hbmax : b ≤ 36) (n : Nat) :
    Canonical b (numeral b n) := by
  by_cases hn : n = 0
  · subst hn
    exact ⟨by simp [numeral_zero], by simpa [numeral_zero] using ⟨0, by omega, rfl⟩, fun _ => rfl⟩
  · refine ⟨?_, ?_, fun h => absurd h (head_numeral_ne hb hbmax hn)⟩
    · rw [numeral_of_pos hn, Ne, List.reverse_eq_nil_iff, List.map_eq_nil_iff]
      exact Nat.digits_ne_nil_iff_ne_zero.mpr hn
    · intro c hc
      rw [numeral_of_pos hn, List.mem_reverse, List.mem_map] at hc
      obtain ⟨d, hd, rfl⟩ := hc
      exact ⟨d, Nat.digits_lt_base hb hd, rfl⟩

/-! ## 3. Reading -/

/-- One more digit of base `b` behind the number `n`. -/
def readDigit (b n : Nat) (c : BitVec 8) : Option Nat :=
  (digitVal c).bind fun d => if d < b then some (b * n + d) else none

/-- The number that a text denotes in base `b`. -/
def readNat (b : Nat) (cs : List (BitVec 8)) : Option Nat :=
  if cs = [] then none else cs.foldlM (readDigit b) 0

/-- The number that a text denotes in base sixteen behind `0x`. -/
def readHex (cs : List (BitVec 8)) : Option Nat :=
  if cs.take 2 = [0x30, 0x78] then readNat 16 (cs.drop 2) else none

/-- The number that a text with an optional minus sign denotes in base `b`. -/
def readSigned (b : Nat) : List (BitVec 8) → Option Int
  | [] => none
  | c :: cs =>
    if c = 0x2d then (readNat b cs).map fun n : Nat => -(n : Int)
    else (readNat b (c :: cs)).map fun n : Nat => (n : Int)

theorem readDigit_digitChar {b d : Nat} (hbmax : b ≤ 36) (hd : d < b) (n : Nat) :
    readDigit b n (digitChar d) = some (b * n + d) := by
  rw [readDigit, digitVal_digitChar d (by omega), Option.bind_some, if_pos hd]

/-- The digits of a number from the last one on, as `Nat.ofDigits` has them. -/
theorem foldlM_readDigit {b : Nat} (hbmax : b ≤ 36) {ds : List Nat} (hds : ∀ d ∈ ds, d < b) :
    (ds.map digitChar).reverse.foldlM (readDigit b) 0 = some (Nat.ofDigits b ds) := by
  induction ds with
  | nil => rfl
  | cons d ds ih =>
    have hd : d < b := hds d List.mem_cons_self
    have htail := ih fun e he => hds e (List.mem_cons_of_mem d he)
    rw [List.map_cons, List.reverse_cons, List.foldlM_append, htail, Nat.ofDigits_cons]
    simp [readDigit_digitChar hbmax hd, Nat.add_comm]

theorem readNat_numeral {b : Nat} (hb : 1 < b) (hbmax : b ≤ 36) (n : Nat) :
    readNat b (numeral b n) = some n := by
  rw [readNat, if_neg (canonical_numeral hb hbmax n).nonempty]
  by_cases hn : n = 0
  · subst hn
    rw [numeral_zero, List.foldlM_cons, readDigit_digitChar hbmax (by omega)]
    rfl
  · rw [numeral_of_pos hn, foldlM_readDigit hbmax fun d hd => Nat.digits_lt_base hb hd,
      Nat.ofDigits_digits]

theorem readHex_numeral (n : Nat) : readHex ([0x30, 0x78] ++ numeral 16 n) = some n := by
  have hread := readNat_numeral (show 1 < 16 by decide) (by decide) n
  exact (if_pos rfl).trans hread

theorem digitChar_ne_minus : ∀ d < 36, digitChar d ≠ 0x2d := by
  decide

theorem readSigned_minus_numeral {b : Nat} (hb : 1 < b) (hbmax : b ≤ 36) (n : Nat) :
    readSigned b (0x2d :: numeral b n) = some (-(n : Int)) := by
  rw [readSigned, if_pos rfl, readNat_numeral hb hbmax, Option.map_some]

theorem readSigned_numeral {b : Nat} (hb : 1 < b) (hbmax : b ≤ 36) (n : Nat) :
    readSigned b (numeral b n) = some (n : Int) := by
  have hcan := canonical_numeral hb hbmax n
  have hread := readNat_numeral hb hbmax n
  cases htext : numeral b n with
  | nil => exact absurd htext hcan.nonempty
  | cons c cs =>
    rw [htext] at hcan hread
    obtain ⟨d, hd, rfl⟩ := hcan.digits c List.mem_cons_self
    rw [readSigned, if_neg (digitChar_ne_minus d (by omega)), hread, Option.map_some]

/-! ## 4. Position by position -/

/-- The digits of `n` at the `k` lowest positions, the zeros in front included. -/
def padded (b : Nat) : Nat → Nat → List (BitVec 8)
  | 0, _ => []
  | k + 1, n => digitChar (n / b ^ k % b) :: padded b k n

theorem padded_last (b k n : Nat) :
    padded b (k + 1) n = padded b k (n / b) ++ [digitChar (n % b)] := by
  induction k with
  | zero => simp [padded]
  | succ k ih =>
    have hdigit : n / b ^ (k + 1) = n / b / b ^ k := by
      rw [Nat.div_div_eq_div_mul, pow_succ']
    rw [padded, ih, padded, hdigit, List.cons_append]

/-- The numeral of `n` is its digits from the highest position that is not zero. -/
theorem numeral_eq_padded {b : Nat} (hb : 1 < b) {k n : Nat} (hlo : b ^ k ≤ n)
    (hhi : n < b ^ (k + 1)) : numeral b n = padded b (k + 1) n := by
  induction k generalizing n with
  | zero =>
    have hlt : n < b := by simpa using hhi
    rw [numeral_of_lt hlt, padded_last, Nat.mod_eq_of_lt hlt]
    rfl
  | succ k ih =>
    have hle : b ≤ n := (Nat.le_self_pow (Nat.succ_ne_zero k) b).trans hlo
    have hqlo : b ^ k ≤ n / b := by
      rwa [Nat.le_div_iff_mul_le (by omega), ← pow_succ]
    have hqhi : n / b < b ^ (k + 1) := by
      rwa [Nat.div_lt_iff_lt_mul (by omega), ← pow_succ]
    rw [numeral_of_le hb hle, ih hqlo hqhi, padded_last b (k + 1) n]

/-- Above the highest position there are only zeros. -/
theorem digit_eq_zero_iff {b k n : Nat} (hhi : n < b ^ (k + 1)) :
    n / b ^ k % b = 0 ↔ n < b ^ k := by
  have hb : 0 < b := Nat.pos_of_ne_zero fun h => by simp [h] at hhi
  have hq : n / b ^ k < b := by
    rwa [Nat.div_lt_iff_lt_mul (Nat.pow_pos hb), ← pow_succ']
  rw [Nat.mod_eq_of_lt hq, Nat.div_eq_zero_iff_lt (Nat.pow_pos hb)]

end Numeral
