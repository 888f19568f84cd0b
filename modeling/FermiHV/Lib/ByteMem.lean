import Mathlib

/-!
# Byte-addressed memory with little-endian accesses

A memory maps every address of a `w`-bit address space to a byte. `load` and
`store` are accesses of `n` bytes, least significant byte first, with addresses
taken modulo `2 ^ w` as the hardware does. The lemmas say what a store leaves
unchanged and what a load after a store returns.
-/

namespace ByteMem

/-- Memory of a `w`-bit address space. -/
abbrev Mem (w : Nat) := BitVec w → BitVec 8

variable {w : Nat}

/-- The value of the `n` bytes at `a`, least significant byte first. -/
def load (m : Mem w) (a : BitVec w) : Nat → Nat
  | 0 => 0
  | n + 1 => (m a).toNat + 256 * load m (a + 1) n

/-- The byte at `x` lies in the `n` bytes that start at `a`. -/
def Covers (a : BitVec w) (n : Nat) (x : BitVec w) : Prop := (x - a).toNat < n

instance (a : BitVec w) (n : Nat) (x : BitVec w) : Decidable (Covers a n x) :=
  inferInstanceAs (Decidable ((x - a).toNat < n))

/-- Store the low `n` bytes of `v` at `a`. -/
def store (m : Mem w) (a : BitVec w) (n v : Nat) : Mem w := fun x =>
  if Covers a n x then BitVec.ofNat 8 (v / 256 ^ (x - a).toNat) else m x

/-- No byte is common to the `n` bytes at `a` and the `k` bytes at `b`. -/
def Sep (a : BitVec w) (n : Nat) (b : BitVec w) (k : Nat) : Prop :=
  ∀ x, Covers a n x → ¬ Covers b k x

/-- Without wrap-around a range of bytes is an interval of addresses. -/
theorem covers_iff {a x : BitVec w} {n : Nat} (h : a.toNat + n ≤ 2 ^ w) :
    Covers a n x ↔ a.toNat ≤ x.toNat ∧ x.toNat < a.toNat + n := by
  unfold Covers
  have hx := x.isLt
  by_cases hle : a ≤ x
  · have hle' : a.toNat ≤ x.toNat := hle
    rw [BitVec.toNat_sub_of_le hle]
    omega
  · have hlt : x.toNat < a.toNat := by
      have := BitVec.not_le.mp hle
      exact this
    rw [BitVec.toNat_sub_of_lt (BitVec.not_le.mp hle)]
    omega

theorem covers_ofNat (a : BitVec w) {n i : Nat} (hi : i < n) (hn : n ≤ 2 ^ w) :
    Covers a n (a + BitVec.ofNat w i) := by
  unfold Covers
  rw [BitVec.add_comm, BitVec.add_sub_cancel, BitVec.toNat_ofNat, Nat.mod_eq_of_lt (by omega)]
  exact hi

/-- How far a byte is from the start of a range, measured from inside it. -/
theorem toNat_sub_of_covers {a x : BitVec w} {o k : Nat} (h : Covers (a + BitVec.ofNat w o) k x)
    (hk : o + k ≤ 2 ^ w) : (x - a).toNat = (x - (a + BitVec.ofNat w o)).toNat + o := by
  have hsplit : x - a = (x - (a + BitVec.ofNat w o)) + BitVec.ofNat w o := by
    simp only [BitVec.sub_eq_add_neg, BitVec.neg_add]
    ring
  rw [Covers] at h
  rw [hsplit, BitVec.toNat_add, BitVec.toNat_ofNat, Nat.add_mod_mod, Nat.mod_eq_of_lt (by omega)]

/-- A part of a range lies in the range. -/
theorem covers_of_offset {a x : BitVec w} {o k n : Nat} (ho : o + k ≤ n) (hn : n ≤ 2 ^ w)
    (h : Covers (a + BitVec.ofNat w o) k x) : Covers a n x := by
  have hdist := toNat_sub_of_covers h (by omega)
  rw [Covers] at h ⊢
  omega

theorem covers_one {a x : BitVec w} (h : Covers a 1 x) : x = a := by
  have hz : x - a = 0#w := by
    refine BitVec.eq_of_toNat_eq ?_
    rw [Covers] at h
    simp only [BitVec.toNat_ofNat, Nat.zero_mod]
    omega
  calc x = x - a + a := (BitVec.sub_add_cancel x a).symm
    _ = a := by rw [hz, BitVec.zero_add]

/-- Every byte of a range is its start plus an offset below the length. -/
theorem eq_add_of_covers {a x : BitVec w} {n : Nat} (h : Covers a n x) :
    ∃ i, i < n ∧ x = a + BitVec.ofNat w i := by
  refine ⟨(x - a).toNat, h, ?_⟩
  rw [BitVec.ofNat_toNat, BitVec.setWidth_eq, BitVec.add_comm, BitVec.sub_add_cancel]

theorem store_of_not_covers {m : Mem w} {a x : BitVec w} {n v : Nat} (h : ¬ Covers a n x) :
    store m a n v x = m x := by
  simp only [store, h, if_false]

theorem add_one_add_ofNat (a : BitVec w) (i : Nat) :
    a + 1 + BitVec.ofNat w i = a + BitVec.ofNat w (i + 1) := by
  rw [Nat.add_comm i 1, BitVec.ofNat_add, BitVec.add_assoc]
  rfl

theorem load_congr {m m' : Mem w} {a : BitVec w} {n : Nat}
    (h : ∀ i < n, m' (a + BitVec.ofNat w i) = m (a + BitVec.ofNat w i)) :
    load m' a n = load m a n := by
  induction n generalizing a with
  | zero => rfl
  | succ n ih =>
    have hhead := h 0 (by omega)
    simp only [BitVec.add_zero] at hhead
    have htail : load m' (a + 1) n = load m (a + 1) n := by
      refine ih fun i hi => ?_
      rw [add_one_add_ofNat]
      exact h (i + 1) (by omega)
    simp only [load, hhead, htail]

/-- A load of bytes that spell `v` returns `v`. -/
theorem load_of_bytes {m : Mem w} {a : BitVec w} {n v : Nat}
    (h : ∀ i < n, (m (a + BitVec.ofNat w i)).toNat = v / 256 ^ i % 256) :
    load m a n = v % 256 ^ n := by
  induction n generalizing a v with
  | zero => simp [load, Nat.mod_one]
  | succ n ih =>
    have hhead := h 0 (by omega)
    simp only [BitVec.add_zero, Nat.pow_zero, Nat.div_one] at hhead
    have htail : load m (a + 1) n = v / 256 % 256 ^ n := by
      refine ih fun i hi => ?_
      rw [add_one_add_ofNat, h (i + 1) (by omega), Nat.pow_succ', Nat.div_div_eq_div_mul]
    rw [load, hhead, htail, Nat.pow_succ', Nat.mod_mul]

theorem load_store_self (m : Mem w) (a : BitVec w) {n : Nat} (v : Nat) (hn : n ≤ 2 ^ w) :
    load (store m a n v) a n = v % 256 ^ n := by
  refine load_of_bytes fun i hi => ?_
  have hoff : (a + BitVec.ofNat w i - a).toNat = i := by
    rw [BitVec.add_comm, BitVec.add_sub_cancel, BitVec.toNat_ofNat, Nat.mod_eq_of_lt (by omega)]
  have hcov : Covers a n (a + BitVec.ofNat w i) := covers_ofNat a hi hn
  simp only [store, hcov, if_true, hoff, BitVec.toNat_ofNat]

/-- A load of some of the bytes of a store. -/
theorem load_store_part (m : Mem w) (a : BitVec w) {n o k : Nat} (v : Nat) (ho : o + k ≤ n)
    (hn : n ≤ 2 ^ w) :
    load (store m a n v) (a + BitVec.ofNat w o) k = v / 256 ^ o % 256 ^ k := by
  refine load_of_bytes fun i hi => ?_
  have haddr : a + BitVec.ofNat w o + BitVec.ofNat w i = a + BitVec.ofNat w (o + i) := by
    rw [BitVec.add_assoc, ← BitVec.ofNat_add]
  have hoff : (a + BitVec.ofNat w (o + i) - a).toNat = o + i := by
    rw [BitVec.add_comm, BitVec.add_sub_cancel, BitVec.toNat_ofNat, Nat.mod_eq_of_lt (by omega)]
  have hcov : Covers a n (a + BitVec.ofNat w (o + i)) := covers_ofNat a (by omega) hn
  rw [haddr, store, if_pos hcov, hoff, BitVec.toNat_ofNat, Nat.pow_add, Nat.div_div_eq_div_mul]

/-- A store outside the loaded bytes does not change a load. -/
theorem load_store_sep {m : Mem w} {a b : BitVec w} {n k v : Nat} (hn : n ≤ 2 ^ w)
    (h : Sep a n b k) : load (store m b k v) a n = load m a n :=
  load_congr fun _ hi => store_of_not_covers (h _ (covers_ofNat a hi hn))

theorem sep_comm {a b : BitVec w} {n k : Nat} (h : Sep a n b k) : Sep b k a n :=
  fun x hb ha => h x ha hb

/-- Ranges that do not wrap are separate when one ends before the other starts. -/
theorem sep_of_le {a b : BitVec w} {n k : Nat} (ha : a.toNat + n ≤ 2 ^ w)
    (hb : b.toNat + k ≤ 2 ^ w) (h : a.toNat + n ≤ b.toNat ∨ b.toNat + k ≤ a.toNat) :
    Sep a n b k := by
  intro x hxa hxb
  rw [covers_iff ha] at hxa
  rw [covers_iff hb] at hxb
  omega

/-- Parts of a range that do not overlap. -/
theorem sep_of_offset {a : BitVec w} {o k o' k' : Nat} (h : o + k ≤ o' ∨ o' + k' ≤ o)
    (hk : o + k ≤ 2 ^ w) (hk' : o' + k' ≤ 2 ^ w) :
    Sep (a + BitVec.ofNat w o) k (a + BitVec.ofNat w o') k' := by
  intro x hx hx'
  have hdist := toNat_sub_of_covers hx hk
  have hdist' := toNat_sub_of_covers hx' hk'
  rw [Covers] at hx hx'
  omega

theorem store_one (m : Mem w) (a : BitVec w) (b : BitVec 8) :
    store m a 1 b.toNat = Function.update m a b := by
  funext x
  by_cases hx : x = a
  · subst hx
    simp [store, Covers]
  · rw [Function.update_of_ne hx]
    exact store_of_not_covers fun hc => hx (covers_one hc)

theorem store_zero (m : Mem w) (a : BitVec w) (v : Nat) : store m a 0 v = m := by
  funext x
  exact store_of_not_covers (Nat.not_lt_zero _)

/-- A store byte by byte. -/
theorem store_succ (m : Mem w) (a : BitVec w) {n : Nat} (v : Nat) (hn : n < 2 ^ w) :
    store m a (n + 1) v = Function.update (store m a n v) (a + BitVec.ofNat w n)
      (BitVec.ofNat 8 (v / 256 ^ n)) := by
  have hoff : (a + BitVec.ofNat w n - a).toNat = n := by
    rw [BitVec.add_comm, BitVec.add_sub_cancel, BitVec.toNat_ofNat, Nat.mod_eq_of_lt hn]
  funext x
  by_cases hx : x = a + BitVec.ofNat w n
  · subst hx
    rw [Function.update_self, store, if_pos (by rw [Covers, hoff]; omega), hoff]
  · have hne : (x - a).toNat ≠ n := by
      intro he
      refine hx ?_
      rw [← he, BitVec.ofNat_toNat, BitVec.setWidth_eq, BitVec.add_comm, BitVec.sub_add_cancel]
    have hcov : Covers a (n + 1) x ↔ Covers a n x := by
      rw [Covers, Covers]
      omega
    rw [Function.update_of_ne hx, store, store]
    simp only [hcov]

/-- The byte that a one-byte load returns. -/
theorem load_one (m : Mem w) (a : BitVec w) : BitVec.ofNat 8 (load m a 1) = m a := by
  simp [load]

/-! ### Copies between memories -/

/-- `dst` after `n` bytes of `src` from `b` on are copied to `a`. -/
def copy (dst src : Mem w) (a b : BitVec w) (n : Nat) : Mem w := fun x =>
  if Covers a n x then src (b + (x - a)) else dst x

@[simp] theorem copy_zero (dst src : Mem w) (a b : BitVec w) : copy dst src a b 0 = dst := by
  funext x
  simp [copy, Covers]

theorem copy_of_not_covers {dst src : Mem w} {a b x : BitVec w} {n : Nat}
    (h : ¬ Covers a n x) : copy dst src a b n x = dst x := by
  simp only [copy, h, if_false]

/-- A copy grows by one byte when that byte is stored behind it. -/
theorem store_copy (dst src : Mem w) (a b : BitVec w) {n : Nat} (hn : n < 2 ^ w) :
    store (copy dst src a b n) (a + BitVec.ofNat w n) 1 (src (b + BitVec.ofNat w n)).toNat
      = copy dst src a b (n + 1) := by
  have hoff : (BitVec.ofNat w n).toNat = n := by
    rw [BitVec.toNat_ofNat, Nat.mod_eq_of_lt hn]
  funext x
  by_cases hx : x = a + BitVec.ofNat w n
  · have hd : x - a = BitVec.ofNat w n := by
      rw [hx, BitVec.add_comm, BitVec.add_sub_cancel]
    have hlast : Covers (a + BitVec.ofNat w n) 1 x := by
      rw [Covers, hx, BitVec.sub_self]
      simp
    have hcov : Covers a (n + 1) x := by
      rw [Covers, hd, hoff]
      omega
    simp only [store, copy, hlast, hcov, if_true, hd]
    rw [hx, BitVec.sub_self]
    simp
  · have hne : (x - a).toNat ≠ n := by
      intro he
      refine hx ?_
      rw [← he, BitVec.ofNat_toNat, BitVec.setWidth_eq, BitVec.add_comm, BitVec.sub_add_cancel]
    have hlast : ¬ Covers (a + BitVec.ofNat w n) 1 x := fun hc => hx (covers_one hc)
    have hiff : Covers a (n + 1) x ↔ Covers a n x := by
      simp only [Covers]
      omega
    rw [store_of_not_covers hlast]
    simp only [copy, hiff]

/-- A load of bytes that have been copied. -/
theorem load_copy {dst src : Mem w} {a b x : BitVec w} {n k : Nat}
    (h : ∀ i < n, Covers a k (x + BitVec.ofNat w i)) :
    load (copy dst src a b k) x n = load src (b + (x - a)) n := by
  induction n generalizing x with
  | zero => rfl
  | succ n ih =>
    have hhead := h 0 (by omega)
    rw [BitVec.add_zero] at hhead
    have htail : load (copy dst src a b k) (x + 1) n = load src (b + (x + 1 - a)) n := by
      refine ih fun i hi => ?_
      rw [add_one_add_ofNat]
      exact h (i + 1) (by omega)
    have hnext : b + (x + 1 - a) = b + (x - a) + 1 := by
      simp only [BitVec.sub_eq_add_neg]
      ring
    simp only [load, htail, hnext, copy, if_pos hhead]

/-! ### Memories that agree on a region -/

/-- The two memories have the same bytes at the addresses of `P`. -/
def AgreeOn (P : BitVec w → Prop) (m m' : Mem w) : Prop := ∀ x, P x → m x = m' x

namespace AgreeOn

variable {P : BitVec w → Prop} {m m' : Mem w} {a b : BitVec w} {n : Nat}

theorem load (h : AgreeOn P m m') (ha : ∀ i < n, P (a + BitVec.ofNat w i)) :
    load m a n = load m' a n :=
  load_congr fun i hi => h _ (ha i hi)

theorem store (h : AgreeOn P m m') (a : BitVec w) (n v : Nat) :
    AgreeOn P (store m a n v) (store m' a n v) := by
  intro x hx
  simp only [ByteMem.store, h x hx]

/-- Equal bytes are copied to equal places. -/
theorem copy {src src' : Mem w} (h : AgreeOn P m m')
    (hsrc : ∀ i < n, src (b + BitVec.ofNat w i) = src' (b + BitVec.ofNat w i)) :
    AgreeOn P (copy m src a b n) (copy m' src' a b n) := by
  intro x hx
  simp only [ByteMem.copy]
  split_ifs with hcov
  · have hbyte := hsrc (x - a).toNat hcov
    rwa [BitVec.ofNat_toNat, BitVec.setWidth_eq] at hbyte
  · exact h x hx

end AgreeOn

end ByteMem
