import FermiHV.Lib.Ring
import FermiHV.Virtio.Process

/-!
# The areas of a split virtqueue

A queue has three areas in guest memory: the descriptor table at `base`, the avail
ring behind it, and the used ring on the next page. `QueueLayout` says that the
used ring overlaps neither of the others. A driver that sets up a queue without
address wrap-around guarantees it (`QueueOk.layout`).

A pass writes the queue only in the used ring (`pushed_of_not_used`), so what the
device reads from the descriptor table and the avail ring is stable over the
passes of a notify. `ringEntry` and `tableEntry` are the avail ring and the
descriptor table as the driver lays them out; the code's reads come to the same
(`availEntry_eq`, `descAddr_eq`, `descLen_eq`, `descNext_eq`).
-/

namespace FermiHV

open ByteMem (Mem load store Covers Sep)

/-! ## 1. Areas -/

/-- The byte is in the used ring. -/
def InUsed (q : Queue) (x : U64) : Prop := Covers q.used (4 + 8 * q.num.toNat) x

/-- The byte is in the descriptor table or the avail ring. -/
def InRings (q : Queue) (x : U64) : Prop :=
  Covers q.base (16 * q.num.toNat) x ∨ Covers q.avail (4 + 2 * q.num.toNat) x

/-- The byte is in one of the areas of the queue. -/
def InQueue (q : Queue) (x : U64) : Prop := InRings q x ∨ InUsed q x

structure QueueLayout (q : Queue) : Prop where
  pos : 0 < q.num.toNat
  apart : ∀ x, InRings q x → ¬ InUsed q x

/-- A queue whose slots the 16-bit cursors select in turn. -/
structure RingLayout (q : Queue) : Prop extends QueueLayout q where
  le : q.num.toNat ≤ 32768
  dvd : q.num.toNat ∣ 2 ^ 16

/-! ## 2. Queues without wrap-around -/

/-- `used` in exact arithmetic. -/
def VirtioDev.usedStart (c : VirtioDev) : Nat :=
  ((queueOf c).base.toNat + 18 * c.queueNum.toNat + 6 + 4095) / 4096 * 4096

/-- A fixed queue: a page frame, a power of two up to 32768 entries, and no
wrap-around up to the end of the used ring. -/
structure QueueOk (c : VirtioDev) : Prop where
  pfn : c.queuePfn ≠ 0
  pow : ∃ e, e ≤ 15 ∧ c.queueNum.toNat = 2 ^ e
  noWrap : c.usedStart + 4 + 8 * c.queueNum.toNat ≤ 2 ^ 64

theorem QueueOk.size {c : VirtioDev} (h : QueueOk c) :
    0 < c.queueNum.toNat ∧ c.queueNum.toNat ≤ 32768 ∧ c.queueNum.toNat ∣ 2 ^ 16 := by
  obtain ⟨e, he, hn⟩ := h.pow
  rw [hn]
  refine ⟨Nat.two_pow_pos e, ?_, Nat.pow_dvd_pow 2 (by omega)⟩
  calc 2 ^ e ≤ 2 ^ 15 := Nat.pow_le_pow_right (by omega) he
    _ = 32768 := by norm_num

theorem QueueOk.active {c : VirtioDev} (h : QueueOk c) : c.active = true := by
  have hpos := h.size.1
  rw [VirtioDev.active, decide_eq_true_eq]
  rintro (hz | hz)
  · exact h.pfn hz
  · rw [hz] at hpos
    exact absurd hpos (by decide)

section NoWrap

variable {c : VirtioDev} (hwrap : c.usedStart + 4 + 8 * c.queueNum.toNat ≤ 2 ^ 64)
include hwrap

/-- The places of the rings in exact arithmetic. -/
theorem toNat_rings : (queueOf c).avail.toNat = (queueOf c).base.toNat + 16 * c.queueNum.toNat ∧
    (queueOf c).used.toNat = c.usedStart := by
  have hn : (c.queueNum.setWidth 64 : U64).toNat = c.queueNum.toNat := by
    rw [BitVec.toNat_setWidth]
    have := c.queueNum.isLt
    omega
  set b := (queueOf c).base with hb
  set n := c.queueNum.toNat with hnn
  have hstart : c.usedStart = (b.toNat + 18 * n + 6 + 4095) / 4096 * 4096 := rfl
  have hsum : (b + c.queueNum.setWidth 64 * 16 + 6 + 2 * c.queueNum.setWidth 64 + 4095 : U64).toNat
      = b.toNat + 18 * n + 6 + 4095 := by
    simp only [BitVec.toNat_add, BitVec.toNat_mul, hn]
    change ((((b.toNat + n * 16 % 2 ^ 64) % 2 ^ 64 + 6) % 2 ^ 64 + 2 * n % 2 ^ 64) % 2 ^ 64 +
      4095) % 2 ^ 64 = _
    omega
  constructor
  · change (b + c.queueNum.setWidth 64 * 16).toNat = _
    rw [BitVec.toNat_add, BitVec.toNat_mul, hn]
    change (b.toNat + n * 16 % 2 ^ 64) % 2 ^ 64 = _
    omega
  · have hmask := Bits.toNat_and_not_mask
      (b + c.queueNum.setWidth 64 * 16 + 6 + 2 * c.queueNum.setWidth 64 + 4095 : U64) 12
    rw [hsum] at hmask
    exact hmask

/-- A byte of the queue lies between its base and the end of its used ring; those
of the used ring come last. -/
theorem bounds_of_inQueue {x : U64} (hx : InQueue (queueOf c) x) :
    (queueOf c).base.toNat ≤ x.toNat ∧ x.toNat < c.usedStart + 4 + 8 * c.queueNum.toNat ∧
      (InRings (queueOf c) x → x.toNat < c.usedStart) ∧
      (InUsed (queueOf c) x → c.usedStart ≤ x.toNat) := by
  obtain ⟨havail, hused⟩ := toNat_rings hwrap
  have hstart : c.usedStart =
      ((queueOf c).base.toNat + 18 * c.queueNum.toNat + 6 + 4095) / 4096 * 4096 := rfl
  have hnum : (queueOf c).num.toNat = c.queueNum.toNat := rfl
  have hin : ∀ a : U64, ∀ n : Nat, a.toNat + n ≤ 2 ^ 64 → Covers a n x →
      a.toNat ≤ x.toNat ∧ x.toNat < a.toNat + n := fun _ _ h hc => (ByteMem.covers_iff h).mp hc
  have hrings : InRings (queueOf c) x →
      (queueOf c).base.toNat ≤ x.toNat ∧ x.toNat < c.usedStart := by
    rintro (h | h)
    · have := hin _ _ (by omega) h
      omega
    · have := hin _ _ (by omega) h
      omega
  have hlast : InUsed (queueOf c) x →
      c.usedStart ≤ x.toNat ∧ x.toNat < c.usedStart + 4 + 8 * c.queueNum.toNat := by
    intro h
    have := hin _ _ (by omega) h
    omega
  refine ⟨?_, ?_, fun h => (hrings h).2, fun h => (hlast h).1⟩
  · rcases hx with h | h
    · exact (hrings h).1
    · have := (hlast h).1
      omega
  · rcases hx with h | h
    · have := (hrings h).2
      omega
    · exact (hlast h).2

theorem queueLayout_of_noWrap (hpos : 0 < c.queueNum.toNat) : QueueLayout (queueOf c) := by
  refine ⟨hpos, fun x hx hx' => ?_⟩
  obtain ⟨-, -, hrings, hused⟩ := bounds_of_inQueue hwrap (.inl hx)
  have := hrings hx
  have := hused hx'
  omega

end NoWrap

theorem QueueOk.layout {c : VirtioDev} (h : QueueOk c) : RingLayout (queueOf c) :=
  have hsize := h.size
  ⟨queueLayout_of_noWrap h.noWrap hsize.1, hsize.2.1, hsize.2.2⟩

/-! ## 3. What the device reads from the queue -/

/-- The memories agree on the descriptor table and the avail ring. -/
def SameRings (q : Queue) (m m' : Mem 64) : Prop := ∀ x, InRings q x → m' x = m x

section Addresses

variable {q : Queue}

/-- A queue is small against the address space. -/
theorem num_lt (q : Queue) : q.num.toNat < 2 ^ 32 := q.num.isLt

/-- The slot of a ring that a cursor selects, as the code computes it. -/
theorem slot_eq (i : U16) :
    ((i.setWidth 32 % q.num : U32).setWidth 64 : U64) =
      BitVec.ofNat 64 (i.toNat % q.num.toNat) := by
  have hi := i.isLt
  refine BitVec.eq_of_toNat_eq ?_
  rw [BitVec.toNat_setWidth, BitVec.toNat_umod, BitVec.toNat_setWidth, BitVec.toNat_ofNat,
    Nat.mod_eq_of_lt (show i.toNat < 2 ^ 32 by omega)]

theorem availSlot_eq (i : U16) :
    q.availSlot i = q.avail + BitVec.ofNat 64 (4 + 2 * (i.toNat % q.num.toNat)) := by
  rw [Queue.availSlot, slot_eq, BitVec.ofNat_add, BitVec.ofNat_mul, ← BitVec.add_assoc]
  rfl

theorem usedSlot_eq (i : U16) :
    q.usedSlot i = q.used + BitVec.ofNat 64 (4 + 8 * (i.toNat % q.num.toNat)) := by
  rw [Queue.usedSlot, slot_eq, BitVec.ofNat_add, BitVec.ofNat_mul, ← BitVec.add_assoc]
  rfl

theorem desc_eq (i : U16) (o : Nat) :
    q.desc i + BitVec.ofNat 64 o = q.base + BitVec.ofNat 64 (16 * i.toNat + o) := by
  have hwide : (i.setWidth 64 : U64) = BitVec.ofNat 64 i.toNat := by
    rw [BitVec.ofNat_toNat]
  rw [Queue.desc, hwide, BitVec.ofNat_add, ← BitVec.add_assoc, Nat.mul_comm, BitVec.ofNat_mul]
  rfl

/-- Entry `i` of the avail ring, behind its flags and its index. -/
def ringEntry (q : Queue) (m : Mem 64) (i : Nat) : U16 :=
  BitVec.ofNat 16 (load m (q.avail + BitVec.ofNat 64 (4 + 2 * i)) 2)

/-- A descriptor, without its flags. -/
@[ext] structure Desc where
  addr : U64
  len : U32
  next : U16

/-- Entry `i` of the descriptor table. -/
def tableEntry (q : Queue) (m : Mem 64) (i : Nat) : Desc where
  addr := BitVec.ofNat 64 (load m (q.base + BitVec.ofNat 64 (16 * i)) 8)
  len := BitVec.ofNat 32 (load m (q.base + BitVec.ofNat 64 (16 * i + 8)) 4)
  next := BitVec.ofNat 16 (load m (q.base + BitVec.ofNat 64 (16 * i + 14)) 2)

theorem availEntry_eq (m : Mem 64) (i : U16) :
    availEntry q m i = ringEntry q m (i.toNat % q.num.toNat) := by
  rw [availEntry, availSlot_eq, ringEntry]

theorem descAddr_eq (m : Mem 64) (i : U16) : descAddr q m i = (tableEntry q m i.toNat).addr := by
  have haddr := @desc_eq q i 0
  rw [BitVec.add_zero] at haddr
  rw [descAddr, haddr]
  rfl

theorem descLen_eq (m : Mem 64) (i : U16) : descLen q m i = (tableEntry q m i.toNat).len :=
  congrArg (fun a => BitVec.ofNat 32 (load m a 4)) (desc_eq i 8)

theorem descNext_eq (m : Mem 64) (i : U16) : descNext q m i = (tableEntry q m i.toNat).next :=
  congrArg (fun a => BitVec.ofNat 16 (load m a 2)) (desc_eq i 14)

end Addresses

section Read

variable {q : Queue} {m m' : Mem 64} (h : SameRings q m m')
include h

theorem load_of_sameRings {a : U64} {n : Nat} (hn : n ≤ 2 ^ 64)
    (ha : ∀ x, Covers a n x → InRings q x) : load m' a n = load m a n :=
  ByteMem.load_congr fun _ hi => h _ (ha _ (ByteMem.covers_ofNat a hi hn))

theorem availIdx_of_sameRings : availIdx q m' = availIdx q m := by
  have hnum := num_lt q
  have hin : ∀ x, Covers (q.avail + BitVec.ofNat 64 2) 2 x → InRings q x :=
    fun x hx => .inr (ByteMem.covers_of_offset (by omega) (by omega) hx)
  rw [availIdx]
  exact congrArg _ (load_of_sameRings h (by omega) hin)

theorem ringEntry_of_sameRings {i : Nat} (hi : i < q.num.toNat) :
    ringEntry q m' i = ringEntry q m i := by
  have hnum := num_lt q
  refine congrArg (BitVec.ofNat 16) (load_of_sameRings h (by omega) fun x hx => ?_)
  exact .inr (ByteMem.covers_of_offset (by omega) (by omega) hx)

theorem tableEntry_of_sameRings {i : Nat} (hi : i < q.num.toNat) :
    tableEntry q m' i = tableEntry q m i := by
  have hnum := num_lt q
  have hfield : ∀ o n : Nat, o + n ≤ 16 →
      load m' (q.base + BitVec.ofNat 64 (16 * i + o)) n =
        load m (q.base + BitVec.ofNat 64 (16 * i + o)) n := by
    intro o n ho
    refine load_of_sameRings h (by omega) fun x hx => ?_
    exact .inl (ByteMem.covers_of_offset (by omega) (by omega) hx)
  exact Desc.ext (congrArg (BitVec.ofNat 64) (hfield 0 8 (by omega)))
    (congrArg (BitVec.ofNat 32) (hfield 8 4 (by omega)))
    (congrArg (BitVec.ofNat 16) (hfield 14 2 (by omega)))

end Read

/-! ## 4. The used ring -/

/-- The head in slot `i` of the used ring. -/
def usedId (q : Queue) (m : Mem 64) (i : Nat) : U32 :=
  BitVec.ofNat 32 (load m (q.used + BitVec.ofNat 64 (4 + 8 * i)) 4)

section Used

variable {q : Queue} (hpos : 0 < q.num.toNat)

/-- Memories that agree on the used ring have the same used ring. -/
theorem used_congr {m m' : Mem 64} (h : ∀ x, InUsed q x → m' x = m x) :
    usedIdx q m' = usedIdx q m ∧
      ∀ i < q.num.toNat, usedId q m' i = usedId q m i := by
  have hnum := num_lt q
  have hload : ∀ o n : Nat, o + n ≤ 4 + 8 * q.num.toNat →
      load m' (q.used + BitVec.ofNat 64 o) n = load m (q.used + BitVec.ofNat 64 o) n := by
    intro o n ho
    refine ByteMem.load_congr fun i hi => h _ ?_
    exact ByteMem.covers_of_offset ho (by omega) (ByteMem.covers_ofNat _ hi (by omega))
  refine ⟨congrArg (BitVec.ofNat 16) (hload 2 2 (by omega)), fun i hi => ?_⟩
  rw [usedId, hload _ _ (by omega), usedId]

theorem usedIdx_pushed (id len : U32) (m : Mem 64) :
    usedIdx q (pushed q id len m) = usedIdx q m + 1 := by
  have hlt := (usedIdx q m + 1).isLt
  rw [usedIdx, pushed, ByteMem.load_store_self _ _ _ (by omega)]
  refine BitVec.eq_of_toNat_eq ?_
  rw [BitVec.toNat_ofNat]
  omega

/-- Publishing an element, with its stores at offsets from the used ring. -/
theorem pushed_eq (id len : U32) (m : Mem 64) : pushed q id len m =
    let slot := (usedIdx q m).toNat % q.num.toNat
    store (store (store m (q.used + BitVec.ofNat 64 (4 + 8 * slot)) 4 id.toNat)
      (q.used + BitVec.ofNat 64 (4 + 8 * slot + 4)) 4 len.toNat)
      (q.used + BitVec.ofNat 64 2) 2 (usedIdx q m + 1).toNat := by
  rw [pushed, usedSlot_eq, BitVec.add_assoc]
  simp only [BitVec.ofNat_add (4 + 8 * _) 4]
  rfl

include hpos

/-- Publishing an element writes only the used ring. -/
theorem pushed_of_not_used (id len : U32) (m : Mem 64) {x : U64} (hx : ¬ InUsed q x) :
    pushed q id len m x = m x := by
  have hnum := num_lt q
  have hlt := Nat.mod_lt (usedIdx q m).toNat hpos
  have hnot : ∀ o n : Nat, o + n ≤ 4 + 8 * q.num.toNat →
      ¬ Covers (q.used + BitVec.ofNat 64 o) n x :=
    fun o n ho hc => hx (ByteMem.covers_of_offset ho (by omega) hc)
  rw [pushed_eq, ByteMem.store_of_not_covers (hnot _ _ (by omega)),
    ByteMem.store_of_not_covers (hnot _ _ (by omega)),
    ByteMem.store_of_not_covers (hnot _ _ (by omega))]

/-- The element that is published. -/
theorem usedId_pushed_self (id len : U32) (m : Mem 64) :
    usedId q (pushed q id len m) ((usedIdx q m).toNat % q.num.toNat) = id := by
  have hnum := num_lt q
  have hlt := Nat.mod_lt (usedIdx q m).toNat hpos
  have hid := id.isLt
  rw [usedId, pushed_eq,
    ByteMem.load_store_sep (by omega) (ByteMem.sep_of_offset (by omega) (by omega) (by omega)),
    ByteMem.load_store_sep (by omega) (ByteMem.sep_of_offset (by omega) (by omega) (by omega)),
    ByteMem.load_store_self _ _ _ (by omega)]
  refine BitVec.eq_of_toNat_eq ?_
  rw [BitVec.toNat_ofNat]
  omega

/-- The other elements stay. -/
theorem usedId_pushed_of_ne (id len : U32) (m : Mem 64) {i : Nat} (hi : i < q.num.toNat)
    (hne : i ≠ (usedIdx q m).toNat % q.num.toNat) :
    usedId q (pushed q id len m) i = usedId q m i := by
  have hnum := num_lt q
  have hlt := Nat.mod_lt (usedIdx q m).toNat hpos
  rw [usedId, pushed_eq,
    ByteMem.load_store_sep (by omega) (ByteMem.sep_of_offset (by omega) (by omega) (by omega)),
    ByteMem.load_store_sep (by omega) (ByteMem.sep_of_offset (by omega) (by omega) (by omega)),
    ByteMem.load_store_sep (by omega) (ByteMem.sep_of_offset (by omega) (by omega) (by omega)),
    usedId]

end Used

end FermiHV
