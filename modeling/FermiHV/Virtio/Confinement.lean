import FermiHV.Virtio.Refinement
import FermiHV.Virtio.Tenants

/-!
# What the virtio devices of a tenant can reach

The devices of a tenant compare none of the addresses they follow with its block, so a
driver keeps them there by what it prepares before it notifies. The
registers QueuePFN, GuestPageSize and QueueNum place the queue in RAM (`QueueInRam`),
the published entries name descriptors of the table, and what the device writes for
the batch overlaps nothing that it has still to read for it (`BatchSteady`). Then every
pass finds the entry as it was published (`entries_kept`), and the notify stays in the
block if and only if the buffers of the published descriptors are in RAM
(`confined_process_iff`). `dma_confined` is the result for whole runs of a tenant.
-/

namespace FermiHV

open ByteMem (Mem load store Covers Sep)

variable {T : Tenant}

/-! ## 1. What the guest prepares

All of it is read from the registers and the memory in which the notify is made. -/

/-- Where QueuePFN and GuestPageSize put the queue. -/
def VirtioDev.guestBase (c : VirtioDev) : Nat := c.queuePfn.toNat * c.pageSize.toNat

/-- Where the used ring begins: on the page after the avail ring. -/
def VirtioDev.guestUsed (c : VirtioDev) : Nat :=
  (c.guestBase + 18 * c.queueNum.toNat + 6 + 4095) / 4096 * 4096

/-- The registers QueuePFN, GuestPageSize and QueueNum describe a queue in RAM. -/
structure Tenant.QueueInRam (T : Tenant) (c : VirtioDev) : Prop where
  first : T.ipa.toNat ≤ c.guestBase
  last : c.guestUsed + 4 + 8 * c.queueNum.toNat ≤ T.ipa.toNat + 2 ^ 30

/-- The descriptors that the entry at place `c` of the avail ring names. -/
def entryChain (k : VirtioKind) (q : Queue) (m : Mem 64) (c : U16) : List U16 :=
  match k with
  | .con => [headAt q m c]
  | .blk => blkChain q m c

/-- The guest addresses and the lengths of the buffers that the device follows for
the entry: the text, or the header's type and sector, the data of a request that
the check accepts, and the status. -/
def entryBuffers (k : VirtioKind) (q : Queue) (m : Mem 64) (c : U16) : List (U64 × Nat) :=
  let first := tableEntry q m (headAt q m c).toNat
  match k with
  | .con => [(first.addr, first.len.toNat)]
  | .blk =>
    let data := tableEntry q m first.next.toNat
    let stat := tableEntry q m data.next.toNat
    [(first.addr, 4), (first.addr + 8, 8), (stat.addr, 1)] ++
      if (reqAt q m c).inRange then [(data.addr, data.len.toNat)] else []

/-- What the device reads for the entry outside the queue before it serves it. -/
def entryHeaders (k : VirtioKind) (q : Queue) (m : Mem 64) (c : U16) : List (U64 × Nat) :=
  match k with
  | .con => []
  | .blk => [(headerAt q m c, 16)]

/-- What the device writes for the entry outside the used ring: the status, and the
data of a read that the check accepts. -/
def entryWrites (k : VirtioKind) (q : Queue) (m : Mem 64) (c : U16) : List (U64 × Nat) :=
  match k with
  | .con => []
  | .blk =>
    let r := reqAt q m c
    (r.saddr, 1) :: if r.inRange = true ∧ r.type ≠ 1 then [(r.daddr, r.dlen.toNat)] else []

/-- What the device writes for the batch `cs` overlaps neither the descriptors and the
avail ring nor the headers of the batch. -/
structure BatchSteady (k : VirtioKind) (q : Queue) (m : Mem 64) (cs : List U16) : Prop where
  used : ∀ c ∈ cs, ∀ h ∈ entryHeaders k q m c, Sep h.1 h.2 q.used (4 + 8 * q.num.toNat)
  table : ∀ c ∈ cs, ∀ w ∈ entryWrites k q m c, Sep w.1 w.2 q.base (16 * q.num.toNat)
  avail : ∀ c ∈ cs, ∀ w ∈ entryWrites k q m c, Sep w.1 w.2 q.avail (4 + 2 * q.num.toNat)
  headers : ∀ c ∈ cs, ∀ w ∈ entryWrites k q m c, ∀ c' ∈ cs, ∀ h ∈ entryHeaders k q m c',
    Sep w.1 w.2 h.1 h.2

/-- The places of the avail ring that a notify in `s` finds published. -/
def batch (k : VirtioKind) (vm : Fin 2) (s : VHost) : List U16 :=
  published (queueOf (s.dev k vm)) s.mem (s.dev k vm).lastAvail

/-- The registers and the published descriptors are as a driver prepares them. -/
structure Tenant.Prepared (T : Tenant) (k : VirtioKind) (s : VHost) : Prop where
  queue : T.QueueInRam (s.dev k T.vm)
  inTable : ∀ c ∈ batch k T.vm s, ∀ d ∈ entryChain k (queueOf (s.dev k T.vm)) s.mem c,
    d.toNat < (s.dev k T.vm).queueNum.toNat
  steady : BatchSteady k (queueOf (s.dev k T.vm)) s.mem (batch k T.vm s)

/-- The buffers of the entry are in RAM, and the sum in the check of a block request
does not wrap. -/
structure Tenant.EntryInRam (T : Tenant) (k : VirtioKind) (q : Queue) (m : Mem 64) (c : U16) :
    Prop where
  buffers : ∀ b ∈ entryBuffers k q m c, T.RamRange b.1 b.2
  noWrap : k = .blk → (reqAt q m c).inRange = true →
    (reqAt q m c).doff.toNat + (reqAt q m c).dlen.toNat < 2 ^ 64

/-- The buffers of all published descriptors are in RAM. -/
def Tenant.BuffersInRam (T : Tenant) (k : VirtioKind) (s : VHost) : Prop :=
  ∀ c ∈ batch k T.vm s, T.EntryInRam k (queueOf (s.dev k T.vm)) s.mem c

/-- What a notify needs to stay in the block. A device whose queue is not set up
does nothing. -/
def Tenant.NotifyInRam (T : Tenant) (k : VirtioKind) (s : VHost) : Prop :=
  (s.dev k T.vm).active = true → T.Prepared k s ∧ T.BuffersInRam k s

/-! ## 2. The queue in the block -/

section Block

variable {c : VirtioDev} (hoff : c.hostOff = T.off) (h : T.QueueInRam c)
include hoff h

/-- The queue of the device is that of the registers, moved by the offset. -/
theorem toNat_base_usedStart :
    (queueOf c).base.toNat + T.ipa.toNat = c.guestBase + T.pa.toNat ∧
      c.usedStart + T.ipa.toNat = c.guestUsed + T.pa.toNat := by
  have hipa := T.ipa_aligned
  have hpa := T.pa_aligned
  have hpalt := T.pa.isLt
  have hipalt := T.ipa.isLt
  have hfirst := h.first
  have hlast := h.last
  have hused : c.guestUsed = (c.guestBase + 18 * c.queueNum.toNat + 6 + 4095) / 4096 * 4096 := rfl
  have hprod : c.queuePfn.toNat * c.pageSize.toNat = c.guestBase := rfl
  have hbase : (queueOf c).base.toNat + T.ipa.toNat = c.guestBase + T.pa.toNat := by
    have hpfn := c.queuePfn.isLt
    have hps := c.pageSize.isLt
    change (c.queuePfn.setWidth 64 * c.pageSize.setWidth 64 + c.hostOff).toNat + _ = _
    rw [hoff, Tenant.off, BitVec.toNat_add, BitVec.toNat_mul, BitVec.toNat_setWidth,
      BitVec.toNat_setWidth, BitVec.toNat_sub, Nat.mod_eq_of_lt (by omega : c.queuePfn.toNat < _),
      Nat.mod_eq_of_lt (by omega : c.pageSize.toNat < _), hprod]
    omega
  refine ⟨hbase, ?_⟩
  have hstart : c.usedStart =
      ((queueOf c).base.toNat + 18 * c.queueNum.toNat + 6 + 4095) / 4096 * 4096 := rfl
  omega

theorem noWrap_of_queueInRam : c.usedStart + 4 + 8 * c.queueNum.toNat ≤ 2 ^ 64 := by
  have hstart := (toNat_base_usedStart hoff h).2
  have hlast := h.last
  have hfits := aligned_fits T.pa_aligned
  omega

theorem inBlock_of_inQueue {x : U64} (hx : InQueue (queueOf c) x) : T.InBlock x := by
  obtain ⟨hbase, hstart⟩ := toNat_base_usedStart hoff h
  obtain ⟨hlo, hhi, -, -⟩ := bounds_of_inQueue (noWrap_of_queueInRam hoff h) hx
  have hfirst := h.first
  have hlast := h.last
  rw [Tenant.InBlock]
  omega

end Block

/-! ## 3. The accesses of a pass -/

section Pass

variable {k : VirtioKind} {vm : Fin 2} {q : Queue} {s : VHost} {m : Mem 64}

/-- The transmit request at place `c` of the avail ring. -/
def txAt (q : Queue) (m : Mem 64) (c : U16) : TxReq :=
  let d := tableEntry q m (headAt q m c).toNat
  { didx := headAt q m c, addr := d.addr + q.o, len := d.len }

theorem txReq_eq_txAt : txReq vm q s = txAt q s.mem (s.dev .con vm).lastAvail := by
  rw [txReq_eq]
  simp only [availEntry_eq, descAddr_eq, descLen_eq]
  rfl

/-- A part of one of the areas of a queue. -/
theorem within_offset {a : U64} {size o n : Nat} (hsize : size ≤ 2 ^ 64)
    (harea : ∀ x, Covers a size x → InQueue q x) (ho : o + n ≤ size) :
    ∀ i < n, InQueue q (a + BitVec.ofNat 64 o + BitVec.ofNat 64 i) := fun _ hi =>
  harea _ (ByteMem.covers_of_offset ho hsize (ByteMem.covers_ofNat _ hi (by omega)))

theorem within_used {o n : Nat} (ho : o + n ≤ 4 + 8 * q.num.toNat) :
    ∀ i < n, InQueue q (q.used + BitVec.ofNat 64 o + BitVec.ofNat 64 i) := by
  have hnum := num_lt q
  exact within_offset (by omega) (fun _ => .inr) ho

theorem within_avail {o n : Nat} (ho : o + n ≤ 4 + 2 * q.num.toNat) :
    ∀ i < n, InQueue q (q.avail + BitVec.ofNat 64 o + BitVec.ofNat 64 i) := by
  have hnum := num_lt q
  exact within_offset (by omega) (fun _ hx => .inl (.inr hx)) ho

theorem within_desc {d : U16} (hd : d.toNat < q.num.toNat) {o n : Nat} (ho : o + n ≤ 16) :
    ∀ i < n, InQueue q (q.desc d + BitVec.ofNat 64 o + BitVec.ofNat 64 i) := by
  have hnum := num_lt q
  rw [desc_eq]
  exact within_offset (by omega) (fun _ hx => .inl (.inl hx)) (by omega)

/-- Publishing an element stays in the used ring. -/
theorem within_pushAccesses (hpos : 0 < q.num.toNat) (m : Mem 64) :
    ∀ e ∈ pushAccesses q m, e.Within (InQueue q) vm := by
  have hlt := Nat.mod_lt (usedIdx q m).toNat hpos
  have hidx : ∀ i < 2, InQueue q (q.used + BitVec.ofNat 64 2 + BitVec.ofNat 64 i) :=
    within_used (by omega)
  have hid : ∀ i < 4, InQueue q (q.usedSlot (usedIdx q m) + BitVec.ofNat 64 i) := by
    rw [usedSlot_eq]
    exact within_used (by omega)
  have hlen : ∀ i < 4, InQueue q (q.usedSlot (usedIdx q m) + 4 + BitVec.ofNat 64 i) := by
    have haddr : q.usedSlot (usedIdx q m) + 4 =
        q.used + BitVec.ofNat 64 (4 + 8 * ((usedIdx q m).toNat % q.num.toNat) + 4) := by
      rw [usedSlot_eq, BitVec.add_assoc, BitVec.ofNat_add _ 4]
      rfl
    rw [haddr]
    exact within_used (by omega)
  simp only [pushAccesses, List.forall_mem_cons]
  exact ⟨hidx, hid, hlen, hidx, fun _ he => absurd he List.not_mem_nil⟩

theorem within_availSlot (hpos : 0 < q.num.toNat) (i : U16) :
    (Access.load (q.availSlot i) 2).Within (InQueue q) vm := by
  have hlt := Nat.mod_lt i.toNat hpos
  rw [availSlot_eq]
  exact within_avail (by omega)

theorem within_desc_zero {d : U16} (hd : d.toNat < q.num.toNat) :
    (Access.load (q.desc d) 8).Within (InQueue q) vm := by
  have h := within_desc (o := 0) (n := 8) hd (by omega)
  rwa [BitVec.add_zero] at h

variable (hblock : ∀ x, InQueue q x → T.InBlock x)
include hblock

theorem confined_of_within {e : Access} (h : e.Within (InQueue q) T.vm) : e.Confined T :=
  h.mono hblock

variable (hpos : 0 < q.num.toNat) (ho : q.o = T.off)
include hpos ho

omit hblock hpos ho in
/-- What `EntryInRam` says of a transmit request. -/
theorem entryInRam_con_iff {c : U16} : T.EntryInRam .con q m c ↔
    let first := tableEntry q m (headAt q m c).toNat
    T.RamRange first.addr first.len.toNat := by
  constructor
  · intro h
    have hbuf := h.buffers
    rw [entryBuffers, List.forall_mem_singleton] at hbuf
    exact hbuf
  · intro h
    refine ⟨?_, fun hk => absurd hk (by decide)⟩
    rw [entryBuffers, List.forall_mem_singleton]
    exact h

/-- A console pass with its descriptor in the table stays in the block if and only
if the text is in RAM. -/
theorem confined_txAccesses_iff
    (htable : ∀ d ∈ entryChain .con q s.mem (s.dev .con T.vm).lastAvail, d.toNat < q.num.toNat) :
    (∀ e ∈ txAccesses T.vm q s, e.Confined T) ↔
      T.EntryInRam .con q s.mem (s.dev .con T.vm).lastAvail := by
  set c := (s.dev .con T.vm).lastAvail with hc
  have hhead := htable (headAt q s.mem c) (by simp [entryChain])
  have hfetch : ∀ e ∈ txFetchAccesses T.vm q s, e.Confined T := by
    rw [txFetchAccesses, txReq_eq_txAt]
    simp only [List.forall_mem_cons]
    exact ⟨confined_of_within hblock (within_availSlot hpos _),
      confined_of_within hblock (within_desc_zero hhead),
      confined_of_within hblock (e := .load (q.desc _ + BitVec.ofNat 64 8) 4)
        (within_desc hhead (by omega)), fun _ he => absurd he List.not_mem_nil⟩
  have hpush : ∀ e ∈ pushAccesses q s.mem, e.Confined T := fun e he =>
    confined_of_within hblock (within_pushAccesses hpos _ e he)
  have hbyte : ∀ a : U64, (Access.load a 1).Confined T ↔ T.InBlock a := fun a => by
    simp [Access.Confined, Access.Within]
  rw [txAccesses, List.forall_mem_append, List.forall_mem_append, and_iff_left hpush,
    and_iff_right hfetch, entryInRam_con_iff]
  simp only [txReq_eq_txAt, TxReq.accesses, List.forall_mem_map, List.mem_range, hbyte,
    ← inBlock_range_iff, txAt, ho, ← hc]

omit hblock hpos ho in
/-- The data of a request. -/
theorem confined_moveAccesses_iff {r : VblkReq} {a : U64} (ha : r.daddr = a + T.off) :
    (∀ e ∈ moveAccesses T.vm r, e.Confined T) ↔
      (r.inRange = true → T.RamRange a r.dlen.toNat ∧ r.doff.toNat + r.dlen.toNat < 2 ^ 64) := by
  cases hr : r.inRange with
  | false => simp [moveAccesses, hr]
  | true =>
    have hpair : (∀ e ∈ moveAccesses T.vm r, e.Confined T) ↔ ∀ i < r.dlen.toNat,
        T.InBlock (a + T.off + BitVec.ofNat 64 i) ∧
          (r.doff + BitVec.ofNat 64 i).toNat < diskSize := by
      simp only [moveAccesses, hr, if_true, List.forall_mem_flatMap, List.mem_range, ha]
      refine forall₂_congr fun i _ => ?_
      by_cases ht : r.type = 1
      · rw [if_pos ht]
        simp [Access.Confined, Access.Within]
      · rw [if_neg ht]
        simp [Access.Confined, Access.Within, and_comm]
    rw [hpair, ← onDisk_iff hr, ← inBlock_range_iff]
    simp only [forall_and, true_imp_iff]

omit hblock hpos ho in
/-- What `EntryInRam` says of a block request. -/
theorem entryInRam_blk_iff {c : U16} : T.EntryInRam .blk q m c ↔
    let first := tableEntry q m (headAt q m c).toNat
    let data := tableEntry q m first.next.toNat
    let r := reqAt q m c
    T.RamRange first.addr 4 ∧ T.RamRange (first.addr + 8) 8 ∧
      T.RamRange (tableEntry q m data.next.toNat).addr 1 ∧
      (r.inRange = true → T.RamRange data.addr r.dlen.toNat ∧
        r.doff.toNat + r.dlen.toNat < 2 ^ 64) := by
  have hlen : (reqAt q m c).dlen =
      (tableEntry q m (tableEntry q m (headAt q m c).toNat).next.toNat).len := rfl
  simp only
  constructor
  · intro h
    have hbuf := h.buffers
    simp only [entryBuffers, List.forall_mem_append, List.forall_mem_cons] at hbuf
    refine ⟨hbuf.1.1, hbuf.1.2.1, hbuf.1.2.2.1, fun hr => ⟨?_, h.noWrap rfl hr⟩⟩
    have hdata := hbuf.2
    rw [if_pos hr, List.forall_mem_singleton] at hdata
    exact hdata
  · rintro ⟨htype, hsector, hstat, hdata⟩
    refine ⟨?_, fun _ hr => (hdata hr).2⟩
    simp only [entryBuffers, List.forall_mem_append, List.forall_mem_cons]
    refine ⟨⟨htype, hsector, hstat, fun _ hb => absurd hb List.not_mem_nil⟩, ?_⟩
    split_ifs with hr
    · rw [List.forall_mem_singleton]
      exact (hdata hr).1
    · exact fun _ hb => absurd hb List.not_mem_nil

/-- Fetching a request with its descriptors in the table stays in the block if and only
if its header is in RAM. -/
theorem confined_vblkFetchAccesses_iff
    (htable : ∀ d ∈ entryChain .blk q s.mem (s.dev .blk T.vm).lastAvail, d.toNat < q.num.toNat) :
    (∀ e ∈ vblkFetchAccesses T.vm q s, e.Confined T) ↔
      let first := tableEntry q s.mem (headAt q s.mem (s.dev .blk T.vm).lastAvail).toNat
      T.RamRange first.addr 4 ∧ T.RamRange (first.addr + 8) 8 := by
  set c := (s.dev .blk T.vm).lastAvail with hc
  set first := tableEntry q s.mem (headAt q s.mem c).toNat with hfirst
  set data := tableEntry q s.mem first.next.toNat with hdata
  simp only [entryChain, blkChain, List.forall_mem_cons, ← hfirst, ← hdata] at htable
  obtain ⟨hh, hd, hs, -⟩ := htable
  have hdesc : ∀ d : U16, d.toNat < q.num.toNat → ∀ o n, o + n ≤ 16 →
      (Access.load (q.desc d + BitVec.ofNat 64 o) n).Confined T := fun d hd o n ho =>
    confined_of_within hblock (e := .load _ n) (within_desc hd ho)
  have hbase : ∀ d : U16, d.toNat < q.num.toNat → (Access.load (q.desc d) 8).Confined T :=
    fun d hd => confined_of_within hblock (within_desc_zero hd)
  have hslot : (Access.load (q.availSlot c) 2).Confined T :=
    confined_of_within hblock (within_availSlot hpos c)
  have hhead : (vblkReq T.vm q s).head = headAt q s.mem c := by
    rw [vblkReq_eq_reqAt]
    rfl
  simp only [vblkFetchAccesses, hhead, descAddr_eq, descNext_eq, ← hfirst, ← hdata, ← hc,
    List.forall_mem_cons, ho, ← inBlock_range_iff]
  rw [← add_off_comm]
  constructor
  · rintro ⟨-, -, -, htype, hsector, -⟩
    exact ⟨htype, hsector⟩
  · rintro ⟨htype, hsector⟩
    exact ⟨hslot, hbase _ hh, hdesc _ hh 14 2 (by omega), htype, hsector, hbase _ hd,
      hdesc _ hd 8 4 (by omega), hdesc _ hd 14 2 (by omega), hbase _ hs,
      fun _ he => absurd he List.not_mem_nil⟩

/-- A disk pass with its descriptors in the table stays in the block if and only if
its buffers are in RAM and the sum of its check does not wrap. -/
theorem confined_vblkAccesses_iff
    (htable : ∀ d ∈ entryChain .blk q s.mem (s.dev .blk T.vm).lastAvail, d.toNat < q.num.toNat) :
    (∀ e ∈ vblkAccesses T.vm q s, e.Confined T) ↔
      T.EntryInRam .blk q s.mem (s.dev .blk T.vm).lastAvail := by
  have hfetch := confined_vblkFetchAccesses_iff hblock hpos ho htable
  set c := (s.dev .blk T.vm).lastAvail
  set first := tableEntry q s.mem (headAt q s.mem c).toNat
  set data := tableEntry q s.mem first.next.toNat
  set stat := tableEntry q s.mem data.next.toNat
  have hpush : ∀ m, ∀ e ∈ pushAccesses q m, e.Confined T := fun m e he =>
    confined_of_within hblock (within_pushAccesses hpos m e he)
  have hreq : vblkReq T.vm q s = reqAt q s.mem c := vblkReq_eq_reqAt
  have hdaddr : (reqAt q s.mem c).daddr = data.addr + T.off := by
    rw [← ho]
    rfl
  have hsaddr : (reqAt q s.mem c).saddr = stat.addr + T.off := by
    rw [← ho]
    rfl
  have hstatus : (Access.store (reqAt q s.mem c).saddr 1).Confined T ↔ T.RamRange stat.addr 1 := by
    rw [hsaddr, ← inBlock_range_iff]
    rfl
  have hmove := confined_moveAccesses_iff hdaddr
  rw [vblkAccesses, hreq, List.forall_mem_append, List.forall_mem_append, List.forall_mem_append,
    and_iff_left (hpush _), List.forall_mem_singleton, hfetch, hstatus, hmove]
  rw [entryInRam_blk_iff]
  constructor
  · rintro ⟨⟨⟨htype, hsector⟩, hmoved⟩, hstat⟩
    exact ⟨htype, hsector, hstat, hmoved⟩
  · rintro ⟨htype, hsector, hstat, hmoved⟩
    exact ⟨⟨⟨htype, hsector⟩, hmoved⟩, hstat⟩

/-- A pass with its descriptors in the table stays in the block if and only if the
buffers of its entry are in RAM. -/
theorem confined_passAccesses_iff
    (htable : ∀ d ∈ entryChain k q s.mem (s.dev k T.vm).lastAvail, d.toNat < q.num.toNat) :
    (∀ e ∈ passAccesses k T.vm q s, e.Confined T) ↔
      T.EntryInRam k q s.mem (s.dev k T.vm).lastAvail := by
  cases k with
  | con => exact confined_txAccesses_iff hblock hpos ho htable
  | blk => exact confined_vblkAccesses_iff hblock hpos ho htable

end Pass

/-! ## 4. The entries of a batch -/

section Batch

variable {k : VirtioKind} {vm : Fin 2} {q : Queue} {s : VHost} {m m' : Mem 64} {cs : List U16}

/-- The memories agree on the rings and the headers of the batch. -/
structure SameEntries (k : VirtioKind) (q : Queue) (cs : List U16) (m m' : Mem 64) : Prop where
  rings : SameRings q m m'
  headers : ∀ c ∈ cs, ∀ h ∈ entryHeaders k q m c, ∀ x, Covers h.1 h.2 x → m' x = m x

/-- Such memories hold the same entries. -/
theorem entry_congr (hpos : 0 < q.num.toNat) (h : SameEntries k q cs m m') {c : U16} (hc : c ∈ cs)
    (htable : ∀ d ∈ entryChain k q m c, d.toNat < q.num.toNat) :
    entryChain k q m' c = entryChain k q m c ∧ entryWrites k q m' c = entryWrites k q m c ∧
      ∀ T : Tenant, T.EntryInRam k q m' c ↔ T.EntryInRam k q m c := by
  obtain ⟨hhead, hdesc⟩ := chain_congr hpos h.rings c htable
  cases k with
  | con =>
    have hfirst := hdesc (headAt q m c) (by simp [entryChain])
    refine ⟨by simp only [entryChain, hhead], rfl, fun T => ?_⟩
    simp only [entryInRam_con_iff, hhead, hfirst]
  | blk =>
    have hreq : reqAt q m' c = reqAt q m c :=
      reqAt_congr hpos htable h.rings (h.headers c hc (headerAt q m c, 16) (by simp [entryHeaders]))
    simp only [entryChain, blkChain, List.forall_mem_cons] at hdesc
    obtain ⟨hfirst, hdata, hstat, -⟩ := hdesc
    refine ⟨?_, by simp only [entryWrites, hreq], fun T => ?_⟩
    · simp only [entryChain, blkChain, hhead, hfirst, hdata]
    · simp only [entryInRam_blk_iff, hreq, hhead, hfirst, hdata, hstat]

/-- A pass changes no byte outside the used ring and what it writes for its entry. -/
theorem pass_mem_of_not_writes (hpos : 0 < q.num.toNat) {x : U64} (hused : ¬ InUsed q x)
    (hw : ∀ w ∈ entryWrites k q s.mem (s.dev k vm).lastAvail, ¬ Covers w.1 w.2 x) :
    (pass k vm q s).mem x = s.mem x := by
  cases k with
  | con =>
    simp only [pass, virtioTxPass_run]
    exact pushed_of_not_used hpos _ _ _ hused
  | blk =>
    have hreq : vblkReq vm q s = reqAt q s.mem (s.dev .blk vm).lastAvail := vblkReq_eq_reqAt
    simp only [entryWrites, List.forall_mem_cons, ← hreq] at hw
    simp only [pass, vblkPass_run]
    rw [pushed_of_not_used hpos _ _ _ hused, statusMem, ByteMem.store_of_not_covers hw.1, movedMem]
    split_ifs with hread
    · have hdata := hw.2
      rw [if_pos hread, List.forall_mem_singleton] at hdata
      exact ByteMem.copy_of_not_covers hdata
    · rfl

/-- The console writes the used ring only. -/
theorem batchSteady_con : BatchSteady .con q m cs where
  used := fun _ _ _ h => absurd h List.not_mem_nil
  table := fun _ _ _ h => absurd h List.not_mem_nil
  avail := fun _ _ _ h => absurd h List.not_mem_nil
  headers := fun _ _ _ h => absurd h List.not_mem_nil

theorem mem_batch {j : Nat} (hact : (s.dev k vm).active = true) (hj : j < passCount k vm s) :
    (s.dev k vm).lastAvail + BitVec.ofNat 16 j ∈ batch k vm s := by
  rw [passCount, if_pos hact] at hj
  exact List.mem_map.mpr ⟨j, List.mem_range.mpr hj, rfl⟩

/-- A pass that serves an entry of a steady batch leaves the entries of the batch. -/
theorem sameEntries_pass (hlayout : QueueLayout q) (hsteady : BatchSteady k q m cs)
    (h : SameEntries k q cs m s.mem) (hc : (s.dev k vm).lastAvail ∈ cs)
    (htable : ∀ d ∈ entryChain k q m (s.dev k vm).lastAvail, d.toNat < q.num.toNat) :
    SameEntries k q cs m (pass k vm q s).mem := by
  have hwrites := (entry_congr hlayout.pos h hc htable).2.1
  have hkeep : ∀ x, ¬ InUsed q x →
      (∀ w ∈ entryWrites k q m (s.dev k vm).lastAvail, ¬ Covers w.1 w.2 x) →
      (pass k vm q s).mem x = s.mem x := by
    intro x hused hw
    rw [← hwrites] at hw
    exact pass_mem_of_not_writes hlayout.pos hused hw
  constructor
  · intro x hx
    rw [hkeep x (hlayout.apart x hx), h.rings x hx]
    intro w hw hcov
    rcases hx with hx | hx
    · exact hsteady.table _ hc w hw x hcov hx
    · exact hsteady.avail _ hc w hw x hcov hx
  · intro c' hc' b hb x hx
    rw [hkeep x (hsteady.used c' hc' b hb x hx), h.headers c' hc' b hb x hx]
    exact fun w hw hcov => hsteady.headers _ hc w hw c' hc' b hb x hcov hx

/-- The passes of a notify leave the entries of a steady batch. -/
theorem entries_kept (hact : (s.dev k vm).active = true)
    (hlayout : QueueLayout (queueOf (s.dev k vm)))
    (hsteady : BatchSteady k (queueOf (s.dev k vm)) s.mem (batch k vm s))
    (htable : ∀ c ∈ batch k vm s, ∀ d ∈ entryChain k (queueOf (s.dev k vm)) s.mem c,
      d.toNat < (queueOf (s.dev k vm)).num.toNat) {j : Nat} (hj : j ≤ passCount k vm s) :
    SameEntries k (queueOf (s.dev k vm)) (batch k vm s) s.mem (afterPasses k vm s j).mem := by
  induction j with
  | zero => exact ⟨fun _ _ => rfl, fun _ _ _ _ _ _ => rfl⟩
  | succ j ih =>
    have hc := mem_batch hact hj
    rw [← afterPasses_lastAvail] at hc
    rw [afterPasses_succ]
    exact sameEntries_pass hlayout hsteady (ih (by omega)) hc (htable _ hc)

end Batch

/-- A notify of a queue in RAM, with its published descriptors in the table and a steady
batch, stays in the block if and only if the buffers of the descriptors are in RAM. -/
theorem confined_process_iff {k : VirtioKind} {s : VHost} (hconf : T.Configured s)
    (hact : (s.dev k T.vm).active = true) (h : T.Prepared k s) :
    (∀ e ∈ newAccesses (process k T.vm) s, e.Confined T) ↔ T.BuffersInRam k s := by
  set q := queueOf (s.dev k T.vm) with hq
  have hpos : 0 < q.num.toNat := by
    have hnum := of_decide_eq_true hact
    rw [Nat.pos_iff_ne_zero]
    exact fun hz => hnum (.inr (BitVec.eq_of_toNat_eq hz))
  have hblock : ∀ x, InQueue q x → T.InBlock x := fun _ => inBlock_of_inQueue (hconf k) h.queue
  have hlayout : QueueLayout q :=
    queueLayout_of_noWrap (noWrap_of_queueInRam (hconf k) h.queue) hpos
  have hidx : (Access.load (q.avail + 2) 2).Confined T :=
    confined_of_within hblock (e := .load (q.avail + BitVec.ofNat 64 2) 2)
      (within_avail (by omega))
  rw [newAccesses_process hact, List.forall_mem_cons, and_iff_right hidx, passes, passCount,
    if_pos hact, Tenant.BuffersInRam, batch, published]
  simp only [List.forall_mem_flatMap, List.forall_mem_map, List.mem_range]
  refine forall₂_congr fun j hj => ?_
  -- pass `j` finds the entry at place `j` of the batch as it was published
  have hcount : j < passCount k T.vm s := by rwa [passCount, if_pos hact]
  have hsame := entries_kept hact hlayout h.steady h.inTable hcount.le
  have hmem := mem_batch hact hcount
  obtain ⟨hchain, -, hentry⟩ := entry_congr hpos hsame hmem (h.inTable _ hmem)
  rw [← hentry, ← afterPasses_lastAvail]
  refine confined_passAccesses_iff hblock hpos (hconf k) ?_
  rw [afterPasses_lastAvail, hchain]
  exact h.inTable _ hmem

/-! ## 5. Runs -/

theorem confined_of_notifyInRam {k : VirtioKind} {s : VHost} (hconf : T.Configured s)
    (h : T.NotifyInRam k s) : ∀ e ∈ newAccesses (process k T.vm) s, e.Confined T := by
  cases hact : (s.dev k T.vm).active with
  | false =>
    rw [newAccesses_process_of_not_active hact]
    exact fun _ he => absurd he List.not_mem_nil
  | true =>
    obtain ⟨hprep, hbuf⟩ := h hact
    exact (confined_process_iff hconf hact hprep).mpr hbuf

/-- In every run of a tenant in which each notify finds the queue and the buffers of
the published descriptors in RAM, the accesses of its devices stay in its block and no
byte outside the block changes. For a notify that is prepared up to the buffers, their
place is also what it takes. -/
theorem dma_confined {T : Tenant} {s : VHost} (h : T.Configured s) (ops : List GuestOp) :
    ((∀ p ∈ T.notifies ops s, T.NotifyInRam p.1 p.2) →
      (∀ e ∈ newAccesses (T.run ops) s, e.Confined T) ∧
        ∀ x, ¬ T.InBlock x → (T.run ops s).mem x = s.mem x) ∧
    ∀ k t, T.Configured t → (t.dev k T.vm).active = true → T.Prepared k t →
      ((∀ e ∈ newAccesses (process k T.vm) t, e.Confined T) ↔ T.BuffersInRam k t) := by
  refine ⟨fun hall => ?_, fun k t => confined_process_iff⟩
  have hnotify : ∀ p ∈ T.notifies ops s, ∀ e ∈ newAccesses (process p.1 T.vm) p.2,
      e.Confined T := fun p hp =>
    confined_of_notifyInRam (configured_notifies h p hp) (hall p hp)
  exact ⟨run_confined hnotify, fun x hx => run_mem_of_confined hx hnotify⟩

/-- Tenant 0 of the demos: 1 GiB of host memory at `0x80000000`, seen at
`0x40000000`. The block of tenant 1 begins at `0xC0000000`. -/
def tenant0 : Tenant where
  vm := 0
  ipa := 0x40000000
  pa := 0x80000000
  ipa_aligned := by decide
  pa_aligned := by decide

/-- The devices of tenant 0 after their reset; the memory is zero but for an
avail index of 1 where tenant 1 could have a queue of four entries. -/
def tenantHost : VHost where
  mem := fun a => if a = 0xC0000042 then 1 else 0
  dev := fun _ _ => { resetDev with hostOff := tenant0.off }
  vbBytes := fun _ => 0
  console := []
  log := []

/-- Set up a queue of four entries in page `pfn` for a device and notify it. -/
def queueAt (k : VirtioKind) (pfn : U64) : List GuestOp :=
  [.mmio k (storingVcpu 4) (k.base + 0x038), .mmio k (storingVcpu pfn) (k.base + 0x040),
    .mmio k (storingVcpu 0) (k.base + 0x050)]

/-- The RAM of a tenant with two queues of four entries, by its host addresses. The
console's, at `0x80000000`, has a text of two bytes to print; the disk's, at
`0x80010000`, a request to read two bytes of sector 0. -/
def preparedRam : Mem 64 := fun a =>
  match a.toNat with
  | 0x80000001 => 0x30 -- descriptor 0: two bytes at 0x40003000
  | 0x80000003 => 0x40
  | 0x80000008 => 2
  | 0x80000042 => 1 -- avail.idx, with head 0 in the ring
  | 0x80003000 => 0x68
  | 0x80003001 => 0x69
  | 0x80010001 => 0x30 -- descriptor 0: the header at 0x40013000, next is 1
  | 0x80010002 => 0x01
  | 0x80010003 => 0x40
  | 0x8001000e => 1
  | 0x80010011 => 0x40 -- descriptor 1: two bytes at 0x40014000, next is 2
  | 0x80010012 => 0x01
  | 0x80010013 => 0x40
  | 0x80010018 => 2
  | 0x8001001e => 2
  | 0x80010021 => 0x50 -- descriptor 2: the status at 0x40015000
  | 0x80010022 => 0x01
  | 0x80010023 => 0x40
  | 0x80010042 => 1 -- avail.idx, with head 0 in the ring
  | 0x80014000 => 0xff
  | 0x80015000 => 0xff
  | _ => 0

/-- The tenant fills its RAM and notifies both devices. -/
def preparedRun : List GuestOp := .ram preparedRam :: queueAt .con 0x40000 ++ queueAt .blk 0x40010

/-- The batch of the disk in `preparedRam`: header, data and status are pages apart
from each other and from the queue. -/
theorem batchSteady_prepared {s : VHost} (hb : batch .blk 0 s = [0])
    (hh : entryHeaders .blk (queueOf (s.dev .blk 0)) s.mem 0 = [(0x80013000, 16)])
    (hw : entryWrites .blk (queueOf (s.dev .blk 0)) s.mem 0 = [(0x80015000, 1), (0x80014000, 2)])
    (hq : queueOf (s.dev .blk 0) = ⟨tenant0.off, 0x80010000, 0x80010040, 0x80011000, 4⟩) :
    BatchSteady .blk (queueOf (s.dev .blk 0)) s.mem (batch .blk 0 s) := by
  have hsep : ∀ a b : U64, ∀ n k : Nat, a.toNat + n ≤ 2 ^ 64 → b.toNat + k ≤ a.toNat →
      Sep a n b k := fun a b n k ha hle => ByteMem.sep_of_le ha (by omega) (.inr hle)
  rw [hb]
  refine ⟨?_, ?_, ?_, ?_⟩ <;> simp only [List.forall_mem_singleton, hh, hw, List.forall_mem_cons]
  · rw [hq]
    exact hsep _ _ _ _ (by decide) (by decide)
  · rw [hq]
    exact ⟨hsep _ _ _ _ (by decide) (by decide), hsep _ _ _ _ (by decide) (by decide)⟩
  · rw [hq]
    exact ⟨hsep _ _ _ _ (by decide) (by decide), hsep _ _ _ _ (by decide) (by decide)⟩
  · exact ⟨hsep _ _ _ _ (by decide) (by decide), hsep _ _ _ _ (by decide) (by decide)⟩

/-- The state in which `preparedRun` notifies the console. -/
def conNotified : VHost := tenant0.run (preparedRun.take 3) tenantHost

/-- The state in which it notifies the disk. -/
def blkNotified : VHost := tenant0.run (preparedRun.take 6) tenantHost

theorem conNotified_inRam : tenant0.NotifyInRam .con conNotified := by
  have hb : batch .con tenant0.vm conNotified = [0] := by decide +kernel
  refine fun _ => ⟨⟨⟨by decide +kernel, by decide +kernel⟩, ?_, batchSteady_con⟩, ?_⟩
  · rw [hb, List.forall_mem_singleton, entryChain, List.forall_mem_singleton]
    decide +kernel
  · rw [Tenant.BuffersInRam, hb, List.forall_mem_singleton]
    exact ⟨by decide +kernel, fun hk => absurd hk (by decide)⟩

theorem blkNotified_inRam : tenant0.NotifyInRam .blk blkNotified := by
  have hb : batch .blk tenant0.vm blkNotified = [0] := by decide +kernel
  refine fun _ => ⟨⟨⟨by decide +kernel, by decide +kernel⟩, ?_,
    batchSteady_prepared hb (by decide +kernel) (by decide +kernel) (by decide +kernel)⟩, ?_⟩
  · rw [hb, List.forall_mem_singleton, entryChain, blkChain]
    simp only [List.forall_mem_cons]
    exact ⟨by decide +kernel, by decide +kernel, by decide +kernel,
      fun _ hd => absurd hd List.not_mem_nil⟩
  · rw [Tenant.BuffersInRam, hb, List.forall_mem_singleton]
    exact ⟨by decide +kernel, fun _ _ => by decide +kernel⟩

theorem notifies_preparedRun : tenant0.notifies preparedRun tenantHost =
    [(.con, conNotified), (.blk, blkNotified)] := by
  rfl

theorem prepared_notifyInRam :
    ∀ p ∈ tenant0.notifies preparedRun tenantHost, tenant0.NotifyInRam p.1 p.2 := by
  rw [notifies_preparedRun, List.forall_mem_cons, List.forall_mem_singleton]
  exact ⟨conNotified_inRam, blkNotified_inRam⟩

/-- Tenant 0 prints a text and reads its disk, and stays in its block. -/
theorem dma_confined_prepared :
    let t := tenant0.run preparedRun tenantHost
    tenant0.Configured tenantHost ∧
    (∀ p ∈ tenant0.notifies preparedRun tenantHost, tenant0.NotifyInRam p.1 p.2) ∧
    (∀ e ∈ newAccesses (tenant0.run preparedRun) tenantHost, e.Confined tenant0) ∧
    t.console = [0x68, 0x69] ∧ t.mem 0x80014000 = 0 ∧ t.mem 0x80015000 = 0 := by
  have hconf : tenant0.Configured tenantHost := fun _ => rfl
  exact ⟨hconf, prepared_notifyInRam,
    ((dma_confined hconf preparedRun).1 prepared_notifyInRam).1, by decide +kernel,
    by decide +kernel, by decide +kernel⟩

/-- With a page frame beyond its RAM, tenant 0 has its console read a queue in
the block of tenant 1 and write the used ring there. -/
theorem foreign_queue_escapes :
    ¬ (∀ e ∈ newAccesses (tenant0.run (queueAt .con 0x80000)) tenantHost, e.Confined tenant0) ∧
    (tenant0.run (queueAt .con 0x80000) tenantHost).mem 0xC0001002 = 1 ∧
    tenantHost.mem 0xC0001002 = 0 :=
  ⟨by decide +kernel, by decide +kernel, by decide⟩

end FermiHV
