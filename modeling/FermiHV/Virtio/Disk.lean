import FermiHV.Virtio.Process

/-!
# The RAM disk that `vblk_process` implements

`ramDisk` is the block device as its clients see it: a disk of `diskSize` bytes
and requests that are served when their bytes lie on it, in exact arithmetic.
`ServedExactly` says that a pass of `vblk_process` does what `ramDisk` does to
the disk of its own VM and to the guest's buffer, with every index inside the
disk and nothing of the other VM touched.

The code checks `doff + dlen <= sizeof(disk)` in 64 bits, where both the product
`sector * 512` and the sum may wrap. `SumWraps` names the requests on which that
matters; `vblk_exact_iff` says that the passes of a notify are exact if and only
if none of them serves such a request.
-/

namespace FermiHV

open ByteMem (Mem load store Covers)

/-! ## 1. The abstract device -/

abbrev Disk := Fin diskSize → U8

/-- The disk of a VM. -/
def VHost.disk (s : VHost) (vm : Fin 2) : Disk := fun i =>
  s.vbBytes (diskAddr vm (BitVec.ofNat 64 i.val))

/-- The first byte of a request on the disk. -/
def VblkReq.start (r : VblkReq) : Nat := r.sector.toNat * 512

/-- The bytes of a request lie on the disk. -/
def VblkReq.Fits (r : VblkReq) : Prop := r.start + r.dlen.toNat ≤ diskSize

instance (r : VblkReq) : Decidable r.Fits :=
  inferInstanceAs (Decidable (r.start + r.dlen.toNat ≤ diskSize))

/-- What serving a request leaves. -/
structure Served where
  status : U8
  disk : Disk
  mem : Mem 64

/-- Serve a request on a disk `d` and a guest memory `m`. -/
def ramDisk (r : VblkReq) (d : Disk) (m : Mem 64) : Served :=
  if h : r.Fits then
    if r.type = 1 then
      { status := 0
        disk := fun i =>
          if r.start ≤ i.val ∧ i.val < r.start + r.dlen.toNat then
            m (r.daddr + BitVec.ofNat 64 (i.val - r.start))
          else d i
        mem := m }
    else
      { status := 0
        disk := d
        mem := fun x =>
          if hx : Covers r.daddr r.dlen.toNat x then
            d ⟨r.start + (x - r.daddr).toNat, Nat.lt_of_lt_of_le (Nat.add_lt_add_left hx _) h⟩
          else m x }
  else { status := 1, disk := d, mem := m }

/-- The status byte that a pass from `s` stores. -/
def passStatus (vm : Fin 2) (q : Queue) (s : VHost) : U8 :=
  (vblkTransfer vm (vblkFetch vm q s).1 (vblkFetch vm q s).2).1

/-- A pass of `vblk_process` from `s` serves its request as `ramDisk` does. -/
structure ServedExactly (vm : Fin 2) (q : Queue) (s : VHost) : Prop where
  status : passStatus vm q s = (ramDisk (vblkReq vm q s) (s.disk vm) s.mem).status
  disk : (pass .blk vm q s).disk vm = (ramDisk (vblkReq vm q s) (s.disk vm) s.mem).disk
  /-- Memory changes in the data buffer, then the status byte, then the used
  ring. -/
  mem : (pass .blk vm q s).mem =
    let r := vblkReq vm q s
    let served := ramDisk r (s.disk vm) s.mem
    pushed q (r.head.setWidth 32) r.dlen (store served.mem r.saddr 1 served.status.toNat)
  index : ∀ vm' i, Access.disk vm' i ∈ newAccesses (pass .blk vm q) s →
    vm' = vm ∧ i.toNat < diskSize
  otherDisk : ∀ vm', vm' ≠ vm → (pass .blk vm q s).disk vm' = s.disk vm'
  otherDev : ∀ k vm', ¬ (k = .blk ∧ vm' = vm) → (pass .blk vm q s).dev k vm' = s.dev k vm'

/-- `sector * 512 + dlen` leaves 64 bits and is a small number again. -/
def VblkReq.SumWraps (r : VblkReq) : Prop :=
  2 ^ 64 ≤ r.start + r.dlen.toNat ∧ (r.start + r.dlen.toNat) % 2 ^ 64 ≤ diskSize

/-! ## 2. The check in 64 bits -/

theorem toNat_doff (r : VblkReq) : r.doff.toNat = r.start % 2 ^ 64 := by
  simp [VblkReq.doff, VblkReq.start, BitVec.toNat_mul]

theorem inRange_iff (r : VblkReq) :
    r.inRange = true ↔ (r.start + r.dlen.toNat) % 2 ^ 64 ≤ diskSize := by
  have hlen := r.dlen.isLt
  have hsum : (r.doff + r.dlen.setWidth 64).toNat = (r.start + r.dlen.toNat) % 2 ^ 64 := by
    rw [BitVec.toNat_add, toNat_doff, BitVec.toNat_setWidth]
    omega
  rw [VblkReq.inRange, decide_eq_true_eq, hsum]

/-- The check accepts what fits, and what wraps. -/
theorem inRange_iff_fits_or_wraps (r : VblkReq) : r.inRange = true ↔ r.Fits ∨ r.SumWraps := by
  rw [inRange_iff]
  simp only [VblkReq.Fits, VblkReq.SumWraps, diskSize]
  omega

theorem not_sumWraps_of_fits {r : VblkReq} (h : r.Fits) : ¬ r.SumWraps := by
  intro hw
  have := hw.1
  simp only [VblkReq.Fits, diskSize] at h
  omega

theorem doff_of_fits {r : VblkReq} (h : r.Fits) : r.doff.toNat = r.start := by
  rw [toNat_doff]
  simp only [VblkReq.Fits, diskSize] at h
  omega

/-- The indices of a request that the check accepts are on the disk if and only if
its sum does not wrap. -/
theorem onDisk_iff {r : VblkReq} (hr : r.inRange = true) :
    (∀ i < r.dlen.toNat, (r.doff + BitVec.ofNat 64 i).toNat < diskSize) ↔
      r.doff.toNat + r.dlen.toNat < 2 ^ 64 := by
  have hlen := r.dlen.isLt
  have hoff := r.doff.isLt
  have hsum : (r.doff.toNat + r.dlen.toNat) % 2 ^ 64 ≤ 8192 := by
    have hsum := of_decide_eq_true hr
    rw [BitVec.toNat_add, BitVec.toNat_setWidth, Nat.mod_eq_of_lt (by omega : r.dlen.toNat < _)]
      at hsum
    exact hsum
  have hindex : ∀ i < r.dlen.toNat,
      (r.doff + BitVec.ofNat 64 i).toNat = (r.doff.toNat + i) % 2 ^ 64 := by
    intro i hi
    rw [BitVec.toNat_add, BitVec.toNat_ofNat, Nat.mod_eq_of_lt (by omega : i < 2 ^ 64)]
  constructor
  · intro h
    by_contra hwrap
    have hfirst := h 0 (by omega)
    rw [hindex 0 (by omega)] at hfirst
    simp only [diskSize] at hfirst
    omega
  · intro h i hi
    rw [hindex i hi]
    simp only [diskSize]
    omega

/-! ## 3. Where the disks are -/

theorem toNat_diskAddr (vm : Fin 2) {i : U64} (hi : i.toNat < 2 ^ 63) :
    (diskAddr vm i).toNat = 8232 * vm.val + 40 + i.toNat := by
  have hvm := vm.isLt
  simp only [diskAddr, vblkStride, diskField, BitVec.toNat_add, BitVec.toNat_ofNat]
  omega

theorem toNat_diskAddr_index (vm : Fin 2) (i : Fin diskSize) :
    (diskAddr vm (BitVec.ofNat 64 i.val)).toNat = 8232 * vm.val + 40 + i.val := by
  have hi : i.val < 8192 := i.isLt
  have hn : (BitVec.ofNat 64 i.val).toNat = i.val := by
    rw [BitVec.toNat_ofNat]
    omega
  rw [toNat_diskAddr vm (by omega), hn]

/-- The bytes of a request that fits, among the bytes of all disks. -/
theorem covers_diskAddr_iff {vm vm' : Fin 2} {r : VblkReq} (h : r.Fits) (i : Fin diskSize) :
    Covers (diskAddr vm r.doff) r.dlen.toNat (diskAddr vm' (BitVec.ofNat 64 i.val)) ↔
      vm' = vm ∧ r.start ≤ i.val ∧ i.val < r.start + r.dlen.toNat := by
  have hfit : r.start + r.dlen.toNat ≤ 8192 := h
  have hi : i.val < 8192 := i.isLt
  have hoff := doff_of_fits h
  have hvm := vm.isLt
  have hvm' := vm'.isLt
  have hbase := toNat_diskAddr vm (i := r.doff) (by omega)
  rw [ByteMem.covers_iff (by omega), hbase, hoff, toNat_diskAddr_index, Fin.ext_iff]
  omega

/-! ## 4. One pass -/

variable {vm : Fin 2} {q : Queue} {s : VHost}

theorem passStatus_eq : passStatus vm q s = (vblkReq vm q s).status := by
  rw [passStatus, vblkTransfer_run]
  rfl

/-- The disk accesses of a pass are those of the data loop. -/
theorem disk_mem_newAccesses {vm' : Fin 2} {i : U64}
    (h : Access.disk vm' i ∈ newAccesses (pass .blk vm q) s) :
    vm' = vm ∧ (vblkReq vm q s).inRange = true ∧
      ∃ j < (vblkReq vm q s).dlen.toNat, i = (vblkReq vm q s).doff + BitVec.ofNat 64 j := by
  rw [newAccesses_pass] at h
  have hm : Access.disk vm' i ∈ moveAccesses vm (vblkReq vm q s) := by
    simpa [passAccesses, vblkAccesses, vblkFetchAccesses, pushAccesses] using h
  by_cases hr : (vblkReq vm q s).inRange = true
  · rw [moveAccesses, if_pos hr] at hm
    obtain ⟨j, hj, hmem⟩ := List.mem_flatMap.mp hm
    have hcase : vm' = vm ∧ i = (vblkReq vm q s).doff + BitVec.ofNat 64 j := by
      split_ifs at hmem <;> simpa using hmem
    exact ⟨hcase.1, hr, j, List.mem_range.mp hj, hcase.2⟩
  · rw [moveAccesses, if_neg hr] at hm
    exact absurd hm List.not_mem_nil

/-- What a disk holds after a pass. -/
theorem disk_pass (vm' : Fin 2) : (pass .blk vm q s).disk vm' =
    fun i => movedDisks vm (vblkReq vm q s) s (diskAddr vm' (BitVec.ofNat 64 i.val)) := by
  simp only [pass, vblkPass_run]
  rfl

theorem movedDisks_of_fits {r : VblkReq} (h : r.Fits) :
    (fun i : Fin diskSize => movedDisks vm r s (diskAddr vm (BitVec.ofNat 64 i.val))) =
      (ramDisk r (s.disk vm) s.mem).disk := by
  have hr : r.inRange = true := (inRange_iff_fits_or_wraps r).mpr (.inl h)
  funext i
  by_cases ht : r.type = 1
  · simp only [movedDisks, ramDisk, hr, h, ht, true_and, if_true, dif_pos, ByteMem.copy,
      covers_diskAddr_iff h]
    split_ifs with hi
    · have hoff := doff_of_fits h
      have hbound : i.val < 8192 := i.isLt
      have hdist : diskAddr vm (BitVec.ofNat 64 i.val) - diskAddr vm r.doff =
          BitVec.ofNat 64 (i.val - r.start) := by
        simp only [diskAddr]
        bv_omega
      rw [hdist]
    · rfl
  · simp only [movedDisks, ramDisk, h, dif_pos, and_false, if_false, ht, VHost.disk]

theorem movedMem_of_fits {r : VblkReq} (h : r.Fits) :
    movedMem vm r s = (ramDisk r (s.disk vm) s.mem).mem := by
  have hr : r.inRange = true := (inRange_iff_fits_or_wraps r).mpr (.inl h)
  by_cases ht : r.type = 1
  · simp only [movedMem, ramDisk, h, dif_pos, ht, if_true, not_true, and_false, if_false, ne_eq]
  · funext x
    simp only [movedMem, ramDisk, hr, h, dif_pos, ne_eq, ht, not_false_iff, true_and, if_true,
      if_false, ByteMem.copy, VHost.disk]
    split_ifs with hx
    · have hoff := doff_of_fits h
      have hpos : diskAddr vm r.doff + (x - r.daddr) =
          diskAddr vm (BitVec.ofNat 64 (r.start + (x - r.daddr).toNat)) := by
        simp only [diskAddr]
        bv_omega
      rw [hpos]
    · rfl

theorem status_of_fits {r : VblkReq} (h : r.Fits) (d : Disk) (m : Mem 64) :
    (ramDisk r d m).status = 0 := by
  by_cases ht : r.type = 1 <;> simp only [ramDisk, h, dif_pos, ht, if_true, if_false]

theorem ramDisk_of_not_fits {r : VblkReq} (h : ¬ r.Fits) (d : Disk) (m : Mem 64) :
    ramDisk r d m = { status := 1, disk := d, mem := m } := by
  simp only [ramDisk, dif_neg h]

theorem pass_mem : (pass .blk vm q s).mem =
    pushed q ((vblkReq vm q s).head.setWidth 32) (vblkReq vm q s).dlen
      (statusMem vm (vblkReq vm q s) s) := by
  simp only [pass, vblkPass_run]

theorem servedExactly_of_fits (h : (vblkReq vm q s).Fits) : ServedExactly vm q s where
  status := by
    have hr := (inRange_iff_fits_or_wraps _).mpr (.inl h)
    rw [passStatus_eq, status_of_fits h, VblkReq.status, if_pos hr]
  disk := by rw [disk_pass, movedDisks_of_fits h]
  mem := by
    have hr := (inRange_iff_fits_or_wraps _).mpr (.inl h)
    simp only [pass_mem, statusMem, VblkReq.status, if_pos hr, movedMem_of_fits h,
      status_of_fits h]
  index := by
    intro vm' i hi
    obtain ⟨hvm, -, j, hj, rfl⟩ := disk_mem_newAccesses hi
    have hoff := doff_of_fits h
    simp only [VblkReq.Fits, diskSize] at h
    refine ⟨hvm, ?_⟩
    rw [BitVec.toNat_add, BitVec.toNat_ofNat, hoff, diskSize]
    omega
  otherDisk := by
    intro vm' hne
    rw [disk_pass]
    funext i
    have hout : ¬ Covers (diskAddr vm (vblkReq vm q s).doff) (vblkReq vm q s).dlen.toNat
        (diskAddr vm' (BitVec.ofNat 64 i.val)) := fun hc =>
      hne ((covers_diskAddr_iff h i).mp hc).1
    simp only [movedDisks]
    split_ifs
    · exact ByteMem.copy_of_not_covers hout
    · rfl
  otherDev := fun _ _ => pass_dev_of_ne

theorem servedExactly_of_rejected (hfit : ¬ (vblkReq vm q s).Fits)
    (hr : (vblkReq vm q s).inRange = false) : ServedExactly vm q s where
  status := by
    rw [passStatus_eq, ramDisk_of_not_fits hfit, VblkReq.status, hr]
    rfl
  disk := by
    rw [disk_pass, ramDisk_of_not_fits hfit]
    simp only [movedDisks, hr, Bool.false_eq_true, false_and, if_false]
    rfl
  mem := by
    simp only [pass_mem, ramDisk_of_not_fits hfit, statusMem, movedMem, hr, VblkReq.status,
      Bool.false_eq_true, false_and, if_false]
  index := by
    intro vm' i hi
    obtain ⟨-, hacc, -⟩ := disk_mem_newAccesses hi
    rw [hr] at hacc
    exact absurd hacc Bool.false_ne_true
  otherDisk := by
    intro vm' _
    rw [disk_pass]
    simp only [movedDisks, hr, Bool.false_eq_true, false_and, if_false]
    rfl
  otherDev := fun _ _ => pass_dev_of_ne

/-- A pass is exact unless the sum of its request wraps. -/
theorem servedExactly_iff : ServedExactly vm q s ↔ ¬ (vblkReq vm q s).SumWraps := by
  constructor
  · intro hex hw
    have hfit : ¬ (vblkReq vm q s).Fits := fun hf => not_sumWraps_of_fits hf hw
    have hr := (inRange_iff_fits_or_wraps (vblkReq vm q s)).mpr (.inr hw)
    -- the code stores status 0 where the device must store 1
    have hst := hex.status
    rw [passStatus_eq, ramDisk_of_not_fits hfit, VblkReq.status, if_pos hr] at hst
    exact absurd (show (0 : U8) = 1 from hst) (by decide)
  · intro hw
    by_cases hfit : (vblkReq vm q s).Fits
    · exact servedExactly_of_fits hfit
    · refine servedExactly_of_rejected hfit ?_
      rw [← Bool.not_eq_true, inRange_iff_fits_or_wraps]
      rintro (hf | hw')
      · exact hfit hf
      · exact hw hw'

/-! ## 5. A notify -/

/-- `vblk_process` runs the listed passes, and all of them are exact if and only
if none serves a request whose `sector * 512 + dlen` wraps into the range of the
disk. -/
theorem vblk_exact_iff (vm : Fin 2) (s : VHost) :
    ((s.dev .blk vm).active = true →
      vblkProcess vm s = afterPasses .blk vm s (passes .blk vm s).length) ∧
    ((∀ t ∈ passes .blk vm s, ServedExactly vm (queueOf (s.dev .blk vm)) t) ↔
      ∀ t ∈ passes .blk vm s, ¬ (vblkReq vm (queueOf (s.dev .blk vm)) t).SumWraps) := by
  refine ⟨fun hact => ?_, forall₂_congr fun t _ => servedExactly_iff⟩
  rw [passes, List.length_map, List.length_range]
  exact vblkProcess_eq hact

/-- A guest memory that holds one write request of 512 bytes for sector
`2^55 - 1`, whose byte offset is `2^64 - 512`. The queue of four entries is at
`0x1000`, the header at `0x3000`, the data at `0x4000`, the status at `0x5000`. -/
def wrapMem : Mem 64 := fun a =>
  match a.toNat with
  | 0x1001 => 0x30 -- descriptor 0: the header, next is 1
  | 0x100e => 1
  | 0x1011 => 0x40 -- descriptor 1: 512 bytes of data, next is 2
  | 0x1019 => 2
  | 0x101e => 2
  | 0x1021 => 0x50 -- descriptor 2: the status
  | 0x1042 => 1 -- avail.idx, with head 0 in the ring
  | 0x3000 => 1 -- type: write
  | 0x3008 | 0x3009 | 0x300a | 0x300b | 0x300c | 0x300d => 0xff
  | 0x300e => 0x7f
  | 0x4000 => 0xaa
  | _ => 0

/-- VM 1 has set up that queue; both disks are zero. -/
def wrapHost : VHost where
  mem := wrapMem
  dev := fun _ _ => { resetDev with queueNum := 4, queuePfn := 1 }
  vbBytes := fun _ => 0
  console := []
  log := []

/-- The request is accepted although it lies far outside the disk, and it is
the other VM's disk that the data lands on. -/
theorem wrapped_request_is_served :
    ¬ (∀ t ∈ passes .blk 1 wrapHost, ServedExactly 1 (queueOf (wrapHost.dev .blk 1)) t) ∧
    (vblkProcess 1 wrapHost).disk 0 ⟨7720, by decide⟩ = 0xaa ∧
    wrapHost.disk 0 ⟨7720, by decide⟩ = 0 := by
  have hact : (wrapHost.dev .blk 1).active = true := by decide
  have hcount : passCount .blk 1 wrapHost = 1 := by decide +kernel
  refine ⟨fun hall => ?_, ?_, rfl⟩
  · have hmem : queueStart .blk 1 wrapHost ∈ passes .blk 1 wrapHost := by
      rw [passes, hcount]
      exact List.mem_singleton.mpr rfl
    refine servedExactly_iff.mp (hall _ hmem) ?_
    unfold VblkReq.SumWraps
    decide +kernel
  · rw [vblkProcess_eq hact, hcount, afterPasses, Function.iterate_one, disk_pass]
    decide +kernel

end FermiHV
