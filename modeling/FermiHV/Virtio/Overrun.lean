import FermiHV.Virtio.Disk
import FermiHV.Virtio.Reinit
import FermiHV.Virtio.Tenants

/-!
# `vb[]` as it lies in memory

`struct vblk` holds the registers of a block device and behind them its disk. `VHost` keeps
the registers apart from the bytes of the array, which is right as long as every index
into a disk is on the disk. A request whose sum wraps starts before the disk, and the
check accepts it; a write of that kind overwrites the registers on its way.

Here the registers are fields of the array `vb`, in the bytes that `VHost.vbBytes` has for
them, and are read back from there. What lies before the array in memory is not
modelled; its bytes are those at the offsets below zero.

* `VbField`, `vbDev`: the layout of `struct vblk`.
* `flatPass`, `flatProcess`, `flatWrite`: `vblk_process` and the register writes of
  `vblk_mmio` on the flat array. The loop need not end, since a request can move
  `last_avail`; `flatProcess` makes as many passes as it is given fuel for.
* `overrun_sets_registers`: a write that wraps leaves bytes of the guest's buffer in every
  register of its device.
* `flat_run_agrees`: in a run in which no request wraps the two models agree.
-/

namespace FermiHV

open ByteMem (Mem load store Covers Sep)

/-! ## 1. The layout of `struct vblk` -/

/-- The fields before the disk. -/
inductive VbField
  | status
  | pageSize
  | queueNum
  | queuePfn
  | intStatus
  | lastAvail
  | irq
  | hostOff
deriving DecidableEq

namespace VbField

/-- `irq` and `host_off` are aligned to their sizes. -/
def offset : VbField → Nat
  | .status => 0
  | .pageSize => 4
  | .queueNum => 8
  | .queuePfn => 12
  | .intStatus => 16
  | .lastAvail => 20
  | .irq => 24
  | .hostOff => 32

def size : VbField → Nat
  | .lastAvail => 2
  | .hostOff => 8
  | .status | .pageSize | .queueNum | .queuePfn | .intStatus | .irq => 4

/-- The field of the `struct vblk` at `a`. -/
def readAt (f : VbField) (a : U64) (m : Mem 64) : Nat :=
  load m (a + BitVec.ofNat 64 f.offset) f.size

end VbField

/-- The registers of the `struct vblk` at `a`. -/
def devAt (a : U64) (m : Mem 64) : VirtioDev where
  status := BitVec.ofNat 32 (VbField.status.readAt a m)
  pageSize := BitVec.ofNat 32 (VbField.pageSize.readAt a m)
  queueNum := BitVec.ofNat 32 (VbField.queueNum.readAt a m)
  queuePfn := BitVec.ofNat 32 (VbField.queuePfn.readAt a m)
  intStatus := BitVec.ofNat 32 (VbField.intStatus.readAt a m)
  lastAvail := BitVec.ofNat 16 (VbField.lastAvail.readAt a m)
  irq := decide (VbField.irq.readAt a m ≠ 0)
  hostOff := BitVec.ofNat 64 (VbField.hostOff.readAt a m)

/-- Where `vb[vm]` is in the array. -/
def vbAddr (vm : Fin 2) : U64 := BitVec.ofNat 64 (vblkStride * vm.val)

/-- The registers of `vb[vm]`, from the bytes of the array. -/
def vbDev (vm : Fin 2) (m : Mem 64) : VirtioDev := devAt (vbAddr vm) m

namespace VbField

/-- Where the field of `vb[vm]` is. -/
def addr (f : VbField) (vm : Fin 2) : U64 := vbAddr vm + BitVec.ofNat 64 f.offset

/-- Assign to the field of `vb[vm]`. -/
def write (f : VbField) (vm : Fin 2) (v : Nat) (m : Mem 64) : Mem 64 := store m (f.addr vm) f.size v

end VbField

/-- The registers with one field set. -/
def VirtioDev.setField (d : VirtioDev) (f : VbField) (v : Nat) : VirtioDev :=
  match f with
  | .status => { d with status := BitVec.ofNat 32 v }
  | .pageSize => { d with pageSize := BitVec.ofNat 32 v }
  | .queueNum => { d with queueNum := BitVec.ofNat 32 v }
  | .queuePfn => { d with queuePfn := BitVec.ofNat 32 v }
  | .intStatus => { d with intStatus := BitVec.ofNat 32 v }
  | .lastAvail => { d with lastAvail := BitVec.ofNat 16 v }
  | .irq => { d with irq := decide (v % 2 ^ 32 ≠ 0) }
  | .hostOff => { d with hostOff := BitVec.ofNat 64 v }

/-! ## 2. `vblk_process` and `vblk_mmio` on the flat array -/

/-- The registers of the block devices are those in the array. -/
def VHost.readBack (s : VHost) : VHost :=
  { s with
    dev := fun k vm =>
      match k with
      | .con => s.dev .con vm
      | .blk => vbDev vm s.vbBytes }

/-- Assign to a field of `vb[vm]`. -/
def setField (vm : Fin 2) (f : VbField) (v : Nat) : DevM Unit := fun s =>
  ((), ({ s with vbBytes := f.write vm v s.vbBytes } : VHost).readBack)

/-- The registers of `vb[vm]` as they are now. -/
def getVb (vm : Fin 2) : DevM VirtioDev := fun s => (s.dev .blk vm, s)

/-- Move the data of a request; the registers may be among what is written. -/
def flatTransfer (vm : Fin 2) (r : VblkReq) : DevM U8 := do
  let st ← vblkTransfer vm r
  modify VHost.readBack
  return st

/-- The body of the loop of `vblk_process`. The addresses of the queue are locals, its
size is read on each use. -/
def flatPass (vm : Fin 2) (q : Queue) : DevM Unit := do
  let r ← vblkFetch vm { q with num := (← getVb vm).queueNum }
  let st ← flatTransfer vm r
  store8 r.saddr st
  usedPush { q with num := (← getVb vm).queueNum } (r.head.setWidth 32) r.dlen
  setField vm .lastAvail ((← getVb vm).lastAvail + 1).toNat
  setField vm .intStatus ((← getVb vm).intStatus ||| 1).toNat
  setField vm .irq 1

/-- The `while` loop of `vblk_process`, for at most so many passes. -/
def flatLoop (vm : Fin 2) (q : Queue) (a : U16) : Nat → VHost → Option VHost
  | 0, s => if behind .blk vm a s then none else some s
  | n + 1, s => if behind .blk vm a s then flatLoop vm q a n (flatPass vm q s).2 else some s

/-- `vblk_process`, for at most so many passes. -/
def flatProcess (vm : Fin 2) (fuel : Nat) (s : VHost) : Option VHost :=
  let b := s.dev .blk vm
  if b.queuePfn = 0 ∨ b.queueNum = 0 then some s
  else
    let q := queueOf b
    let (availIdx, s0) := load16 (q.avail + 2) s
    flatLoop vm q availIdx fuel s0

/-- `vblk_process` returns with the array as in `t`. -/
def FlatEnds (vm : Fin 2) (s t : VHost) : Prop := ∃ fuel, flatProcess vm fuel s = some t

/-- A register write of `vblk_mmio` at offset `off`. -/
def flatWrite (vm : Fin 2) (off : U64) (val : U32) (s t : VHost) : Prop :=
  if off = 0x028 then t = (setField vm .pageSize val.toNat s).2
  else if off = 0x038 then t = (setField vm .queueNum val.toNat s).2
  else if off = 0x040 then t = (setField vm .queuePfn val.toNat s).2
  else if off = 0x070 then t = (setField vm .status val.toNat s).2
  else if off = 0x064 then
    t = (setField vm .intStatus ((s.dev .blk vm).intStatus &&& ~~~val).toNat s).2
  else if off = 0x050 then FlatEnds vm s t
  else t = s

/-- What an access to `vblk_mmio` leaves. -/
def flatMmio (vm : Fin 2) (v : Vcpu) (ipa : U64) (s t : VHost) : Prop :=
  let iss := esrIss v.exitEsr
  if issIsv iss = true ∧ issWnr iss = true then
    flatWrite vm (ipa - VirtioKind.base .blk) ((v.getX (issSrt iss)).setWidth 32) s t
  else t = s

/-- One operation on the devices. -/
def flatStep (op : VirtioOp) (s t : VHost) : Prop :=
  match op with
  | .ram mem => t = { s with mem }
  | .access .con vm v ipa => t = (mmio .con vm v ipa s).2
  | .access .blk vm v ipa => flatMmio vm v ipa s t
  | .takeIrq .con vm => t = (takeIrq .con vm s).2
  | .takeIrq .blk vm => t = if (s.dev .blk vm).irq then (setField vm .irq 0 s).2 else s

/-- The operations one after the other. -/
def flatRun : List VirtioOp → VHost → VHost → Prop
  | [], s, t => t = s
  | op :: ops, s, t => ∃ u, flatStep op s u ∧ flatRun ops u t

/-! ## 3. Fields -/

namespace VbField

theorem toNat_addr (f : VbField) (vm : Fin 2) :
    (f.addr vm).toNat = 8232 * vm.val + f.offset ∧ f.offset + f.size ≤ 40 ∧ 0 < f.size := by
  have hvm := vm.isLt
  have hoff : f.offset + f.size ≤ 40 ∧ 0 < f.size := by cases f <;> decide
  refine ⟨?_, hoff⟩
  rw [addr, vbAddr, BitVec.toNat_add, BitVec.toNat_ofNat, BitVec.toNat_ofNat]
  simp only [vblkStride]
  omega

/-- Two fields do not overlap. -/
theorem offset_sep {f f' : VbField} (h : f ≠ f') :
    f.offset + f.size ≤ f'.offset ∨ f'.offset + f'.size ≤ f.offset := by
  cases f <;> cases f' <;> first | exact absurd rfl h | decide

theorem sep {f f' : VbField} {vm vm' : Fin 2} (h : ¬ (f' = f ∧ vm' = vm)) :
    Sep (f'.addr vm') f'.size (f.addr vm) f.size := by
  obtain ⟨haddr, hle, -⟩ := f.toNat_addr vm
  obtain ⟨haddr', hle', -⟩ := f'.toNat_addr vm'
  have hvm := vm.isLt
  have hvm' := vm'.isLt
  refine ByteMem.sep_of_le (by omega) (by omega) ?_
  by_cases hv : vm' = vm
  · subst hv
    have hne : f' ≠ f := fun he => h ⟨he, rfl⟩
    rcases offset_sep hne with hlt | hlt
    · left
      omega
    · right
      omega
  · have hval : vm'.val ≠ vm.val := fun he => hv (Fin.ext he)
    omega

theorem read_write_self (f : VbField) (vm : Fin 2) (v : Nat) (m : Mem 64) :
    f.readAt (vbAddr vm) (f.write vm v m) = v % 2 ^ (8 * f.size) := by
  rw [Nat.pow_mul]
  exact ByteMem.load_store_self m _ v (by cases f <;> decide)

theorem read_write_of_ne {f f' : VbField} {vm vm' : Fin 2} (h : ¬ (f' = f ∧ vm' = vm)) (v : Nat)
    (m : Mem 64) : f'.readAt (vbAddr vm') (f.write vm v m) = f'.readAt (vbAddr vm') m :=
  ByteMem.load_store_sep (by cases f' <;> decide) (sep h)

end VbField

/-- The registers are those of memories that have the same bytes in the fields. -/
theorem vbDev_congr {vm : Fin 2} {m m' : Mem 64}
    (h : ∀ (f : VbField) x, Covers (f.addr vm) f.size x → m' x = m x) :
    vbDev vm m' = vbDev vm m := by
  have hread : ∀ f : VbField, f.readAt (vbAddr vm) m' = f.readAt (vbAddr vm) m := fun f =>
    ByteMem.load_congr fun _ hi =>
      h f _ (ByteMem.covers_ofNat _ hi (by cases f <;> decide))
  simp only [vbDev, devAt, hread]

theorem vbDev_write_self (vm : Fin 2) (f : VbField) (v : Nat) (m : Mem 64) :
    vbDev vm (f.write vm v m) = (vbDev vm m).setField f v := by
  have hself := VbField.read_write_self f vm v m
  have hother : ∀ f', f' ≠ f →
      f'.readAt (vbAddr vm) (f.write vm v m) = f'.readAt (vbAddr vm) m := fun f' hne =>
    VbField.read_write_of_ne (fun h => hne h.1) v m
  have hmod : ∀ w, BitVec.ofNat w (v % 2 ^ w) = BitVec.ofNat w v := fun w =>
    BitVec.eq_of_toNat_eq (by simp)
  cases f <;> simp only [vbDev, devAt, VirtioDev.setField, hself, hother, ne_eq, reduceCtorEq,
    not_false_iff, VbField.size, Nat.reduceMul, hmod]

theorem vbDev_write_of_ne {vm vm' : Fin 2} (hvm : vm' ≠ vm) (f : VbField) (v : Nat) (m : Mem 64) :
    vbDev vm' (f.write vm v m) = vbDev vm' m :=
  vbDev_congr fun _ x hx => ByteMem.store_of_not_covers fun hc =>
    VbField.sep (fun h => hvm h.2) x hx hc

/-- A byte of a disk is in no field. -/
theorem not_covers_field {vm vm' : Fin 2} {i : U64} (hi : i.toNat < diskSize) (f : VbField) :
    ¬ Covers (f.addr vm) f.size (diskAddr vm' i) := by
  obtain ⟨haddr, hle, -⟩ := f.toNat_addr vm
  have hvm := vm.isLt
  have hvm' := vm'.isLt
  simp only [diskSize] at hi
  rw [ByteMem.covers_iff (by omega), toNat_diskAddr vm' (by omega), haddr]
  omega

/-! ## 4. The registers that a request overwrites -/

/-- The check accepts the request although its sum wraps, so that its indices begin
before the disk. -/
def VblkReq.Overruns (r : VblkReq) : Prop :=
  r.inRange = true ∧ 2 ^ 64 ≤ r.doff.toNat + r.dlen.toNat

instance (r : VblkReq) : Decidable r.Overruns :=
  inferInstanceAs (Decidable (r.inRange = true ∧ 2 ^ 64 ≤ r.doff.toNat + r.dlen.toNat))

/-- The start of a request that overruns is at least a sector before the disk. -/
theorem VblkReq.Overruns.doff {r : VblkReq} (h : r.Overruns) :
    2 ^ 64 - 2 ^ 32 < r.doff.toNat ∧ r.doff.toNat ≤ 2 ^ 64 - 512 := by
  have hlen := r.dlen.isLt
  have hsum := h.2
  have hlt := r.doff.isLt
  have hmul : r.doff.toNat % 512 = 0 := by
    rw [toNat_doff, VblkReq.start]
    omega
  omega

/-- A write that wraps leaves the registers as the guest's buffer has them, just before
the byte for the start of the disk. -/
theorem overrun_vbDev {vm : Fin 2} {r : VblkReq} {s : VHost} (h : r.Overruns) (hw : r.type = 1) :
    vbDev vm (movedDisks vm r s) = devAt (r.daddr - r.doff - BitVec.ofNat 64 diskField) s.mem := by
  have hread : ∀ f : VbField, f.readAt (vbAddr vm) (movedDisks vm r s) =
      f.readAt (r.daddr - r.doff - BitVec.ofNat 64 diskField) s.mem := by
    intro f
    obtain ⟨haddr, hle, -⟩ := f.toNat_addr vm
    obtain ⟨hlo, hhi⟩ := h.doff
    have hvm := vm.isLt
    have hsum := h.2
    have hdisk : (diskAddr vm r.doff).toNat = (8232 * vm.val + 40 + r.doff.toNat) % 2 ^ 64 := by
      simp only [diskAddr, vblkStride, diskField, BitVec.toNat_add, BitVec.toNat_ofNat]
      omega
    have hplace : r.daddr + (f.addr vm - diskAddr vm r.doff) =
        r.daddr - r.doff - BitVec.ofNat 64 diskField + BitVec.ofNat 64 f.offset := by
      have hbase : BitVec.ofNat 64 (vblkStride * vm.val + diskField) =
          vbAddr vm + BitVec.ofNat 64 diskField := BitVec.ofNat_add _ _
      rw [VbField.addr, diskAddr, hbase]
      simp only [BitVec.sub_eq_add_neg, BitVec.neg_add]
      ring
    rw [movedDisks, if_pos ⟨h.1, hw⟩, VbField.readAt, VbField.readAt, ← hplace]
    refine ByteMem.load_copy fun i hi => ?_
    change Covers _ _ (f.addr vm + _)
    rw [Covers, BitVec.toNat_sub, BitVec.toNat_add, haddr, hdisk, BitVec.toNat_ofNat]
    omega
  simp only [vbDev, devAt, hread]

/-! ## 5. A pass in closed form -/

/-- The array at the end of a pass: `last_avail++`, `int_status |= 1`, `irq = 1`. -/
def vbFinished (vm : Fin 2) (m : Mem 64) : Mem 64 :=
  let b := vbDev vm m
  VbField.irq.write vm 1 (VbField.intStatus.write vm (b.intStatus ||| 1).toNat
    (VbField.lastAvail.write vm (b.lastAvail + 1).toNat m))

section Pass

variable {vm : Fin 2} {q : Queue} {s : VHost}

/-- The request that a pass on the flat array serves. -/
def flatReq (vm : Fin 2) (q : Queue) (s : VHost) : VblkReq :=
  vblkReq vm { q with num := (s.dev .blk vm).queueNum } s

/-- A pass on the flat array is one on separate registers, with the registers as the
transfer has left them from the used ring on. -/
theorem flatPass_run : (flatPass vm q s).2 =
    let q₁ := { q with num := (s.dev .blk vm).queueNum }
    let r := flatReq vm q s
    let disks := movedDisks vm r s
    let q₂ := { q with num := (vbDev vm disks).queueNum }
    ({ s with
      mem := pushed q₂ (r.head.setWidth 32) r.dlen (statusMem vm r s)
      vbBytes := vbFinished vm disks
      log := s.log ++ (vblkFetchAccesses vm q₁ s ++ moveAccesses vm r ++ [.store r.saddr 1] ++
        pushAccesses q₂ (statusMem vm r s)) } : VHost).readBack := by
  have hint : ∀ m v, (vbDev vm (VbField.lastAvail.write vm v m)).intStatus =
      (vbDev vm m).intStatus := fun m v => by rw [vbDev_write_self]; rfl
  have hlog : ∀ r l, movedDisks vm r { s with log := l } = movedDisks vm r s ∧
      movedMem vm r { s with log := l } = movedMem vm r s := fun _ _ => ⟨rfl, rfl⟩
  simp only [flatPass, bind_run, getVb, vblkFetch_run, flatTransfer, vblkTransfer_run, hlog]
  simp [store8, storeN, VHost.note, usedPush_run, setField, VHost.readBack, modify, modifyGet,
    MonadStateOf.modifyGet, StateT.modifyGet, pure, StateT.pure, vbFinished, hint,
    flatReq, statusMem]

end Pass

/-- A write to InterruptACK clears bits of InterruptStatus. -/
theorem intStatus_of_ack (vm : Fin 2) (val : U32) {s t : VHost} (h : flatWrite vm 0x064 val s t) :
    (t.dev .blk vm).intStatus = (s.dev .blk vm).intStatus &&& ~~~val := by
  have hset : t = (setField vm .intStatus ((s.dev .blk vm).intStatus &&& ~~~val).toNat s).2 := h
  have hdev : t.dev .blk vm = (vbDev vm s.vbBytes).setField .intStatus
      ((s.dev .blk vm).intStatus &&& ~~~val).toNat := by
    rw [hset]
    exact vbDev_write_self vm _ _ _
  rw [hdev, VirtioDev.setField, BitVec.ofNat_toNat, BitVec.setWidth_eq]

section Console

variable {vm : Fin 2} {q : Queue} {s t : VHost}

/-- The disks leave the registers of the consoles. -/
theorem flatLoop_con {a : U16} {n : Nat} (h : flatLoop vm q a n s = some t) :
    t.dev .con = s.dev .con := by
  induction n generalizing s with
  | zero =>
    rw [flatLoop] at h
    split_ifs at h
    rw [← Option.some.inj h]
  | succ n ih =>
    rw [flatLoop] at h
    split_ifs at h
    · rw [ih h, flatPass_run]
      rfl
    · rw [← Option.some.inj h]

theorem flatEnds_con (h : FlatEnds vm s t) : t.dev .con = s.dev .con := by
  obtain ⟨fuel, h⟩ := h
  rw [flatProcess] at h
  split_ifs at h
  · rw [← Option.some.inj h]
  · have hloop : flatLoop vm (queueOf (s.dev .blk vm)) (availIdx (queueOf (s.dev .blk vm)) s.mem)
        fuel (queueStart .blk vm s) = some t := h
    have hcon : t.dev .con = (queueStart .blk vm s).dev .con := flatLoop_con hloop
    exact hcon

theorem flatMmio_con {v : Vcpu} {ipa : U64} (h : flatMmio vm v ipa s t) :
    t.dev .con = s.dev .con := by
  simp only [flatMmio, flatWrite] at h
  split_ifs at h
  · rw [h]
    rfl
  · rw [h]
    rfl
  · rw [h]
    rfl
  · rw [h]
    rfl
  · rw [h]
    rfl
  · exact flatEnds_con h
  · rw [h]
  · rw [h]

end Console

/-! ## 6. Requests on the disk -/

/-- `s` has the fields of `vb[]` in the array, `t` has them apart. -/
structure FlatAgrees (s t : VHost) : Prop where
  same : s = { t with vbBytes := s.vbBytes }
  disk : ∀ vm, s.disk vm = t.disk vm
  fields : ∀ vm, vbDev vm s.vbBytes = t.dev .blk vm

section Agrees

variable {vm : Fin 2} {q : Queue} {s t : VHost} {m : Mem 64}

theorem disk_byte (h : s.disk vm = t.disk vm) {i : U64} (hi : i.toNat < diskSize) :
    s.vbBytes (diskAddr vm i) = t.vbBytes (diskAddr vm i) := by
  have hbyte := congrFun h ⟨i.toNat, hi⟩
  simp only [VHost.disk, BitVec.ofNat_toNat, BitVec.setWidth_eq] at hbyte
  exact hbyte

/-- The indices of a request that the check accepts and that does not overrun. -/
theorem onDisk_of_not_overruns {r : VblkReq} (h : ¬ r.Overruns) (hr : r.inRange = true) :
    ∀ i < r.dlen.toNat, (r.doff + BitVec.ofNat 64 i).toNat < diskSize :=
  (onDisk_iff hr).mpr (not_le.mp fun hle => h ⟨hr, hle⟩)

theorem vbDev_movedDisks {r : VblkReq} (h : ¬ r.Overruns) (vm' : Fin 2) :
    vbDev vm' (movedDisks vm r s) = vbDev vm' s.vbBytes := by
  refine vbDev_congr fun f x hx => ?_
  rw [movedDisks]
  split_ifs with hw
  · refine ByteMem.copy_of_not_covers fun hc => ?_
    obtain ⟨i, hi, rfl⟩ := ByteMem.eq_add_of_covers hc
    rw [diskAddr_add] at hx
    exact not_covers_field (onDisk_of_not_overruns h hw.1 i hi) f hx
  · rfl

theorem movedMem_agrees {r : VblkReq} (h : ¬ r.Overruns) (hdisk : s.disk vm = t.disk vm)
    (hmem : s.mem = t.mem) : movedMem vm r s = movedMem vm r t := by
  rw [movedMem, movedMem]
  split_ifs with hread
  · funext x
    simp only [ByteMem.copy, hmem]
    split_ifs with hx
    · have hon := onDisk_of_not_overruns h hread.1 (x - r.daddr).toNat hx
      rw [BitVec.ofNat_toNat, BitVec.setWidth_eq] at hon
      rw [diskAddr_add, disk_byte hdisk hon]
    · rfl
  · exact hmem

theorem movedDisks_agrees {r : VblkReq} (hdisk : ∀ vm, s.disk vm = t.disk vm)
    (hmem : s.mem = t.mem) (vm' : Fin 2) {i : U64} (hi : i.toNat < diskSize) :
    movedDisks vm r s (diskAddr vm' i) = movedDisks vm r t (diskAddr vm' i) := by
  rw [movedDisks, movedDisks]
  split_ifs
  · simp only [ByteMem.copy, hmem, disk_byte (hdisk vm') hi]
  · exact disk_byte (hdisk vm') hi

/-- Assigning to a field leaves the disks. -/
theorem write_diskAddr (f : VbField) (v : Nat) (m : Mem 64) (vm' : Fin 2) {i : U64}
    (hi : i.toNat < diskSize) : f.write vm v m (diskAddr vm' i) = m (diskAddr vm' i) :=
  ByteMem.store_of_not_covers (not_covers_field hi f)

theorem vbDev_vbFinished (vm vm' : Fin 2) (m : Mem 64) : vbDev vm' (vbFinished vm m) =
    if vm' = vm then
      { vbDev vm m with
        lastAvail := (vbDev vm m).lastAvail + 1
        intStatus := (vbDev vm m).intStatus ||| 1
        irq := true }
    else vbDev vm' m := by
  split_ifs with hvm
  · subst hvm
    simp only [vbFinished, vbDev_write_self, VirtioDev.setField, BitVec.ofNat_toNat,
      BitVec.setWidth_eq]
    rfl
  · simp only [vbFinished, vbDev_write_of_ne hvm]

/-- A flat state is fixed by its array and what the other one has besides. -/
theorem flatAgrees_readBack (hmem : s.mem = t.mem) (hconsole : s.console = t.console)
    (hlog : s.log = t.log) (hcon : ∀ vm, s.dev .con vm = t.dev .con vm)
    (hblk : ∀ vm, vbDev vm s.vbBytes = t.dev .blk vm)
    (hdisk : ∀ vm i, i.toNat < diskSize →
      s.vbBytes (diskAddr vm i) = t.vbBytes (diskAddr vm i)) :
    FlatAgrees s.readBack t where
  same := by
    simp only [VHost.readBack, hmem, hconsole, hlog, VHost.mk.injEq, and_true, true_and]
    funext k vm
    cases k with
    | con => exact hcon vm
    | blk => exact hblk vm
  disk vm := by
    funext i
    refine hdisk vm _ ?_
    rw [BitVec.toNat_ofNat]
    exact (Nat.mod_le _ _).trans_lt i.isLt
  fields := hblk

theorem FlatAgrees.setField (h : FlatAgrees s t) (vm : Fin 2) (f : VbField) (v : Nat) :
    FlatAgrees (setField vm f v s).2 (t.setDev .blk vm fun d => d.setField f v) := by
  obtain ⟨m, rfl⟩ : ∃ m, s = { t with vbBytes := m } := ⟨s.vbBytes, h.same⟩
  refine flatAgrees_readBack rfl rfl rfl (fun vm' => ?_) (fun vm' => ?_) fun vm' i hi => ?_
  · rw [setDev_dev_of_ne _ (by simp)]
  · by_cases hvm : vm' = vm
    · subst hvm
      rw [vbDev_write_self, h.fields, setDev_dev_self]
    · rw [vbDev_write_of_ne hvm, h.fields, setDev_dev_of_ne _ (fun hk => hvm hk.2)]
  · exact (write_diskAddr f v m vm' hi).trans (disk_byte (h.disk vm') hi)

/-- A pass that serves a request on the disk is the same in both. -/
theorem flatPass_agrees (h : FlatAgrees s t) (hq : q.num = (t.dev .blk vm).queueNum)
    (hr : ¬ (vblkReq vm q t).Overruns) :
    FlatAgrees (flatPass vm q s).2 (pass .blk vm q t) := by
  obtain ⟨m, rfl⟩ : ∃ m, s = { t with vbBytes := m } := ⟨s.vbBytes, h.same⟩
  have hq₁ : ({ q with num := (t.dev .blk vm).queueNum } : Queue) = q := by rw [← hq]
  have hreq : flatReq vm q { t with vbBytes := m } = vblkReq vm q t := by
    rw [flatReq, hq₁]
    rfl
  have hmoved : ∀ vm', vbDev vm' (movedDisks vm (vblkReq vm q t) { t with vbBytes := m }) =
      t.dev .blk vm' := fun vm' => by rw [vbDev_movedDisks hr, h.fields]
  have hstatus : statusMem vm (vblkReq vm q t) { t with vbBytes := m } =
      statusMem vm (vblkReq vm q t) t := by
    rw [statusMem, statusMem, movedMem_agrees hr (h.disk vm) rfl]
  rw [flatPass_run]
  simp only [hreq, hq₁, hmoved, hstatus]
  refine flatAgrees_readBack ?_ ?_ ?_ (fun vm' => ?_) (fun vm' => ?_) fun vm' i hi => ?_
  · simp only [pass, vblkPass_run]
  · simp only [pass, vblkPass_run]
  · rw [pass_log]
    rfl
  · rw [pass_dev_of_ne (by simp)]
  · simp only [vbDev_vbFinished, hmoved]
    split_ifs with hvm
    · subst hvm
      rw [pass_dev]
    · rw [pass_dev_of_ne (fun hk => hvm hk.2)]
  · simp only [vbFinished, write_diskAddr _ _ _ _ hi, pass, vblkPass_run]
    exact movedDisks_agrees h.disk rfl vm' hi

/-- The loop of `vblk_process` over requests on the disk ends, as it does with the
registers apart. -/
theorem flatLoop_agrees {a : U16} {n : Nat} (h : FlatAgrees s t)
    (hq : q.num = (t.dev .blk vm).queueNum) (hn : backlog .blk vm a t = n)
    (hr : ∀ j < n, ¬ (vblkReq vm q ((pass .blk vm q)^[j] t)).Overruns) :
    ∃ s', flatLoop vm q a n s = some s' ∧ FlatAgrees s' ((pass .blk vm q)^[n] t) := by
  induction n generalizing s t with
  | zero =>
    have hbehind : behind .blk vm a s = false := by
      rw [h.same, ← Bool.not_eq_true]
      exact fun hb => (behind_iff (s := t)).mp hb hn
    exact ⟨s, by simp [flatLoop, hbehind], h⟩
  | succ n ih =>
    have hbehind : behind .blk vm a s = true := by
      rw [h.same]
      exact (behind_iff (s := t)).mpr (by omega)
    have hpass := flatPass_agrees h hq (hr 0 (by omega))
    have hnum : q.num = ((pass .blk vm q t).dev .blk vm).queueNum := by
      rw [hq, pass_dev]
    have hback : backlog .blk vm a (pass .blk vm q t) + 1 = backlog .blk vm a t :=
      backlog_pass (by omega)
    obtain ⟨s', hs', hagree⟩ := ih hpass hnum (by omega) fun j hj => by
      have := hr (j + 1) (by omega)
      rwa [Function.iterate_succ_apply] at this
    refine ⟨s', ?_, hagree⟩
    rw [flatLoop, if_pos hbehind]
    exact hs'

/-- A notify over requests on the disk. -/
theorem flatProcess_agrees (h : FlatAgrees s t)
    (hr : ∀ u ∈ passes .blk vm t, ¬ (vblkReq vm (queueOf (t.dev .blk vm)) u).Overruns) :
    ∃ s', FlatEnds vm s s' ∧ FlatAgrees s' (vblkProcess vm t) := by
  have hdev : s.dev .blk vm = t.dev .blk vm := by rw [h.same]
  cases hact : (t.dev .blk vm).active with
  | false =>
    have hnone : (s.dev .blk vm).queuePfn = 0 ∨ (s.dev .blk vm).queueNum = 0 := by
      rw [hdev]
      exact not_not.mp (of_decide_eq_false hact)
    rw [vblkProcess_of_not_active hact]
    exact ⟨s, ⟨0, if_pos hnone⟩, h⟩
  | true =>
    have hsome : ¬ ((s.dev .blk vm).queuePfn = 0 ∨ (s.dev .blk vm).queueNum = 0) := by
      rw [hdev]
      exact of_decide_eq_true hact
    set q := queueOf (t.dev .blk vm) with hqueue
    have hstart : FlatAgrees (queueStart .blk vm s) (queueStart .blk vm t) := by
      refine ⟨?_, h.disk, h.fields⟩
      rw [h.same]
      rfl
    have hcount : backlog .blk vm (availIdx q t.mem) (queueStart .blk vm t) =
        passCount .blk vm t := by
      rw [passCount, if_pos hact]
      rfl
    obtain ⟨s', hs', hagree⟩ := flatLoop_agrees hstart rfl hcount fun j hj =>
      hr _ (List.mem_map.mpr ⟨j, List.mem_range.mpr hj, rfl⟩)
    refine ⟨s', ⟨passCount .blk vm t, ?_⟩, ?_⟩
    · rw [flatProcess]
      simp only [if_neg hsome, readAvailIdx]
      rw [hdev, ← hqueue, show s.mem = t.mem by rw [h.same]]
      exact hs'
    · rw [vblkProcess_eq hact]
      exact hagree

/-! ## 7. Runs -/

/-- Changing a device of the console in both. -/
theorem FlatAgrees.setCon (h : FlatAgrees s t) (vm : Fin 2) (f : VirtioDev → VirtioDev) :
    FlatAgrees (s.setDev .con vm f) (t.setDev .con vm f) := by
  obtain ⟨m, rfl⟩ : ∃ m, s = { t with vbBytes := m } := ⟨s.vbBytes, h.same⟩
  refine ⟨rfl, h.disk, fun vm' => ?_⟩
  rw [setDev_dev_of_ne _ (by simp)]
  exact h.fields vm'

/-- The console does not touch the array. -/
theorem conPass_agrees (h : FlatAgrees s t) :
    FlatAgrees (pass .con vm q s) (pass .con vm q t) := by
  obtain ⟨m, rfl⟩ : ∃ m, s = { t with vbBytes := m } := ⟨s.vbBytes, h.same⟩
  refine ⟨?_, fun vm' => ?_, fun vm' => ?_⟩
  · simp only [pass, virtioTxPass_run]
    rfl
  · simp only [pass, virtioTxPass_run]
    exact h.disk vm'
  · rw [pass_dev_of_ne (by simp)]
    simp only [pass, virtioTxPass_run]
    exact h.fields vm'

theorem conProcess_agrees (h : FlatAgrees s t) :
    FlatAgrees (process .con vm s) (process .con vm t) := by
  have hdev : s.dev .con vm = t.dev .con vm := by rw [h.same]
  have hcount : passCount .con vm s = passCount .con vm t := by rw [h.same]; rfl
  have hafter : ∀ j, FlatAgrees (afterPasses .con vm s j) (afterPasses .con vm t j) := by
    intro j
    induction j with
    | zero =>
      refine ⟨?_, h.disk, h.fields⟩
      rw [h.same]
      rfl
    | succ j ih =>
      rw [afterPasses_succ, afterPasses_succ, hdev]
      exact conPass_agrees ih
  cases hact : (t.dev .con vm).active with
  | false => rwa [process_of_not_active hact, process_of_not_active (hdev ▸ hact)]
  | true =>
    rw [process_passes hact, process_passes (hdev ▸ hact), hcount]
    split_ifs
    · exact (hafter _).setCon vm fun d => { d with intStatus := d.intStatus ||| 1, irq := true }
    · exact hafter _

theorem conWrite_agrees (vm : Fin 2) (h : FlatAgrees s t) (off : U64) (val : U32) :
    FlatAgrees (mmioWrite .con vm off val s) (mmioWrite .con vm off val t) := by
  simp only [mmioWrite]
  split_ifs
  · exact h.setCon vm _
  · exact h.setCon vm _
  · exact h.setCon vm _
  · exact h.setCon vm _
  · exact h.setCon vm _
  · exact conProcess_agrees h
  · exact h

theorem conMmio_agrees (h : FlatAgrees s t) (v : Vcpu) (ipa : U64) :
    FlatAgrees (mmio .con vm v ipa s).2 (mmio .con vm v ipa t).2 := by
  simp only [mmio]
  split_ifs
  · exact h
  · exact conWrite_agrees _ h _ _
  · exact h

/-- A register write whose notify, if it is one, serves requests on the disk. -/
theorem flatWrite_agrees (vm : Fin 2) (h : FlatAgrees s t) (off : U64) (val : U32)
    (hr : off = 0x050 →
      ∀ u ∈ passes .blk vm t, ¬ (vblkReq vm (queueOf (t.dev .blk vm)) u).Overruns) :
    ∃ s', flatWrite vm off val s s' ∧ FlatAgrees s' (mmioWrite .blk vm off val t) := by
  have hval : ∀ x : U32, BitVec.ofNat 32 x.toNat = x := fun x => by simp
  have hint : (s.dev .blk vm).intStatus = (t.dev .blk vm).intStatus := by rw [h.same]
  have hset : ∀ f v, ∃ s', s' = (FermiHV.setField vm f v s).2 ∧
      FlatAgrees s' (t.setDev .blk vm fun d => d.setField f v) :=
    fun f v => ⟨_, rfl, h.setField vm f v⟩
  simp only [flatWrite, mmioWrite]
  split_ifs with h028 h038 h040 h070 h064 h050
  · simpa only [VirtioDev.setField, hval] using hset .pageSize val.toNat
  · simpa only [VirtioDev.setField, hval] using hset .queueNum val.toNat
  · simpa only [VirtioDev.setField, hval] using hset .queuePfn val.toNat
  · simpa only [VirtioDev.setField, hval] using hset .status val.toNat
  · obtain ⟨s', hs', hagree⟩ := hset .intStatus ((s.dev .blk vm).intStatus &&& ~~~val).toNat
    refine ⟨s', hs', ?_⟩
    simp only [VirtioDev.setField, hval, hint] at hagree
    have hack : t.setDev .blk vm (fun d => { d with intStatus := d.intStatus &&& ~~~val }) =
        t.setDev .blk vm fun d => { d with intStatus := (t.dev .blk vm).intStatus &&& ~~~val } :=
      setDev_congr rfl
    rwa [hack]
  · exact flatProcess_agrees h (hr h050)
  · exact ⟨s, rfl, h⟩

/-- The operation serves no request that overruns. -/
def VirtioOp.OnDisk (op : VirtioOp) (t : VHost) : Prop :=
  match op with
  | .access .blk vm v ipa => isNotify .blk v ipa = true →
    ∀ u ∈ passes .blk vm t, ¬ (vblkReq vm (queueOf (t.dev .blk vm)) u).Overruns
  | .access .con .. | .ram _ | .takeIrq .. => True

instance : ∀ (op : VirtioOp) (t : VHost), Decidable (op.OnDisk t)
  | .access .blk vm v ipa, t => inferInstanceAs (Decidable (isNotify .blk v ipa = true →
      ∀ u ∈ passes .blk vm t, ¬ (vblkReq vm (queueOf (t.dev .blk vm)) u).Overruns))
  | .access .con .., _ | .ram _, _ | .takeIrq .., _ => .isTrue trivial

/-- No operation of the run does. -/
def RunOnDisk : List VirtioOp → VHost → Prop
  | [], _ => True
  | op :: ops, t => op.OnDisk t ∧ RunOnDisk ops (op.step t)

theorem flatMmio_agrees (h : FlatAgrees s t) (v : Vcpu) (ipa : U64)
    (hr : isNotify .blk v ipa = true →
      ∀ u ∈ passes .blk vm t, ¬ (vblkReq vm (queueOf (t.dev .blk vm)) u).Overruns) :
    ∃ s', flatMmio vm v ipa s s' ∧ FlatAgrees s' (mmio .blk vm v ipa t).2 := by
  cases hisv : issIsv (esrIss v.exitEsr) with
  | false => exact ⟨s, by simp [flatMmio, hisv], by simpa [mmio, hisv] using h⟩
  | true =>
    cases hwnr : issWnr (esrIss v.exitEsr) with
    | false => exact ⟨s, by simp [flatMmio, hwnr], by simpa [mmio, hisv, hwnr] using h⟩
    | true =>
      simp only [flatMmio, mmio, hisv, hwnr, and_self, if_true, Bool.not_true, Bool.false_eq_true,
        if_false]
      refine flatWrite_agrees _ h _ _ fun hoff => hr ?_
      simp [isNotify, hisv, hwnr, hoff]

theorem flatStep_regStore {off : U64} {val : U32} :
    flatStep (regStore .blk vm off val) s t ↔ flatWrite vm off val s t := by
  obtain ⟨hisv, hwnr, hval⟩ := storingVcpu_decodes val
  have hoff : VirtioKind.base .blk + off - VirtioKind.base .blk = off := by bv_omega
  simp only [flatStep, regStore, flatMmio, hisv, hwnr, hval, hoff, and_self, if_true]

theorem flatStep_agrees (h : FlatAgrees s t) {op : VirtioOp} (hop : op.OnDisk t) :
    ∃ s', flatStep op s s' ∧ FlatAgrees s' (op.step t) := by
  cases op with
  | ram mem =>
    refine ⟨_, rfl, ?_, h.disk, h.fields⟩
    rw [h.same]
    rfl
  | access k vm v ipa =>
    cases k with
    | con => exact ⟨_, rfl, conMmio_agrees h v ipa⟩
    | blk => exact flatMmio_agrees h v ipa hop
  | takeIrq k vm =>
    cases k with
    | con =>
      refine ⟨_, rfl, ?_⟩
      simp only [VirtioOp.step, takeIrq, show s.dev .con vm = t.dev .con vm by rw [h.same]]
      split_ifs
      · exact h.setCon vm fun d => { d with irq := false }
      · exact h
    | blk =>
      refine ⟨_, rfl, ?_⟩
      simp only [VirtioOp.step, takeIrq, show s.dev .blk vm = t.dev .blk vm by rw [h.same]]
      split_ifs
      · exact h.setField vm .irq 0
      · exact h

/-- In a run that serves no request that overruns, the flat array and the registers
apart from it do the same: every operation ends, with the same memory, registers,
disks, console and log. -/
theorem flat_run_agrees {s t : VHost} (h : FlatAgrees s t) {ops : List VirtioOp}
    (hops : RunOnDisk ops t) : ∃ s', flatRun ops s s' ∧ FlatAgrees s' (runOps ops t) := by
  induction ops generalizing s t with
  | nil => exact ⟨s, rfl, h⟩
  | cons op ops ih =>
    obtain ⟨u, hu, hagree⟩ := flatStep_agrees h hops.1
    obtain ⟨s', hs', hend⟩ := ih hagree hops.2
    exact ⟨s', ⟨u, hu, hs'⟩, hend⟩

end Agrees

/-- The array after `vblk_reset`. -/
def resetArray : Mem 64 :=
  VbField.pageSize.write 0 4096 (VbField.pageSize.write 1 4096 fun _ => 0)

/-- The devices after their resets, with the fields of `vb[]` in the array. -/
def flatReset : VHost := { resetHost with vbBytes := resetArray }

theorem flatReset_agrees : FlatAgrees flatReset resetHost where
  same := rfl
  disk vm := by
    funext i
    have hi : (BitVec.ofNat 64 i.val).toNat < diskSize := by
      rw [BitVec.toNat_ofNat]
      exact (Nat.mod_le _ _).trans_lt i.isLt
    change resetArray _ = 0
    rw [resetArray, write_diskAddr _ _ _ _ hi, write_diskAddr _ _ _ _ hi]
  fields := by decide +kernel

/-- The guest of `vm` sets up a queue of four entries in page 1, with the memory `mem`, and
notifies its disk. -/
def requestOps (vm : Fin 2) (mem : Mem 64) : List VirtioOp :=
  [.ram mem, regStore .blk vm 0x038 4, regStore .blk vm 0x040 1, regStore .blk vm 0x050 0]

/-- A write request of two bytes to sector 0, with the header at `0x3000`, the data at
`0x4000`, the status at `0x5000`. -/
def sectorMem : Mem 64 := fun a =>
  match a.toNat with
  | 0x1001 => 0x30 -- descriptor 0: the header, next is 1
  | 0x100e => 1
  | 0x1011 => 0x40 -- descriptor 1: two bytes of data, next is 2
  | 0x1018 => 2
  | 0x101e => 2
  | 0x1021 => 0x50 -- descriptor 2: the status
  | 0x1042 => 1 -- avail.idx, with head 0 in the ring
  | 0x3000 => 1 -- type: write
  | 0x4000 => 0xaa
  | 0x4001 => 0xbb
  | _ => 0

/-- A write to sector 0 lands on the disk in the array. -/
theorem flat_run_agrees_sector : ∃ s, flatRun (requestOps 0 sectorMem) flatReset s ∧
    FlatAgrees s (runOps (requestOps 0 sectorMem) resetHost) ∧
    s.disk 0 ⟨0, by decide⟩ = 0xaa ∧ s.disk 0 ⟨1, by decide⟩ = 0xbb := by
  have hops : RunOnDisk (requestOps 0 sectorMem) resetHost :=
    ⟨trivial, by decide +kernel, by decide +kernel, by decide +kernel, trivial⟩
  obtain ⟨s, hs, hagree⟩ := flat_run_agrees flatReset_agrees hops
  refine ⟨s, hs, hagree, ?_, ?_⟩
  · rw [hagree.disk]
    decide +kernel
  · rw [hagree.disk]
    decide +kernel

/-! ## 8. A write over the registers -/

section Overrun

variable {vm : Fin 2} {q : Queue} {s : VHost}

/-- The registers of the device after a pass, from what the transfer has left. -/
theorem flatPass_dev : (flatPass vm q s).2.dev .blk vm =
    let b := vbDev vm (movedDisks vm (flatReq vm q s) s)
    { b with lastAvail := b.lastAvail + 1, intStatus := b.intStatus ||| 1, irq := true } := by
  rw [flatPass_run]
  exact (vbDev_vbFinished vm vm _).trans (if_pos rfl)

/-- A pass that serves a write that wraps leaves in every register of the device what
the guest has put into its buffer, and then finishes as every pass does. -/
theorem overrun_sets_registers (h : (flatReq vm q s).Overruns) (hw : (flatReq vm q s).type = 1) :
    (flatPass vm q s).2.dev .blk vm =
      let r := flatReq vm q s
      let b := devAt (r.daddr - r.doff - BitVec.ofNat 64 diskField) s.mem
      { b with lastAvail := b.lastAvail + 1, intStatus := b.intStatus ||| 1, irq := true } := by
  rw [flatPass_dev, overrun_vbDev h hw]

/-- A notify of one pass. -/
theorem flatEnds_one {a : U16} (hact : (s.dev .blk vm).active = true)
    (ha : availIdx (queueOf (s.dev .blk vm)) s.mem = a)
    (hfirst : (s.dev .blk vm).lastAvail ≠ a) {t : VHost}
    (ht : t = (flatPass vm (queueOf (s.dev .blk vm)) (queueStart .blk vm s)).2)
    (hlast : (t.dev .blk vm).lastAvail = a) : FlatEnds vm s t := by
  have hsome : ¬ ((s.dev .blk vm).queuePfn = 0 ∨ (s.dev .blk vm).queueNum = 0) :=
    of_decide_eq_true hact
  have hgo : behind .blk vm a (queueStart .blk vm s) = true := decide_eq_true hfirst
  refine ⟨1, ?_⟩
  rw [flatProcess]
  simp only [if_neg hsome, readAvailIdx, ha]
  rw [flatLoop, if_pos hgo, ← ht, flatLoop, behind, decide_eq_false (not_not.mpr hlast)]
  rfl

end Overrun

/-- The write request of `wrapMem`, with ones in the bytes of its buffer that end up in
`int_status`. -/
def overrunMem : Mem 64 := fun a => if 0x41e8 ≤ a ∧ a < 0x41ec then 0xff else wrapMem a

/-- The state in which the device is notified. -/
def overrunStart (vm : Fin 2) : VHost :=
  (setField vm .queuePfn 1 (setField vm .queueNum 4 { flatReset with mem := overrunMem }).2).2

/-- What the notify leaves. -/
def overrunEnd (vm : Fin 2) : VHost :=
  (flatPass vm (queueOf ((overrunStart vm).dev .blk vm)) (queueStart .blk vm (overrunStart vm))).2

/-- The request that it serves. -/
def overrunReq (vm : Fin 2) : VblkReq :=
  flatReq vm (queueOf ((overrunStart vm).dev .blk vm)) (queueStart .blk vm (overrunStart vm))

/-- VM 1 sets all bits of its InterruptStatus with a request to its disk. -/
theorem overrun_sets_registers_ones :
    (overrunReq 1).Overruns ∧
    (overrunEnd 1).dev .blk 1 =
      { resetDev with pageSize := 0, lastAvail := 1, intStatus := 0xffffffff, irq := true } := by
  have hover : (overrunReq 1).Overruns := by decide +kernel
  refine ⟨hover, ?_⟩
  rw [overrunEnd, overrun_sets_registers hover (by decide +kernel)]
  decide +kernel

theorem overrunEnd_intStatus :
    ∀ vm, ((overrunEnd vm).dev .blk vm).intStatus = 0xffffffff := by
  intro vm
  rw [overrunEnd, flatPass_dev]
  revert vm
  decide +kernel

theorem overrun_ends (vm : Fin 2) : FlatEnds vm (overrunStart vm) (overrunEnd vm) := by
  refine flatEnds_one (a := 1) ?_ ?_ ?_ rfl ?_
  · revert vm
    decide +kernel
  · revert vm
    decide +kernel
  · revert vm
    decide +kernel
  · rw [overrunEnd, flatPass_dev]
    revert vm
    decide +kernel

/-- The run of the guest up to there. -/
theorem flatRun_overrun (vm : Fin 2) :
    flatRun (requestOps vm overrunMem) flatReset (overrunEnd vm) := by
  have hnum : ∀ u, flatWrite vm 0x038 4 u (setField vm .queueNum 4 u).2 := fun _ => rfl
  have hpfn : ∀ u, flatWrite vm 0x040 1 u (setField vm .queuePfn 1 u).2 := fun _ => rfl
  have hnotify : flatWrite vm 0x050 0 (overrunStart vm) (overrunEnd vm) := overrun_ends vm
  exact ⟨_, rfl, _, flatStep_regStore.mpr (hnum _), _, flatStep_regStore.mpr (hpfn _), _,
    flatStep_regStore.mpr hnotify, rfl⟩

end FermiHV
