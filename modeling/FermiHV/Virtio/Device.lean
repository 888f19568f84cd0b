import FermiHV.Vcpu
import FermiHV.Lib.Bits
import FermiHV.Lib.ByteMem
import FermiHV.Lib.RunLoop

/-!
# The virtio devices (`vvirtio.c`)

Each VM has a virtio console and a virtio block device, both legacy (version 1)
virtio-mmio. On a notify the device walks the split virtqueue in guest memory:
it dereferences host addresses that it computes from guest registers and guest
descriptors, so the model runs over the host memory as a whole.

* `VHost` is what the devices touch: the host memory, the fields of `vc[]` and
  `vb[]`, the disks inside `vb[]`, the console, and a log of the accesses made.
* `virtioProcessTx` and `vblkProcess` are the two queue loops. Their bodies are
  `virtioTxPass` and `vblkPass`; a pass advances `last_avail` by one, so a loop
  makes `backlog` passes (`virtioProcessTx_eq`, `vblkProcess_eq`).
* `virtioMmio` and `vblkMmio` are the register files.

The device fields are kept apart from the memory the passes write: a DMA
address that reached `vc[]` or `vb[]` themselves would do more damage than the
model shows. What a disk index outside the disk does to the fields in `vb[]` is in
`FermiHV.Virtio.Overrun`.
-/

namespace FermiHV

open ByteMem (Mem load store)

/-! ## 1. Device state and the accesses a device makes -/

/-- `struct vcon`, and the fields of `struct vblk` before its disk. -/
structure VirtioDev where
  status : U32
  pageSize : U32
  queueNum : U32
  queuePfn : U32
  intStatus : U32
  lastAvail : U16
  irq : Bool
  hostOff : U64
deriving DecidableEq

/-- Which array a device lives in: `vc[]` or `vb[]`. -/
inductive VirtioKind
  | con
  | blk
deriving DecidableEq

/-- One access of a device: to the host memory, or to `vb[vm].disk[i]`. -/
inductive Access
  | load (a : U64) (n : Nat)
  | store (a : U64) (n : Nat)
  | disk (vm : Fin 2) (i : U64)
deriving DecidableEq

structure VHost where
  /-- The host physical memory. -/
  mem : Mem 64
  /-- The fields of `vc[vm]` and `vb[vm]`. -/
  dev : VirtioKind → Fin 2 → VirtioDev
  /-- The bytes of the array `vb`, by offset from its start; only the disks are
  read and written here. -/
  vbBytes : Mem 64
  /-- What `uart_putc` has been given. -/
  console : List U8
  log : List Access

/-- `VBLK_SECTORS * VBLK_SECSZ`, the size of one disk. -/
def diskSize : Nat := 8192

/-- `sizeof(struct vblk)`. -/
def vblkStride : Nat := 8232

/-- The offset of `disk` in `struct vblk`. -/
def diskField : Nat := 40

/-- Where `vb[vm].disk[i]` is in the array `vb`. The index is not checked, so
the address is what the compiled access computes. -/
def diskAddr (vm : Fin 2) (i : U64) : U64 :=
  BitVec.ofNat 64 (vblkStride * vm.val + diskField) + i

/-- A byte of the disk, counted from the start of a request. -/
theorem diskAddr_add (vm : Fin 2) (i j : U64) : diskAddr vm i + j = diskAddr vm (i + j) := by
  rw [diskAddr, diskAddr, BitVec.add_assoc]

def VHost.setDev (k : VirtioKind) (vm : Fin 2) (f : VirtioDev → VirtioDev) (s : VHost) : VHost :=
  { s with dev := fun k' vm' => if k' = k ∧ vm' = vm then f (s.dev k' vm') else s.dev k' vm' }

def VHost.note (e : Access) (s : VHost) : VHost := { s with log := s.log ++ [e] }

abbrev DevM := StateM VHost

/-- A load of `n` bytes of host memory. -/
def loadN (a : U64) (n : Nat) : DevM Nat := fun s => (load s.mem a n, s.note (.load a n))

def load8 (a : U64) : DevM U8 := do return BitVec.ofNat 8 (← loadN a 1)
def load16 (a : U64) : DevM U16 := do return BitVec.ofNat 16 (← loadN a 2)
def load32 (a : U64) : DevM U32 := do return BitVec.ofNat 32 (← loadN a 4)
def load64 (a : U64) : DevM U64 := do return BitVec.ofNat 64 (← loadN a 8)

/-- A store of the low `n` bytes of `v`. -/
def storeN (a : U64) (n v : Nat) : DevM Unit := fun s =>
  ((), { s.note (.store a n) with mem := store s.mem a n v })

def store8 (a : U64) (v : U8) : DevM Unit := storeN a 1 v.toNat
def store16 (a : U64) (v : U16) : DevM Unit := storeN a 2 v.toNat
def store32 (a : U64) (v : U32) : DevM Unit := storeN a 4 v.toNat

/-- Read `vb[vm].disk[i]`. -/
def diskLoad (vm : Fin 2) (i : U64) : DevM U8 := fun s =>
  (s.vbBytes (diskAddr vm i), s.note (.disk vm i))

/-- Write `vb[vm].disk[i]`. -/
def diskStore (vm : Fin 2) (i : U64) (b : U8) : DevM Unit := fun s =>
  ((), { s.note (.disk vm i) with vbBytes := store s.vbBytes (diskAddr vm i) 1 b.toNat })

def uartPutc (b : U8) : DevM Unit := fun s => ((), { s with console := s.console ++ [b] })

/-- `for (i = 0; i < n; i++) body(i)`. -/
def forLoop (body : Nat → DevM Unit) : Nat → DevM Unit
  | 0 => pure ()
  | n + 1 => do
    forLoop body n
    body n

def advance (k : VirtioKind) (vm : Fin 2) : DevM Unit := fun s =>
  ((), s.setDev k vm fun d => { d with lastAvail := d.lastAvail + 1 })

/-- `int_status |= 1; irq = 1`. -/
def raiseIrq (k : VirtioKind) (vm : Fin 2) : DevM Unit := fun s =>
  ((), s.setDev k vm fun d => { d with intStatus := d.intStatus ||| 1, irq := true })

/-! ## 2. The queue

The addresses are computed once, before the loop. -/

/-- The locals `o`, `base`, `avail` and `used` of the queue loops, with the
queue size that the loops read again on each use. -/
structure Queue where
  o : U64
  base : U64
  avail : U64
  used : U64
  num : U32
deriving DecidableEq

def queueOf (c : VirtioDev) : Queue :=
  let o := c.hostOff
  let n := c.queueNum.setWidth 64
  let base := c.queuePfn.setWidth 64 * c.pageSize.setWidth 64 + o
  { o := o
    base := base
    avail := base + n * 16
    used := (base + n * 16 + 6 + 2 * n + 4095) &&& ~~~4095#64
    num := c.queueNum }

/-- The descriptor with index `i`. -/
def Queue.desc (q : Queue) (i : U16) : U64 := q.base + i.setWidth 64 * 16

/-- The place of the avail ring entry that the cursor `i` selects. -/
def Queue.availSlot (q : Queue) (i : U16) : U64 :=
  q.avail + 4 + 2 * (i.setWidth 32 % q.num).setWidth 64

/-- The place of the used ring element that the index `i` selects. -/
def Queue.usedSlot (q : Queue) (i : U16) : U64 :=
  q.used + 4 + 8 * (i.setWidth 32 % q.num).setWidth 64

/-- Append a used ring element and publish it. -/
def usedPush (q : Queue) (id len : U32) : DevM Unit := do
  let uidx ← load16 (q.used + 2)
  let ue := q.usedSlot uidx
  store32 ue id
  store32 (ue + 4) len
  store16 (q.used + 2) (uidx + 1)

/-- The entries between the cursor and the avail index read at the start. -/
def backlog (k : VirtioKind) (vm : Fin 2) (availIdx : U16) (s : VHost) : Nat :=
  (availIdx - (s.dev k vm).lastAvail).toNat

/-! ## 3. The console: `virtio_process_tx` -/

/-- A transmit request as the pass reads it: descriptor index, host address of
the buffer, length. -/
structure TxReq where
  didx : U16
  addr : U64
  len : U32

def txFetch (vm : Fin 2) (q : Queue) : DevM TxReq := do
  let slot := ((← get).dev .con vm).lastAvail
  let didx ← load16 (q.availSlot slot)
  let desc := q.desc didx
  let addr := (← load64 desc) + q.o
  let len ← load32 (desc + 8)
  return { didx, addr, len }

/-- The body of the loop of `virtio_process_tx`. -/
def virtioTxPass (vm : Fin 2) (q : Queue) : DevM Unit := do
  let r ← txFetch vm q
  forLoop (fun i => do uartPutc (← load8 (r.addr + BitVec.ofNat 64 i))) r.len.toNat
  usedPush q (r.didx.setWidth 32) 0
  advance .con vm

/-! ## 4. The disk: `vblk_process` -/

/-- A block request as the pass reads it from its three descriptors. -/
structure VblkReq where
  head : U16
  type : U32
  sector : U64
  daddr : U64
  dlen : U32
  saddr : U64

def vblkFetch (vm : Fin 2) (q : Queue) : DevM VblkReq := do
  let slot := ((← get).dev .blk vm).lastAvail
  let head ← load16 (q.availSlot slot)
  let hd := q.desc head
  let haddr := (← load64 hd) + q.o
  let hnext ← load16 (hd + 14)
  let type ← load32 haddr
  let sector ← load64 (haddr + 8)
  let dd := q.desc hnext
  let daddr := (← load64 dd) + q.o
  let dlen ← load32 (dd + 8)
  let dnext ← load16 (dd + 14)
  let sd := q.desc dnext
  let saddr := (← load64 sd) + q.o
  return { head, type, sector, daddr, dlen, saddr }

/-- `uint64_t doff = sector * VBLK_SECSZ`. -/
def VblkReq.doff (r : VblkReq) : U64 := r.sector * 512

/-- `doff + dlen <= sizeof(b->disk)`, in 64-bit arithmetic. -/
def VblkReq.inRange (r : VblkReq) : Bool :=
  decide ((r.doff + r.dlen.setWidth 64).toNat ≤ diskSize)

/-- Check the request, move the data, and return the status byte. -/
def vblkTransfer (vm : Fin 2) (r : VblkReq) : DevM U8 := do
  if r.inRange then
    if r.type = 1 then
      forLoop (fun i => do
        diskStore vm (r.doff + BitVec.ofNat 64 i) (← load8 (r.daddr + BitVec.ofNat 64 i)))
        r.dlen.toNat
    else
      forLoop (fun i => do
        store8 (r.daddr + BitVec.ofNat 64 i) (← diskLoad vm (r.doff + BitVec.ofNat 64 i)))
        r.dlen.toNat
    return 0
  else
    return 1

/-- The body of the loop of `vblk_process`. -/
def vblkPass (vm : Fin 2) (q : Queue) : DevM Unit := do
  let r ← vblkFetch vm q
  let st ← vblkTransfer vm r
  store8 r.saddr st
  usedPush q (r.head.setWidth 32) r.dlen
  advance .blk vm
  raiseIrq .blk vm

/-- `vblk_poke`: the hypervisor writes the first bytes of a disk. -/
def vblkPoke (vm : Fin 2) (bytes : List U8) : DevM Unit :=
  forLoop (fun i => diskStore vm (BitVec.ofNat 64 i) (bytes.getD i 0)) bytes.length

/-- `vblk_peek`: the hypervisor reads the first `n` bytes of a disk. -/
def vblkPeek (vm : Fin 2) (n : Nat) (s : VHost) : List U8 :=
  (List.range n).map fun i => s.vbBytes (diskAddr vm (BitVec.ofNat 64 i))

/-! ## 5. Passes in closed form

What a pass does, as a function of the state it starts in. The requests are
those the fetches return; the data loops become one copy. -/

section ClosedForm

variable {vm : Fin 2} {q : Queue} {s : VHost}

/-- The avail ring entry that the cursor `i` selects. -/
def availEntry (q : Queue) (m : Mem 64) (i : U16) : U16 :=
  BitVec.ofNat 16 (load m (q.availSlot i) 2)

/-- The address that the descriptor `i` holds, as the guest wrote it. -/
def descAddr (q : Queue) (m : Mem 64) (i : U16) : U64 := BitVec.ofNat 64 (load m (q.desc i) 8)

def descLen (q : Queue) (m : Mem 64) (i : U16) : U32 := BitVec.ofNat 32 (load m (q.desc i + 8) 4)

def descNext (q : Queue) (m : Mem 64) (i : U16) : U16 :=
  BitVec.ofNat 16 (load m (q.desc i + 14) 2)

/-- The transmit request that a pass from `s` serves. -/
def txReq (vm : Fin 2) (q : Queue) (s : VHost) : TxReq := (txFetch vm q s).1

/-- The block request that a pass from `s` serves. -/
def vblkReq (vm : Fin 2) (q : Queue) (s : VHost) : VblkReq := (vblkFetch vm q s).1

/-- The bytes a transmit request names. -/
def TxReq.bytes (r : TxReq) (m : Mem 64) : List U8 :=
  (List.range r.len.toNat).map fun i => m (r.addr + BitVec.ofNat 64 i)

/-- The used index as a pass reads it. -/
def usedIdx (q : Queue) (m : Mem 64) : U16 := BitVec.ofNat 16 (load m (q.used + 2) 2)

/-- The memory after a used ring element has been published. -/
def pushed (q : Queue) (id len : U32) (m : Mem 64) : Mem 64 :=
  let ue := q.usedSlot (usedIdx q m)
  store (store (store m ue 4 id.toNat) (ue + 4) 4 len.toNat) (q.used + 2) 2
    (usedIdx q m + 1).toNat

def pushAccesses (q : Queue) (m : Mem 64) : List Access :=
  let ue := q.usedSlot (usedIdx q m)
  [.load (q.used + 2) 2, .store ue 4, .store (ue + 4) 4, .store (q.used + 2) 2]

theorem usedPush_run (id len : U32) : (usedPush q id len s).2 =
    { s with mem := pushed q id len s.mem, log := s.log ++ pushAccesses q s.mem } := by
  simp [usedPush, load16, loadN, store32, store16, storeN, VHost.note, pushed, pushAccesses,
    usedIdx, bind, StateT.bind, pure, StateT.pure]

theorem bind_run {α β : Type} (x : DevM α) (f : α → DevM β) :
    (x >>= f) s = f (x s).1 (x s).2 := rfl

theorem forLoop_succ (body : Nat → DevM Unit) (n : Nat) :
    (forLoop body (n + 1) s).2 = (body n (forLoop body n s).2).2 := rfl

theorem forLoop_putc (a : U64) (n : Nat) :
    (forLoop (fun i => do uartPutc (← load8 (a + BitVec.ofNat 64 i))) n s).2 =
      { s with
        console := s.console ++ (List.range n).map fun i => s.mem (a + BitVec.ofNat 64 i)
        log := s.log ++ (List.range n).map fun i => .load (a + BitVec.ofNat 64 i) 1 } := by
  induction n with
  | zero => simp [forLoop, pure, StateT.pure]
  | succ n ih =>
    rw [forLoop_succ, ih]
    simp [uartPutc, load8, loadN, VHost.note, bind, StateT.bind, pure, StateT.pure,
      List.range_succ, ByteMem.load_one]

theorem forLoop_diskStore (r : VblkReq) {n : Nat} (hn : n < 2 ^ 64) :
    (forLoop (fun i => do
        diskStore vm (r.doff + BitVec.ofNat 64 i) (← load8 (r.daddr + BitVec.ofNat 64 i))) n s).2 =
      { s with
        vbBytes := ByteMem.copy s.vbBytes s.mem (diskAddr vm r.doff) r.daddr n
        log := s.log ++ (List.range n).flatMap fun i =>
          [.load (r.daddr + BitVec.ofNat 64 i) 1, .disk vm (r.doff + BitVec.ofNat 64 i)] } := by
  induction n with
  | zero => simp [forLoop, pure, StateT.pure]
  | succ n ih =>
    rw [forLoop_succ, ih (by omega), ← ByteMem.store_copy _ _ _ _ (by omega)]
    simp [diskStore, load8, loadN, VHost.note, bind, StateT.bind, pure, StateT.pure,
      List.range_succ, ByteMem.load_one, diskAddr, BitVec.add_assoc]

theorem forLoop_diskLoad (r : VblkReq) {n : Nat} (hn : n < 2 ^ 64) :
    (forLoop (fun i => do
        store8 (r.daddr + BitVec.ofNat 64 i) (← diskLoad vm (r.doff + BitVec.ofNat 64 i))) n s).2 =
      { s with
        mem := ByteMem.copy s.mem s.vbBytes r.daddr (diskAddr vm r.doff) n
        log := s.log ++ (List.range n).flatMap fun i =>
          [.disk vm (r.doff + BitVec.ofNat 64 i), .store (r.daddr + BitVec.ofNat 64 i) 1] } := by
  induction n with
  | zero => simp [forLoop, pure, StateT.pure]
  | succ n ih =>
    rw [forLoop_succ, ih (by omega), ← ByteMem.store_copy _ _ _ _ (by omega)]
    simp [store8, storeN, diskLoad, VHost.note, bind, StateT.bind, List.range_succ, diskAddr,
      BitVec.add_assoc]

/-- The accesses by which a pass reads its transmit request. -/
def txFetchAccesses (vm : Fin 2) (q : Queue) (s : VHost) : List Access :=
  let desc := q.desc (txReq vm q s).didx
  [.load (q.availSlot (s.dev .con vm).lastAvail) 2, .load desc 8, .load (desc + 8) 4]

def TxReq.accesses (r : TxReq) : List Access :=
  (List.range r.len.toNat).map fun i => .load (r.addr + BitVec.ofNat 64 i) 1

def txAccesses (vm : Fin 2) (q : Queue) (s : VHost) : List Access :=
  txFetchAccesses vm q s ++ (txReq vm q s).accesses ++ pushAccesses q s.mem

theorem txFetch_run : txFetch vm q s =
    (txReq vm q s, { s with log := s.log ++ txFetchAccesses vm q s }) := by
  simp [txReq, txFetchAccesses, txFetch, load16, load32, load64, loadN, VHost.note, bind,
    StateT.bind, pure, StateT.pure, get, getThe, MonadStateOf.get, StateT.get]

theorem txReq_eq : txReq vm q s =
    let didx := availEntry q s.mem (s.dev .con vm).lastAvail
    { didx := didx, addr := descAddr q s.mem didx + q.o, len := descLen q s.mem didx } := by
  simp [txReq, txFetch, availEntry, descAddr, descLen, load16, load32, load64, loadN, VHost.note,
    bind, StateT.bind, pure, StateT.pure, get, getThe, MonadStateOf.get, StateT.get]

/-- A console pass emits the buffer of its request, publishes the descriptor in
the used ring and moves the cursor. -/
theorem virtioTxPass_run : (virtioTxPass vm q s).2 =
    { s with
      mem := pushed q ((txReq vm q s).didx.setWidth 32) 0 s.mem
      dev := (advance .con vm s).2.dev
      console := s.console ++ (txReq vm q s).bytes s.mem
      log := s.log ++ txAccesses vm q s } := by
  simp only [virtioTxPass, bind_run, txFetch_run, forLoop_putc, usedPush_run]
  simp [advance, VHost.setDev, txAccesses, TxReq.bytes, TxReq.accesses]

/-- The accesses by which a pass reads its block request: the avail entry, then
the header, data and status descriptors with the header itself. -/
def vblkFetchAccesses (vm : Fin 2) (q : Queue) (s : VHost) : List Access :=
  let head := (vblkReq vm q s).head
  let data := descNext q s.mem head
  let stat := descNext q s.mem data
  let haddr := descAddr q s.mem head + q.o
  [.load (q.availSlot (s.dev .blk vm).lastAvail) 2, .load (q.desc head) 8,
    .load (q.desc head + 14) 2, .load haddr 4, .load (haddr + 8) 8, .load (q.desc data) 8,
    .load (q.desc data + 8) 4, .load (q.desc data + 14) 2, .load (q.desc stat) 8]

theorem vblkFetch_run : vblkFetch vm q s =
    (vblkReq vm q s, { s with log := s.log ++ vblkFetchAccesses vm q s }) := by
  simp [vblkReq, vblkFetchAccesses, vblkFetch, descAddr, descNext, load16, load32, load64, loadN,
    VHost.note, bind, StateT.bind, pure, StateT.pure, get, getThe, MonadStateOf.get, StateT.get]

theorem vblkReq_eq : vblkReq vm q s =
    let head := availEntry q s.mem (s.dev .blk vm).lastAvail
    let data := descNext q s.mem head
    let haddr := descAddr q s.mem head + q.o
    { head := head
      type := BitVec.ofNat 32 (load s.mem haddr 4)
      sector := BitVec.ofNat 64 (load s.mem (haddr + 8) 8)
      daddr := descAddr q s.mem data + q.o
      dlen := descLen q s.mem data
      saddr := descAddr q s.mem (descNext q s.mem data) + q.o } := by
  simp [vblkReq, vblkFetch, availEntry, descAddr, descLen, descNext, load16, load32, load64, loadN,
    VHost.note, bind, StateT.bind, pure, StateT.pure, get, getThe, MonadStateOf.get, StateT.get]

/-- The status byte that a request gets. -/
def VblkReq.status (r : VblkReq) : U8 := if r.inRange then 0 else 1

/-- The memory after the data of a request has been moved. -/
def movedMem (vm : Fin 2) (r : VblkReq) (s : VHost) : Mem 64 :=
  if r.inRange = true ∧ r.type ≠ 1 then
    ByteMem.copy s.mem s.vbBytes r.daddr (diskAddr vm r.doff) r.dlen.toNat
  else s.mem

/-- The disks after the data of a request has been moved. -/
def movedDisks (vm : Fin 2) (r : VblkReq) (s : VHost) : Mem 64 :=
  if r.inRange = true ∧ r.type = 1 then
    ByteMem.copy s.vbBytes s.mem (diskAddr vm r.doff) r.daddr r.dlen.toNat
  else s.vbBytes

def moveAccesses (vm : Fin 2) (r : VblkReq) : List Access :=
  if r.inRange then
    (List.range r.dlen.toNat).flatMap fun i =>
      if r.type = 1 then
        [.load (r.daddr + BitVec.ofNat 64 i) 1, .disk vm (r.doff + BitVec.ofNat 64 i)]
      else
        [.disk vm (r.doff + BitVec.ofNat 64 i), .store (r.daddr + BitVec.ofNat 64 i) 1]
  else []

theorem vblkTransfer_run (r : VblkReq) : vblkTransfer vm r s =
    (r.status, { s with
      mem := movedMem vm r s
      vbBytes := movedDisks vm r s
      log := s.log ++ moveAccesses vm r }) := by
  have hlen : r.dlen.toNat < 2 ^ 64 := by
    have := r.dlen.isLt
    omega
  cases hr : r.inRange with
  | false => simp [vblkTransfer, hr, VblkReq.status, movedMem, movedDisks, moveAccesses, pure,
      StateT.pure]
  | true =>
    by_cases ht : r.type = 1
    · simp only [vblkTransfer, VblkReq.status, movedMem, movedDisks, moveAccesses, hr, if_true,
        true_and, if_pos ht, if_neg (not_not.mpr ht), bind_run, forLoop_diskStore r hlen]
      rfl
    · simp only [vblkTransfer, VblkReq.status, movedMem, movedDisks, moveAccesses, hr, if_true,
        true_and, if_neg ht, if_pos (show r.type ≠ 1 from ht), bind_run, forLoop_diskLoad r hlen]
      rfl

/-- The memory after the status byte has been stored. -/
def statusMem (vm : Fin 2) (r : VblkReq) (s : VHost) : Mem 64 :=
  store (movedMem vm r s) r.saddr 1 r.status.toNat

def vblkAccesses (vm : Fin 2) (q : Queue) (s : VHost) : List Access :=
  let r := vblkReq vm q s
  vblkFetchAccesses vm q s ++ moveAccesses vm r ++ [.store r.saddr 1] ++
    pushAccesses q (statusMem vm r s)

/-- A disk pass moves the data of its request, stores the status, publishes the
head in the used ring, moves the cursor and raises the interrupt. -/
theorem vblkPass_run : (vblkPass vm q s).2 =
    { s with
      mem := pushed q ((vblkReq vm q s).head.setWidth 32) (vblkReq vm q s).dlen
        (statusMem vm (vblkReq vm q s) s)
      vbBytes := movedDisks vm (vblkReq vm q s) s
      dev := (raiseIrq .blk vm (advance .blk vm s).2).2.dev
      log := s.log ++ vblkAccesses vm q s } := by
  simp only [vblkPass, bind_run, vblkFetch_run, vblkTransfer_run, usedPush_run]
  simp [advance, raiseIrq, VHost.setDev, vblkAccesses, statusMem, store8, storeN, VHost.note,
    movedMem, movedDisks]

end ClosedForm

end FermiHV
