import FermiHV.Virtio.Disk
import FermiHV.Virtio.Layout

/-!
# `vblk_process` refines a byte disk

`BlockDev` is the block device as its driver sees it: a disk, the guest's memory,
and a place in the avail ring. On a notify it takes the requests that are
published and serves them in order with `ramDisk`; it has no used ring.

The code serves a batch differently. It reads each request from guest memory
when its turn comes, after the requests before it have written their buffers,
their status bytes and the used ring. `BatchOk` says that the areas of a batch do
not overlap, and then the two agree: on the disk, and on all memory outside the
used ring. `notify_refines` is the step, `vblk_refines` the result for whole
histories of notifies, guest activity and `vblk_poke`.
-/

namespace FermiHV

open ByteMem (Mem load store Covers Sep)

/-! ## 1. The abstract device -/

structure BlockDev where
  disk : Disk
  mem : Mem 64
  /-- The queue, once the driver has set it up. -/
  queue : Option Queue
  cursor : U16

/-- The head at place `c` of the avail ring, the place of a free-running counter. -/
def headAt (q : Queue) (m : Mem 64) (c : U16) : U16 := ringEntry q m (c.toNat % q.num.toNat)

/-- Where the header of the request at place `c` of the avail ring is. -/
def headerAt (q : Queue) (m : Mem 64) (c : U16) : U64 :=
  (tableEntry q m (headAt q m c).toNat).addr + q.o

/-- The request at place `c` of the avail ring, from its three descriptors. -/
def reqAt (q : Queue) (m : Mem 64) (c : U16) : VblkReq :=
  let data := tableEntry q m (tableEntry q m (headAt q m c).toNat).next.toNat
  let stat := tableEntry q m data.next.toNat
  { head := headAt q m c
    type := BitVec.ofNat 32 (load m (headerAt q m c) 4)
    sector := BitVec.ofNat 64 (load m (headerAt q m c + 8) 8)
    daddr := data.addr + q.o
    dlen := data.len
    saddr := stat.addr + q.o }

/-- The places of the avail ring that are published and not served. -/
def published (q : Queue) (m : Mem 64) (c : U16) : List U16 :=
  (List.range (availIdx q m - c).toNat).map fun i => c + BitVec.ofNat 16 i

def BlockDev.pending (b : BlockDev) : List VblkReq :=
  match b.queue with
  | none => []
  | some q => (published q b.mem b.cursor).map (reqAt q b.mem)

/-- Serve one request and store its status. -/
def BlockDev.serve (b : BlockDev) (r : VblkReq) : BlockDev :=
  let served := ramDisk r b.disk b.mem
  { b with
    disk := served.disk
    mem := store served.mem r.saddr 1 served.status.toNat
    cursor := b.cursor + 1 }

def BlockDev.notify (b : BlockDev) : BlockDev := b.pending.foldl BlockDev.serve b

def BlockDev.poke (b : BlockDev) (bytes : List U8) : BlockDev :=
  { b with disk := fun i => bytes.getD i.val (b.disk i) }

/-! ## 2. Histories -/

inductive BlkEvent
  /-- The guest runs: it leaves its memory and the device's registers as given. -/
  | guest (dev : VirtioDev) (mem : Mem 64)
  /-- The hypervisor seeds the disk. -/
  | poke (bytes : List U8)
  | notify

def VirtioDev.queue (d : VirtioDev) : Option Queue := if d.active then some (queueOf d) else none

def VHost.blkStep (vm : Fin 2) (s : VHost) : BlkEvent → VHost
  | .guest d m => { s.setDev .blk vm fun _ => d with mem := m }
  | .poke bytes => (vblkPoke vm bytes s).2
  | .notify => vblkProcess vm s

def BlockDev.step (b : BlockDev) : BlkEvent → BlockDev
  | .guest d m => { b with mem := m, queue := d.queue, cursor := d.lastAvail }
  | .poke bytes => b.poke bytes
  | .notify => b.notify

/-- The areas of a request: header, data and status. -/
def areas (q : Queue) (m : Mem 64) (c : U16) : List (U64 × Nat) :=
  let r := reqAt q m c
  [(headerAt q m c, 16), (r.daddr, r.dlen.toNat), (r.saddr, 1)]

/-- A read or a write with its indices in the queue, whose last byte on the disk
has a 64-bit offset. -/
structure ReqOk (q : Queue) (m : Mem 64) (c : U16) : Prop where
  type : (reqAt q m c).type = 0 ∨ (reqAt q m c).type = 1
  noWrap : (reqAt q m c).sector.toNat * 512 + (reqAt q m c).dlen.toNat < 2 ^ 64
  head : (headAt q m c).toNat < q.num.toNat
  next : (tableEntry q m (headAt q m c).toNat).next.toNat < q.num.toNat
  last : (tableEntry q m (tableEntry q m (headAt q m c).toNat).next.toNat).next.toNat < q.num.toNat

/-- The requests of a batch are well formed, and no two of all its areas overlap,
those of the queue included. -/
structure BatchOk (q : Queue) (m : Mem 64) (cs : List U16) : Prop where
  queue : QueueLayout q
  req : ∀ c ∈ cs, ReqOk q m c
  apart : (cs.flatMap (areas q m)).Pairwise fun a b => Sep a.1 a.2 b.1 b.2
  outside : ∀ c ∈ cs, ∀ a ∈ areas q m c, ∀ x, Covers a.1 a.2 x → ¬ InQueue q x

def BlockDev.EventOk (b : BlockDev) : BlkEvent → Prop
  | .guest _ _ => True
  | .poke bytes => bytes.length ≤ diskSize
  | .notify => ∀ q, b.queue = some q → BatchOk q b.mem (published q b.mem b.cursor)

def BlockDev.RunOk : BlockDev → List BlkEvent → Prop
  | _, [] => True
  | b, e :: es => b.EventOk e ∧ (b.step e).RunOk es

/-- The device, up to the used ring. -/
structure Refines (vm : Fin 2) (s : VHost) (b : BlockDev) : Prop where
  disk : s.disk vm = b.disk
  queue : (s.dev .blk vm).queue = b.queue
  cursor : (s.dev .blk vm).lastAvail = b.cursor
  mem : ∀ x, (∀ q, b.queue = some q → ¬ InUsed q x) → s.mem x = b.mem x

/-- The abstract device in the state of the code. -/
def VHost.blockDev (s : VHost) (vm : Fin 2) : BlockDev where
  disk := s.disk vm
  mem := s.mem
  queue := (s.dev .blk vm).queue
  cursor := (s.dev .blk vm).lastAvail

/-! ## 3. Serving a request -/

section Serve

variable {r : VblkReq} {d : Disk} {m m' : Mem 64}

/-- Serving depends on memory only through the data buffer. -/
theorem ramDisk_disk_congr (h : ∀ x, Covers r.daddr r.dlen.toNat x → m' x = m x) :
    (ramDisk r d m').disk = (ramDisk r d m).disk ∧
      (ramDisk r d m').status = (ramDisk r d m).status := by
  by_cases hfit : r.Fits
  · refine ⟨?_, by rw [status_of_fits hfit, status_of_fits hfit]⟩
    by_cases ht : r.type = 1
    · simp only [ramDisk, dif_pos hfit, if_pos ht]
      funext i
      split_ifs with hi
      · have hlen := r.dlen.isLt
        exact h _ (ByteMem.covers_ofNat r.daddr (by omega) (by omega))
      · rfl
    · simp only [ramDisk, dif_pos hfit, if_neg ht]
  · rw [ramDisk_of_not_fits hfit, ramDisk_of_not_fits hfit]
    exact ⟨rfl, rfl⟩

theorem ramDisk_mem_congr {x : U64} (h : m' x = m x) :
    (ramDisk r d m').mem x = (ramDisk r d m).mem x := by
  simp only [ramDisk]
  split_ifs
  · exact h
  · simp only [h]
  · exact h

/-- Memory changes only in the data buffer of a read that fits. -/
theorem ramDisk_mem_of_not_read {x : U64}
    (h : r.type ≠ 1 → r.Fits → ¬ Covers r.daddr r.dlen.toNat x) : (ramDisk r d m).mem x = m x := by
  by_cases hfit : r.Fits
  · by_cases ht : r.type = 1
    · simp only [ramDisk, dif_pos hfit, if_pos ht]
    · simp only [ramDisk, dif_pos hfit, if_neg ht, dif_neg (h ht hfit)]
  · rw [ramDisk_of_not_fits hfit]

theorem store_congr {a x : U64} {n v : Nat} (h : m' x = m x) :
    store m' a n v x = store m a n v x := by
  rw [store, store, h]

end Serve

/-- A notify changes memory only in the data buffers of reads and the status
bytes. -/
theorem notify_mem_of_not_written {b : BlockDev} {x : U64}
    (h : ∀ r ∈ b.pending, x ≠ r.saddr ∧
      (r.type ≠ 1 → r.Fits → ¬ Covers r.daddr r.dlen.toNat x)) : b.notify.mem x = b.mem x := by
  suffices hfold : ∀ (rs : List VblkReq) (c : BlockDev), (∀ r ∈ rs, x ≠ r.saddr ∧
      (r.type ≠ 1 → r.Fits → ¬ Covers r.daddr r.dlen.toNat x)) →
      (rs.foldl BlockDev.serve c).mem x = c.mem x from hfold _ _ h
  intro rs
  induction rs with
  | nil => exact fun _ _ => rfl
  | cons r rs ih =>
    intro c hrs
    obtain ⟨hstat, hread⟩ := hrs r List.mem_cons_self
    rw [List.foldl_cons, ih _ fun r' hr' => hrs r' (List.mem_cons_of_mem r hr')]
    change store _ r.saddr 1 _ x = c.mem x
    rw [ByteMem.store_of_not_covers fun hc => hstat (ByteMem.covers_one hc)]
    exact ramDisk_mem_of_not_read hread

/-! ## 4. One pass -/

section Pass

variable {vm : Fin 2} {q : Queue} {s : VHost} {m : Mem 64}

/-- The code reads the request at its cursor. -/
theorem vblkReq_eq_reqAt : vblkReq vm q s = reqAt q s.mem (s.dev .blk vm).lastAvail := by
  rw [vblkReq_eq]
  simp only [availEntry_eq, descAddr_eq, descLen_eq, descNext_eq]
  rfl

/-- The descriptors of the request at place `c`, in the order of its chain. -/
def blkChain (q : Queue) (m : Mem 64) (c : U16) : List U16 :=
  let head := headAt q m c
  let data := (tableEntry q m head.toNat).next
  [head, data, (tableEntry q m data.toNat).next]

theorem ReqOk.inTable {c : U16} (h : ReqOk q m c) :
    ∀ d ∈ blkChain q m c, d.toNat < q.num.toNat := by
  simp only [blkChain, List.forall_mem_cons]
  exact ⟨h.head, h.next, h.last, fun _ hd => absurd hd List.not_mem_nil⟩

/-- Memories that agree on the rings have the same head at a place, and the same
descriptors. -/
theorem chain_congr {m' : Mem 64} (hpos : 0 < q.num.toNat) (hrings : SameRings q m m') (c : U16)
    {ds : List U16} (hds : ∀ d ∈ ds, d.toNat < q.num.toNat) :
    headAt q m' c = headAt q m c ∧ ∀ d ∈ ds, tableEntry q m' d.toNat = tableEntry q m d.toNat :=
  ⟨ringEntry_of_sameRings hrings (Nat.mod_lt _ hpos),
    fun d hd => tableEntry_of_sameRings hrings (hds d hd)⟩

/-- A request is the same in memories that agree on the rings and its header. -/
theorem reqAt_congr {m' : Mem 64} {c : U16} (hpos : 0 < q.num.toNat)
    (htable : ∀ d ∈ blkChain q m c, d.toNat < q.num.toNat) (hrings : SameRings q m m')
    (hheader : ∀ x, Covers (headerAt q m c) 16 x → m' x = m x) :
    reqAt q m' c = reqAt q m c := by
  obtain ⟨hhead, hdesc⟩ := chain_congr hpos hrings c htable
  simp only [blkChain, List.forall_mem_cons] at hdesc
  obtain ⟨hfirst, hdata, hstat, -⟩ := hdesc
  have hload : ∀ o n : Nat, o + n ≤ 16 →
      load m' (headerAt q m c + BitVec.ofNat 64 o) n =
        load m (headerAt q m c + BitVec.ofNat 64 o) n := by
    intro o n ho
    refine ByteMem.load_congr fun i hi => hheader _ ?_
    exact ByteMem.covers_of_offset ho (by omega) (ByteMem.covers_ofNat _ hi (by omega))
  have hat : headerAt q m' c = headerAt q m c := by
    rw [headerAt, hhead, hfirst, headerAt]
  have htype := hload 0 4 (by omega)
  rw [BitVec.add_zero] at htype
  have hsector : load m' (headerAt q m c + 8) 8 = load m (headerAt q m c + 8) 8 :=
    hload 8 8 (by omega)
  simp only [reqAt, hhead, hat, htype, hsector, hfirst, hdata, hstat]

theorem servedExactly_of_reqOk {c : U16} (hok : ReqOk q m c) (hreq : vblkReq vm q s = reqAt q m c) :
    ServedExactly vm q s := by
  refine servedExactly_iff.mpr fun hwrap => ?_
  rw [hreq] at hwrap
  have hlt := hok.noWrap
  have hge : 2 ^ 64 ≤ (reqAt q m c).sector.toNat * 512 + (reqAt q m c).dlen.toNat := hwrap.1
  omega

/-- A pass changes no byte outside the used ring and its request's buffers. -/
theorem pass_mem_of_not_written (hpos : 0 < q.num.toNat) (hex : ServedExactly vm q s) {x : U64}
    (hused : ¬ InUsed q x) (hstat : ¬ Covers (vblkReq vm q s).saddr 1 x)
    (hdata : ¬ Covers (vblkReq vm q s).daddr (vblkReq vm q s).dlen.toNat x) :
    (pass .blk vm q s).mem x = s.mem x := by
  rw [hex.mem, pushed_of_not_used hpos _ _ _ hused, ByteMem.store_of_not_covers hstat]
  exact ramDisk_mem_of_not_read fun _ _ => hdata

/-- A notify of the code in the middle of the batch `cs`: it still has `todo` to
serve, and the abstract device stands at `b`. `m` is the memory at the start. -/
structure BatchInv (vm : Fin 2) (q : Queue) (m : Mem 64) (todo : List U16) (s : VHost)
    (b : BlockDev) : Prop where
  queue : (s.dev .blk vm).queue = some q
  disk : s.disk vm = b.disk
  cursor : (s.dev .blk vm).lastAvail = b.cursor
  mem : ∀ x, ¬ InUsed q x → s.mem x = b.mem x
  rings : SameRings q m s.mem
  headers : ∀ c ∈ todo, ∀ x, Covers (headerAt q m c) 16 x → s.mem x = m x

theorem queue_of_pass : ((pass .blk vm q s).dev .blk vm).queue = (s.dev .blk vm).queue := by
  rw [pass_dev]
  rfl

/-- A pass serves the next request as the abstract device does. -/
theorem batchInv_pass {c : U16} {todo : List U16} {b : BlockDev} (hok : BatchOk q m (c :: todo))
    (hcursor : b.cursor = c) (h : BatchInv vm q m (c :: todo) s b) :
    BatchInv vm q m todo (pass .blk vm q s) (b.serve (reqAt q m c)) := by
  have hpos := hok.queue.pos
  have hreqOk := hok.req c List.mem_cons_self
  have hout := hok.outside c List.mem_cons_self
  have hreq : vblkReq vm q s = reqAt q m c := by
    rw [vblkReq_eq_reqAt, h.cursor, hcursor]
    exact reqAt_congr hpos hreqOk.inTable h.rings (h.headers c List.mem_cons_self)
  have hex := servedExactly_of_reqOk hreqOk hreq
  set r := reqAt q m c with hr
  have hdata : ∀ x, Covers r.daddr r.dlen.toNat x → ¬ InQueue q x :=
    hout (r.daddr, r.dlen.toNat) (by simp [areas, hr])
  have hstat : ∀ x, Covers r.saddr 1 x → ¬ InQueue q x :=
    hout (r.saddr, 1) (by simp [areas, hr])
  have hkeep : ∀ x, ¬ InUsed q x → ¬ Covers r.saddr 1 x → ¬ Covers r.daddr r.dlen.toNat x →
      (pass .blk vm q s).mem x = s.mem x := by
    intro x hused hs hd
    rw [← hreq] at hs hd
    exact pass_mem_of_not_written hpos hex hused hs hd
  obtain ⟨hdisk, hstatus⟩ := ramDisk_disk_congr (d := b.disk) fun x hx =>
    h.mem x fun hused => hdata x hx (.inr hused)
  refine ⟨?_, ?_, ?_, fun x hx => ?_, fun x hx => ?_, fun c' hc' x hx => ?_⟩
  · rw [queue_of_pass, h.queue]
  · rw [hex.disk, hreq, h.disk, hdisk]
    rfl
  · rw [pass_lastAvail, h.cursor]
    rfl
  · rw [hex.mem, pushed_of_not_used hpos _ _ _ hx, hreq, h.disk, hstatus]
    exact store_congr (ramDisk_mem_congr (h.mem x hx))
  · rw [hkeep x (hok.queue.apart x hx) (fun hc => hstat x hc (.inl hx))
      fun hc => hdata x hc (.inl hx)]
    exact h.rings x hx
  · -- the header of a later request is apart from what this one writes
    have hpair := (List.pairwise_append.mp hok.apart).2.2
    have hheader : (headerAt q m c', 16) ∈ todo.flatMap (areas q m) :=
      List.mem_flatMap.mpr ⟨c', hc', List.mem_cons_self⟩
    have hused : ¬ InUsed q x := fun hu =>
      hok.outside c' (List.mem_cons_of_mem c hc') _ List.mem_cons_self x hx (.inr hu)
    rw [hkeep x hused
      (fun hc => hpair (r.saddr, 1) (by simp [areas, hr]) _ hheader x hc hx)
      fun hc => hpair (r.daddr, r.dlen.toNat) (by simp [areas, hr]) _ hheader x hc hx]
    exact h.headers c' (List.mem_cons_of_mem c hc') x hx

theorem BatchOk.tail {c : U16} {todo : List U16} (h : BatchOk q m (c :: todo)) :
    BatchOk q m todo where
  queue := h.queue
  req := fun c' hc' => h.req c' (List.mem_cons_of_mem c hc')
  apart := (List.pairwise_append.mp h.apart).2.1
  outside := fun c' hc' => h.outside c' (List.mem_cons_of_mem c hc')

end Pass

/-! ## 5. One notify -/

section Notify

variable {vm : Fin 2} {q : Queue} {s : VHost} {m : Mem 64} {b : BlockDev}

/-- `n` places of the avail ring from `c` on. -/
def places (c : U16) : Nat → List U16
  | 0 => []
  | n + 1 => c :: places (c + 1) n

theorem map_range_eq_places (c : U16) (n : Nat) :
    ((List.range n).map fun i => c + BitVec.ofNat 16 i) = places c n := by
  induction n generalizing c with
  | zero => rfl
  | succ n ih =>
    rw [List.range_succ_eq_map, List.map_cons, List.map_map, places, ← ih (c + 1)]
    congr 1
    · exact BitVec.add_zero c
    · refine List.map_congr_left fun i _ => ?_
      rw [Function.comp_apply, Nat.succ_eq_add_one, ByteMem.add_one_add_ofNat]

/-- The passes of a notify serve a batch. -/
theorem batchInv_iterate {n : Nat} {c : U16} (hok : BatchOk q m (places c n))
    (hcursor : b.cursor = c) (h : BatchInv vm q m (places c n) s b) :
    BatchInv vm q m [] ((pass .blk vm q)^[n] s)
      (((places c n).map (reqAt q m)).foldl .serve b) := by
  induction n generalizing c s b with
  | zero => exact h
  | succ n ih =>
    have hnext := batchInv_pass hok hcursor h
    have hcursor' : (b.serve (reqAt q m c)).cursor = c + 1 := congrArg (· + 1) hcursor
    exact ih hok.tail hcursor' hnext

theorem notify_queue (b : BlockDev) : b.notify.queue = b.queue := by
  suffices hfold : ∀ (rs : List VblkReq) (c : BlockDev),
      (rs.foldl BlockDev.serve c).queue = c.queue from hfold _ _
  intro rs
  induction rs with
  | nil => exact fun _ => rfl
  | cons r rs ih => exact fun c => ih (c.serve r)

theorem active_of_queue {d : VirtioDev} (h : d.queue = some q) :
    d.active = true ∧ queueOf d = q := by
  rw [VirtioDev.queue] at h
  split_ifs at h with hact
  exact ⟨hact, Option.some.inj h⟩

theorem notify_refines (h : Refines vm s b) (hok : b.EventOk .notify) :
    Refines vm (vblkProcess vm s) b.notify := by
  cases hq : b.queue with
  | none =>
    have hinactive : (s.dev .blk vm).active = false := by
      have hnone := h.queue.trans hq
      rw [VirtioDev.queue] at hnone
      split_ifs at hnone with hact
      exact Bool.eq_false_iff.mpr hact
    have hidle : b.notify = b := by rw [BlockDev.notify, BlockDev.pending, hq]; rfl
    rw [vblkProcess_of_not_active hinactive, hidle]
    exact h
  | some q =>
    have hbatch := hok q hq
    obtain ⟨hact, hqueue⟩ := active_of_queue (h.queue.trans hq)
    have hmem : ∀ x, ¬ InUsed q x → s.mem x = b.mem x := by
      intro x hx
      refine h.mem x fun q' hq' => ?_
      rw [hq] at hq'
      rwa [← Option.some.inj hq']
    have hrings : SameRings q b.mem s.mem := fun x hx => hmem x (hbatch.queue.apart x hx)
    have hcount : passCount .blk vm s = (availIdx q b.mem - b.cursor).toNat := by
      rw [passCount, if_pos hact, hqueue, backlog, availIdx_of_sameRings hrings, h.cursor]
    rw [published, map_range_eq_places] at hbatch
    have hstart : BatchInv vm q b.mem (places b.cursor (availIdx q b.mem - b.cursor).toNat)
        (queueStart .blk vm s) b := by
      refine ⟨h.queue.trans hq, h.disk, h.cursor, hmem, hrings, fun c hc x hx => ?_⟩
      refine hmem x fun hu => ?_
      exact hbatch.outside c hc _ List.mem_cons_self x hx (.inr hu)
    have hend := batchInv_iterate hbatch rfl hstart
    have hpend : b.pending = (places b.cursor (availIdx q b.mem - b.cursor).toNat).map
        (reqAt q b.mem) := by
      rw [BlockDev.pending, hq]
      simp only [published, map_range_eq_places]
    have hproc : vblkProcess vm s =
        (pass .blk vm q)^[(availIdx q b.mem - b.cursor).toNat] (queueStart .blk vm s) := by
      rw [vblkProcess_eq hact, afterPasses, hcount, hqueue]
    rw [← hpend, ← hproc] at hend
    refine ⟨hend.disk, ?_, hend.cursor, fun x hx => hend.mem x (hx q ?_)⟩
    · rw [hend.queue, notify_queue, hq]
    · rw [notify_queue, hq]

end Notify

/-! ## 6. `vblk_poke` and `vblk_peek` -/

section Poke

variable {vm : Fin 2} {s : VHost}

theorem diskAddr_injective {i j : Fin diskSize}
    (h : diskAddr vm (BitVec.ofNat 64 i.val) = diskAddr vm (BitVec.ofNat 64 j.val)) : i = j := by
  have hnat := congrArg BitVec.toNat h
  rw [toNat_diskAddr_index, toNat_diskAddr_index] at hnat
  exact Fin.ext (by omega)

/-- The first `n` passes of the loop of `vblk_poke`. -/
theorem forLoop_poke (f : Nat → U8) {n : Nat} (hn : n ≤ diskSize) :
    let s' := (forLoop (fun i => diskStore vm (BitVec.ofNat 64 i) (f i)) n s).2
    s'.disk vm = (fun i => if i.val < n then f i.val else s.disk vm i) ∧
      s'.mem = s.mem ∧ s'.dev = s.dev := by
  induction n with
  | zero => exact ⟨by funext i; rw [if_neg (Nat.not_lt_zero _)]; rfl, rfl, rfl⟩
  | succ n ih =>
    obtain ⟨hdisk, hmem, hdev⟩ := ih (by omega)
    rw [forLoop_succ]
    refine ⟨?_, hmem, hdev⟩
    funext i
    set t := (forLoop (fun i => diskStore vm (BitVec.ofNat 64 i) (f i)) n s).2 with ht
    change store t.vbBytes (diskAddr vm (BitVec.ofNat 64 n)) 1 (f n).toNat
      (diskAddr vm (BitVec.ofNat 64 i.val)) = _
    by_cases hi : i.val = n
    · subst hi
      have hone := ByteMem.load_store_self t.vbBytes (diskAddr vm (BitVec.ofNat 64 i.val))
        (n := 1) (f i.val).toNat (by omega)
      have hbyte : (f i.val).toNat < 256 ^ 1 := (f i.val).isLt
      rw [if_pos (by omega), ← ByteMem.load_one (store _ _ _ _), hone, Nat.mod_eq_of_lt hbyte,
        BitVec.ofNat_toNat, BitVec.setWidth_eq]
    · have hnot : ¬ Covers (diskAddr vm (BitVec.ofNat 64 n)) 1
          (diskAddr vm (BitVec.ofNat 64 i.val)) :=
        fun hc => hi (congrArg Fin.val
          (diskAddr_injective (j := ⟨n, by omega⟩) (ByteMem.covers_one hc)))
      rw [ByteMem.store_of_not_covers hnot]
      have hprev := congrFun hdisk i
      rw [show t.vbBytes (diskAddr vm (BitVec.ofNat 64 i.val)) = t.disk vm i from rfl, hprev]
      by_cases hlt : i.val < n
      · rw [if_pos hlt, if_pos (by omega)]
      · rw [if_neg hlt, if_neg (by omega)]

theorem poke_refines {b : BlockDev} {bytes : List U8} (h : Refines vm s b)
    (hlen : bytes.length ≤ diskSize) : Refines vm (vblkPoke vm bytes s).2 (b.poke bytes) := by
  have hpoke : (vblkPoke vm bytes s).2.disk vm =
      (fun i => if i.val < bytes.length then bytes.getD i.val 0 else s.disk vm i) ∧
        (vblkPoke vm bytes s).2.mem = s.mem ∧ (vblkPoke vm bytes s).2.dev = s.dev :=
    forLoop_poke _ hlen
  obtain ⟨hdisk, hmem, hdev⟩ := hpoke
  refine ⟨?_, ?_, ?_, fun x hx => ?_⟩
  · rw [hdisk, h.disk]
    funext i
    change _ = bytes.getD i.val (b.disk i)
    by_cases hi : i.val < bytes.length
    · rw [if_pos hi, List.getD_eq_getElem _ _ hi, List.getD_eq_getElem _ _ hi]
    · rw [if_neg hi, List.getD_eq_default _ _ (by omega)]
  · rw [hdev]
    exact h.queue
  · rw [hdev]
    exact h.cursor
  · rw [hmem]
    exact h.mem x hx

/-- What the hypervisor sees is the disk. -/
theorem vblkPeek_eq {b : BlockDev} (h : Refines vm s b) {n : Nat} (hn : n ≤ diskSize) :
    vblkPeek vm n s = (List.ofFn b.disk).take n := by
  refine List.ext_getElem ?_ fun i hi _ => ?_
  · rw [vblkPeek, List.length_map, List.length_range, List.length_take, List.length_ofFn]
    omega
  · rw [vblkPeek, List.length_map, List.length_range] at hi
    simp only [vblkPeek, List.getElem_map, List.getElem_range, List.getElem_take, List.getElem_ofFn]
    exact congrFun h.disk ⟨i, by omega⟩

end Poke

/-! ## 7. Histories -/

theorem step_refines {vm : Fin 2} {s : VHost} {b : BlockDev} {e : BlkEvent} (h : Refines vm s b)
    (hok : b.EventOk e) : Refines vm (s.blkStep vm e) (b.step e) := by
  cases e with
  | guest d m =>
    refine ⟨h.disk, ?_, ?_, fun _ _ => rfl⟩
    · change ((s.setDev .blk vm fun _ => d).dev .blk vm).queue = d.queue
      rw [setDev_dev_self]
    · change ((s.setDev .blk vm fun _ => d).dev .blk vm).lastAvail = d.lastAvail
      rw [setDev_dev_self]
  | poke bytes => exact poke_refines h hok
  | notify => exact notify_refines h hok

theorem run_refines {vm : Fin 2} {s : VHost} {b : BlockDev} {es : List BlkEvent}
    (h : Refines vm s b) (hok : b.RunOk es) :
    Refines vm (es.foldl (VHost.blkStep vm) s) (es.foldl BlockDev.step b) := by
  induction es generalizing s b with
  | nil => exact h
  | cons e es ih => exact ih (step_refines h hok.1) hok.2

theorem refines_blockDev (vm : Fin 2) (s : VHost) : Refines vm s (s.blockDev vm) :=
  ⟨rfl, rfl, rfl, fun _ _ => rfl⟩

/-- For every history, the code and the byte disk stay in step: they have the
same disk, which is what `vblk_peek` shows, and the same guest memory outside the
used ring; and the next notify changes only the used ring, the data buffers of
reads that fit and the status bytes. -/
theorem vblk_refines (vm : Fin 2) (s : VHost) (es : List BlkEvent)
    (hok : (s.blockDev vm).RunOk es) :
    let t := es.foldl (VHost.blkStep vm) s
    let b := es.foldl BlockDev.step (s.blockDev vm)
    Refines vm t b ∧
    (∀ n ≤ diskSize, vblkPeek vm n t = (List.ofFn b.disk).take n) ∧
    (b.EventOk .notify → ∀ x, (∀ q, b.queue = some q → ¬ InUsed q x) →
      (∀ r ∈ b.pending, x ≠ r.saddr ∧ (r.type ≠ 1 → r.Fits → ¬ Covers r.daddr r.dlen.toNat x)) →
      (vblkProcess vm t).mem x = t.mem x) := by
  intro t b
  have href : Refines vm t b := run_refines (refines_blockDev vm s) hok
  refine ⟨href, fun n hn => vblkPeek_eq href hn, fun hnotify x hused hwritten => ?_⟩
  have hnext := notify_refines href hnotify
  rw [hnext.mem x (by rwa [notify_queue]), href.mem x hused]
  exact notify_mem_of_not_written hwritten

/-- A read request of two bytes from sector 0, in a queue of four entries at
`0x1000`, with the header at `0x3000`, the data at `0x4000`, the status at
`0x5000`. -/
def readMem : Mem 64 := fun a =>
  match a.toNat with
  | 0x1001 => 0x30 -- descriptor 0: the header, next is 1
  | 0x100e => 1
  | 0x1011 => 0x40 -- descriptor 1: two bytes of data, next is 2
  | 0x1018 => 2
  | 0x101e => 2
  | 0x1021 => 0x50 -- descriptor 2: the status
  | 0x1042 => 1 -- avail.idx, with head 0 in the ring
  | 0x5000 => 0xff
  | _ => 0

def readDev : VirtioDev := { resetDev with queueNum := 4, queuePfn := 1 }

theorem readMem_batchOk :
    BatchOk (queueOf readDev) readMem (published (queueOf readDev) readMem 0) := by
  have hcs : published (queueOf readDev) readMem 0 = [0] := by decide +kernel
  have hareas : areas (queueOf readDev) readMem 0 = [(0x3000, 16), (0x4000, 2), (0x5000, 1)] := by
    decide +kernel
  have hsep : ∀ a b : U64, ∀ n k : Nat, a.toNat + n ≤ b.toNat → b.toNat + k ≤ 2 ^ 64 →
      Sep a n b k :=
    fun a b n k hle hb => ByteMem.sep_of_le (by omega) hb (.inl hle)
  have hused : (queueOf readDev).used = 0x2000 := by decide
  have hout : ∀ a : U64, ∀ n : Nat, 0x2100 ≤ a.toNat → a.toNat + n ≤ 2 ^ 64 →
      ∀ x, Covers a n x → ¬ InQueue (queueOf readDev) x := by
    rintro a n hlo hhi x hx ((hin | hin) | hin)
    · exact hsep 0x1000 a 64 n (by change 4096 + 64 ≤ _; omega) hhi x hin hx
    · exact hsep 0x1040 a 12 n (by change 4160 + 12 ≤ _; omega) hhi x hin hx
    · rw [InUsed, hused] at hin
      exact hsep 0x2000 a 36 n (by change 8192 + 36 ≤ _; omega) hhi x hin hx
  rw [hcs]
  refine ⟨⟨by decide, ?_⟩, fun c hc => ?_, ?_, fun c hc a ha => ?_⟩
  · rintro x (hx | hx) hin
    · rw [InUsed, hused] at hin
      exact hsep 0x1000 0x2000 64 36 (by decide) (by decide) x hx hin
    · rw [InUsed, hused] at hin
      exact hsep 0x1040 0x2000 12 36 (by decide) (by decide) x hx hin
  · rw [List.mem_singleton.mp hc]
    exact ⟨.inl (by decide +kernel), by decide +kernel, by decide +kernel, by decide +kernel,
      by decide +kernel⟩
  · rw [List.flatMap_singleton, hareas]
    simp only [List.pairwise_cons, List.mem_cons, List.not_mem_nil, or_false, forall_eq_or_imp,
      forall_eq, List.Pairwise.nil, and_true, false_imp_iff, implies_true]
    exact ⟨⟨hsep _ _ _ _ (by decide) (by decide), hsep _ _ _ _ (by decide) (by decide)⟩,
      hsep _ _ _ _ (by decide) (by decide)⟩
  · rw [List.mem_singleton.mp hc, hareas] at ha
    simp only [List.mem_cons, List.not_mem_nil, or_false] at ha
    rcases ha with rfl | rfl | rfl
    · exact hout _ _ (by decide) (by decide)
    · exact hout _ _ (by decide) (by decide)
    · exact hout _ _ (by decide) (by decide)

/-- The guest reads back what the hypervisor has poked. -/
theorem vblk_refines_poked_read :
    let es := [.poke [0xaa, 0xbb], .guest readDev readMem, .notify]
    let t := es.foldl (VHost.blkStep 0) wrapHost
    (wrapHost.blockDev 0).RunOk es ∧
    t.mem 0x4000 = 0xaa ∧ t.mem 0x4001 = 0xbb ∧ t.mem 0x5000 = 0 := by
  have hok : (wrapHost.blockDev 0).RunOk [.poke [0xaa, 0xbb], .guest readDev readMem, .notify] := by
    refine ⟨show 2 ≤ 8192 by omega, trivial, fun q hq => ?_, trivial⟩
    have hsome : queueOf readDev = q := Option.some.inj hq
    rw [← hsome]
    exact readMem_batchOk
  have href := (vblk_refines 0 wrapHost _ hok).1
  have hread : ∀ x v, ¬ InUsed (queueOf readDev) x →
      ([.poke [0xaa, 0xbb], .guest readDev readMem, .notify].foldl BlockDev.step
        (wrapHost.blockDev 0)).mem x = v →
      ([.poke [0xaa, 0xbb], .guest readDev readMem, .notify].foldl (VHost.blkStep 0) wrapHost).mem x
        = v := by
    intro x v hx hv
    rw [href.mem x fun q hq => ?_, hv]
    have hsome : queueOf readDev = q := Option.some.inj hq
    rwa [← hsome]
  refine ⟨hok, hread _ _ ?_ ?_, hread _ _ ?_ ?_, hread _ _ ?_ ?_⟩
  · unfold InUsed Covers
    decide
  · decide +kernel
  · unfold InUsed Covers
    decide
  · decide +kernel
  · unfold InUsed Covers
    decide
  · decide +kernel

end FermiHV
