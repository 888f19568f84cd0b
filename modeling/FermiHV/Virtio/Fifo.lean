import FermiHV.Virtio.Layout

/-!
# The virtqueues are FIFOs

A driver publishes heads in the avail ring and notifies; the device serves them
and returns the heads in the used ring. Both sides count with 16-bit cursors
that run freely, and both rings have a power of two of slots.

The ghost state of a run is the list of all heads published so far, of all heads
served so far, and of the bytes that the console should have printed. `FifoInv`
relates it to the device: the cursor and the used index stand at the number of
heads served, the avail ring holds the heads still to be served, the used ring the
last ones served. A pass serves one head (`servedInv_pass`), a notify all of them
(`fifoInv_notify`), and `queue_fifo` is the result for whole runs of either
device.
-/

namespace FermiHV

open ByteMem (Mem load store Covers)

/-! ## 1. The driver -/

/-- The head that a pass serves. -/
def passHead (k : VirtioKind) (vm : Fin 2) (q : Queue) (s : VHost) : U16 :=
  availEntry q s.mem (s.dev k vm).lastAvail

/-- The bytes that the descriptor `h` names. -/
def bufferBytes (q : Queue) (m : Mem 64) (h : U16) : List U8 :=
  let d := tableEntry q m h.toNat
  (List.range d.len.toNat).map fun i => m (d.addr + q.o + BitVec.ofNat 64 i)

/-- A transmit request as a well-formed driver makes it. -/
structure TxReq.Ok (q : Queue) (r : TxReq) : Prop where
  head : r.didx.toNat < q.num.toNat
  buffer : ∀ x, Covers r.addr r.len.toNat x → ¬ InQueue q x

/-- A block request as a well-formed driver makes it; `m` is the memory in which
its descriptors are. -/
structure VblkReq.Ok (q : Queue) (m : Mem 64) (r : VblkReq) : Prop where
  head : r.head.toNat < q.num.toNat
  next : (tableEntry q m r.head.toNat).next.toNat < q.num.toNat
  last : (tableEntry q m (tableEntry q m r.head.toNat).next.toNat).next.toNat < q.num.toNat
  data : r.type ≠ 1 → ∀ x, Covers r.daddr r.dlen.toNat x → ¬ InQueue q x
  status : ¬ InQueue q r.saddr
  noWrap : r.sector.toNat * 512 + r.dlen.toNat < 2 ^ 64

/-- The request that a pass from `s` serves is well formed. -/
def PassOk (k : VirtioKind) (vm : Fin 2) (q : Queue) (s : VHost) : Prop :=
  match k with
  | .con => (txReq vm q s).Ok q
  | .blk => (vblkReq vm q s).Ok q s.mem

/-- The driver changes memory from `m` to `m'` and publishes `heads` behind the
heads `published`, of which `done` have been served. -/
structure DriveOk (q : Queue) (published : List U16) (done : Nat) (heads : List U16)
    (m m' : Mem 64) : Prop where
  room : published.length + heads.length ≤ done + q.num.toNat
  usedKept : ∀ x, InUsed q x → m' x = m x
  entriesKept : ∀ j, done ≤ j → j < published.length →
    ringEntry q m' (j % q.num.toNat) = ringEntry q m (j % q.num.toNat)
  entries : ∀ i, i < heads.length →
    heads[i]? = some (ringEntry q m' ((published.length + i) % q.num.toNat))
  idx : availIdx q m' = BitVec.ofNat 16 (published.length + heads.length)

inductive QEvent
  | drive (heads : List U16) (mem : Mem 64)
  | notify

/-- The host with the ghost state. -/
structure QRun where
  host : VHost
  published : List U16
  served : List U16
  /-- What the console should have printed: the buffers of the heads served, as
  they stood at the notify. -/
  emitted : List U8

section Run

variable (k : VirtioKind) (vm : Fin 2)

def QRun.queue (t : QRun) : Queue := queueOf (t.host.dev k vm)

def QRun.step (t : QRun) : QEvent → QRun
  | .drive heads m =>
    { t with host := { t.host with mem := m }, published := t.published ++ heads }
  | .notify =>
    { t with
      host := process k vm t.host
      served := t.served ++ (passes k vm t.host).map (passHead k vm (t.queue k vm))
      emitted := t.emitted ++ (t.published.drop t.served.length).flatMap
        (bufferBytes (t.queue k vm) t.host.mem) }

def QRun.run (t : QRun) (es : List QEvent) : QRun := es.foldl (QRun.step k vm) t

/-- The driver keeps to its rules in the event. -/
def QRun.EventOk (t : QRun) : QEvent → Prop
  | .drive heads m => DriveOk (t.queue k vm) t.published t.served.length heads t.host.mem m
  | .notify => ∀ s ∈ passes k vm t.host, PassOk k vm (t.queue k vm) s

/-- The driver keeps to its rules throughout. -/
def QRun.RunOk : QRun → List QEvent → Prop
  | _, [] => True
  | t, e :: es => t.EventOk k vm e ∧ (t.step k vm e).RunOk es

/-- After reset, with a queue set up and both indices zero. -/
structure QueueStart (s : VHost) : Prop where
  queue : QueueOk (s.dev k vm)
  cursor : (s.dev k vm).lastAvail = 0
  availIdx : availIdx (queueOf (s.dev k vm)) s.mem = 0
  usedIdx : usedIdx (queueOf (s.dev k vm)) s.mem = 0

def QRun.start (s : VHost) : QRun where
  host := s
  published := []
  served := []
  emitted := []

end Run

/-! ## 2. One pass -/

section Pass

variable {k : VirtioKind} {vm : Fin 2} {q : Queue} {s : VHost}

theorem pass_active : ((pass k vm q s).dev k vm).active = (s.dev k vm).active := by
  rw [pass_dev]
  cases k <;> rfl

/-- A pass publishes its head in the used ring and writes nothing else of the
queue. -/
theorem pass_publishes (hok : PassOk k vm q s) : ∃ (len : U32) (m : Mem 64),
    (∀ x, InQueue q x → m x = s.mem x) ∧
      (pass k vm q s).mem = pushed q ((passHead k vm q s).setWidth 32) len m := by
  cases k with
  | con =>
    refine ⟨0, s.mem, fun _ _ => rfl, ?_⟩
    simp only [pass, virtioTxPass_run, txReq_eq]
    rfl
  | blk =>
    have hr : (vblkReq vm q s).Ok q s.mem := hok
    refine ⟨(vblkReq vm q s).dlen, statusMem vm (vblkReq vm q s) s, fun x hx => ?_, ?_⟩
    · have hstat : ¬ Covers (vblkReq vm q s).saddr 1 x := by
        intro hc
        rw [ByteMem.covers_one hc] at hx
        exact hr.status hx
      rw [statusMem, ByteMem.store_of_not_covers hstat, movedMem]
      split_ifs with hmoved
      · exact ByteMem.copy_of_not_covers fun hc => hr.data hmoved.2 x hc hx
      · rfl
    · simp only [pass, vblkPass_run]
      have hhead : (vblkReq vm q s).head = passHead .blk vm q s := by rw [vblkReq_eq]; rfl
      rw [hhead]

/-- The state of a notify after `done` heads of `published` have been served;
`m` is the memory at its start. -/
structure ServedInv (k : VirtioKind) (vm : Fin 2) (q : Queue) (published : List U16) (m : Mem 64)
    (done : Nat) (s : VHost) : Prop where
  queue : queueOf (s.dev k vm) = q
  active : (s.dev k vm).active = true
  cursor : (s.dev k vm).lastAvail = BitVec.ofNat 16 done
  usedIdx : usedIdx q s.mem = BitVec.ofNat 16 done
  used : Ring.Holds q.num.toNat (usedId q s.mem)
    ((published.take done).map (BitVec.setWidth 32)) (done - q.num.toNat) done
  rings : SameRings q m s.mem

/-- The entry of the avail ring that the cursor of the device selects after `j` heads. -/
theorem availEntry_ofNat (hq : RingLayout q) (m : Mem 64) (j : Nat) :
    availEntry q m (BitVec.ofNat 16 j) = ringEntry q m (j % q.num.toNat) := by
  rw [availEntry_eq, Ring.cursor_mod hq.dvd]

/-- A pass serves the next head. -/
theorem servedInv_pass (hq : RingLayout q) {published : List U16} {m : Mem 64} {done : Nat}
    (h : ServedInv k vm q published m done s) (hdone : done < published.length)
    (hentry : published[done]? = some (ringEntry q m (done % q.num.toNat)))
    (hok : PassOk k vm q s) :
    published[done]? = some (passHead k vm q s) ∧
      ServedInv k vm q published m (done + 1) (pass k vm q s) := by
  obtain ⟨len, m1, hframe, hmem⟩ := pass_publishes hok
  have hhead : published[done]? = some (passHead k vm q s) := by
    rw [hentry, passHead, h.cursor, availEntry_ofNat hq,
      ringEntry_of_sameRings h.rings (Nat.mod_lt _ hq.pos)]
  obtain ⟨hidx, hused⟩ := used_congr fun x hx => hframe x (.inr hx)
  have hidx1 : FermiHV.usedIdx q m1 = BitVec.ofNat 16 done := by rw [hidx, h.usedIdx]
  have hslot : (BitVec.ofNat 16 done).toNat % q.num.toNat = done % q.num.toNat :=
    Ring.cursor_mod hq.dvd done
  have hnext : BitVec.ofNat 16 done + 1 = BitVec.ofNat 16 (done + 1) := by
    rw [BitVec.ofNat_add]
    rfl
  refine ⟨hhead, ?_, ?_, ?_, ?_, ?_, ?_⟩
  · rw [pass_queueOf, h.queue]
  · rw [pass_active, h.active]
  · rw [pass_lastAvail, h.cursor, hnext]
  · rw [hmem, usedIdx_pushed, hidx1, hnext]
  · have hlen : ((published.take done).map (BitVec.setWidth 32)).length = done := by
      rw [List.length_map, List.length_take]
      omega
    have hself : usedId q (pass k vm q s).mem (done % q.num.toNat) =
        (passHead k vm q s).setWidth 32 := by
      have hself1 := usedId_pushed_self hq.pos ((passHead k vm q s).setWidth 32) len m1
      rwa [hidx1, hslot, ← hmem] at hself1
    have hother : ∀ i < q.num.toNat, i ≠ done % q.num.toNat →
        usedId q (pass k vm q s).mem i = usedId q s.mem i := by
      intro i hi hne
      rw [hmem, usedId_pushed_of_ne hq.pos _ _ _ hi (by rwa [hidx1, hslot]), hused i hi]
    have hpush := Ring.holds_push hlen h.used hself hother
    rw [List.take_add_one, hhead, List.map_append]
    exact hpush
  · intro x hx
    rw [hmem, pushed_of_not_used hq.pos _ _ _ (hq.apart x hx), hframe x (.inl hx)]
    exact h.rings x hx

/-- The console during a notify that started with memory `m`, `start` heads served
and `out` printed. -/
structure PrintInv (q : Queue) (published : List U16) (m : Mem 64) (start : Nat) (out : List U8)
    (done : Nat) (s : VHost) : Prop where
  mem : ∀ x, ¬ InUsed q x → s.mem x = m x
  console : s.console =
    out ++ ((published.take done).drop start).flatMap (bufferBytes q m)

/-- The request of a console pass has the bytes that stood there at the notify. -/
theorem txReq_bytes (hq : RingLayout q) {m : Mem 64} (hmem : ∀ x, ¬ InUsed q x → s.mem x = m x)
    (hok : (txReq vm q s).Ok q) :
    (txReq vm q s).bytes s.mem = bufferBytes q m (passHead .con vm q s) := by
  have hhead : (txReq vm q s).didx = passHead .con vm q s := by
    rw [txReq_eq]
    rfl
  have hdesc : tableEntry q s.mem (passHead .con vm q s).toNat =
      tableEntry q m (passHead .con vm q s).toNat :=
    tableEntry_of_sameRings (fun x hx => hmem x (hq.apart x hx)) (hhead ▸ hok.head)
  have haddr : (txReq vm q s).addr =
      (tableEntry q m (passHead .con vm q s).toNat).addr + q.o := by
    rw [← hdesc, ← descAddr_eq, ← hhead, txReq_eq]
  have hlen : (txReq vm q s).len = (tableEntry q m (passHead .con vm q s).toNat).len := by
    rw [← hdesc, ← descLen_eq, ← hhead, txReq_eq]
  rw [bufferBytes, ← haddr, ← hlen]
  refine List.map_congr_left fun i hi => hmem _ fun hin => ?_
  have hcov := ByteMem.covers_ofNat (txReq vm q s).addr (List.mem_range.mp hi)
    (by have := (txReq vm q s).len.isLt; omega)
  exact hok.buffer _ hcov (.inr hin)

theorem printInv_pass (hq : RingLayout q) {published : List U16} {m : Mem 64} {start done : Nat}
    {out : List U8} (h : PrintInv q published m start out done s) (hle : start ≤ done)
    (hdone : done < published.length) (hhead : published[done]? = some (passHead .con vm q s))
    (hok : PassOk .con vm q s) :
    PrintInv q published m start out (done + 1) (pass .con vm q s) := by
  refine ⟨fun x hx => ?_, ?_⟩
  · simp only [pass, virtioTxPass_run]
    rw [pushed_of_not_used hq.pos _ _ _ hx, h.mem x hx]
  · have htake : (published.take (done + 1)).drop start =
        (published.take done).drop start ++ [passHead .con vm q s] := by
      rw [List.take_add_one, hhead, List.drop_append_of_le_length]
      · rfl
      · rw [List.length_take]
        omega
    simp only [pass, virtioTxPass_run]
    rw [h.console, txReq_bytes hq h.mem hok, htake, List.flatMap_append, List.flatMap_singleton,
      List.append_assoc]

end Pass

/-! ## 3. One notify -/

section Notify

variable {k : VirtioKind} {vm : Fin 2} {s : VHost}

/-- A notify of a device with a queue makes its passes; at most the interrupt
flags come on top. -/
theorem process_afterPasses (h : (s.dev k vm).active = true) :
    ∃ f : VirtioDev → VirtioDev,
      process k vm s = (afterPasses k vm s (passCount k vm s)).setDev k vm f ∧
        ∀ d, queueOf (f d) = queueOf d ∧ (f d).lastAvail = d.lastAvail ∧
          (f d).active = d.active := by
  rw [process_passes h]
  split_ifs
  · exact ⟨fun d => { d with intStatus := d.intStatus ||| 1, irq := true }, rfl,
      fun _ => ⟨rfl, rfl, rfl⟩⟩
  · exact ⟨id, setDev_id.symm, fun _ => ⟨rfl, rfl, rfl⟩⟩

/-- Between events. -/
structure FifoInv (k : VirtioKind) (vm : Fin 2) (q : Queue) (out : List U8) (t : QRun) : Prop where
  served : t.served = t.published.take t.served.length
  room : t.published.length ≤ t.served.length + q.num.toNat
  state : ServedInv k vm q t.published t.host.mem t.served.length t.host
  entries : ∀ j, t.served.length ≤ j → j < t.published.length →
    t.published[j]? = some (ringEntry q t.host.mem (j % q.num.toNat))
  idx : availIdx q t.host.mem = BitVec.ofNat 16 t.published.length
  console : k = .con → t.host.console = out ++ t.emitted

variable {q : Queue} {out : List U8} {t : QRun}

theorem FifoInv.served_le (h : FifoInv k vm q out t) : t.served.length ≤ t.published.length := by
  have hlen := congrArg List.length h.served
  rw [List.length_take] at hlen
  omega

/-- A notify makes one pass for each head that is outstanding. -/
theorem passCount_eq (hq : RingLayout q) (h : FifoInv k vm q out t) :
    passCount k vm t.host = t.published.length - t.served.length := by
  have hle := h.served_le
  have hroom := h.room
  have hsize := hq.le
  rw [passCount, if_pos h.state.active, h.state.queue, backlog, h.idx, h.state.cursor,
    Ring.cursor_sub hle (by omega)]

/-- The states in which the passes of a notify begin. -/
theorem afterPasses_served (hq : RingLayout q) (h : FifoInv k vm q out t)
    (hok : ∀ s ∈ passes k vm t.host, PassOk k vm q s) {j : Nat}
    (hj : j ≤ t.published.length - t.served.length) :
    ServedInv k vm q t.published t.host.mem (t.served.length + j) (afterPasses k vm t.host j) ∧
      ∀ i < j, t.published[t.served.length + i]? =
        some (passHead k vm q (afterPasses k vm t.host i)) := by
  induction j with
  | zero =>
    refine ⟨?_, fun i hi => absurd hi (Nat.not_lt_zero i)⟩
    exact ⟨h.state.queue, h.state.active, h.state.cursor, h.state.usedIdx, h.state.used,
      h.state.rings⟩
  | succ j ih =>
    obtain ⟨hinv, hheads⟩ := ih (by omega)
    have hmem : afterPasses k vm t.host j ∈ passes k vm t.host := by
      refine List.mem_map_of_mem (List.mem_range.mpr ?_)
      rw [passCount_eq hq h]
      omega
    obtain ⟨hhead, hnext⟩ := servedInv_pass hq hinv (by omega)
      (h.entries (t.served.length + j) (by omega) (by omega)) (hok _ hmem)
    rw [afterPasses_succ, h.state.queue]
    refine ⟨hnext, fun i hi => ?_⟩
    by_cases hij : i = j
    · subst hij
      exact hhead
    · exact hheads i (by omega)

/-- The console over the passes of a notify. -/
theorem afterPasses_console (hq : RingLayout q) (h : FifoInv .con vm q out t)
    (hok : ∀ s ∈ passes .con vm t.host, PassOk .con vm q s) {j : Nat}
    (hj : j ≤ t.published.length - t.served.length) :
    PrintInv q t.published t.host.mem t.served.length t.host.console (t.served.length + j)
      (afterPasses .con vm t.host j) := by
  induction j with
  | zero =>
    refine ⟨fun _ _ => rfl, ?_⟩
    have hnil : (t.published.take t.served.length).drop t.served.length = [] := by
      rw [List.drop_eq_nil_iff, List.length_take]
      omega
    rw [Nat.add_zero, hnil, List.flatMap_nil, List.append_nil]
    rfl
  | succ j ih =>
    have hmem : afterPasses .con vm t.host j ∈ passes .con vm t.host := by
      refine List.mem_map_of_mem (List.mem_range.mpr ?_)
      rw [passCount_eq hq h]
      omega
    have hhead := (afterPasses_served hq h hok hj).2 j (by omega)
    rw [afterPasses_succ, h.state.queue]
    have hprev := ih (by omega)
    have hnext := printInv_pass hq hprev (by omega) (by omega) hhead (hok _ hmem)
    exact hnext

/-- A notify serves every outstanding head, in order. -/
theorem passes_heads (hq : RingLayout q) (h : FifoInv k vm q out t)
    (hok : ∀ s ∈ passes k vm t.host, PassOk k vm q s) :
    (passes k vm t.host).map (passHead k vm q) = t.published.drop t.served.length := by
  have hheads := (afterPasses_served hq h hok (Nat.le_refl _)).2
  refine List.ext_getElem? fun i => ?_
  rw [passes, List.map_map, List.getElem?_map, passCount_eq hq h, List.getElem?_drop]
  by_cases hi : i < t.published.length - t.served.length
  · rw [List.getElem?_range hi, hheads i hi]
    rfl
  · rw [List.getElem?_eq_none (by rw [List.length_range]; omega),
      List.getElem?_eq_none (by omega)]
    rfl

/-- A notify leaves the memory and the console of its last pass, and the queue, the
cursor and the activity of the device. -/
theorem notify_host (h : (t.host.dev k vm).active = true) :
    let s := afterPasses k vm t.host (passCount k vm t.host)
    let s' := (t.step k vm .notify).host
    s'.mem = s.mem ∧ s'.console = s.console ∧
      queueOf (s'.dev k vm) = queueOf (s.dev k vm) ∧
      (s'.dev k vm).lastAvail = (s.dev k vm).lastAvail ∧
      (s'.dev k vm).active = (s.dev k vm).active := by
  obtain ⟨f, hproc, hf⟩ := process_afterPasses h
  intro s s'
  have hs' : s' = s.setDev k vm f := hproc
  rw [hs', setDev_dev_self]
  exact ⟨rfl, rfl, hf _⟩

theorem fifoInv_notify (hq : RingLayout q) (h : FifoInv k vm q out t)
    (hok : ∀ s ∈ passes k vm t.host, PassOk k vm q s) :
    FifoInv k vm q out (t.step k vm .notify) ∧
      (t.step k vm .notify).served = (t.step k vm .notify).published := by
  have hle := h.served_le
  have hcount : t.served.length + passCount k vm t.host = t.published.length := by
    rw [passCount_eq hq h]
    omega
  obtain ⟨hmem, hcon, hqueue, hlast, hactive⟩ := notify_host h.state.active
  have hinv := (afterPasses_served hq h hok (Nat.le_refl _)).1
  rw [← passCount_eq hq h, hcount] at hinv
  have hall : (t.step k vm .notify).served = t.published := by
    rw [QRun.step, QRun.queue, h.state.queue, passes_heads hq h hok]
    nth_rewrite 1 [h.served]
    exact List.take_append_drop _ _
  have hpub : (t.step k vm .notify).published = t.published := rfl
  refine ⟨⟨?_, ?_, ?_, fun j hlo hhi => ?_, ?_, ?_⟩, hall⟩
  · rw [hall, hpub, List.take_length]
  · rw [hall, hpub]
    omega
  · rw [hall, hpub]
    refine ⟨?_, ?_, ?_, ?_, ?_, fun _ _ => rfl⟩
    · rw [hqueue, hinv.queue]
    · rw [hactive, hinv.active]
    · rw [hlast, hinv.cursor]
    · rw [hmem, hinv.usedIdx]
    · rw [hmem]
      exact hinv.used
  · rw [hall] at hlo
    rw [hpub] at hhi
    omega
  · rw [hmem, availIdx_of_sameRings hinv.rings, h.idx, hpub]
  · rintro rfl
    have hprint := (afterPasses_console hq h hok (Nat.le_refl _)).console
    rw [← passCount_eq hq h, hcount, List.take_length] at hprint
    rw [hcon, hprint, h.console rfl, List.append_assoc, QRun.step, QRun.queue, h.state.queue]

/-! ## 4. Publications -/

theorem fifoInv_drive (hq : RingLayout q) (h : FifoInv k vm q out t) {heads : List U16}
    {m : Mem 64} (hok : DriveOk q t.published t.served.length heads t.host.mem m) :
    FifoInv k vm q out (t.step k vm (.drive heads m)) := by
  have hle := h.served_le
  obtain ⟨hidx, hused⟩ := used_congr hok.usedKept
  refine ⟨?_, ?_, ?_, fun j hlo hhi => ?_, ?_, h.console⟩
  · change t.served = (t.published ++ heads).take t.served.length
    rw [List.take_append_of_le_length hle]
    exact h.served
  · change (t.published ++ heads).length ≤ _
    rw [List.length_append]
    exact hok.room
  · refine ⟨h.state.queue, h.state.active, h.state.cursor, ?_, fun j hlo hhi => ?_,
      fun _ _ => rfl⟩
    · exact hidx.trans h.state.usedIdx
    · change ((t.published ++ heads).take t.served.length |>.map (BitVec.setWidth 32))[j]? =
        some (usedId q m (j % q.num.toNat))
      rw [List.take_append_of_le_length hle, hused _ (Nat.mod_lt _ hq.pos)]
      exact h.state.used j hlo hhi
  · change (t.published ++ heads)[j]? = some (ringEntry q m (j % q.num.toNat))
    change j < (t.published ++ heads).length at hhi
    rw [List.length_append] at hhi
    by_cases hj : j < t.published.length
    · rw [List.getElem?_append_left hj, hok.entriesKept j hlo hj]
      exact h.entries j hlo hj
    · rw [List.getElem?_append_right (by omega)]
      have hentry := hok.entries (j - t.published.length) (by omega)
      rwa [show t.published.length + (j - t.published.length) = j by omega] at hentry
  · change availIdx q m = BitVec.ofNat 16 (t.published ++ heads).length
    rw [List.length_append]
    exact hok.idx

end Notify

/-! ## 5. Whole runs -/

section Runs

variable {k : VirtioKind} {vm : Fin 2} {q : Queue} {out : List U8}

theorem fifoInv_step {t : QRun} {e : QEvent} (hq : RingLayout q) (h : FifoInv k vm q out t)
    (hok : t.EventOk k vm e) : FifoInv k vm q out (t.step k vm e) := by
  have hqueue : t.queue k vm = q := h.state.queue
  cases e with
  | drive heads m =>
    rw [QRun.EventOk, hqueue] at hok
    exact fifoInv_drive hq h hok
  | notify =>
    rw [QRun.EventOk, hqueue] at hok
    exact (fifoInv_notify hq h hok).1

theorem fifoInv_run {t : QRun} {es : List QEvent} (hq : RingLayout q) (h : FifoInv k vm q out t)
    (hok : t.RunOk k vm es) : FifoInv k vm q out (t.run k vm es) := by
  induction es generalizing t with
  | nil => exact h
  | cons e es ih => exact ih (fifoInv_step hq h hok.1) hok.2

theorem runOk_append {t : QRun} {es es' : List QEvent} (h : t.RunOk k vm (es ++ es')) :
    t.RunOk k vm es ∧ (t.run k vm es).RunOk k vm es' := by
  induction es generalizing t with
  | nil => exact ⟨trivial, h⟩
  | cons e es ih =>
    obtain ⟨hes, hes'⟩ := ih h.2
    exact ⟨⟨h.1, hes⟩, hes'⟩

theorem fifoInv_start {s : VHost} (h : QueueStart k vm s) :
    FifoInv k vm (queueOf (s.dev k vm)) s.console (QRun.start s) := by
  refine ⟨rfl, Nat.zero_le _, ?_, fun j _ hj => absurd hj (Nat.not_lt_zero j), h.availIdx,
    fun _ => (List.append_nil _).symm⟩
  exact ⟨rfl, h.queue.active, h.cursor, h.usedIdx, fun j _ hj => absurd hj (Nat.not_lt_zero j),
    fun _ _ => rfl⟩

end Runs

/-- From reset, for every run of a well-formed driver, of any length: at any time
the heads served are the first ones published, in order; after a notify they are
all of them, the cursor, the avail index and the used index stand at their number
modulo 65536, the used ring holds the last ones, and the console has printed
exactly their buffers. -/
theorem queue_fifo (k : VirtioKind) (vm : Fin 2) (s : VHost) (hstart : QueueStart k vm s)
    (es : List QEvent) (hok : (QRun.start s).RunOk k vm (es ++ [.notify])) :
    let q := queueOf (s.dev k vm)
    let t := (QRun.start s).run k vm es
    let t' := (QRun.start s).run k vm (es ++ [.notify])
    let c : U16 := BitVec.ofNat 16 t'.published.length
    t.served <+: t.published ∧ t'.published = t.published ∧ t'.served = t'.published ∧
    (t'.host.dev k vm).lastAvail = c ∧ availIdx q t'.host.mem = c ∧ usedIdx q t'.host.mem = c ∧
    Ring.Holds q.num.toNat (usedId q t'.host.mem) (t'.published.map (BitVec.setWidth 32))
      (t'.published.length - q.num.toNat) t'.published.length ∧
    (k = .con → t'.host.console = s.console ++ t'.emitted) := by
  intro q t t' c
  have hq : RingLayout q := hstart.queue.layout
  obtain ⟨hes, hlast⟩ := runOk_append hok
  have ht : FifoInv k vm q s.console t := fifoInv_run hq (fifoInv_start hstart) hes
  have hqueue : t.queue k vm = q := ht.state.queue
  have hpasses : ∀ p ∈ passes k vm t.host, PassOk k vm q p := hqueue ▸ hlast.1
  have hstep : t' = t.step k vm .notify := by
    change (es ++ [QEvent.notify]).foldl _ _ = _
    rw [List.foldl_append]
    rfl
  obtain ⟨hinv, hall⟩ := fifoInv_notify hq ht hpasses
  rw [← hstep] at hinv hall
  have hstate := hinv.state
  rw [hall] at hstate
  refine ⟨?_, by rw [hstep]; rfl, hall, hstate.cursor, hinv.idx, hstate.usedIdx, ?_, hinv.console⟩
  · rw [ht.served]
    exact List.take_prefix _ _
  · have hused := hstate.used
    rwa [List.take_length] at hused

/-- Two buffers of two bytes and two of one byte, below a queue at 0x10000. -/
def textMem : Mem 64 := fun a =>
  match a.toNat with
  | 0x3000 => 0x48 -- "Hi"
  | 0x3001 => 0x69
  | 0x3100 => 0x21 -- "!"
  | 0x3200 => 0x6f -- "ok"
  | 0x3201 => 0x6b
  | 0x3300 => 0x0a
  | 0x10001 => 0x30 -- descriptor 0
  | 0x10008 => 2
  | 0x10011 => 0x31 -- descriptor 1
  | 0x10018 => 1
  | 0x10021 => 0x32 -- descriptor 2
  | 0x10028 => 2
  | 0x10031 => 0x33 -- descriptor 3
  | 0x10038 => 1
  | _ => 0

/-- A console with a queue of 4 entries at 0x10000, nothing published. -/
def textConsole : VHost where
  mem := textMem
  dev := fun _ _ => { resetDev with queueNum := 4, queuePfn := 0x10 }
  vbBytes := fun _ => 0
  console := []
  log := []

/-- The driver writes the avail index and the four entries of the ring. -/
def publish (heads : List U16) (idx e0 e1 e2 e3 : Nat) (m : Mem 64) : QEvent :=
  .drive heads (store m 0x10042 10
    (idx + 2 ^ 16 * (e0 + 2 ^ 16 * (e1 + 2 ^ 16 * (e2 + 2 ^ 16 * e3)))))

/-- The first two heads. -/
def firstHeads : QEvent := publish [1, 0] 2 1 0 0 0 textMem

/-- Three more, of which the last is in slot 0 again. -/
def secondHeads : QEvent :=
  publish [2, 3, 1] 5 1 0 2 3 ((QRun.start textConsole).run .con 0 [firstHeads, .notify]).host.mem

def textRun : List QEvent := [firstHeads, .notify, secondHeads]

theorem textConsole_start : QueueStart .con 0 textConsole where
  queue := ⟨by decide, ⟨2, by decide, by decide⟩, by decide⟩
  cursor := rfl
  availIdx := by decide +kernel
  usedIdx := by decide +kernel

/-- The buffers below 0x10000 are outside the queue. -/
theorem not_inQueue_text {a : U64} {n : Nat} (hle : a.toNat + n ≤ 0x10000) (x : U64)
    (hx : Covers a n x) : ¬ InQueue (queueOf (textConsole.dev .con 0)) x := by
  have hbelow := ((ByteMem.covers_iff (by omega)).mp hx).2
  have hused : (queueOf (textConsole.dev .con 0)).used.toNat = 0x11000 := by decide
  rintro ((hin | hin) | hin)
  · have hlow := ((ByteMem.covers_iff (by decide)).mp hin).1
    change 0x10000 ≤ x.toNat at hlow
    omega
  · have hlow := ((ByteMem.covers_iff (by decide)).mp hin).1
    change 0x10040 ≤ x.toNat at hlow
    omega
  · have hlow := ((ByteMem.covers_iff (by decide)).mp hin).1
    rw [hused] at hlow
    omega

/-- Publishing leaves the used ring. -/
theorem publish_of_inUsed (m : Mem 64) (v : Nat) (x : U64)
    (hx : InUsed (queueOf (textConsole.dev .con 0)) x) : store m 0x10042 10 v x = m x := by
  refine ByteMem.store_of_not_covers fun hc => ?_
  have hhigh := ((ByteMem.covers_iff (by decide)).mp hc).2
  have hlow := ((ByteMem.covers_iff (by decide)).mp hx).1
  have hused : (queueOf (textConsole.dev .con 0)).used.toNat = 0x11000 := by decide
  have hend : (0x10042 : U64).toNat + 10 < 0x11000 := by decide
  omega

/-- A notify whose requests have their heads in the table and their buffers below the
queue. -/
theorem textNotify_ok {t : QRun} (hqueue : t.queue .con 0 = queueOf (textConsole.dev .con 0))
    (h : ∀ s ∈ passes .con 0 t.host,
      (txReq 0 (queueOf (textConsole.dev .con 0)) s).didx.toNat < 4 ∧
        (txReq 0 (queueOf (textConsole.dev .con 0)) s).addr.toNat +
          (txReq 0 (queueOf (textConsole.dev .con 0)) s).len.toNat ≤ 0x10000) :
    t.EventOk .con 0 .notify := by
  intro s hs
  rw [hqueue]
  exact ⟨(h s hs).1, not_inQueue_text (h s hs).2⟩

theorem firstHeads_ok : (QRun.start textConsole).RunOk .con 0 [firstHeads, .notify] := by
  refine ⟨?_, textNotify_ok (by rfl) (by decide +kernel), trivial⟩
  exact ⟨by decide, publish_of_inUsed _ _, fun j _ hj => absurd hj (Nat.not_lt_zero j),
    by decide +kernel, by decide +kernel⟩

theorem textRun_ok : (QRun.start textConsole).RunOk .con 0 (textRun ++ [.notify]) := by
  obtain ⟨hdrive, hnotify, -⟩ := firstHeads_ok
  have hq : RingLayout (queueOf (textConsole.dev .con 0)) := textConsole_start.queue.layout
  have hfirst := fifoInv_run hq (fifoInv_start textConsole_start) firstHeads_ok
  have hsecond : ((QRun.start textConsole).run .con 0 [firstHeads, .notify]).EventOk .con 0
      secondHeads := by
    change DriveOk (QRun.queue .con 0 _) _ _ _ _ _
    rw [show QRun.queue .con 0 _ = _ from hfirst.state.queue]
    exact ⟨by decide +kernel, publish_of_inUsed _ _, by decide +kernel, by decide +kernel,
      by decide +kernel⟩
  have hqueue := (fifoInv_step hq hfirst hsecond).state.queue
  exact ⟨hdrive, hnotify, hsecond, textNotify_ok hqueue (by decide +kernel), trivial⟩

/-- Five heads in two notifies over a ring of four: they are served in order, the used
ring holds the last four, and their texts are printed. -/
theorem queue_fifo_two_notifies :
    let t := (QRun.start textConsole).run .con 0 (textRun ++ [.notify])
    let used := usedId (queueOf (textConsole.dev .con 0)) t.host.mem
    t.served = [1, 0, 2, 3, 1] ∧ (t.host.dev .con 0).lastAvail = 5 ∧
      used 1 = 0 ∧ used 2 = 2 ∧ used 3 = 3 ∧ used 0 = 1 ∧
      t.host.console = [0x21, 0x48, 0x69, 0x6f, 0x6b, 0x0a, 0x21] := by
  intro t used
  obtain ⟨-, -, hserved, hcursor, -, -, hused, hconsole⟩ :=
    queue_fifo .con 0 textConsole textConsole_start textRun textRun_ok
  have hslot : ∀ j, 1 ≤ j → j < 5 → ([1, 0, 2, 3, 1] : List U32)[j]? = some (used (j % 4)) := hused
  have hemitted : t.emitted = [0x21, 0x48, 0x69, 0x6f, 0x6b, 0x0a, 0x21] := by decide +kernel
  refine ⟨hserved, hcursor, (Option.some.inj (hslot 1 (by omega) (by omega))).symm,
    (Option.some.inj (hslot 2 (by omega) (by omega))).symm,
    (Option.some.inj (hslot 3 (by omega) (by omega))).symm,
    (Option.some.inj (hslot 4 (by omega) (by omega))).symm, ?_⟩
  rw [hconsole rfl, hemitted]
  rfl

end FermiHV
