import FermiHV.Virtio.Device

/-!
# The queue loops and the register files of the virtio devices

* `virtioProcessTx` and `vblkProcess` run one pass per avail entry that the
  guest has published. The cursor is a free-running 16-bit counter, so a loop
  makes as many passes as the cursor is behind the avail index, modulo 65536;
  `passes` lists the states in which they begin.
* `virtioMmio` and `vblkMmio` emulate one trapped register access.

Results: `virtioProcessTx_eq`, `vblkProcess_eq` (the loops end, after exactly
that many passes), `mmioWrite_cases` (what a register write can do),
`notify_ends` (what a notify leaves in the device, for any guest memory).
-/

namespace FermiHV

open ByteMem (Mem load store)

/-! ## 1. The cursor -/

variable {k : VirtioKind} {vm : Fin 2} {q : Queue} {s : VHost}

/-- One pass of either loop. -/
def pass (k : VirtioKind) (vm : Fin 2) (q : Queue) (s : VHost) : VHost :=
  match k with
  | .con => (virtioTxPass vm q s).2
  | .blk => (vblkPass vm q s).2

@[simp] theorem setDev_dev_self (f : VirtioDev → VirtioDev) :
    (s.setDev k vm f).dev k vm = f (s.dev k vm) := by
  simp [VHost.setDev]

theorem setDev_dev_of_ne {k' : VirtioKind} {vm' : Fin 2} (f : VirtioDev → VirtioDev)
    (h : ¬ (k' = k ∧ vm' = vm)) : (s.setDev k vm f).dev k' vm' = s.dev k' vm' := by
  simp [VHost.setDev, h]

/-- What a pass does to the fields of its own device. -/
theorem pass_dev : (pass k vm q s).dev k vm =
    match k with
    | .con => { s.dev .con vm with lastAvail := (s.dev .con vm).lastAvail + 1 }
    | .blk =>
      { s.dev .blk vm with
        lastAvail := (s.dev .blk vm).lastAvail + 1
        intStatus := (s.dev .blk vm).intStatus ||| 1
        irq := true } := by
  cases k with
  | con => simp [pass, virtioTxPass_run, advance]
  | blk => simp [pass, vblkPass_run, advance, raiseIrq]

theorem pass_dev_of_ne {k' : VirtioKind} {vm' : Fin 2} (h : ¬ (k' = k ∧ vm' = vm)) :
    (pass k vm q s).dev k' vm' = s.dev k' vm' := by
  cases k with
  | con => simp [pass, virtioTxPass_run, advance, setDev_dev_of_ne _ h]
  | blk => simp [pass, vblkPass_run, advance, raiseIrq, setDev_dev_of_ne _ h]

theorem pass_lastAvail :
    ((pass k vm q s).dev k vm).lastAvail = (s.dev k vm).lastAvail + 1 := by
  rw [pass_dev]
  cases k <;> rfl

/-- The registers that fix a queue survive a pass. -/
theorem pass_queueOf : queueOf ((pass k vm q s).dev k vm) = queueOf (s.dev k vm) := by
  rw [pass_dev]
  cases k <;> rfl

theorem backlog_eq_zero_iff {a : U16} : backlog k vm a s = 0 ↔ (s.dev k vm).lastAvail = a := by
  unfold backlog
  constructor <;> intro h <;> bv_omega

theorem backlog_pass {a : U16} (h : backlog k vm a s ≠ 0) :
    backlog k vm a (pass k vm q s) + 1 = backlog k vm a s := by
  have hne : (s.dev k vm).lastAvail ≠ a := fun he => h (backlog_eq_zero_iff.mpr he)
  unfold backlog
  rw [pass_lastAvail]
  bv_omega

/-- The test of the loops: `last_avail != avail_idx`. -/
def behind (k : VirtioKind) (vm : Fin 2) (a : U16) (s : VHost) : Bool :=
  decide ((s.dev k vm).lastAvail ≠ a)

theorem behind_iff {a : U16} : behind k vm a s = true ↔ backlog k vm a s ≠ 0 := by
  simp [behind, backlog_eq_zero_iff]

/-! ## 2. The loops -/

theorem backlog_lt {a : U16} (h : behind k vm a s = true) :
    backlog k vm a (pass k vm q s) < backlog k vm a s := by
  have := backlog_pass (q := q) (behind_iff.mp h)
  omega

/-- The `while` loop of `vblk_process`. -/
def vblkLoop (vm : Fin 2) (q : Queue) (a : U16) (s : VHost) : VHost :=
  RunLoop.whileLoop (behind .blk vm a) (pass .blk vm q) (backlog .blk vm a)
    (fun _ h => backlog_lt h) s

/-- `vblk_process`. -/
def vblkProcess (vm : Fin 2) (s : VHost) : VHost :=
  let b := s.dev .blk vm
  if b.queuePfn = 0 ∨ b.queueNum = 0 then s
  else
    let q := queueOf b
    let (availIdx, s0) := load16 (q.avail + 2) s
    vblkLoop vm q availIdx s0

/-- A pass of `virtio_process_tx` with the local flag `consumed`. -/
def txBody (vm : Fin 2) (q : Queue) (p : VHost × Bool) : VHost × Bool := (pass .con vm q p.1, true)

/-- The `while` loop of `virtio_process_tx`. -/
def txLoop (vm : Fin 2) (q : Queue) (a : U16) (p : VHost × Bool) : VHost × Bool :=
  RunLoop.whileLoop (fun p => behind .con vm a p.1) (txBody vm q) (fun p => backlog .con vm a p.1)
    (fun p h => backlog_lt (s := p.1) h) p

/-- `virtio_process_tx`. -/
def virtioProcessTx (vm : Fin 2) (s : VHost) : VHost :=
  let c := s.dev .con vm
  if c.queuePfn = 0 ∨ c.queueNum = 0 then s
  else
    let q := queueOf c
    let (availIdx, s0) := load16 (q.avail + 2) s
    let (s1, consumed) := txLoop vm q availIdx (s0, false)
    if consumed then (raiseIrq .con vm s1).2 else s1

/-- The queue is set up: neither the page frame nor the size is zero. -/
def VirtioDev.active (c : VirtioDev) : Bool := decide (¬ (c.queuePfn = 0 ∨ c.queueNum = 0))

/-- The avail index in memory. -/
def availIdx (q : Queue) (m : Mem 64) : U16 := BitVec.ofNat 16 (load m (q.avail + 2) 2)

/-- The state in which the first pass begins: the avail index has been read. -/
def queueStart (k : VirtioKind) (vm : Fin 2) (s : VHost) : VHost :=
  s.note (.load ((queueOf (s.dev k vm)).avail + 2) 2)

/-- How many passes a notify makes. -/
def passCount (k : VirtioKind) (vm : Fin 2) (s : VHost) : Nat :=
  if (s.dev k vm).active then backlog k vm (availIdx (queueOf (s.dev k vm)) s.mem) s else 0

/-- The state after `j` passes. -/
def afterPasses (k : VirtioKind) (vm : Fin 2) (s : VHost) (j : Nat) : VHost :=
  (pass k vm (queueOf (s.dev k vm)))^[j] (queueStart k vm s)

/-- The states in which the passes of a notify begin. -/
def passes (k : VirtioKind) (vm : Fin 2) (s : VHost) : List VHost :=
  (List.range (passCount k vm s)).map (afterPasses k vm s)

theorem readAvailIdx : load16 ((queueOf (s.dev k vm)).avail + 2) s =
    (availIdx (queueOf (s.dev k vm)) s.mem, queueStart k vm s) := rfl

theorem vblkLoop_eq (a : U16) : vblkLoop vm q a s = (pass .blk vm q)^[backlog .blk vm a s] s :=
  RunLoop.whileLoop_eq_iterate (fun s => behind_iff (s := s)) (fun s => backlog_pass (s := s)) s

theorem vblkProcess_eq (h : (s.dev .blk vm).active = true) :
    vblkProcess vm s = afterPasses .blk vm s (passCount .blk vm s) := by
  have hact : ¬ ((s.dev .blk vm).queuePfn = 0 ∨ (s.dev .blk vm).queueNum = 0) := of_decide_eq_true h
  simp only [vblkProcess, if_neg hact, readAvailIdx, vblkLoop_eq, passCount, h, if_true]
  rfl

theorem vblkProcess_of_not_active (h : (s.dev .blk vm).active = false) : vblkProcess vm s = s := by
  have hact := of_decide_eq_false h
  simp only [vblkProcess, if_pos (not_not.mp hact)]

theorem iterate_txBody (n : Nat) (b : Bool) :
    (txBody vm q)^[n] (s, b) =
      ((pass .con vm q)^[n] s, if n = 0 then b else true) := by
  induction n with
  | zero => rfl
  | succ n ih => simp only [Function.iterate_succ_apply', ih, Nat.succ_ne_zero, if_false, txBody]

theorem txLoop_eq (a : U16) : txLoop vm q a (s, false) =
    ((pass .con vm q)^[backlog .con vm a s] s, decide (backlog .con vm a s ≠ 0)) := by
  have hcond : ∀ p : VHost × Bool, behind .con vm a p.1 = true ↔ backlog .con vm a p.1 ≠ 0 :=
    fun _ => behind_iff
  have hbody : ∀ p : VHost × Bool, backlog .con vm a p.1 ≠ 0 →
      backlog .con vm a (txBody vm q p).1 + 1 = backlog .con vm a p.1 := fun _ => backlog_pass
  have hrun : txLoop vm q a (s, false) = (txBody vm q)^[backlog .con vm a s] (s, false) :=
    RunLoop.whileLoop_eq_iterate hcond hbody (s, false)
  rw [hrun, iterate_txBody]
  by_cases hz : backlog .con vm a s = 0 <;> simp [hz]

theorem virtioProcessTx_eq (h : (s.dev .con vm).active = true) :
    virtioProcessTx vm s =
      if passCount .con vm s ≠ 0 then
        (raiseIrq .con vm (afterPasses .con vm s (passCount .con vm s))).2
      else afterPasses .con vm s (passCount .con vm s) := by
  have hact : ¬ ((s.dev .con vm).queuePfn = 0 ∨ (s.dev .con vm).queueNum = 0) := of_decide_eq_true h
  have hloop := @txLoop_eq vm (queueOf (s.dev .con vm)) (queueStart .con vm s)
    (availIdx (queueOf (s.dev .con vm)) s.mem)
  have hback : backlog .con vm (availIdx (queueOf (s.dev .con vm)) s.mem) (queueStart .con vm s) =
      passCount .con vm s := by
    simp only [passCount, h, if_true]
    rfl
  simp only [virtioProcessTx, if_neg hact, readAvailIdx, hloop, hback, decide_eq_true_eq]
  rfl

theorem virtioProcessTx_of_not_active (h : (s.dev .con vm).active = false) :
    virtioProcessTx vm s = s := by
  have hact := of_decide_eq_false h
  simp only [virtioProcessTx, if_pos (not_not.mp hact)]

/-! ## 3. Registers -/

/-- `queue` loop of a device, run by a write to QueueNotify. -/
def process (k : VirtioKind) (vm : Fin 2) (s : VHost) : VHost :=
  match k with
  | .con => virtioProcessTx vm s
  | .blk => vblkProcess vm s

/-- A register write at offset `off`. -/
def mmioWrite (k : VirtioKind) (vm : Fin 2) (off : U64) (val : U32) (s : VHost) : VHost :=
  if off = 0x028 then s.setDev k vm fun d => { d with pageSize := val }
  else if off = 0x038 then s.setDev k vm fun d => { d with queueNum := val }
  else if off = 0x040 then s.setDev k vm fun d => { d with queuePfn := val }
  else if off = 0x070 then s.setDev k vm fun d => { d with status := val }
  else if off = 0x064 then s.setDev k vm fun d => { d with intStatus := d.intStatus &&& ~~~val }
  else if off = 0x050 then process k vm s
  else s

/-- DeviceID. -/
def VirtioKind.deviceId : VirtioKind → U32
  | .con => 3
  | .blk => 2

/-- The configuration space: a disk reports its capacity in sectors. -/
def VirtioKind.config (k : VirtioKind) (off : U64) : U32 :=
  match k with
  | .con => 0
  | .blk => if off = 0x100 then 16 else 0

/-- A register read at offset `off`. -/
def mmioRead (k : VirtioKind) (c : VirtioDev) (off : U64) : U32 :=
  if off = 0x000 then 0x74726976
  else if off = 0x004 then 1
  else if off = 0x008 then k.deviceId
  else if off = 0x00c then 0x554d4551
  else if off = 0x010 then 0
  else if off = 0x034 then 8
  else if off = 0x040 then c.queuePfn
  else if off = 0x060 then c.intStatus
  else if off = 0x070 then c.status
  else k.config off

/-- The window of a device. -/
def VirtioKind.base : VirtioKind → U64
  | .con => 0x0A000000
  | .blk => 0x0A000200

/-- `virtio_contains`, `vblk_contains`. -/
def VirtioKind.contains (k : VirtioKind) (ipa : U64) : Bool := k.base ≤ ipa && ipa < k.base + 0x200

/-- Emulate one trapped access and resume after it. -/
def mmio (k : VirtioKind) (vm : Fin 2) (v : Vcpu) (ipa : U64) (s : VHost) : Vcpu × VHost :=
  let iss := esrIss v.exitEsr
  if !issIsv iss then (v.skip, s)
  else
    let srt := issSrt iss
    let off := ipa - k.base
    if issWnr iss then (v.skip, mmioWrite k vm off ((v.getX srt).setWidth 32) s)
    else ((v.setX srt ((mmioRead k (s.dev k vm) off).setWidth 64)).skip, s)

/-- `virtio_mmio`. -/
def virtioMmio (vm : Fin 2) (v : Vcpu) (ipa : U64) (s : VHost) : Vcpu × VHost :=
  mmio .con vm v ipa s

/-- `vblk_mmio`. -/
def vblkMmio (vm : Fin 2) (v : Vcpu) (ipa : U64) (s : VHost) : Vcpu × VHost := mmio .blk vm v ipa s

/-- The flag, and the state after it has been taken. -/
def takeIrq (k : VirtioKind) (vm : Fin 2) (s : VHost) : Bool × VHost :=
  if (s.dev k vm).irq then (true, s.setDev k vm fun d => { d with irq := false }) else (false, s)

theorem takeIrq_fst (vm : Fin 2) (s : VHost) : (takeIrq k vm s).1 = (s.dev k vm).irq := by
  simp only [takeIrq]
  split_ifs with hirq
  · exact hirq.symm
  · exact (Bool.eq_false_iff.mpr hirq).symm

/-- `virtio_take_irq`. -/
def virtioTakeIrq (vm : Fin 2) (s : VHost) : Bool × VHost := takeIrq .con vm s

/-- `vblk_take_irq`. -/
def vblkTakeIrq (vm : Fin 2) (s : VHost) : Bool × VHost := takeIrq .blk vm s

/-- The fields after `virtio_reset` or `vblk_reset`. -/
def resetDev : VirtioDev where
  status := 0
  pageSize := 4096
  queueNum := 0
  queuePfn := 0
  intStatus := 0
  lastAvail := 0
  irq := false
  hostOff := 0

theorem setDev_id : s.setDev k vm id = s := by simp [VHost.setDev]

/-- What a register write can do: notify, or change registers other than the
cursor and the offset. -/
theorem mmioWrite_cases (off : U64) (val : U32) :
    (off = 0x050 ∧ mmioWrite k vm off val s = process k vm s) ∨
    (off ≠ 0x050 ∧ ∃ f : VirtioDev → VirtioDev, mmioWrite k vm off val s = s.setDev k vm f ∧
      ∀ d, (f d).hostOff = d.hostOff ∧ (f d).lastAvail = d.lastAvail) := by
  by_cases hn : off = 0x050
  · subst hn
    exact .inl ⟨rfl, rfl⟩
  · refine .inr ⟨hn, ?_⟩
    simp only [mmioWrite, if_neg hn]
    split_ifs
    · exact ⟨_, rfl, fun _ => ⟨rfl, rfl⟩⟩
    · exact ⟨_, rfl, fun _ => ⟨rfl, rfl⟩⟩
    · exact ⟨_, rfl, fun _ => ⟨rfl, rfl⟩⟩
    · exact ⟨_, rfl, fun _ => ⟨rfl, rfl⟩⟩
    · exact ⟨_, rfl, fun _ => ⟨rfl, rfl⟩⟩
    · exact ⟨id, setDev_id.symm, fun _ => ⟨rfl, rfl⟩⟩

/-! ## 4. The accesses of a notify -/

/-- The accesses that an operation adds to the log. -/
def newAccesses (f : VHost → VHost) (s : VHost) : List Access := (f s).log.drop s.log.length

/-- The accesses of one pass. -/
def passAccesses (k : VirtioKind) (vm : Fin 2) (q : Queue) (s : VHost) : List Access :=
  match k with
  | .con => txAccesses vm q s
  | .blk => vblkAccesses vm q s

theorem pass_log : (pass k vm q s).log = s.log ++ passAccesses k vm q s := by
  cases k with
  | con => simp only [pass, virtioTxPass_run, passAccesses]
  | blk => simp only [pass, vblkPass_run, passAccesses]

theorem newAccesses_pass : newAccesses (pass k vm q) s = passAccesses k vm q s := by
  rw [newAccesses, pass_log, List.drop_left]

theorem afterPasses_succ (j : Nat) : afterPasses k vm s (j + 1) =
    pass k vm (queueOf (s.dev k vm)) (afterPasses k vm s j) :=
  Function.iterate_succ_apply' _ _ _

theorem afterPasses_log (j : Nat) : (afterPasses k vm s j).log =
    s.log ++ .load ((queueOf (s.dev k vm)).avail + 2) 2 ::
      (List.range j).flatMap fun i =>
        passAccesses k vm (queueOf (s.dev k vm)) (afterPasses k vm s i) := by
  induction j with
  | zero => rfl
  | succ j ih =>
    rw [afterPasses_succ, pass_log, ih, List.range_succ, List.flatMap_append,
      List.flatMap_singleton, List.append_assoc, List.cons_append]

/-- The loop of a device with a queue: its passes, and for a console that had any the
interrupt on top. -/
theorem process_passes (h : (s.dev k vm).active = true) : process k vm s =
    if k = .con ∧ passCount k vm s ≠ 0 then
      (raiseIrq k vm (afterPasses k vm s (passCount k vm s))).2
    else afterPasses k vm s (passCount k vm s) := by
  cases k with
  | con =>
    rw [process, virtioProcessTx_eq h]
    simp
  | blk =>
    rw [process, vblkProcess_eq h]
    simp

/-- The memory and the log that the loop leaves are those after its passes. -/
theorem process_eq (h : (s.dev k vm).active = true) :
    (process k vm s).mem = (afterPasses k vm s (passCount k vm s)).mem ∧
      (process k vm s).log = (afterPasses k vm s (passCount k vm s)).log := by
  rw [process_passes h]
  split_ifs <;> exact ⟨rfl, rfl⟩

theorem process_of_not_active (h : (s.dev k vm).active = false) : process k vm s = s := by
  cases k with
  | con => exact virtioProcessTx_of_not_active h
  | blk => exact vblkProcess_of_not_active h

/-- A notify reads the avail index and then makes the accesses of its passes. -/
theorem newAccesses_process (h : (s.dev k vm).active = true) :
    newAccesses (process k vm) s = .load ((queueOf (s.dev k vm)).avail + 2) 2 ::
      (passes k vm s).flatMap (passAccesses k vm (queueOf (s.dev k vm))) := by
  rw [newAccesses, (process_eq h).2, afterPasses_log, List.drop_left, passes, List.flatMap_map]

/-- A notify only appends to the log. -/
theorem process_log : (process k vm s).log = s.log ++ newAccesses (process k vm) s := by
  cases hact : (s.dev k vm).active with
  | false => rw [newAccesses, process_of_not_active hact, List.drop_length, List.append_nil]
  | true => rw [newAccesses, (process_eq hact).2, afterPasses_log, List.drop_left]

theorem newAccesses_process_of_not_active (h : (s.dev k vm).active = false) :
    newAccesses (process k vm) s = [] := by
  rw [newAccesses, process_of_not_active h, List.drop_length]

/-! ## 5. Invariants of a notify -/

/-- What reading the avail index, each pass and raising the interrupt keep, a
notify keeps. -/
theorem process_invariant {P : VHost → Prop} (hnote : ∀ s e, P s → P (s.note e))
    (hpass : ∀ q s, P s → P (pass k vm q s)) (hirq : ∀ s, P s → P (raiseIrq k vm s).2)
    (hs : P s) : P (process k vm s) := by
  have hafter : ∀ j, P (afterPasses k vm s j) := by
    intro j
    induction j with
    | zero => exact hnote s _ hs
    | succ j ih =>
      rw [afterPasses_succ]
      exact hpass _ _ ih
  cases hact : (s.dev k vm).active with
  | false =>
    rw [process_of_not_active hact]
    exact hs
  | true =>
    rw [process_passes hact]
    split_ifs
    · exact hirq _ (hafter _)
    · exact hafter _

/-- A notify leaves the offsets of all devices. -/
theorem process_hostOff (k' : VirtioKind) (vm' : Fin 2) :
    ((process k vm s).dev k' vm').hostOff = (s.dev k' vm').hostOff := by
  refine process_invariant (P := fun t => (t.dev k' vm').hostOff = (s.dev k' vm').hostOff)
    (fun _ _ h => h) (fun q t h => ?_) (fun t h => ?_) rfl
  · rw [← h]
    by_cases hown : k' = k ∧ vm' = vm
    · obtain ⟨rfl, rfl⟩ := hown
      rw [pass_dev]
      cases k' <;> rfl
    · rw [pass_dev_of_ne hown]
  · rw [← h]
    by_cases hown : k' = k ∧ vm' = vm
    · obtain ⟨rfl, rfl⟩ := hown
      rw [raiseIrq, setDev_dev_self]
    · rw [raiseIrq, setDev_dev_of_ne _ hown]

/-! ## 6. Termination -/

/-- After `j` passes the cursor has moved by `j`. -/
theorem afterPasses_lastAvail (j : Nat) : ((afterPasses k vm s j).dev k vm).lastAvail =
    (s.dev k vm).lastAvail + BitVec.ofNat 16 j := by
  induction j with
  | zero => exact (BitVec.add_zero _).symm
  | succ j ih =>
    rw [afterPasses_succ, pass_lastAvail, ih]
    bv_omega

theorem afterPasses_queueOf (j : Nat) :
    queueOf ((afterPasses k vm s j).dev k vm) = queueOf (s.dev k vm) := by
  induction j with
  | zero => rfl
  | succ j ih => rw [afterPasses_succ, pass_queueOf, ih]

/-- The flags after `j` passes: the disk raises them in every pass, the console
not at all. -/
theorem afterPasses_flags (j : Nat) :
    ((afterPasses k vm s j).dev k vm).intStatus =
        (if k = .blk ∧ j ≠ 0 then (s.dev k vm).intStatus ||| 1 else (s.dev k vm).intStatus) ∧
      ((afterPasses k vm s j).dev k vm).irq =
        (if k = .blk ∧ j ≠ 0 then true else (s.dev k vm).irq) := by
  induction j with
  | zero => simp [afterPasses, queueStart, VHost.note]
  | succ j ih =>
    rw [afterPasses_succ, pass_dev]
    cases k with
    | con => exact ih
    | blk =>
      refine ⟨?_, rfl⟩
      simp only [ih.1]
      split_ifs <;> simp_all [BitVec.or_assoc]

/-- The entries between the cursor and the avail index that a notify reads,
modulo 65536. -/
def entriesDue (k : VirtioKind) (vm : Fin 2) (s : VHost) : Nat :=
  (availIdx (queueOf (s.dev k vm)) s.mem - (s.dev k vm).lastAvail).toNat

/-- A notify of a device with a queue ends after `n` passes. -/
structure NotifyEnds (k : VirtioKind) (vm : Fin 2) (s : VHost) (n : Nat) : Prop where
  /-- The test of the loop, with the avail index read at the start, holds before
  each of the `n` passes and fails after them. -/
  running : ∀ j < n,
    behind k vm (availIdx (queueOf (s.dev k vm)) s.mem) (afterPasses k vm s j) = true
  ended : behind k vm (availIdx (queueOf (s.dev k vm)) s.mem) (afterPasses k vm s n) = false
  /-- Both remainders of a pass are by `queue_num`, which is not zero in any. -/
  divisor : ∀ j < n, (queueOf (s.dev k vm)).num = ((afterPasses k vm s j).dev k vm).queueNum ∧
    ((afterPasses k vm s j).dev k vm).queueNum ≠ 0
  /-- What the call leaves: the state after the passes, in which the console then
  raises its interrupt. -/
  result : process k vm s =
    if k = .con ∧ n ≠ 0 then (raiseIrq k vm (afterPasses k vm s n)).2 else afterPasses k vm s n
  cursor : ((process k vm s).dev k vm).lastAvail = availIdx (queueOf (s.dev k vm)) s.mem
  raised : n ≠ 0 → ((process k vm s).dev k vm).intStatus = (s.dev k vm).intStatus ||| 1 ∧
    ((process k vm s).dev k vm).irq = true
  quiet : n = 0 → ((process k vm s).dev k vm).intStatus = (s.dev k vm).intStatus ∧
    ((process k vm s).dev k vm).irq = (s.dev k vm).irq

theorem passCount_eq_entriesDue (h : (s.dev k vm).active = true) :
    passCount k vm s = entriesDue k vm s := by
  rw [passCount, if_pos h]
  rfl

theorem process_result (h : (s.dev k vm).active = true) : process k vm s =
    if k = .con ∧ entriesDue k vm s ≠ 0 then
      (raiseIrq k vm (afterPasses k vm s (entriesDue k vm s))).2
    else afterPasses k vm s (entriesDue k vm s) := by
  rw [process_passes h, passCount_eq_entriesDue h]

/-- The cursor reaches the avail index after the entries that are due, and not
before. -/
theorem behind_afterPasses {j : Nat} (hj : j ≤ entriesDue k vm s) :
    behind k vm (availIdx (queueOf (s.dev k vm)) s.mem) (afterPasses k vm s j) =
      decide (j ≠ entriesDue k vm s) := by
  rw [behind, afterPasses_lastAvail, decide_eq_decide]
  unfold entriesDue at hj ⊢
  generalize availIdx (queueOf (s.dev k vm)) s.mem = a at hj
  constructor <;> intro h he <;> apply h <;> bv_omega

theorem notify_ends_active (h : (s.dev k vm).active = true) :
    NotifyEnds k vm s (entriesDue k vm s) := by
  have hnum : (s.dev k vm).queueNum ≠ 0 := fun hz => of_decide_eq_true h (.inr hz)
  have hlast : ((afterPasses k vm s (entriesDue k vm s)).dev k vm).lastAvail =
      availIdx (queueOf (s.dev k vm)) s.mem := by
    have hended := @behind_afterPasses k vm s _ le_rfl
    simpa [behind] using hended
  obtain ⟨hint, hirq⟩ := @afterPasses_flags k vm s (entriesDue k vm s)
  have hresult := process_result h
  refine ⟨fun j hj => ?_, ?_, fun j _ => ?_, hresult, ?_, fun hn => ?_, fun hn => ?_⟩
  · rw [behind_afterPasses (Nat.le_of_lt hj)]
    exact decide_eq_true (Nat.ne_of_lt hj)
  · rw [behind_afterPasses le_rfl]
    simp
  · have hq : (queueOf (s.dev k vm)).num = ((afterPasses k vm s j).dev k vm).queueNum :=
      congrArg Queue.num (afterPasses_queueOf j).symm
    exact ⟨hq, hq ▸ hnum⟩
  · rw [hresult]
    split_ifs
    · rw [raiseIrq, setDev_dev_self, hlast]
    · exact hlast
  · rw [hresult]
    cases k with
    | con =>
      rw [if_pos ⟨rfl, hn⟩, raiseIrq, setDev_dev_self, hint]
      simp
    | blk =>
      rw [if_neg (by simp), hint, hirq]
      simp [hn]
  · rw [hresult, if_neg (by simp [hn]), hint, hirq]
    simp [hn]

/-- A notify ends whatever the guest has put into memory: it changes nothing if
the queue is not set up, and otherwise makes one pass for each entry between
the cursor and the avail index. -/
theorem notify_ends (k : VirtioKind) (vm : Fin 2) (s : VHost) :
    ((s.dev k vm).queuePfn = 0 ∨ (s.dev k vm).queueNum = 0 → process k vm s = s) ∧
      (¬ ((s.dev k vm).queuePfn = 0 ∨ (s.dev k vm).queueNum = 0) →
        NotifyEnds k vm s (entriesDue k vm s)) :=
  ⟨fun h => process_of_not_active (decide_eq_false (not_not.mpr h)),
    fun h => notify_ends_active (decide_eq_true h)⟩

end FermiHV
