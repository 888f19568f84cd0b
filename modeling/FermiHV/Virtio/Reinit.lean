import FermiHV.Virtio.Process

/-!
# Re-initialising a virtio device

The driver of a legacy virtio-mmio device resets it by writing 0 to Status and
then programs a new queue. `virtio_mmio` and `vblk_mmio` store the value of Status
and leave the rest of the device as it is: the cursor `last_avail`, InterruptStatus
and the flag `irq` survive. `ReinitLaw` compares the device with one that
`virtio_reset` or `vblk_reset` has reset, for everything that guests and the
hypervisor may do from then on; `reinit_iff` says that it holds exactly when the
three fields are clear already.
-/

namespace FermiHV

open ByteMem (Mem store)

/-! ## 1. Operations and what they show -/

/-- What happens to the devices: guests change memory or access a register, and a
run loop takes the flag of a device. -/
inductive VirtioOp
  | ram (mem : Mem 64)
  | access (k : VirtioKind) (vm : Fin 2) (v : Vcpu) (ipa : U64)
  | takeIrq (k : VirtioKind) (vm : Fin 2)

def VirtioOp.step (op : VirtioOp) (s : VHost) : VHost :=
  match op with
  | .ram mem => { s with mem }
  | .access k vm v ipa => (mmio k vm v ipa s).2
  | .takeIrq k vm => (FermiHV.takeIrq k vm s).2

def runOps (ops : List VirtioOp) (s : VHost) : VHost := ops.foldl (fun s op => op.step s) s

/-- What an operation shows: the vCPU after an access, the answer to `take_irq`, the
memory, the console and the disks, and the accesses of the devices to them. -/
structure Seen where
  vcpu : Option Vcpu
  taken : Option Bool
  mem : Mem 64
  console : List U8
  disks : Mem 64
  accesses : List Access

def VirtioOp.seen (op : VirtioOp) (s : VHost) : Seen where
  vcpu :=
    match op with
    | .access k vm v ipa => some (mmio k vm v ipa s).1
    | .ram _ | .takeIrq .. => none
  taken :=
    match op with
    | .takeIrq k vm => some (FermiHV.takeIrq k vm s).1
    | .ram _ | .access .. => none
  mem := (op.step s).mem
  console := (op.step s).console
  disks := (op.step s).vbBytes
  accesses := newAccesses op.step s

/-- What the operations show, one after the other. -/
def behaviour : List VirtioOp → VHost → List Seen
  | [], _ => []
  | op :: ops, s => op.seen s :: behaviour ops (op.step s)

/-! ## 2. Programming a queue -/

/-- What the driver programs: GuestPageSize, QueueNum and QueuePFN of a queue. -/
structure Programming where
  pageSize : U32
  num : U32
  pfn : U32
  num_ne : num ≠ 0
  pfn_ne : pfn ≠ 0

/-- The guest of `vm` stores `val` to the register at offset `off`. -/
def regStore (k : VirtioKind) (vm : Fin 2) (off : U64) (val : U32) : VirtioOp :=
  .access k vm (storingVcpu (val.setWidth 64)) (k.base + off)

def Programming.ops (k : VirtioKind) (vm : Fin 2) (p : Programming) : List VirtioOp :=
  [regStore k vm 0x028 p.pageSize, regStore k vm 0x038 p.num, regStore k vm 0x040 p.pfn]

/-- The driver writes 0 to Status and programs the queue. -/
def reinit (k : VirtioKind) (vm : Fin 2) (p : Programming) (s : VHost) : VHost :=
  runOps (regStore k vm 0x070 0 :: p.ops k vm) s

/-- The device is reset, with its offset set again, and the same queue programmed. -/
def resetAndProgram (k : VirtioKind) (vm : Fin 2) (p : Programming) (s : VHost) : VHost :=
  runOps (p.ops k vm) (s.setDev k vm fun d => { resetDev with hostOff := d.hostOff })

/-- The registers after the programming. -/
def Programming.apply (p : Programming) (d : VirtioDev) : VirtioDev :=
  { d with status := 0, pageSize := p.pageSize, queueNum := p.num, queuePfn := p.pfn }

section Programmed

variable {k : VirtioKind} {vm : Fin 2} {p : Programming} {s : VHost}

/-- How the vCPU of `regStore` decodes. -/
theorem storingVcpu_decodes (val : U32) :
    let v := storingVcpu (val.setWidth 64)
    issIsv (esrIss v.exitEsr) = true ∧ issWnr (esrIss v.exitEsr) = true ∧
      (v.getX (issSrt (esrIss v.exitEsr))).setWidth 32 = val := by
  have hesr : (storingVcpu (val.setWidth 64)).exitEsr = 0x93800040 := rfl
  have hsrt : issSrt (esrIss 0x93800040) = 0 := by decide
  simp only [hesr, hsrt]
  refine ⟨by decide, by decide, ?_⟩
  simp [storingVcpu, GuestCtx.getX, Vcpu.setX]

theorem step_regStore (off : U64) (val : U32) :
    (regStore k vm off val).step s = mmioWrite k vm off val s := by
  obtain ⟨hisv, hwnr, hval⟩ := storingVcpu_decodes val
  have hoff : k.base + off - k.base = off := by bv_omega
  simp only [VirtioOp.step, regStore, mmio, hisv, hwnr, hval, hoff, Bool.not_true,
    Bool.false_eq_true, if_false, if_true]

theorem write_pageSize (val : U32) :
    mmioWrite k vm 0x028 val s = s.setDev k vm fun d => { d with pageSize := val } := rfl

theorem write_queueNum (val : U32) :
    mmioWrite k vm 0x038 val s = s.setDev k vm fun d => { d with queueNum := val } := rfl

theorem write_queuePfn (val : U32) :
    mmioWrite k vm 0x040 val s = s.setDev k vm fun d => { d with queuePfn := val } := rfl

theorem write_status (val : U32) :
    mmioWrite k vm 0x070 val s = s.setDev k vm fun d => { d with status := val } := rfl

theorem setDev_setDev (f g : VirtioDev → VirtioDev) :
    (s.setDev k vm f).setDev k vm g = s.setDev k vm fun d => g (f d) := by
  simp only [VHost.setDev, VHost.mk.injEq, and_true, true_and]
  funext k' vm'
  split_ifs <;> rfl

theorem setDev_congr {f g : VirtioDev → VirtioDev} (h : f (s.dev k vm) = g (s.dev k vm)) :
    s.setDev k vm f = s.setDev k vm g := by
  simp only [VHost.setDev, VHost.mk.injEq, and_true, true_and]
  funext k' vm'
  split_ifs with hown
  · rw [hown.1, hown.2, h]
  · rfl

theorem reinit_eq : reinit k vm p s = s.setDev k vm p.apply := by
  simp only [reinit, runOps, Programming.ops, List.foldl_cons, List.foldl_nil, step_regStore,
    write_pageSize, write_queueNum, write_queuePfn, write_status, setDev_setDev]
  rfl

theorem resetAndProgram_eq : resetAndProgram k vm p s =
    s.setDev k vm fun d => p.apply { resetDev with hostOff := d.hostOff } := by
  simp only [resetAndProgram, runOps, Programming.ops, List.foldl_cons, List.foldl_nil,
    step_regStore, write_pageSize, write_queueNum, write_queuePfn, setDev_setDev]
  rfl

theorem reinit_dev : (reinit k vm p s).dev k vm = p.apply (s.dev k vm) := by
  rw [reinit_eq, setDev_dev_self]

theorem apply_active (d : VirtioDev) : (p.apply d).active = true := by
  refine decide_eq_true ?_
  rintro (hpfn | hnum)
  · exact p.pfn_ne hpfn
  · exact p.num_ne hnum

end Programmed

/-! ## 3. The law -/

/-- The queue that the driver has programmed, for a device with these fields. -/
def Programming.queue (p : Programming) (d : VirtioDev) : Queue := queueOf (p.apply d)

/-- After its re-initialisation the device is as good as reset. -/
structure ReinitLaw (k : VirtioKind) (vm : Fin 2) (p : Programming) (s : VHost) : Prop where
  /-- From then on, it behaves as one that has been reset. -/
  behaves : ∀ ops, behaviour ops (reinit k vm p s) = behaviour ops (resetAndProgram k vm p s)
  intStatus : mmioRead k ((reinit k vm p s).dev k vm) 0x060 = 0
  /-- Whatever the guest has put into memory, the next notify serves the entries
  0, 1, … below the avail index. -/
  entries : ∀ mem, (passes k vm { reinit k vm p s with mem }).map
      (fun t => (t.dev k vm).lastAvail.toNat) =
    List.range (availIdx (p.queue (s.dev k vm)) mem).toNat
  /-- Its accesses are those of passes over the new queue. -/
  accesses : ∀ mem, newAccesses (process k vm) { reinit k vm p s with mem } =
    .load ((p.queue (s.dev k vm)).avail + 2) 2 ::
      (passes k vm { reinit k vm p s with mem }).flatMap
        (passAccesses k vm (p.queue (s.dev k vm)))

/-- The fields that a write to Status leaves are clear. -/
def VirtioDev.Clean (d : VirtioDev) : Prop := d.lastAvail = 0 ∧ d.intStatus = 0 ∧ d.irq = false

section Law

variable {k : VirtioKind} {vm : Fin 2} {p : Programming} {s : VHost}

theorem reinit_of_clean (h : (s.dev k vm).Clean) :
    reinit k vm p s = resetAndProgram k vm p s := by
  rw [reinit_eq, resetAndProgram_eq]
  refine setDev_congr ?_
  simp only [Programming.apply, resetDev, h.1, h.2.1, h.2.2]

/-- Stores to memory leave the registers. -/
theorem reinit_mem_dev (mem : Mem 64) :
    ({ reinit k vm p s with mem } : VHost).dev k vm = p.apply (s.dev k vm) :=
  reinit_dev

theorem passCount_reinit (mem : Mem 64) : passCount k vm { reinit k vm p s with mem } =
    (availIdx (p.queue (s.dev k vm)) mem - (s.dev k vm).lastAvail).toNat := by
  rw [passCount, backlog, reinit_mem_dev, if_pos (apply_active _)]
  rfl

/-- The cursors of the passes of the next notify. -/
theorem cursors_reinit (mem : Mem 64) : (passes k vm { reinit k vm p s with mem }).map
      (fun t => (t.dev k vm).lastAvail.toNat) =
    (List.range (passCount k vm { reinit k vm p s with mem })).map
      fun j => ((s.dev k vm).lastAvail + BitVec.ofNat 16 j).toNat := by
  rw [passes, List.map_map]
  refine List.map_congr_left fun j _ => ?_
  rw [Function.comp_apply, afterPasses_lastAvail, reinit_mem_dev]
  rfl

theorem entries_of_clean (h : (s.dev k vm).lastAvail = 0) (mem : Mem 64) :
    (passes k vm { reinit k vm p s with mem }).map (fun t => (t.dev k vm).lastAvail.toNat) =
      List.range (availIdx (p.queue (s.dev k vm)) mem).toNat := by
  have hcount : passCount k vm { reinit k vm p s with mem } =
      (availIdx (p.queue (s.dev k vm)) mem).toNat := by
    rw [passCount_reinit, h]
    bv_omega
  rw [cursors_reinit, hcount, h]
  conv_rhs => rw [← List.map_id (List.range _)]
  refine List.map_congr_left fun j hj => ?_
  -- the cursor counts from 0 and does not wrap before the avail index
  have hlt := (availIdx (p.queue (s.dev k vm)) mem).isLt
  have hj' := List.mem_range.mp hj
  rw [id]
  bv_omega

/-- The law on an empty ring leaves only the cursor 0. -/
theorem lastAvail_of_entries
    (h : ∀ mem, (passes k vm { reinit k vm p s with mem }).map
        (fun t => (t.dev k vm).lastAvail.toNat) =
      List.range (availIdx (p.queue (s.dev k vm)) mem).toNat) :
    (s.dev k vm).lastAvail = 0 := by
  -- on blank memory no pass may be made, so the cursor equals the avail index
  have hidx : availIdx (p.queue (s.dev k vm)) (fun _ => 0) = 0 := rfl
  have hlen := congrArg List.length (h fun _ => 0)
  rw [List.length_map, passes, List.length_map, List.length_range, passCount_reinit, hidx] at hlen
  simp only [List.length_range] at hlen
  bv_omega

/-- A device that has been reset has no flag to take. -/
theorem irq_of_behaves (h : behaviour [.takeIrq k vm] (reinit k vm p s) =
    behaviour [.takeIrq k vm] (resetAndProgram k vm p s)) : (s.dev k vm).irq = false := by
  have htaken : (takeIrq k vm (reinit k vm p s)).1 = (takeIrq k vm (resetAndProgram k vm p s)).1 :=
    Option.some.inj (congrArg Seen.taken (List.cons.inj h).1)
  rw [takeIrq_fst, takeIrq_fst, reinit_dev, resetAndProgram_eq, setDev_dev_self] at htaken
  exact htaken

theorem accesses_reinit (mem : Mem 64) : newAccesses (process k vm) { reinit k vm p s with mem } =
    .load ((p.queue (s.dev k vm)).avail + 2) 2 ::
      (passes k vm { reinit k vm p s with mem }).flatMap
        (passAccesses k vm (p.queue (s.dev k vm))) := by
  have hact : (({ reinit k vm p s with mem } : VHost).dev k vm).active = true := by
    rw [reinit_mem_dev]
    exact apply_active _
  rw [newAccesses_process hact, reinit_mem_dev]
  rfl

end Law

/-- A re-initialised device is as good as reset if and only if nothing of its past
was left in it: the cursor is 0, InterruptStatus is clear and the flag has been
taken. -/
theorem reinit_iff (k : VirtioKind) (vm : Fin 2) (p : Programming) (s : VHost) :
    ReinitLaw k vm p s ↔
      (s.dev k vm).lastAvail = 0 ∧ (s.dev k vm).intStatus = 0 ∧ (s.dev k vm).irq = false := by
  constructor
  · intro h
    refine ⟨lastAvail_of_entries h.entries, ?_, ?_⟩
    · have hread := h.intStatus
      rw [reinit_dev] at hread
      exact hread
    · exact irq_of_behaves (h.behaves _)
  · intro h
    refine ⟨fun ops => by rw [reinit_of_clean h], ?_, entries_of_clean h.1, accesses_reinit⟩
    rw [reinit_dev]
    exact h.2.1

/-! ## 4. A driver that is loaded again -/

/-- All devices have been reset; memory, disks and the console are blank. -/
def resetHost : VHost where
  mem := fun _ => 0
  dev := fun _ _ => resetDev
  vbBytes := fun _ => 0
  console := []
  log := []

/-- A queue with one entry, in page 1. -/
def onePage : Programming where
  pageSize := 4096
  num := 1
  pfn := 1
  num_ne := by decide
  pfn_ne := by decide

/-- The ring of `onePage` with one entry published, for descriptor 0. -/
def oneEntry : Mem 64 := store (fun _ => 0) 0x1012 2 1

/-- A driver sends one request and sees it completed: the interrupt has been
injected and acknowledged. -/
def oneRequest (k : VirtioKind) : List VirtioOp :=
  onePage.ops k 0 ++ [.ram oneEntry, regStore k 0 0x050 0, .takeIrq k 0, regStore k 0 0x064 1]

def afterRequest (k : VirtioKind) : VHost := runOps (oneRequest k) resetHost

theorem afterRequest_lastAvail (k : VirtioKind) : ((afterRequest k).dev k 0).lastAvail = 1 := by
  cases k <;> decide +kernel

theorem not_reinitLaw_afterRequest (k : VirtioKind) :
    ¬ ReinitLaw k 0 onePage (afterRequest k) := by
  intro h
  have hzero := lastAvail_of_entries h.entries
  rw [afterRequest_lastAvail] at hzero
  exact absurd hzero (by decide)

/-- The driver is then loaded again. The cursor is still 1, so the first request on
the fresh ring is not served, and a notify on the empty ring makes 65535 passes. -/
theorem cursor_survives_reset :
    (¬ ReinitLaw .con 0 onePage (afterRequest .con) ∧
      passes .con 0 { reinit .con 0 onePage (afterRequest .con) with mem := oneEntry } = [] ∧
      passCount .con 0 { reinit .con 0 onePage (afterRequest .con) with mem := fun _ => 0 } =
        65535) ∧
    (¬ ReinitLaw .blk 0 onePage (afterRequest .blk) ∧
      passes .blk 0 { reinit .blk 0 onePage (afterRequest .blk) with mem := oneEntry } = [] ∧
      passCount .blk 0 { reinit .blk 0 onePage (afterRequest .blk) with mem := fun _ => 0 } =
        65535) := by
  have hlost : ∀ k, passCount k 0 { reinit k 0 onePage (afterRequest k) with mem := oneEntry } =
      0 := by
    intro k
    rw [passCount_reinit, afterRequest_lastAvail]
    cases k <;> decide +kernel
  have hall : ∀ k, passCount k 0 { reinit k 0 onePage (afterRequest k) with mem := fun _ => 0 } =
      65535 := by
    intro k
    rw [passCount_reinit, afterRequest_lastAvail]
    cases k <;> decide +kernel
  refine ⟨⟨not_reinitLaw_afterRequest _, ?_, hall _⟩, ⟨not_reinitLaw_afterRequest _, ?_, hall _⟩⟩
  · rw [passes, hlost]
    rfl
  · rw [passes, hlost]
    rfl

end FermiHV
