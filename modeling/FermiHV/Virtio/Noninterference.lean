import FermiHV.Hypervisor
import FermiHV.Virtio.Tenants
import FermiHV.Lib.Interference

/-!
# Two tenants on one machine

`mtenant_virtio_demo` and `mtenant_vblk_demo` give each of two tenants a 1 GiB block
of host memory, stage-2 tables that map its RAM to the block, and a console and a disk
of its own whose queues it keeps in its RAM. The host memory, the arrays `vc[]` and
`vb[]` and the hypervisor are shared.

What a tenant can observe of them (`SameFor`) is its block, the registers of its
devices and its disk. A pass of its own devices depends on nothing else
(`pass_same`), a notify of the other tenant changes nothing of it
(`process_frame`); both as long as a notify stays in the RAM of the tenant that makes
it, which the devices do not check. `tenants_noninterfere` puts this together: in any
interleaving of the two tenants' loads, stores and device accesses each of them gets
what it would get alone.
-/

namespace FermiHV

open ByteMem (Mem AgreeOn load store Covers)
open Interference (Machine)

/-! ## 1. What a tenant observes -/

/-- A byte of the disk of `vm`, by its offset in the array `vb`. -/
def DiskByte (vm : Fin 2) (x : U64) : Prop := ∃ i : U64, i.toNat < diskSize ∧ x = diskAddr vm i

/-- The tenant cannot tell `s` from `t`. -/
structure SameFor (T : Tenant) (s t : VHost) : Prop where
  mem : AgreeOn T.InBlock s.mem t.mem
  disk : AgreeOn (DiskByte T.vm) s.vbBytes t.vbBytes
  dev : ∀ k, s.dev k T.vm = t.dev k T.vm

variable {T : Tenant} {k : VirtioKind} {q : Queue} {s t : VHost}

theorem SameFor.refl (T : Tenant) (s : VHost) : SameFor T s s :=
  ⟨fun _ _ => rfl, fun _ _ => rfl, fun _ => rfl⟩

theorem SameFor.trans {u : VHost} (h : SameFor T s t) (h' : SameFor T t u) : SameFor T s u :=
  ⟨fun x hx => (h.mem x hx).trans (h'.mem x hx), fun x hx => (h.disk x hx).trans (h'.disk x hx),
    fun k => (h.dev k).trans (h'.dev k)⟩

/-- The same change of a device of the tenant in both. -/
theorem SameFor.setDev (h : SameFor T s t) (k : VirtioKind) (f : VirtioDev → VirtioDev) :
    SameFor T (s.setDev k T.vm f) (t.setDev k T.vm f) where
  mem := h.mem
  disk := h.disk
  dev := fun k' => by
    by_cases hk : k' = k ∧ T.vm = T.vm
    · rw [hk.1, setDev_dev_self, setDev_dev_self, h.dev]
    · rw [setDev_dev_of_ne f hk, setDev_dev_of_ne f hk, h.dev]

/-- A device of the other tenant. -/
theorem sameFor_setDev {vm : Fin 2} (hvm : vm ≠ T.vm) (f : VirtioDev → VirtioDev) :
    SameFor T (s.setDev k vm f) s where
  mem := fun _ _ => rfl
  disk := fun _ _ => rfl
  dev := fun _ => setDev_dev_of_ne f fun h => hvm h.2.symm

/-! ## 2. The tenant's own devices

A pass reads the addresses of its accesses and nothing else; if they are confined to
the tenant, two states that the tenant cannot tell apart give the same request, the
same stores and the same data. -/

section Own

theorem pushed_same {m m' : Mem 64} {id len : U32} (h : AgreeOn T.InBlock m m')
    (hc : ∀ e ∈ pushAccesses q m, e.Confined T) :
    AgreeOn T.InBlock (pushed q id len m) (pushed q id len m') := by
  have hidx : usedIdx q m = usedIdx q m' := by
    rw [usedIdx, usedIdx, h.load (hc (.load (q.used + 2) 2) (by simp [pushAccesses]))]
  simp only [pushed, hidx]
  exact ((h.store _ _ _).store _ _ _).store _ _ _

theorem txReq_same (h : SameFor T s t) (hc : ∀ e ∈ txAccesses T.vm q s, e.Confined T) :
    txReq T.vm q s = txReq T.vm q t := by
  have hdidx : (txReq T.vm q s).didx = availEntry q s.mem (s.dev .con T.vm).lastAvail := by
    rw [txReq_eq]
  have hentry : availEntry q s.mem (s.dev .con T.vm).lastAvail =
      availEntry q t.mem (s.dev .con T.vm).lastAvail := by
    rw [availEntry, availEntry, h.mem.load (hc (.load (q.availSlot _) 2)
      (by simp [txAccesses, txFetchAccesses]))]
  have haddr : descAddr q s.mem (txReq T.vm q s).didx =
      descAddr q t.mem (txReq T.vm q s).didx := by
    rw [descAddr, descAddr, h.mem.load (hc (.load (q.desc _) 8)
      (by simp [txAccesses, txFetchAccesses]))]
  have hlen : descLen q s.mem (txReq T.vm q s).didx = descLen q t.mem (txReq T.vm q s).didx := by
    rw [descLen, descLen, h.mem.load (hc (.load (q.desc _ + 8) 4)
      (by simp [txAccesses, txFetchAccesses]))]
  rw [hdidx] at haddr hlen
  rw [txReq_eq, txReq_eq, ← h.dev .con]
  simp only [← hentry, haddr, hlen]

theorem vblkReq_same (h : SameFor T s t) (hc : ∀ e ∈ vblkAccesses T.vm q s, e.Confined T) :
    vblkReq T.vm q s = vblkReq T.vm q t := by
  have hload : ∀ a n, Access.load a n ∈ vblkFetchAccesses T.vm q s →
      load t.mem a n = load s.mem a n := by
    intro a n hmem
    exact (h.mem.load (hc (.load a n) (by simp [vblkAccesses, hmem]))).symm
  have hhead : (vblkReq T.vm q s).head = availEntry q s.mem (s.dev .blk T.vm).lastAvail := by
    rw [vblkReq_eq]
  simp only [vblkFetchAccesses, hhead] at hload
  -- the chain of descriptors, in the order in which the pass follows it
  set head := availEntry q s.mem (s.dev .blk T.vm).lastAvail with hheadDef
  set data := descNext q s.mem head with hdataDef
  set stat := descNext q s.mem data with hstatDef
  have hentry : availEntry q t.mem (s.dev .blk T.vm).lastAvail = head := by
    rw [availEntry, hload _ _ (by simp), hheadDef, availEntry]
  have haddr : ∀ d ∈ [head, data, stat], descAddr q t.mem d = descAddr q s.mem d := by
    intro d hd
    simp only [List.mem_cons, List.not_mem_nil, or_false] at hd
    rw [descAddr, descAddr, hload]
    rcases hd with rfl | rfl | rfl <;> simp
  have hnext : ∀ d ∈ [head, data], descNext q t.mem d = descNext q s.mem d := by
    intro d hd
    simp only [List.mem_cons, List.not_mem_nil, or_false] at hd
    rw [descNext, descNext, hload]
    rcases hd with rfl | rfl <;> simp
  have hlen : descLen q t.mem data = descLen q s.mem data := by
    rw [descLen, descLen, hload _ _ (by simp)]
  rw [vblkReq_eq, vblkReq_eq, ← h.dev .blk]
  simp only [hentry, hnext head (by simp), hnext data (by simp), haddr head (by simp),
    haddr data (by simp), haddr stat (by simp), hlen, ← hheadDef, ← hdataDef, ← hstatDef,
    hload (descAddr q s.mem head + q.o) 4 (by simp),
    hload (descAddr q s.mem head + q.o + 8) 8 (by simp)]

theorem movedMem_same {r : VblkReq} (h : SameFor T s t)
    (hc : ∀ e ∈ moveAccesses T.vm r, e.Confined T) :
    AgreeOn T.InBlock (movedMem T.vm r s) (movedMem T.vm r t) := by
  by_cases hr : r.inRange = true ∧ r.type ≠ 1
  · rw [movedMem, movedMem, if_pos hr, if_pos hr]
    refine h.mem.copy fun i hi => ?_
    have hdisk := hc (.disk T.vm (r.doff + BitVec.ofNat 64 i)) (by
      simp only [moveAccesses, hr.1, if_true, if_neg hr.2]
      exact List.mem_flatMap.mpr ⟨i, List.mem_range.mpr hi, by simp⟩)
    rw [diskAddr_add]
    exact h.disk _ ⟨_, hdisk.2, rfl⟩
  · rw [movedMem, movedMem, if_neg hr, if_neg hr]
    exact h.mem

theorem movedDisks_same {r : VblkReq} (h : SameFor T s t)
    (hc : ∀ e ∈ moveAccesses T.vm r, e.Confined T) :
    AgreeOn (DiskByte T.vm) (movedDisks T.vm r s) (movedDisks T.vm r t) := by
  by_cases hr : r.inRange = true ∧ r.type = 1
  · rw [movedDisks, movedDisks, if_pos hr, if_pos hr]
    refine h.disk.copy fun i hi => ?_
    have hload := hc (.load (r.daddr + BitVec.ofNat 64 i) 1) (by
      simp only [moveAccesses, hr.1, if_true, if_pos hr.2]
      exact List.mem_flatMap.mpr ⟨i, List.mem_range.mpr hi, by simp⟩)
    have hbyte := hload 0 (by decide)
    rw [BitVec.add_zero] at hbyte
    exact h.mem _ hbyte
  · rw [movedDisks, movedDisks, if_neg hr, if_neg hr]
    exact h.disk

/-- A pass that stays in the tenant's RAM depends only on what the tenant observes. -/
theorem pass_same (h : SameFor T s t) (hc : ∀ e ∈ passAccesses k T.vm q s, e.Confined T) :
    SameFor T (pass k T.vm q s) (pass k T.vm q t) := by
  have hdev : ∀ k', (pass k T.vm q s).dev k' T.vm = (pass k T.vm q t).dev k' T.vm := by
    intro k'
    by_cases hk : k' = k ∧ T.vm = T.vm
    · obtain ⟨rfl, -⟩ := hk
      rw [pass_dev, pass_dev]
      cases k' <;> simp only [h.dev]
    · rw [pass_dev_of_ne hk, pass_dev_of_ne hk, h.dev]
  cases k with
  | con =>
    refine ⟨?_, ?_, hdev⟩
    · have hpush : ∀ e ∈ pushAccesses q s.mem, e.Confined T := fun e he =>
        hc e (by simp [passAccesses, txAccesses, he])
      simp only [pass, virtioTxPass_run, ← txReq_same h hc]
      exact pushed_same h.mem hpush
    · simp only [pass, virtioTxPass_run]
      exact h.disk
  | blk =>
    have hreq := vblkReq_same h hc
    have hmove : ∀ e ∈ moveAccesses T.vm (vblkReq T.vm q s), e.Confined T := fun e he =>
      hc e (by simp [passAccesses, vblkAccesses, he])
    refine ⟨?_, ?_, hdev⟩
    · have hpush : ∀ e ∈ pushAccesses q (statusMem T.vm (vblkReq T.vm q s) s), e.Confined T :=
        fun e he => hc e (by simp [passAccesses, vblkAccesses, he])
      simp only [pass, vblkPass_run, ← hreq]
      exact pushed_same ((movedMem_same h hmove).store _ _ _) hpush
    · simp only [pass, vblkPass_run, ← hreq]
      exact movedDisks_same h hmove

/-- The same for a whole notify: it makes as many passes in both, from states that the
tenant cannot tell apart. -/
theorem process_same (h : SameFor T s t)
    (hc : ∀ e ∈ newAccesses (process k T.vm) s, e.Confined T) :
    SameFor T (process k T.vm s) (process k T.vm t) := by
  cases hact : (s.dev k T.vm).active with
  | false =>
    have hact' : (t.dev k T.vm).active = false := by rw [← h.dev, hact]
    rw [process_of_not_active hact, process_of_not_active hact']
    exact h
  | true =>
    have hact' : (t.dev k T.vm).active = true := by rw [← h.dev, hact]
    rw [newAccesses_process hact, List.forall_mem_cons] at hc
    obtain ⟨hidx, hpasses⟩ := hc
    have hcount : passCount k T.vm s = passCount k T.vm t := by
      rw [passCount, passCount, if_pos hact, if_pos hact', backlog, backlog, availIdx, availIdx,
        h.mem.load hidx, h.dev]
    have hafter : ∀ j ≤ passCount k T.vm s,
        SameFor T (afterPasses k T.vm s j) (afterPasses k T.vm t j) := by
      intro j
      induction j with
      | zero => exact fun _ => ⟨h.mem, h.disk, h.dev⟩
      | succ j ih =>
        intro hj
        have hmem : afterPasses k T.vm s j ∈ passes k T.vm s :=
          List.mem_map.mpr ⟨j, List.mem_range.mpr hj, rfl⟩
        rw [afterPasses_succ, afterPasses_succ, ← h.dev]
        exact pass_same (ih (by omega)) fun e he => hpasses e (List.mem_flatMap.mpr ⟨_, hmem, he⟩)
    have hlast := hafter (passCount k T.vm s) le_rfl
    rw [process_passes hact, process_passes hact', ← hcount]
    split_ifs
    · exact hlast.setDev k fun d => { d with intStatus := d.intStatus ||| 1, irq := true }
    · exact hlast

theorem mmioWrite_same (h : SameFor T s t) (off : U64) (val : U32)
    (hc : off = 0x050 → ∀ e ∈ newAccesses (process k T.vm) s, e.Confined T) :
    SameFor T (mmioWrite k T.vm off val s) (mmioWrite k T.vm off val t) := by
  simp only [mmioWrite]
  split_ifs with _ _ _ _ _ hnotify
  · exact h.setDev k _
  · exact h.setDev k _
  · exact h.setDev k _
  · exact h.setDev k _
  · exact h.setDev k _
  · exact process_same h (hc hnotify)
  · exact h

/-- A register access of the tenant: the same reply, the same effect. -/
theorem mmio_same (h : SameFor T s t) (v : Vcpu) (ipa : U64)
    (hc : isNotify k v ipa = true → ∀ e ∈ newAccesses (process k T.vm) s, e.Confined T) :
    (mmio k T.vm v ipa s).1 = (mmio k T.vm v ipa t).1 ∧
      SameFor T (mmio k T.vm v ipa s).2 (mmio k T.vm v ipa t).2 := by
  simp only [mmio, ← h.dev k]
  split_ifs with hisv hwnr
  · exact ⟨rfl, h⟩
  · refine ⟨rfl, mmioWrite_same h _ _ fun hoff => hc ?_⟩
    rw [Bool.not_eq_true', Bool.not_eq_false] at hisv
    rw [isNotify, hisv, hwnr, decide_eq_true hoff]
    rfl
  · exact ⟨rfl, h⟩

theorem takeIrq_same (h : SameFor T s t) :
    (takeIrq k T.vm s).1 = (takeIrq k T.vm t).1 ∧
      SameFor T (takeIrq k T.vm s).2 (takeIrq k T.vm t).2 := by
  simp only [takeIrq, ← h.dev k]
  split_ifs
  · exact ⟨rfl, h.setDev k fun d => { d with irq := false }⟩
  · exact ⟨rfl, h⟩

end Own

/-! ## 3. The devices of the other tenant -/

section Other

variable {U : Tenant}

/-- The disks of the two VMs do not overlap. -/
theorem not_diskByte {vm vm' : Fin 2} (hvm : vm ≠ vm') {i : U64} (hi : i.toNat < diskSize) :
    ¬ DiskByte vm' (diskAddr vm i) := by
  rintro ⟨j, hj, he⟩
  have hval : ∀ (c : Fin 2) (n : U64), n.toNat < diskSize →
      (diskAddr c n).toNat = vblkStride * c.val + diskField + n.toNat := by
    intro c n hn
    rw [diskAddr, BitVec.toNat_add, BitVec.toNat_ofNat]
    simp only [diskSize, vblkStride, diskField] at hn ⊢
    omega
  have heq := congrArg BitVec.toNat he
  rw [hval vm i hi, hval vm' j hj] at heq
  simp only [diskSize, vblkStride, diskField] at heq hi hj
  omega

theorem movedDisks_frame {r : VblkReq} (hvm : U.vm ≠ T.vm)
    (hc : ∀ e ∈ moveAccesses U.vm r, e.Confined U) :
    AgreeOn (DiskByte T.vm) (movedDisks U.vm r s) s.vbBytes := by
  intro x hx
  by_cases hr : r.inRange = true ∧ r.type = 1
  · rw [movedDisks, if_pos hr]
    refine ByteMem.copy_of_not_covers fun hcov => ?_
    obtain ⟨i, hi, rfl⟩ := ByteMem.eq_add_of_covers hcov
    have hdisk := hc (.disk U.vm (r.doff + BitVec.ofNat 64 i)) (by
      simp only [moveAccesses, hr.1, if_true, if_pos hr.2]
      exact List.mem_flatMap.mpr ⟨i, List.mem_range.mpr hi, by simp⟩)
    rw [diskAddr_add] at hx
    exact not_diskByte hvm hdisk.2 hx
  · rw [movedDisks, if_neg hr]

theorem pass_disk_frame (hvm : U.vm ≠ T.vm) (hc : ∀ e ∈ passAccesses k U.vm q s, e.Confined U) :
    AgreeOn (DiskByte T.vm) (pass k U.vm q s).vbBytes s.vbBytes := by
  cases k with
  | con =>
    simp only [pass, virtioTxPass_run]
    exact fun _ _ => rfl
  | blk =>
    simp only [pass, vblkPass_run]
    exact movedDisks_frame hvm fun e he => hc e (by simp [passAccesses, vblkAccesses, he])

/-- A notify that stays in the RAM of the tenant that makes it changes nothing that the
other one observes. -/
theorem process_frame (hvm : U.vm ≠ T.vm) (hblocks : ∀ x, T.InBlock x → ¬ U.InBlock x)
    (hc : ∀ e ∈ newAccesses (process k U.vm) s, e.Confined U) :
    SameFor T (process k U.vm s) s where
  mem := fun x hx => process_mem_of_unstored (unstored_of_confined hc (hblocks x hx))
  disk := by
    cases hact : (s.dev k U.vm).active with
    | false =>
      rw [process_of_not_active hact]
      exact fun _ _ => rfl
    | true =>
      rw [newAccesses_process hact, List.forall_mem_cons] at hc
      have hafter : ∀ j ≤ passCount k U.vm s,
          AgreeOn (DiskByte T.vm) (afterPasses k U.vm s j).vbBytes s.vbBytes := by
        intro j
        induction j with
        | zero => exact fun _ _ _ => rfl
        | succ j ih =>
          intro hj x hx
          have hmem : afterPasses k U.vm s j ∈ passes k U.vm s :=
            List.mem_map.mpr ⟨j, List.mem_range.mpr hj, rfl⟩
          have hpass := pass_disk_frame (q := queueOf (s.dev k U.vm)) hvm fun e he =>
            hc.2 e (List.mem_flatMap.mpr ⟨_, hmem, he⟩)
          rw [afterPasses_succ, hpass x hx, ih (by omega) x hx]
      rw [process_passes hact]
      split_ifs
      · exact hafter _ le_rfl
      · exact hafter _ le_rfl
  dev := by
    intro k'
    have hne : ¬ (k' = k ∧ T.vm = U.vm) := fun h => hvm h.2.symm
    refine process_invariant (P := fun u => u.dev k' T.vm = s.dev k' T.vm)
      (fun _ _ hu => hu) (fun q u hu => ?_) (fun u hu => ?_) rfl
    · rw [pass_dev_of_ne hne, hu]
    · rw [raiseIrq, setDev_dev_of_ne _ hne, hu]

end Other

/-! ## 4. The machine the tenants share -/

/-- `VM0_PA` and `VM1_PA`. -/
def vmPa (c : Fin 2) : U64 := if c = 0 then 0x80000000 else 0xC0000000

theorem vmPa_aligned (c : Fin 2) : (vmPa c).toNat % 2 ^ 30 = 0 := by
  rw [vmPa]
  split_ifs <;> rfl

theorem vmIpa_aligned : (0x40000000 : U64).toNat % 2 ^ 30 = 0 := by
  decide

/-- Tenant `c` of the demos: its RAM is seen at `VM_IPA`. -/
def demoTenant (c : Fin 2) : Tenant where
  vm := c
  ipa := 0x40000000
  pa := vmPa c
  ipa_aligned := vmIpa_aligned
  pa_aligned := vmPa_aligned c

/-- Stage-2 tables, and the VTTBR values that select one for each VM. -/
structure Tables where
  img : Image
  st : Stage2
  vttbr : Fin 2 → U64

/-- Tables through which each tenant sees its block. -/
structure TenantTables extends Tables where
  vmid : Fin 2 → U32
  sees : ∀ c, SeesBlock img st (vttbr c) c 0x40000000 (vmPa c) (vmid c)

/-- The tables after the two calls of `stage2_build_vm`. -/
def TenantTables.build (img : Image) (st : Stage2) : TenantTables where
  img := img
  st := (stage2BuildVm img 1 0x40000000 0xC0000000 2
    (stage2BuildVm img 0 0x40000000 0x80000000 1 st).2).2
  vttbr := ![(stage2BuildVm img 0 0x40000000 0x80000000 1 st).1,
    (stage2BuildVm img 1 0x40000000 0xC0000000 2
      (stage2BuildVm img 0 0x40000000 0x80000000 1 st).2).1]
  vmid := ![1, 2]
  sees := by
    intro c
    fin_cases c
    · have hone : (1 : U32).toNat < 2 ^ 16 := by decide
      obtain ⟨hbase, hid⟩ := buildVm_vttbr img 0 0x40000000 0x80000000 hone st
      have hbuilt := built_buildVm img 0 0x40000000 0x80000000 1 st
      have hother : ∀ op ∈ [Stage2Op.buildVm 1 0x40000000 0xC0000000 2], ¬ op.Builds 0 := by
        simp [Stage2Op.Builds]
      have hkept := @built_runStage2 img _ _ _ _ _ hbuilt hother
      exact seesBlock_of_built hkept (by decide) (by decide) hbase hid
    · have hbuilt := built_buildVm img 1 0x40000000 0xC0000000 2
        (stage2BuildVm img 0 0x40000000 0x80000000 1 st).2
      have htwo : (2 : U32).toNat < 2 ^ 16 := by decide
      obtain ⟨hbase, hid⟩ := buildVm_vttbr img 1 0x40000000 0xC0000000 htwo
        (stage2BuildVm img 0 0x40000000 0x80000000 1 st).2
      exact seesBlock_of_built hbuilt (by decide) (by decide) hbase hid

/-- What a tenant does: load or store a byte at a guest address, access a register of
a device, or have its device's interrupt flag taken by the loop that runs it. -/
inductive TenantAct
  | load (c : Fin 2) (a : U64)
  | store (c : Fin 2) (a : U64) (b : U8)
  | mmio (c : Fin 2) (k : VirtioKind) (v : Vcpu) (ipa : U64)
  | takeIrq (c : Fin 2) (k : VirtioKind)

/-- What it gets: a byte or a stage-2 fault, whether a store went through or a flag was
set, or the vCPU with which it is resumed. -/
inductive TenantOut
  | byte (b : Option U8)
  | flag (b : Bool)
  | resume (v : Vcpu)

namespace Tables

variable (Z : Tables)

/-- The host address behind a guest address of tenant `c`. -/
def host (c : Fin 2) (a : U64) : Option U64 := stage2Walk Z.img Z.st (Z.vttbr c) a

def step (s : VHost) : TenantAct → VHost
  | .load _ _ => s
  | .store c a b =>
    match Z.host c a with
    | some x => { s with mem := store s.mem x 1 b.toNat }
    | none => s
  | .mmio c k v ipa => (mmio k c v ipa s).2
  | .takeIrq c k => (takeIrq k c s).2

def out (s : VHost) : TenantAct → TenantOut
  | .load c a => .byte ((Z.host c a).map s.mem)
  | .store c a _ => .flag (Z.host c a).isSome
  | .mmio c k v ipa => .resume (mmio k c v ipa s).1
  | .takeIrq c k => .flag (takeIrq k c s).1

def dom : TenantAct → Fin 2
  | .load c _ | .store c _ _ | .mmio c _ _ _ | .takeIrq c _ => c

def machine : Machine VHost TenantAct TenantOut (Fin 2) where
  step := Z.step
  out := Z.out
  dom := dom

/-- If the act is a notify, the accesses that the device makes stay in the block and on
the disk of its tenant. -/
def Stays (s : VHost) : TenantAct → Prop
  | .mmio c k v ipa => isNotify k v ipa = true →
    ∀ e ∈ newAccesses (process k c) s, e.Confined (demoTenant c)
  | .load .. | .store .. | .takeIrq .. => True

instance : ∀ s a, Decidable (Stays s a)
  | s, .mmio c k v ipa => inferInstanceAs (Decidable (isNotify k v ipa = true →
      ∀ e ∈ newAccesses (process k c) s, e.Confined (demoTenant c)))
  | _, .load .. | _, .store .. | _, .takeIrq .. => .isTrue trivial

end Tables

namespace TenantTables

open Tables

variable {Z : TenantTables} {b c : Fin 2}

theorem inBlock_of_host {a x : U64} (h : Z.host c a = some x) : (demoTenant c).InBlock x := by
  have hoff := (Z.sees c).offset a x h
  have hal := (demoTenant c).pa_aligned
  change (demoTenant c).pa.toNat ≤ _ ∧ _
  change x.toNat = (demoTenant c).pa.toNat / 2 ^ 30 * 2 ^ 30 + a.toNat % 2 ^ 30 at hoff
  omega

theorem blocks_disjoint (hne : c ≠ b) (x : U64) (hx : (demoTenant b).InBlock x) :
    ¬ (demoTenant c).InBlock x := by
  intro hc
  have hpa : ∀ d : Fin 2, (vmPa d).toNat = 0x80000000 + d.val * 0x40000000 := by decide
  have hb' : (vmPa b).toNat ≤ x.toNat ∧ x.toNat < (vmPa b).toNat + 2 ^ 30 := hx
  have hc' : (vmPa c).toNat ≤ x.toNat ∧ x.toNat < (vmPa c).toNat + 2 ^ 30 := hc
  rw [hpa] at hb' hc'
  omega

/-- An act of the other tenant changes nothing that tenant `b` observes. -/
theorem step_other {a : TenantAct} (hne : dom a ≠ b) (hstays : Stays s a) :
    SameFor (demoTenant b) (Z.step s a) s := by
  cases a with
  | load => exact .refl _ s
  | store c a v =>
    simp only [step]
    cases hx : Z.host c a with
    | none => exact .refl _ s
    | some x =>
      refine ⟨fun y hy => ByteMem.store_of_not_covers fun hcov => ?_, fun _ _ => rfl,
        fun _ => rfl⟩
      rw [ByteMem.covers_one hcov] at hy
      exact blocks_disjoint hne x hy (inBlock_of_host hx)
  | mmio c k v ipa =>
    simp only [step]
    rcases mmio_cases k c v ipa s with ⟨hn, he⟩ | ⟨-, f, -, he⟩
    · rw [he]
      exact process_frame (U := demoTenant c) hne (blocks_disjoint hne) (hstays hn)
    · rw [he]
      exact sameFor_setDev hne f
  | takeIrq c k =>
    simp only [step, takeIrq]
    split_ifs
    · exact sameFor_setDev (T := demoTenant b) hne fun d => { d with irq := false }
    · exact .refl _ s

/-- An act of tenant `b` itself does the same to states that it cannot tell apart. -/
theorem step_own {a : TenantAct} (hown : dom a = b) (hstays : Stays s a)
    (h : SameFor (demoTenant b) s t) :
    SameFor (demoTenant b) (Z.step s a) (Z.step t a) ∧ Z.out s a = Z.out t a := by
  subst hown
  cases a with
  | load c a =>
    refine ⟨h, ?_⟩
    simp only [out]
    cases hx : Z.host c a with
    | none => rfl
    | some x => rw [Option.map_some, Option.map_some, h.mem x (inBlock_of_host hx)]
  | store c a v =>
    refine ⟨?_, rfl⟩
    simp only [step]
    cases Z.host c a with
    | none => exact h
    | some x => exact ⟨h.mem.store _ _ _, h.disk, h.dev⟩
  | mmio c k v ipa =>
    obtain ⟨hout, hstate⟩ := mmio_same (T := demoTenant c) h v ipa hstays
    exact ⟨hstate, congrArg TenantOut.resume hout⟩
  | takeIrq c k =>
    obtain ⟨hout, hstate⟩ := takeIrq_same (T := demoTenant c) (k := k) h
    exact ⟨hstate, congrArg TenantOut.flag hout⟩

/-- The two runs, step by step. -/
theorem noninterfere {acts : List TenantAct} (hstays : Z.machine.Along Stays s acts) :
    Z.machine.outputs b s acts = Z.machine.outputs b s (Z.machine.own b acts) ∧
      SameFor (demoTenant b) (Z.machine.run s acts) (Z.machine.run s (Z.machine.own b acts)) :=
  Machine.undisturbed_along (M := Z.machine) (R := SameFor (demoTenant b))
    (fun _ _ _ hd hC h => (step_other hd hC).trans h) (fun _ _ _ hd hC h => (step_own hd hC h).1)
    (fun _ _ _ hd hC h => (step_own hd hC h).2) hstays (.refl _ s)

end TenantTables

/-- Non-interference of the two tenants: in every interleaving of their loads, stores and
device accesses in which a notify stays in the RAM and on the disk of its tenant, each
tenant gets the values, register contents and interrupt flags of the run in which it is
alone, and its RAM, its devices and its disk end up as in that run. -/
theorem tenants_noninterfere (Z : TenantTables) (b : Fin 2) (s : VHost) (acts : List TenantAct)
    (hstays : Z.machine.Along Tables.Stays s acts) :
    Z.machine.outputs b s acts = Z.machine.outputs b s (Z.machine.own b acts) ∧
      SameFor (demoTenant b) (Z.machine.run s acts) (Z.machine.run s (Z.machine.own b acts)) :=
  TenantTables.noninterfere hstays

/-- The devices after their resets and `virtio_set_offset`, over zeroed memory. -/
def demoHost : VHost where
  mem := fun _ => 0
  dev := fun _ c => { resetDev with hostOff := (demoTenant c).off }
  vbBytes := fun _ => 0
  console := []
  log := []

/-- Tenant `c` sets up a console queue of four entries in its first page and notifies,
with one entry in the avail ring. -/
def notifyOnce (c : Fin 2) : List TenantAct :=
  [.mmio c .con (storingVcpu 4) 0x0A000038, .mmio c .con (storingVcpu 0x40000) 0x0A000040,
    .store c 0x40000042 1, .mmio c .con (storingVcpu 0) 0x0A000050, .takeIrq c .con,
    .load c 0x40001002]

/-- Tenant 1 runs between two notifies of tenant 0 and finds its own used index. -/
theorem tenants_noninterfere_demo :
    let Z := TenantTables.build exampleImage (resetHv exampleImage 0).s2
    let acts := notifyOnce 0 ++ notifyOnce 1 ++ notifyOnce 0
    Z.machine.outputs 1 demoHost acts = Z.machine.outputs 1 demoHost (Z.machine.own 1 acts) ∧
      SameFor (demoTenant 1) (Z.machine.run demoHost acts)
        (Z.machine.run demoHost (Z.machine.own 1 acts)) := by
  intro Z acts
  exact tenants_noninterfere Z 1 demoHost acts (by decide +kernel)

end FermiHV
