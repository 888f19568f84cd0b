import FermiHV.Resume
import FermiHV.Virtio.Disk

/-!
# The frame of a trapped access

What the six decoders leave alone. The vCPU part is `Resumes`; this module adds
the virtio devices to it and says which device state an access can change:

* nothing if the syndrome of an MMIO access is not valid (`MmioFrame`);
* of the arrays `vc[]` and `vb[]` only the fields of the addressed device and the
  bytes of its own disk (`VirtioSlice`). A notify runs a whole queue, so this is an
  induction over its passes; the disks stay apart as long as no request has a
  `sector * 512 + dlen` that leaves 64 bits;
* of the timers only the registers of the addressed VM (`TimerSlice`).
-/

namespace FermiHV

open ByteMem (Covers)

/-! ## 1. The vCPU -/

/-- A register number of 31 names no register. -/
theorem Resumes.x_of_rt31 {v v' : Vcpu} {rt : Nat} {isRead : Bool}
    (h : Resumes v v' rt isRead) (hrt : rt = 31) : v'.x = v.x := by
  funext i
  by_contra hne
  have hi := (h.regs i hne).2
  have := i.isLt
  omega

theorem mmio_resumes (k : VirtioKind) (vm : Fin 2) (v : Vcpu) (ipa : U64) (s : VHost) :
    Resumes v (mmio k vm v ipa s).1 v.mmioRt v.mmioReads := by
  simp only [mmio, GuestCtx.mmioRt, GuestCtx.mmioReads]
  cases issIsv (esrIss v.exitEsr) with
  | false => exact .skip v _ _
  | true =>
    cases issWnr (esrIss v.exitEsr) with
    | true => exact .skip v _ _
    | false => exact .setX_skip v _ _

/-- What a decoder of MMIO accesses owes to the vCPU `v` and to the state `d` of
its device, when it returns `r`. -/
structure MmioFrame {D : Type} (v : Vcpu) (d : D) (r : Vcpu × D) : Prop where
  resumes : Resumes v r.1 v.mmioRt v.mmioReads
  zeroReg : v.mmioRt = 31 → r.1.x = v.x
  invalid : issIsv (esrIss v.exitEsr) = false → r.2 = d

theorem mmioEmulate_frame (v : Vcpu) (ipa : U64) (u : Vuart) :
    MmioFrame v u (mmioEmulate v ipa u) where
  resumes := mmioEmulate_resumes v ipa u
  zeroReg := (mmioEmulate_resumes v ipa u).x_of_rt31
  invalid := fun h => by simp only [mmioEmulate, h, Bool.not_false, if_true]

theorem vgicMmio_frame (vm : Int) (v : Vcpu) (ipa : U64) (g : Vgic) :
    MmioFrame v g (vgicMmio vm v ipa g) where
  resumes := vgicMmio_resumes vm v ipa g
  zeroReg := (vgicMmio_resumes vm v ipa g).x_of_rt31
  invalid := fun h => by simp only [vgicMmio, h, Bool.not_false, if_true]

theorem mmio_frame (k : VirtioKind) (vm : Fin 2) (v : Vcpu) (ipa : U64) (s : VHost) :
    MmioFrame v s (mmio k vm v ipa s) where
  resumes := mmio_resumes k vm v ipa s
  zeroReg := (mmio_resumes k vm v ipa s).x_of_rt31
  invalid := fun h => by simp only [mmio, h, Bool.not_false, if_true]

/-! ## 2. The virtio arrays -/

/-- Of `vc[]` and `vb[]`, `s` and `s'` differ at most in the fields of one device
and in the bytes of its disk. -/
structure VirtioSlice (k : VirtioKind) (vm : Fin 2) (s s' : VHost) : Prop where
  dev : ∀ k' vm', ¬ (k' = k ∧ vm' = vm) → s'.dev k' vm' = s.dev k' vm'
  bytes : ∀ a, s'.vbBytes a ≠ s.vbBytes a →
    k = .blk ∧ ∃ i : Fin diskSize, a = diskAddr vm (BitVec.ofNat 64 i.val)

/-- `sector * 512 + dlen` fits into 64 bits. -/
def VblkReq.Bounded (r : VblkReq) : Prop := r.start + r.dlen.toNat < 2 ^ 64

instance (r : VblkReq) : Decidable r.Bounded :=
  inferInstanceAs (Decidable (r.start + r.dlen.toNat < 2 ^ 64))

/-- The requests that a notify of the disk of `vm` would serve are bounded. -/
def BoundedRequests (vm : Fin 2) (s : VHost) : Prop :=
  ∀ t ∈ passes .blk vm s, (vblkReq vm (queueOf (s.dev .blk vm)) t).Bounded

section Slices

variable {k : VirtioKind} {vm : Fin 2} {q : Queue} {s t u : VHost}

theorem VirtioSlice.refl (s : VHost) : VirtioSlice k vm s s :=
  ⟨fun _ _ _ => rfl, fun _ h => absurd rfl h⟩

theorem VirtioSlice.trans (h₁ : VirtioSlice k vm s t) (h₂ : VirtioSlice k vm t u) :
    VirtioSlice k vm s u where
  dev := fun k' vm' hne => (h₂.dev k' vm' hne).trans (h₁.dev k' vm' hne)
  bytes := fun a ha => by
    by_cases hmid : u.vbBytes a = t.vbBytes a
    · exact h₁.bytes a (hmid ▸ ha)
    · exact h₂.bytes a hmid

theorem setDev_slice (f : VirtioDev → VirtioDev) : VirtioSlice k vm s (s.setDev k vm f) :=
  ⟨fun _ _ hne => setDev_dev_of_ne f hne, fun _ h => absurd rfl h⟩

theorem raiseIrq_slice : VirtioSlice k vm s (raiseIrq k vm s).2 :=
  ⟨fun _ _ hne => by rw [raiseIrq, setDev_dev_of_ne _ hne], fun _ h => absurd rfl h⟩

/-- A bounded request is accepted only if it fits. -/
theorem fits_of_bounded {r : VblkReq} (hb : r.Bounded) (hr : r.inRange = true) : r.Fits := by
  rcases (inRange_iff_fits_or_wraps r).mp hr with hfit | hwrap
  · exact hfit
  · exact absurd hb (Nat.not_lt.mpr hwrap.1)

/-- The bytes that a request that fits covers are bytes of the disk. -/
theorem diskAddr_of_covers {r : VblkReq} (hfit : r.Fits) {a : U64}
    (ha : Covers (diskAddr vm r.doff) r.dlen.toNat a) :
    ∃ i : Fin diskSize, a = diskAddr vm (BitVec.ofNat 64 i.val) := by
  have hoff := doff_of_fits hfit
  have hlt : r.start + (a - diskAddr vm r.doff).toNat < diskSize :=
    Nat.lt_of_lt_of_le (Nat.add_lt_add_left ha _) hfit
  refine ⟨⟨_, hlt⟩, ?_⟩
  simp only [diskAddr]
  bv_omega

theorem pass_slice (hb : k = .blk → (vblkReq vm q s).Bounded) :
    VirtioSlice k vm s (pass k vm q s) where
  dev := fun _ _ => pass_dev_of_ne
  bytes := fun a ha => by
    cases k with
    | con =>
      simp only [pass, virtioTxPass_run] at ha
      exact absurd rfl ha
    | blk =>
      refine ⟨rfl, ?_⟩
      -- only a request to write that is in range moves bytes to the disk
      simp only [pass, vblkPass_run, movedDisks] at ha
      split_ifs at ha with hmove
      · refine diskAddr_of_covers (fits_of_bounded (hb rfl) hmove.1) ?_
        by_contra hout
        exact ha (ByteMem.copy_of_not_covers hout)
      · exact absurd rfl ha

theorem afterPasses_slice (hb : k = .blk → BoundedRequests vm s) {j : Nat}
    (hj : j ≤ passCount k vm s) : VirtioSlice k vm s (afterPasses k vm s j) := by
  induction j with
  | zero => exact ⟨fun _ _ _ => rfl, fun _ h => absurd rfl h⟩
  | succ j ih =>
    rw [afterPasses_succ]
    refine (ih (Nat.le_of_succ_le hj)).trans (pass_slice fun hk => ?_)
    subst hk
    -- the bound is on the state in which the pass begins
    exact hb rfl _ (List.mem_map_of_mem (List.mem_range.mpr hj))

theorem process_slice (hb : k = .blk → BoundedRequests vm s) :
    VirtioSlice k vm s (process k vm s) := by
  cases hact : (s.dev k vm).active with
  | false =>
    rw [process_of_not_active hact]
    exact .refl s
  | true =>
    have hpasses := afterPasses_slice hb (passCount_eq_entriesDue hact).ge
    rw [process_result hact]
    split_ifs
    · exact hpasses.trans raiseIrq_slice
    · exact hpasses

theorem mmio_slice (hb : k = .blk → BoundedRequests vm s) (v : Vcpu) (ipa : U64) :
    VirtioSlice k vm s (mmio k vm v ipa s).2 := by
  simp only [mmio]
  split_ifs
  · exact .refl s
  · rcases @mmioWrite_cases k vm s (ipa - k.base)
      ((v.getX (issSrt (esrIss v.exitEsr))).setWidth 32) with ⟨-, heq⟩ | ⟨-, f, heq, -⟩
    · rw [heq]
      exact process_slice hb
    · rw [heq]
      exact setDev_slice f
  · exact .refl s

end Slices

/-! ## 3. The timers -/

/-- `h` and `h'` differ at most in the vCPU `c` and in the timer of `vm`. -/
structure TimerSlice (vm c : Fin 2) (h h' : Hv) : Prop where
  timer : ∀ vm', vm' ≠ vm → h'.cntp vm' = h.cntp vm'
  vcpu : ∀ d, d ≠ c → h'.vcpus d = h.vcpus d
  frame : h' = { h with vcpus := h'.vcpus, cntp := h'.cntp }

theorem cntpEmulate_slice (vm c : Fin 2) (h : Hv) : TimerSlice vm c h (cntpEmulate vm c h) where
  timer := fun vm' hne => by
    simp only [cntpEmulate]
    split_ifs
    · exact Function.update_of_ne hne ..
    · rfl
    · rfl
  vcpu := fun _ hne => cntpEmulate_vcpus_of_ne vm hne
  frame := by
    simp only [cntpEmulate]
    split_ifs <;> rfl

/-! ## 4. All decoders -/

/-- Every trapped access that the hypervisor emulates resumes its vCPU in the
same way and stays inside the state of the addressed VM. -/
theorem trap_frame_law :
    (∀ v ipa u, MmioFrame v u (mmioEmulate v ipa u)) ∧
    (∀ vm v ipa g, MmioFrame v g (vgicMmio vm v ipa g)) ∧
    (∀ vm v ipa s, MmioFrame v s (virtioMmio vm v ipa s) ∧
      VirtioSlice .con vm s (virtioMmio vm v ipa s).2) ∧
    (∀ vm v ipa s, MmioFrame v s (vblkMmio vm v ipa s) ∧
      (BoundedRequests vm s → VirtioSlice .blk vm s (vblkMmio vm v ipa s).2)) ∧
    (∀ v, Resumes v (mmioZero v) v.mmioRt v.mmioReads ∧
      (v.mmioRt = 31 → (mmioZero v).x = v.x)) ∧
    (∀ vm c h,
      let rt := issRt (esrIss (h.vcpus c).exitEsr)
      Resumes (h.vcpus c) ((cntpEmulate vm c h).vcpus c) rt
          (issDir (esrIss (h.vcpus c).exitEsr) ≠ 0) ∧
        (rt = 31 → ((cntpEmulate vm c h).vcpus c).x = (h.vcpus c).x) ∧
        TimerSlice vm c h (cntpEmulate vm c h)) := by
  refine ⟨mmioEmulate_frame, vgicMmio_frame, fun vm v ipa s => ⟨mmio_frame .con vm v ipa s, ?_⟩,
    fun vm v ipa s => ⟨mmio_frame .blk vm v ipa s, fun hb => ?_⟩,
    fun v => ⟨mmioZero_resumes v, (mmioZero_resumes v).x_of_rt31⟩,
    fun vm c h => ⟨cntpEmulate_resumes vm, (cntpEmulate_resumes vm).x_of_rt31,
      cntpEmulate_slice vm c h⟩⟩
  · exact mmio_slice (fun hk => by cases hk) v ipa
  · exact mmio_slice (fun _ => hb) v ipa

/-- VM 1 has a write of 512 bytes to sector 0 in its queue. -/
def sectorHost : VHost :=
  { wrapHost with mem := fun a => if 0x3008 ≤ a ∧ a < 0x3010 then 0 else wrapMem a }

/-- When VM 1 notifies its disk of that request, nothing changes but its own device and
disk. -/
theorem trap_frame_law_sector :
    passCount .blk 1 sectorHost = 1 ∧ BoundedRequests 1 sectorHost ∧
    VirtioSlice .blk 1 sectorHost (vblkMmio 1 (storingVcpu 0) 0x0A000250 sectorHost).2 := by
  have hb : BoundedRequests 1 sectorHost := by
    unfold BoundedRequests
    decide +kernel
  exact ⟨by decide +kernel, hb,
    (trap_frame_law.2.2.2.1 1 (storingVcpu 0) 0x0A000250 sectorHost).2 hb⟩

end FermiHV
