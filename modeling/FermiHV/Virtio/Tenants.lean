import FermiHV.Virtio.Process

/-!
# Tenants

A tenant sees its 1 GiB host block `[pa, pa + 2^30)` at the guest address `ipa`,
and its devices add `pa - ipa` to every guest address they follow. `Tenant.run` is what a
tenant does: it changes its RAM and accesses the registers of its devices. The accesses
that the devices make are those of its notifies (`run_log`), and a run whose notifies
stay in the block changes no memory outside it (`run_mem_of_confined`).
-/

namespace FermiHV

open ByteMem (Mem load store Covers)

/-! ## 1. Tenants -/

/-- A tenant's RAM: where it is in host memory and where the guest sees it. -/
structure Tenant where
  vm : Fin 2
  ipa : U64
  pa : U64
  ipa_aligned : ipa.toNat % 2 ^ 30 = 0
  pa_aligned : pa.toNat % 2 ^ 30 = 0

/-- The offset that `virtio_set_offset` and `vblk_set_offset` are given. -/
def Tenant.off (T : Tenant) : U64 := T.pa - T.ipa

/-- The host address `x` is in the tenant's block. -/
def Tenant.InBlock (T : Tenant) (x : U64) : Prop :=
  T.pa.toNat ≤ x.toNat ∧ x.toNat < T.pa.toNat + 2 ^ 30

/-- The guest address `x` is in the tenant's RAM. -/
def Tenant.InRam (T : Tenant) (x : U64) : Prop :=
  T.ipa.toNat ≤ x.toNat ∧ x.toNat < T.ipa.toNat + 2 ^ 30

instance (T : Tenant) (x : U64) : Decidable (T.InBlock x) :=
  inferInstanceAs (Decidable (T.pa.toNat ≤ x.toNat ∧ x.toNat < T.pa.toNat + 2 ^ 30))

instance (T : Tenant) (x : U64) : Decidable (T.InRam x) :=
  inferInstanceAs (Decidable (T.ipa.toNat ≤ x.toNat ∧ x.toNat < T.ipa.toNat + 2 ^ 30))

variable {T : Tenant}

theorem aligned_fits {a : U64} (h : a.toNat % 2 ^ 30 = 0) : a.toNat + 2 ^ 30 ≤ 2 ^ 64 := by
  have := a.isLt
  omega

/-- Adding the offset takes the RAM to the block, and nothing else there. -/
theorem inBlock_add_off {x : U64} : T.InBlock (x + T.off) ↔ T.InRam x := by
  have hdist : x + (T.pa - T.ipa) - T.pa = x - T.ipa := by
    rw [BitVec.sub_eq_add_neg T.pa, BitVec.add_comm T.pa, ← BitVec.add_assoc,
      BitVec.add_sub_cancel, ← BitVec.sub_eq_add_neg]
  rw [Tenant.InBlock, Tenant.InRam, ← ByteMem.covers_iff (aligned_fits T.pa_aligned),
    ← ByteMem.covers_iff (aligned_fits T.ipa_aligned), Covers, Covers, Tenant.off, hdist]

/-- The `n` bytes at the guest address `a` are in the tenant's RAM. -/
def Tenant.RamRange (T : Tenant) (a : U64) (n : Nat) : Prop :=
  ∀ i < n, T.InRam (a + BitVec.ofNat 64 i)

instance (T : Tenant) (a : U64) (n : Nat) : Decidable (T.RamRange a n) :=
  inferInstanceAs (Decidable (∀ i < n, T.InRam (a + BitVec.ofNat 64 i)))

/-- Every address of an access satisfies `p`; a disk access stays on the disk of
`vm`. -/
def Access.Within (p : U64 → Prop) (vm : Fin 2) : Access → Prop
  | .load a n | .store a n => ∀ i < n, p (a + BitVec.ofNat 64 i)
  | .disk vm' i => vm' = vm ∧ i.toNat < diskSize

instance (p : U64 → Prop) [DecidablePred p] (vm : Fin 2) : DecidablePred (Access.Within p vm)
  | .load a n | .store a n => inferInstanceAs (Decidable (∀ i < n, p (a + BitVec.ofNat 64 i)))
  | .disk vm' i => inferInstanceAs (Decidable (vm' = vm ∧ i.toNat < diskSize))

theorem Access.Within.mono {p p' : U64 → Prop} {vm : Fin 2} {e : Access} (h : e.Within p vm)
    (hp : ∀ x, p x → p' x) : e.Within p' vm := by
  cases e with
  | load a n | store a n => exact fun i hi => hp _ (h i hi)
  | disk vm' i => exact h

/-- The access stays in the tenant's block, or on the tenant's disk. -/
def Access.Confined (T : Tenant) (e : Access) : Prop := e.Within T.InBlock T.vm

instance (T : Tenant) : DecidablePred (Access.Confined T) :=
  inferInstanceAs (DecidablePred (Access.Within T.InBlock T.vm))

theorem add_off_comm {off : U64} (a b : U64) : a + off + b = a + b + off := by
  rw [BitVec.add_assoc, BitVec.add_comm off, BitVec.add_assoc]

/-- A buffer is in the block when the guest addresses behind it are in RAM. -/
theorem inBlock_range_iff {a : U64} {n : Nat} :
    (∀ i < n, T.InBlock (a + T.off + BitVec.ofNat 64 i)) ↔ T.RamRange a n := by
  simp only [Tenant.RamRange, add_off_comm, inBlock_add_off]

/-! ## 2. Memory outside the accesses -/

section Frame

variable {k : VirtioKind} {vm : Fin 2} {q : Queue} {s : VHost} {x : U64}

/-- No store among the accesses covers the byte at `x`. -/
def Unstored (x : U64) (l : List Access) : Prop :=
  ∀ a n, Access.store a n ∈ l → ¬ Covers a n x

theorem Unstored.mono {l l' : List Access} (h : Unstored x l) (hsub : ∀ e ∈ l', e ∈ l) :
    Unstored x l' := fun a n hm => h a n (hsub _ hm)

theorem pushed_of_unstored {id len : U32} {m : Mem 64} (h : Unstored x (pushAccesses q m)) :
    pushed q id len m x = m x := by
  have h1 := h (q.usedSlot (usedIdx q m)) 4 (by simp [pushAccesses])
  have h2 := h (q.usedSlot (usedIdx q m) + 4) 4 (by simp [pushAccesses])
  have h3 := h (q.used + 2) 2 (by simp [pushAccesses])
  simp only [pushed]
  rw [ByteMem.store_of_not_covers h3, ByteMem.store_of_not_covers h2,
    ByteMem.store_of_not_covers h1]

theorem movedMem_of_unstored {r : VblkReq} (h : Unstored x (moveAccesses vm r)) :
    movedMem vm r s x = s.mem x := by
  by_cases hc : r.inRange = true ∧ r.type ≠ 1
  · have hout : ¬ Covers r.daddr r.dlen.toNat x := by
      intro hcov
      obtain ⟨i, hi, rfl⟩ := ByteMem.eq_add_of_covers hcov
      refine h (r.daddr + BitVec.ofNat 64 i) 1 ?_ (by simp [Covers])
      simp only [moveAccesses, hc.1, if_true, if_neg hc.2]
      exact List.mem_flatMap.mpr ⟨i, List.mem_range.mpr hi, by simp⟩
    simp only [movedMem, if_pos hc, ByteMem.copy_of_not_covers hout]
  · simp only [movedMem, if_neg hc]

theorem pass_mem_of_unstored (h : Unstored x (passAccesses k vm q s)) :
    (pass k vm q s).mem x = s.mem x := by
  cases k with
  | con =>
    have hpush : Unstored x (pushAccesses q s.mem) := h.mono fun e he => by
      simp [passAccesses, txAccesses, he]
    simp only [pass, virtioTxPass_run, pushed_of_unstored hpush]
  | blk =>
    have hmove : Unstored x (moveAccesses vm (vblkReq vm q s)) := h.mono fun e he => by
      simp [passAccesses, vblkAccesses, he]
    have hstat := h (vblkReq vm q s).saddr 1 (by simp [passAccesses, vblkAccesses])
    have hpush : Unstored x (pushAccesses q (statusMem vm (vblkReq vm q s) s)) :=
      h.mono fun e he => by simp [passAccesses, vblkAccesses, he]
    simp only [pass, vblkPass_run]
    rw [pushed_of_unstored hpush, statusMem, ByteMem.store_of_not_covers hstat,
      movedMem_of_unstored hmove]

theorem process_mem_of_unstored (h : Unstored x (newAccesses (process k vm) s)) :
    (process k vm s).mem x = s.mem x := by
  cases hact : (s.dev k vm).active with
  | false => rw [process_of_not_active hact]
  | true =>
    rw [newAccesses_process hact] at h
    have hpasses : ∀ j ≤ passCount k vm s, (afterPasses k vm s j).mem x = s.mem x := by
      intro j
      induction j with
      | zero => exact fun _ => rfl
      | succ j ih =>
        intro hj
        have hmem : afterPasses k vm s j ∈ passes k vm s :=
          List.mem_map.mpr ⟨j, List.mem_range.mpr hj, rfl⟩
        rw [afterPasses_succ, pass_mem_of_unstored, ih (by omega)]
        exact h.mono fun e he =>
          List.mem_cons_of_mem _ (List.mem_flatMap.mpr ⟨_, hmem, he⟩)
    rw [(process_eq hact).1]
    exact hpasses _ (Nat.le_refl _)

theorem unstored_of_confined {l : List Access} (hl : ∀ e ∈ l, e.Confined T) (hx : ¬ T.InBlock x) :
    Unstored x l := by
  intro a n hm hcov
  obtain ⟨i, hi, rfl⟩ := ByteMem.eq_add_of_covers hcov
  exact hx (hl _ hm i hi)

end Frame

/-! ## 3. Runs of a tenant -/

/-- What a tenant does: change its RAM in any way, or access a register of one
of its devices with any syndrome. -/
inductive GuestOp
  | ram (bytes : Mem 64)
  | mmio (k : VirtioKind) (v : Vcpu) (ipa : U64)

/-- The access is a write to QueueNotify. -/
def isNotify (k : VirtioKind) (v : Vcpu) (ipa : U64) : Bool :=
  issIsv (esrIss v.exitEsr) && issWnr (esrIss v.exitEsr) && decide (ipa - k.base = 0x050)

def Tenant.step (T : Tenant) (op : GuestOp) (s : VHost) : VHost :=
  match op with
  | .ram bytes => { s with mem := fun x => if T.InBlock x then bytes x else s.mem x }
  | .mmio k v ipa => (FermiHV.mmio k T.vm v ipa s).2

def Tenant.run (T : Tenant) (ops : List GuestOp) (s : VHost) : VHost :=
  ops.foldl (fun s op => T.step op s) s

/-- The notifies of a run, each with the state in which it is made. -/
def Tenant.notifies (T : Tenant) : List GuestOp → VHost → List (VirtioKind × VHost)
  | [], _ => []
  | .ram bytes :: ops, s => T.notifies ops (T.step (.ram bytes) s)
  | .mmio k v ipa :: ops, s =>
    (if isNotify k v ipa then [(k, s)] else []) ++ T.notifies ops (T.step (.mmio k v ipa) s)

/-- A register access is a notify, or it changes registers only. -/
theorem mmio_cases (k : VirtioKind) (vm : Fin 2) (v : Vcpu) (ipa : U64) (s : VHost) :
    (isNotify k v ipa = true ∧ (mmio k vm v ipa s).2 = process k vm s) ∨
    (isNotify k v ipa = false ∧ ∃ f : VirtioDev → VirtioDev,
      (∀ d, (f d).hostOff = d.hostOff) ∧ (mmio k vm v ipa s).2 = s.setDev k vm f) := by
  cases hi : issIsv (esrIss v.exitEsr) with
  | false =>
    refine .inr ⟨by simp [isNotify, hi], id, fun _ => rfl, ?_⟩
    simp [mmio, hi, setDev_id]
  | true =>
    cases hw : issWnr (esrIss v.exitEsr) with
    | false =>
      refine .inr ⟨by simp [isNotify, hw], id, fun _ => rfl, ?_⟩
      simp [mmio, hi, hw, setDev_id]
    | true =>
      have hwrite : (mmio k vm v ipa s).2 = mmioWrite k vm (ipa - k.base)
          ((v.getX (issSrt (esrIss v.exitEsr))).setWidth 32) s := by
        simp [mmio, hi, hw]
      rw [hwrite]
      rcases @mmioWrite_cases k vm s (ipa - k.base)
        ((v.getX (issSrt (esrIss v.exitEsr))).setWidth 32) with ⟨hn, he⟩ | ⟨hn, f, he, hf⟩
      · exact .inl ⟨by simp [isNotify, hi, hw, hn], he⟩
      · refine .inr ⟨?_, f, fun d => (hf d).1, he⟩
        simp only [isNotify, hi, hw, decide_eq_false hn, Bool.and_false]

/-- The devices of the tenant have its offset. -/
def Tenant.Configured (T : Tenant) (s : VHost) : Prop := ∀ k, (s.dev k T.vm).hostOff = T.off

theorem configured_step {s : VHost} (h : T.Configured s) (op : GuestOp) :
    T.Configured (T.step op s) := by
  intro k'
  cases op with
  | ram bytes => exact h k'
  | mmio k v ipa =>
    rw [Tenant.step]
    rcases mmio_cases k T.vm v ipa s with ⟨-, he⟩ | ⟨-, f, hf, he⟩
    · rw [he, process_hostOff, h k']
    · rw [he]
      by_cases hown : k' = k ∧ T.vm = T.vm
      · rw [hown.1, setDev_dev_self, hf, h k]
      · rw [setDev_dev_of_ne f hown, h k']

/-- The log of a run is that of its notifies. -/
theorem run_log (ops : List GuestOp) (s : VHost) : (T.run ops s).log =
    s.log ++ (T.notifies ops s).flatMap fun p => newAccesses (process p.1 T.vm) p.2 := by
  induction ops generalizing s with
  | nil => simp [Tenant.run, Tenant.notifies]
  | cons op ops ih =>
    have hrun : T.run (op :: ops) s = T.run ops (T.step op s) := rfl
    rw [hrun, ih]
    cases op with
    | ram bytes => rfl
    | mmio k v ipa =>
      rcases mmio_cases k T.vm v ipa s with ⟨hn, he⟩ | ⟨hn, f, -, he⟩
      · simp only [Tenant.notifies, Tenant.step, hn, if_true, he, List.flatMap_append,
          List.flatMap_singleton, ← List.append_assoc, ← process_log]
      · simp only [Tenant.notifies, Tenant.step, hn, Bool.false_eq_true, if_false, he,
          List.nil_append]
        rfl

theorem configured_notifies {ops : List GuestOp} {s : VHost} (h : T.Configured s) :
    ∀ p ∈ T.notifies ops s, T.Configured p.2 := by
  induction ops generalizing s with
  | nil => exact fun p hp => absurd hp List.not_mem_nil
  | cons op ops ih =>
    intro p hp
    cases op with
    | ram bytes => exact ih (configured_step h _) p hp
    | mmio k v ipa =>
      rcases List.mem_append.mp hp with hhere | hlater
      · split_ifs at hhere
        · rw [List.mem_singleton.mp hhere]
          exact h
        · exact absurd hhere List.not_mem_nil
      · exact ih (configured_step h _) p hlater

/-- A run whose notifies stay in the block changes no memory outside it. -/
theorem run_mem_of_confined {ops : List GuestOp} {s : VHost} {x : U64} (hx : ¬ T.InBlock x)
    (h : ∀ p ∈ T.notifies ops s, ∀ e ∈ newAccesses (process p.1 T.vm) p.2, e.Confined T) :
    (T.run ops s).mem x = s.mem x := by
  induction ops generalizing s with
  | nil => rfl
  | cons op ops ih =>
    have hrun : T.run (op :: ops) s = T.run ops (T.step op s) := rfl
    rw [hrun]
    cases op with
    | ram bytes =>
      rw [ih h]
      exact if_neg hx
    | mmio k v ipa =>
      rw [ih fun p hp => h p (List.mem_append_right _ hp), Tenant.step]
      rcases mmio_cases k T.vm v ipa s with ⟨hn, he⟩ | ⟨-, f, -, he⟩
      · have hnow := h (k, s) (List.mem_append_left _ (by simp [hn]))
        rw [he, process_mem_of_unstored (unstored_of_confined hnow hx)]
      · rw [he]
        rfl

/-- A run whose notifies stay in the block stays in the block. -/
theorem run_confined {s : VHost} {ops : List GuestOp}
    (h : ∀ p ∈ T.notifies ops s, ∀ e ∈ newAccesses (process p.1 T.vm) p.2, e.Confined T) :
    ∀ e ∈ newAccesses (T.run ops) s, e.Confined T := by
  rw [newAccesses, run_log, List.drop_left]
  intro e he
  obtain ⟨p, hp, hmem⟩ := List.mem_flatMap.mp he
  exact h p hp e hmem

end FermiHV
