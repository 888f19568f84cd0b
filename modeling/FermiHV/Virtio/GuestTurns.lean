import FermiHV.Virtio.Guests

/-!
# Turns of the virtio guests

In its turn a tenant of `mtenant_virtio_demo` or `mtenant_vblk_demo` runs its driver from
the entry to the hypercall. Each register write of the driver leaves the guest and is
emulated by the loop; between two of them the guest runs on the machine. A turn takes
eight passes and ends with the queue of the driver processed by the device
(`Stands.turn`).
-/

namespace FermiHV

open A64 (Instr Core Program Reg Stop Reaches Stops)
open ByteMem (Mem load store)
open RunLoop (Flow Loop)
open TenantDemo (drive)

/-! ## 1. Passes of a driver -/

/-- In the given number of passes the demo comes from `s` to `s1`. -/
def Drives (p : Program Empty) (img : Image) (k : VirtioKind) (l : Nat) (s s1 : TenantDemo) :
    Prop :=
  ∀ᶠ fuel in Filter.atTop, ∀ n, drive p img k fuel (l + n) s = drive p img k fuel n s1

section Passes

variable {p : Program Empty} {img : Image} {k : VirtioKind} {s s1 s2 : TenantDemo}

theorem Drives.trans {l l' : Nat} (h : Drives p img k l s s1) (h' : Drives p img k l' s1 s2) :
    Drives p img k (l + l') s s2 := by
  filter_upwards [h, h'] with fuel hfuel hfuel' n
  rw [Nat.add_assoc, hfuel, hfuel']

/-- The event of the pass in which the guest stops like that. -/
def stopEvent (s : TenantDemo) (s' : Core) (m' : GuestMem) (j : Stop) : TenantEvent where
  ctx := (s.hv.vcpus s.vm).toGuestCtx.left s' j
  stores := m'.stores

theorem drives_of_stops (img : Image) (k : VirtioKind) (s : TenantDemo) {s' : Core}
    {m' : GuestMem} {j : Stop} (hcur : s.cur < 2)
    (hstop : Stops p ramPlatform
      ((s.hv.vcpus s.vm).toGuestCtx.core, { mem := s.view img s.vm, stores := [] }) (s', m', j)) :
    Drives p img k 1 s ((tenantDemo img k).body (stopEvent s s' m' j) s).state := by
  obtain ⟨n, hn⟩ := hstop
  refine Filter.eventually_atTop.mpr ⟨n, fun fuel hfuel l => ?_⟩
  have hrun := hn (fuel - n)
  rw [Nat.add_sub_cancel' hfuel] at hrun
  have hcond : (tenantDemo img k).cond s = true := decide_eq_true hcur
  rw [Nat.add_comm 1 l, drive, if_pos hcond, TenantDemo.guestEvent]
  simp only [hrun, Option.map_some, Option.bind_some]
  rfl

end Passes

/-- The registers of the devices that the drivers write. -/
def driverRegs : List U64 := [0x28, 0x30, 0x38, 0x3c, 0x40, 0x70, 0x50]

/-- They are in the window of the device, outside RAM, and their address comes back from
the fault registers. -/
theorem driverRegs_spec : ∀ k : VirtioKind, ∀ off ∈ driverRegs,
    k.contains (k.base + off) = true ∧ ¬ InRamN (k.base + off) 4 ∧
      faultIpa (((k.base + off) >>> 12) <<< 4) (k.base + off) = k.base + off := by
  intro k
  rw [← List.forall_iff_forall_mem]
  cases k <;>
    (simp only [driverRegs, List.Forall]
     decide +kernel)

theorem esrEc_store : ∀ (sas : Fin 4) (srt : Fin 32),
    esrEc (AccessForm.esr ⟨sas, srt⟩ true) = ecDabtLow := by
  decide +kernel

theorem getX_srtOf (g : GuestCtx) (t : Option Reg) : g.getX (srtOf t).val = t.elim 0 g.x := by
  cases t with
  | none => rfl
  | some r =>
    have hr : (srtOf (some r)).val = r.val := rfl
    rw [GuestCtx.getX, hr, dif_pos r.isLt]
    rfl

/-- The guest of tenant `c` stands before the instruction `i` of its driver; the tables
and the other vCPU are as in `s0`. -/
structure Stands (img : Image) (k : VirtioKind) (c : Fin 2) (i : Nat) (H : VHost)
    (s0 s : TenantDemo) : Prop where
  cur : s.cur = c.val
  guard : s.guard ≤ i
  tables : s.tables img = s0.tables img
  pc : (s.hv.vcpus c).pc = (guestDriver k).label i
  host : s.host = H
  others : ∀ d, d ≠ c → s.hv.vcpus d = s0.hv.vcpus d

/-- The same inside the handshake, with the device at `x5`. -/
structure InHandshake (img : Image) (k : VirtioKind) (c : Fin 2) (i : Nat) (H : VHost)
    (s0 s : TenantDemo) : Prop extends Stands img k c i H s0 s where
  x5 : (s.hv.vcpus c).x 5 = k.base

/-- The turn of tenant `c` is over. -/
structure TurnOver (img : Image) (c : Fin 2) (H : VHost) (s0 s : TenantDemo) : Prop where
  cur : s.cur = c.val + 1
  guard : s.guard = 0
  tables : s.tables img = s0.tables img
  host : s.host = H
  others : ∀ d, d ≠ c → s.hv.vcpus d = s0.hv.vcpus d

/-- The host after the stores of tenant `c`. -/
def VHost.stored (H : VHost) (Z : Tables) (c : Fin 2) (stores : List (U64 × U8)) : VHost :=
  { H with mem := stores.foldl (Z.storeByte c) H.mem }

theorem step_store_eq (Z : Tables) (c : Fin 2) (stores : List (U64 × U8)) (H : VHost) :
    stores.foldl (fun t p => Z.step t (.store c p.1 p.2)) H = H.stored Z c stores := by
  induction stores generalizing H with
  | nil => rfl
  | cons p stores ih =>
    have hone : Z.step H (.store c p.1 p.2) = { H with mem := Z.storeByte c H.mem p } := by
      rw [Tables.step, Tables.storeByte]
      cases Z.host c p.1 <;> rfl
    rw [List.foldl_cons, ih, hone]
    rfl

section Turn

variable {img : Image} {k : VirtioKind} {c : Fin 2} {i j : Nat} {H : VHost} {s0 s : TenantDemo}

theorem Stands.vm (h : Stands img k c i H s0 s) : s.vm = c := by
  rw [TenantDemo.vm, h.cur]
  exact Fin.ext (Nat.mod_eq_of_lt c.isLt)

theorem mmio_store {v : Vcpu} {sas : Fin 4} {t : Option Reg}
    (hesr : v.exitEsr = AccessForm.esr ⟨sas, srtOf t⟩ true) (ipa : U64) :
    mmio k c v ipa H =
      (v.skip, mmioWrite k c (ipa - k.base) ((t.elim 0 v.x).setWidth 32) H) := by
  obtain ⟨hisv, hwnr, -, -, hsrt⟩ := esr_decodes sas (srtOf t) true
  rw [← hesr] at hisv hwnr hsrt
  simp only [mmio, hisv, hwnr, hsrt, getX_srtOf, Bool.not_true, Bool.false_eq_true, if_false,
    if_true]

/-- A pass that ends with a store to a register of the device. -/
theorem body_write (img : Image) (k : VirtioKind) (s' : Core) (m' : GuestMem)
    (t : Option Reg) {off : U64} (hvm : s.vm = c) (hguard : s.guard + 1 < 50000)
    (hoff : off ∈ driverRegs) :
    ∃ v1 : Vcpu, v1.pc = s'.pc + 4 ∧ v1.x = s'.x ∧ v1.vttbr = (s.hv.vcpus c).vttbr ∧
      ((tenantDemo img k).body (stopEvent s s' m' (.storeAbort t 4 (k.base + off))) s).state =
      { hv := s.hv.setVcpu c v1
        host := mmioWrite k c off ((s'.get t).setWidth 32)
          (s.host.stored (s.tables img) c m'.stores)
        cur := s.cur
        guard := s.guard + 1 } := by
  obtain ⟨hin, -, hipa⟩ := driverRegs_spec k off hoff
  let e := stopEvent s s' m' (.storeAbort t 4 (k.base + off))
  let v := vcpuRunOnce e.ctx (s.hv.vcpus c)
  have hesr : v.exitEsr = AccessForm.esr ⟨sasOf 4, srtOf t⟩ true := rfl
  have hfault : v.exitIpa = k.base + off := hipa
  have hec : v.exitEc = ecDabtLow := esrEc_store _ _
  have hmmio := mmio_store (k := k) (c := c) (H := s.host.stored (s.tables img) c m'.stores) hesr
    (k.base + off)
  have hdist : k.base + off - k.base = off := by
    rw [BitVec.add_comm, BitVec.add_sub_cancel]
  rw [hdist] at hmmio
  have henter : s.enter img e =
      { s with
        hv := s.hv.setVcpu c v
        host := s.host.stored (s.tables img) c m'.stores
        guard := s.guard + 1 } := by
    simp only [TenantDemo.enter, hvm, step_store_eq]
    rfl
  refine ⟨v.skip, rfl, rfl, rfl, ?_⟩
  have hbody : (tenantDemo img k).body e s = .next ((s.enter img e).dabt k).again := by
    have hvcpu : (s.enter img e).hv.vcpus (s.enter img e).vm = v := by
      rw [henter]
      change (s.hv.setVcpu c v).vcpus s.vm = v
      rw [hvm, setVcpu_vcpus_self]
    simp only [tenantDemo, hvcpu, if_pos hec]
  have hdabt : (s.enter img e).dabt k =
      { s with
        hv := s.hv.setVcpu c v.skip
        host := mmioWrite k c off ((s'.get t).setWidth 32)
          (s.host.stored (s.tables img) c m'.stores)
        guard := s.guard + 1 } := by
    have hwin : k.contains v.exitIpa = true := by rw [hfault, hin]
    have htwice : (s.hv.setVcpu c v).setVcpu c v.skip = s.hv.setVcpu c v.skip := by
      simp only [Hv.setVcpu, Function.update_idem]
    have hvm' : TenantDemo.vm { s with
        hv := s.hv.setVcpu c v
        host := s.host.stored (s.tables img) c m'.stores
        guard := s.guard + 1 } = c := hvm
    rw [henter, TenantDemo.dabt]
    simp only [hvm', setVcpu_vcpus_self, hfault, hin, if_true, hmmio, htwice]
    rfl
  have hfinal : ((tenantDemo img k).body e s).state = (s.enter img e).dabt k := by
    rw [hbody, Flow.state, TenantDemo.again, if_pos]
    rw [hdabt]
    exact hguard
  exact hfinal.trans hdabt

/-- A store to a register of the device stops the guest. -/
theorem stops_write {s' : Core} {m' : GuestMem} {t : Option Reg} {off : U64}
    (hpc : s'.pc = (guestDriver k).label j) (h5 : s'.x 5 = k.base)
    (hcode : (guestDriver k).code j = some (.str 4 t 5 off)) (hoff : off ∈ driverRegs)
    (hj : j < 100) :
    Stops (guestDriver k) ramPlatform (s', m') (s', m', .storeAbort t 4 (k.base + off)) := by
  obtain ⟨-, hram, -⟩ := driverRegs_spec k off hoff
  refine .of_exec rfl hpc (by omega) hcode ?_
  have hnone : ramPlatform.store m' (k.base + off) 4 (s'.get t).toNat = none := if_neg hram
  simp only [A64.exec, h5, hnone]

/-- A register write of the driver: the guest runs up to it, it is emulated, and the
guest stands behind it. -/
theorem Stands.write (h : Stands img k c i H s0 s) {s' : Core} {m' : GuestMem}
    {t : Option Reg} {off : U64}
    (hreach : Reaches (guestDriver k) ramPlatform
      ((s.hv.vcpus c).toGuestCtx.core, { mem := s.view img c, stores := [] }) (s', m'))
    (hpc : s'.pc = (guestDriver k).label j) (h5 : s'.x 5 = k.base)
    (hcode : (guestDriver k).code j = some (.str 4 t 5 off)) (hoff : off ∈ driverRegs)
    (hij : i ≤ j) (hj : j < 100) :
    ∃ s1, Drives (guestDriver k) img k 1 s s1 ∧ InHandshake img k c (j + 1)
      (mmioWrite k c off ((s'.get t).setWidth 32) (H.stored (s.tables img) c m'.stores)) s0 s1 := by
  have hvm := h.vm
  have hdrives := drives_of_stops img k s (by rw [h.cur]; exact c.isLt)
    (by rw [hvm]; exact hreach.stops (stops_write hpc h5 hcode hoff hj))
  have hguard := h.guard
  obtain ⟨v1, hpc1, hx1, hvttbr, hbody⟩ := body_write img k s' m' t hvm (by omega) hoff
  rw [hbody, h.host] at hdrives
  refine ⟨_, hdrives, ?_⟩
  exact {
    cur := h.cur
    guard := by
      change s.guard + 1 ≤ j + 1
      omega
    tables := (setVcpu_tables hvttbr).trans h.tables
    pc := by
      rw [setVcpu_vcpus_self, hpc1, hpc, Program.label_add_four]
    host := rfl
    others := fun d hd => (setVcpu_vcpus_of_ne _ hd).trans (h.others d hd)
    x5 := by
      rw [setVcpu_vcpus_self, hx1, h5] }

/-- The hypercall at the end of the turn. -/
theorem Stands.hvc (h : Stands img k c i H s0 s) (hcode : (guestDriver k).code i = some .hvc)
    (hi : i < 100) :
    ∃ s1, Drives (guestDriver k) img k 1 s s1 ∧ TurnOver img c H s0 s1 := by
  have hvm := h.vm
  have hstop : Stops (guestDriver k) ramPlatform
      ((s.hv.vcpus c).toGuestCtx.core, { mem := s.view img c, stores := [] })
      ((s.hv.vcpus c).toGuestCtx.core, { mem := s.view img c, stores := [] }, .hvc) :=
    .of_exec rfl h.pc (by omega) hcode rfl
  have hdrives := drives_of_stops img k s (by rw [h.cur]; exact c.isLt)
    (by rw [hvm]; exact hstop)
  let e := stopEvent s (s.hv.vcpus c).toGuestCtx.core { mem := s.view img c, stores := [] } .hvc
  let v := vcpuRunOnce e.ctx (s.hv.vcpus s.vm)
  have hec : v.exitEc ≠ ecDabtLow := by
    have hval : v.exitEc = esrEc 0x5A000000 := rfl
    rw [hval]
    decide
  have hbody : ((tenantDemo img k).body e s).state = (s.enter img e).leave := by
    have hvcpu : (s.enter img e).hv.vcpus (s.enter img e).vm = v := setVcpu_vcpus_self _
    simp only [tenantDemo, hvcpu, if_neg hec, Flow.state]
  rw [hbody] at hdrives
  refine ⟨_, hdrives, ?_⟩
  exact {
    cur := congrArg (· + 1) h.cur
    guard := rfl
    tables := (s.enter_tables img e).trans h.tables
    host := h.host
    others := by
      intro d hd
      have hframe : (s.enter img e).hv.vcpus d = s.hv.vcpus d := by
        refine setVcpu_vcpus_of_ne _ ?_
        rw [hvm]
        exact hd
      exact hframe.trans (h.others d hd) }

/-- A register write with nothing but register moves before it. -/
theorem InHandshake.write (h : InHandshake img k c i H s0 s) {s' : Core} {t : Option Reg}
    {off v : U64}
    (hreach : Reaches (guestDriver k) ramPlatform
      ((s.hv.vcpus c).toGuestCtx.core, { mem := s.view img c, stores := [] })
      (s', { mem := s.view img c, stores := [] }))
    (hpc : s'.pc = (guestDriver k).label j) (h5 : s'.x 5 = k.base) (hv : s'.get t = v)
    (hcode : (guestDriver k).code j = some (.str 4 t 5 off)) (hoff : off ∈ driverRegs)
    (hij : i ≤ j) (hj : j < 100) :
    ∃ s1, Drives (guestDriver k) img k 1 s s1 ∧
      InHandshake img k c (j + 1) (mmioWrite k c off (v.setWidth 32) H) s0 s1 := by
  obtain ⟨s1, hdrives, hstands⟩ := h.toStands.write hreach hpc h5 hcode hoff hij hj
  have hsame : H.stored (s.tables img) c [] = H := rfl
  rw [hv, hsame] at hstands
  exact ⟨s1, hdrives, hstands⟩

/-- A store of the zero register. -/
theorem InHandshake.writeZero (h : InHandshake img k c i H s0 s) {off : U64}
    (hcode : (guestDriver k).code i = some (.str 4 none 5 off)) (hoff : off ∈ driverRegs)
    (hi : i < 100) :
    ∃ s1, Drives (guestDriver k) img k 1 s s1 ∧
      InHandshake img k c (i + 1) (mmioWrite k c off ((0 : U64).setWidth 32) H) s0 s1 :=
  h.write (.refl _) h.pc h.x5 rfl hcode hoff le_rfl hi

/-- A store of a constant. -/
theorem InHandshake.writeConst (h : InHandshake img k c i H s0 s) {v off : U64}
    (hmov : (guestDriver k).code i = some (.mov 0 v))
    (hcode : (guestDriver k).code (i + 1) = some (.str 4 (some 0) 5 off)) (hoff : off ∈ driverRegs)
    (hi : i + 1 < 100) :
    ∃ s1, Drives (guestDriver k) img k 1 s s1 ∧
      InHandshake img k c (i + 2) (mmioWrite k c off (v.setWidth 32) H) s0 s1 := by
  have hpc : ((s.hv.vcpus c).toGuestCtx.core.set 0 v).pc = (guestDriver k).label (i + 1) :=
    Core.pc_set h.pc 0 v
  exact h.write (.of_exec rfl h.pc (by omega) hmov rfl) hpc h.x5 rfl hcode hoff (by omega) hi

/-- A store of a constant that is made in two steps. -/
theorem InHandshake.writeConst2 (h : InHandshake img k c i H s0 s) {u v off : U64}
    {w : BitVec 16} {shift : Nat}
    (hmov : (guestDriver k).code i = some (.mov 0 u))
    (hmovk : (guestDriver k).code (i + 1) = some (.movk 0 w shift))
    (hcode : (guestDriver k).code (i + 2) = some (.str 4 (some 0) 5 off)) (hoff : off ∈ driverRegs)
    (hv : (u &&& ~~~((0xFFFF : U64) <<< shift)) ||| (w.setWidth 64 <<< shift) = v)
    (hi : i + 2 < 100) :
    ∃ s1, Drives (guestDriver k) img k 1 s s1 ∧
      InHandshake img k c (i + 3) (mmioWrite k c off (v.setWidth 32) H) s0 s1 := by
  let g := (s.hv.vcpus c).toGuestCtx.core
  have hpc1 : (g.set 0 u).pc = (guestDriver k).label (i + 1) := Core.pc_set h.pc 0 u
  have hpc2 : ((g.set 0 u).set 0 v).pc = (guestDriver k).label (i + 2) := Core.pc_set hpc1 0 v
  have hreach : Reaches (guestDriver k) ramPlatform
      (g.set 0 u, { mem := s.view img c, stores := [] })
      ((g.set 0 u).set 0 v, { mem := s.view img c, stores := [] }) := by
    refine .of_exec rfl hpc1 (by omega) hmovk ?_
    have hu : (g.set 0 u).x 0 = u := rfl
    rw [A64.exec, hu, hv]
  exact h.write (.trans (.of_exec rfl h.pc (by omega) hmov rfl) hreach) hpc2 h.x5 rfl hcode hoff
    (by omega) hi

/-- The registers of a device after the handshake. -/
def configured (k : VirtioKind) (d : VirtioDev) : VirtioDev :=
  { d with
    pageSize := 4096
    queueNum := (entriesOf k).setWidth 32
    queuePfn := 0x40020
    status := 0xF }

/-- The writes of the handshake, from the first on. -/
theorem handshake_host : mmioWrite k c 0x50 ((0 : U64).setWidth 32)
    (mmioWrite k c 0x70 ((0xF : U64).setWidth 32) (mmioWrite k c 0x40 ((0x40020 : U64).setWidth 32)
      (mmioWrite k c 0x3c ((4096 : U64).setWidth 32) (mmioWrite k c 0x38 ((entriesOf k).setWidth 32)
        (mmioWrite k c 0x30 ((0 : U64).setWidth 32)
          (mmioWrite k c 0x28 ((4096 : U64).setWidth 32) H)))))) =
      process k c (H.setDev k c (configured k)) := by
  have hpage : mmioWrite k c 0x28 ((4096 : U64).setWidth 32) H =
      H.setDev k c fun d => { d with pageSize := 4096 } := rfl
  have hnum : ∀ H : VHost, mmioWrite k c 0x38 ((entriesOf k).setWidth 32) H =
      H.setDev k c fun d => { d with queueNum := (entriesOf k).setWidth 32 } := fun _ => rfl
  have hpfn : ∀ H : VHost, mmioWrite k c 0x40 ((0x40020 : U64).setWidth 32) H =
      H.setDev k c fun d => { d with queuePfn := 0x40020 } := fun _ => rfl
  have hstatus : ∀ H : VHost, mmioWrite k c 0x70 ((0xF : U64).setWidth 32) H =
      H.setDev k c fun d => { d with status := 0xF } := fun _ => rfl
  have hsel : ∀ H : VHost, mmioWrite k c 0x30 ((0 : U64).setWidth 32) H = H := fun _ => rfl
  have halign : ∀ H : VHost, mmioWrite k c 0x3c ((4096 : U64).setWidth 32) H = H := fun _ => rfl
  have hnotify : ∀ H : VHost, mmioWrite k c 0x50 ((0 : U64).setWidth 32) H = process k c H :=
    fun _ => rfl
  rw [hpage, hsel, hnum, halign, hpfn, hstatus, hnotify, setDev_setDev, setDev_setDev,
    setDev_setDev]
  rfl

/-- The handshake from its second register on. -/
theorem InHandshake.finish
    (h : InHandshake img k c (handshakeAt k + 2) (mmioWrite k c 0x28 ((4096 : U64).setWidth 32) H)
      s0 s) :
    ∃ s1, Drives (guestDriver k) img k 7 s s1 ∧
      TurnOver img c (process k c (H.setDev k c (configured k))) s0 s1 := by
  have hat : handshakeAt k ≤ 38 := by cases k <;> decide
  have hcode := (codeAt_handshake k).tail.tail
  obtain ⟨s1, hd1, h1⟩ := h.writeZero hcode.head (by decide) (by omega)
  obtain ⟨s2, hd2, h2⟩ := h1.writeConst hcode.tail.head hcode.tail.tail.head (by decide) (by omega)
  have hcode := hcode.tail.tail.tail
  obtain ⟨s3, hd3, h3⟩ := h2.writeConst hcode.head hcode.tail.head (by decide) (by omega)
  have hcode := hcode.tail.tail
  obtain ⟨s4, hd4, h4⟩ := h3.writeConst2 (v := 0x40020) hcode.head hcode.tail.head
    hcode.tail.tail.head (by decide) (by decide) (by omega)
  have hcode := hcode.tail.tail.tail
  obtain ⟨s5, hd5, h5⟩ := h4.writeConst hcode.head hcode.tail.head (by decide) (by omega)
  have hcode := hcode.tail.tail
  obtain ⟨s6, hd6, h6⟩ := h5.writeZero hcode.head (by decide) (by omega)
  obtain ⟨s7, hd7, h7⟩ := h6.hvc hcode.tail.head (by omega)
  rw [handshake_host] at h7
  exact ⟨s7, hd1.trans (hd2.trans (hd3.trans (hd4.trans (hd5.trans (hd6.trans hd7))))), h7⟩

/-- What the driver of tenant `c` leaves for its device: in its RAM the queue, nothing
elsewhere. -/
structure QueueBuilt (k : VirtioKind) (c : Fin 2) (len : Nat) (H H' : VHost) : Prop where
  ram : ∀ a, InRam a → guestRam c H'.mem a =
    storeWords (guestRam c H.mem) (queueWords 0x40020000 (textAt k) len k) a
  outside : ∀ y, ¬ (demoTenant c).InBlock y → H'.mem y = H.mem y
  dev : H'.dev = H.dev
  vbBytes : H'.vbBytes = H.vbBytes
  console : H'.console = H.console

theorem storesTo_stops {p : Program Empty} {g g' : Core} {m m' : GuestMem} {r : Stop}
    (h : Stops p ramPlatform (g, m) (g', m', r)) : StoresTo m m' := by
  obtain ⟨n, hn⟩ := h
  exact storesTo_run (hn 0)

/-- Equal bytes stay equal under the same stores. -/
theorem storeWords_congr {r r' : Mem 64} {a : U64} (h : r a = r' a) (l : List (U64 × Nat × Nat)) :
    storeWords r l a = storeWords r' l a := by
  induction l generalizing r r' with
  | nil => exact h
  | cons w l ih =>
    refine ih ?_
    simp only [store, h]

theorem view_eq {Z : TenantTables} (hZ : s.tables img = Z.toTables) {a : U64} (ha : InRam a) :
    s.view img c a = guestRam c s.host.mem a := by
  rw [TenantDemo.view, hZ, host_eq, if_pos ha]
  rfl

/-- A text in the RAM of a tenant. -/
theorem TextAt.congr {m m' : Mem 64} {a : U64} {text : List U8} (h : TextAt m a text)
    (hram : RamAt a (text.length + 1)) (he : ∀ x, InRam x → m' x = m x) : TextAt m' a text where
  bytes := fun i hi => (he _ (hram.byte (Nat.lt_succ_of_lt hi))).trans (h.bytes i hi)
  ends := (he _ (hram.byte (Nat.lt_succ_self _))).trans h.ends
  nonzero := h.nonzero

/-- A turn: eight passes, after which the device has processed the queue of the driver. -/
theorem Stands.turn {Z : TenantTables} {text : List U8} (h : Stands img k c 0 H s0 s)
    (hZ : s.tables img = Z.toTables) (htext : TextAt (guestRam c H.mem) (textAt k) text)
    (hlen : TextFits k text.length) :
    ∃ s1 H', Drives (guestDriver k) img k 8 s s1 ∧ QueueBuilt k c text.length H H' ∧
      TurnOver img c (process k c (H'.setDev k c (configured k))) s0 s1 := by
  have hat : handshakeAt k ≤ 38 := by cases k <;> decide
  have hcode := codeAt_handshake k
  have hview : ∀ a, InRam a → s.view img c a = guestRam c H.mem a := by
    intro a ha
    rw [view_eq hZ ha, h.host]
  let g := (s.hv.vcpus c).toGuestCtx.core
  obtain ⟨g1, m', hsetup, hpc, h5, hmem⟩ := reaches_handshake (k := k) (s := g)
    (m := { mem := s.view img c, stores := [] }) h.pc (htext.congr (textAt_ram k hlen) hview) hlen
  have hreach : Reaches (guestDriver k) ramPlatform
      (g, { mem := s.view img c, stores := [] }) (g1.set 0 4096, m') :=
    hsetup.trans (.of_exec rfl hpc (by omega) hcode.head rfl)
  have hpc' : (g1.set 0 4096).pc = (guestDriver k).label (handshakeAt k + 1) :=
    Core.pc_set hpc 0 4096
  have hoff : (0x28 : U64) ∈ driverRegs := by decide
  obtain ⟨s1, hfirst, h1⟩ := h.write hreach hpc' h5 hcode.tail.head hoff (Nat.zero_le _) (by omega)
  obtain ⟨s2, hrest, h2⟩ := h1.finish
  refine ⟨s2, _, hfirst.trans hrest, ?_, h2⟩
  obtain ⟨l, hl, hml⟩ := storesTo_stops
    (hreach.stops (stops_write hpc' h5 hcode.tail.head hoff (by omega)))
  have hstores : m'.stores = l := hl
  rw [hstores, hZ]
  exact {
    ram := by
      intro a ha
      have hown : guestRam c (H.stored Z.toTables c l).mem a =
          l.foldl writeByte (guestRam c H.mem) a := stores_own l ha
      rw [hown, ← writeBytes_congr (hview a ha) l, ← storeWords_congr (hview a ha), ← hmem, hml]
    outside := fun y hy => stores_outside l hy
    dev := rfl
    vbBytes := rfl
    console := rfl }

end Turn

end FermiHV
