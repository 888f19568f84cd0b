import FermiHV.Ipi
import FermiHV.TrapFrame
import FermiHV.Lib.OpTrace
import FermiHV.Virtio.Noninterference

/-!
# `mtenant_virtio_demo` and `mtenant_vblk_demo`

Both demos run tenant 0 until it makes its final hypercall and then tenant 1, each
with its own tables and its own instance of one virtio device. The loops differ only in
the device. A pass is the guest's run, with the bytes it stores through its tables, and
the emulation of the register access that ended it.

`tenant_demo_isolated` says of whole runs of the two demos, for any guests, that each
tenant's RAM, devices and disk end up as if the other one had done nothing.
-/

namespace FermiHV

open ByteMem (Mem Covers)
open OpTrace
open RunLoop (Flow Loop)

/-! ## 1. The demos -/

/-- `virtio_reset` and `vblk_reset`; the latter also clears the disks. -/
def virtioReset (k : VirtioKind) (s : VHost) : VHost :=
  { s with
    dev := fun k' c => if k' = k then resetDev else s.dev k' c
    vbBytes := fun x =>
      if k = .blk ∧ ∃ c, Covers (diskAddr c 0) diskSize x then 0 else s.vbBytes x }

/-- `virtio_set_offset` and `vblk_set_offset`. -/
def setOffset (k : VirtioKind) (c : Fin 2) (off : U64) (s : VHost) : VHost :=
  s.setDev k c fun d => { d with hostOff := off }

/-- One pass: the context in which the guest exits and the bytes it has stored, in
order. -/
structure TenantEvent where
  ctx : GuestCtx
  stores : List (U64 × U8)

/-- The locals of the demos: the tenant that runs and its passes so far. -/
structure TenantDemo where
  hv : Hv
  host : VHost
  cur : Nat
  guard : Nat

def TenantDemo.vm (s : TenantDemo) : Fin 2 := Fin.ofNat 2 s.cur

/-- The tables as the MMU finds them. -/
def TenantDemo.tables (img : Image) (s : TenantDemo) : Tables where
  img := img
  st := s.hv.s2
  vttbr := fun c => (s.hv.vcpus c).vttbr

/-- The guest runs. -/
def TenantDemo.enter (img : Image) (e : TenantEvent) (s : TenantDemo) : TenantDemo :=
  let c := s.vm
  { s with
    hv := s.hv.setVcpu c (vcpuRunOnce e.ctx (s.hv.vcpus c))
    host := e.stores.foldl (fun t p => (s.tables img).step t (.store c p.1 p.2)) s.host
    guard := s.guard + 1 }

/-- The turn of the tenant is over. -/
def TenantDemo.leave (s : TenantDemo) : TenantDemo := { s with cur := s.cur + 1, guard := 0 }

/-- A data abort: the device, then nothing. -/
def TenantDemo.dabt (k : VirtioKind) (s : TenantDemo) : TenantDemo :=
  let c := s.vm
  let v := s.hv.vcpus c
  if k.contains v.exitIpa then
    let (v', host) := mmio k c v v.exitIpa s.host
    { s with hv := s.hv.setVcpu c v', host }
  else { s with hv := s.hv.setVcpu c (mmioZero v) }

/-- Back to the test of the inner loop, which ends the turn after 50000 passes. -/
def TenantDemo.again (s : TenantDemo) : TenantDemo := if s.guard < 50000 then s else s.leave

def tenantDemo (img : Image) (k : VirtioKind) : Loop TenantDemo TenantEvent where
  cond := fun s => s.cur < 2
  body := fun e s =>
    let s := s.enter img e
    if (s.hv.vcpus s.vm).exitEc = ecDabtLow then .next (s.dabt k).again else .next s.leave

/-- `mtenant_virtio_demo`. -/
def mtenantVirtioDemo (img : Image) : Loop TenantDemo TenantEvent := tenantDemo img .con

/-- `mtenant_vblk_demo`. -/
def mtenantVblkDemo (img : Image) : Loop TenantDemo TenantEvent := tenantDemo img .blk

/-- What the demos do before their loops; `mem` is the memory with the guest's image in
both blocks. -/
def tenantDemoStart (img : Image) (k : VirtioKind) (mem : Mem 64) (h : Hv) (host : VHost) :
    TenantDemo where
  hv := { h with s2 := stage2Init h.s2 }.twoTenants img 0x40000000 0x40010000 0x40000000 0x40010000
  host := setOffset k 1 (vmPa 1 - 0x40000000) (setOffset k 0 (vmPa 0 - 0x40000000)
    (virtioReset k { host with mem }))
  cur := 0
  guard := 0

/-! ## 2. The acts of a pass -/

/-- The shared machine together with the tables. -/
structure Shared where
  host : VHost
  tables : Tables

def Shared.act (a : TenantAct) (x : Shared) : Shared :=
  { x with host := x.tables.step x.host a }

/-- What the tenant does in a pass. -/
def TenantEvent.acts (k : VirtioKind) (e : TenantEvent) (s : TenantDemo) : List TenantAct :=
  let v := vcpuRunOnce e.ctx (s.hv.vcpus s.vm)
  e.stores.map (fun p => .store s.vm p.1 p.2) ++
    if v.exitEc = ecDabtLow ∧ k.contains v.exitIpa = true then [.mmio s.vm k v v.exitIpa] else []

theorem run_act (acts : List TenantAct) (x : Shared) :
    run Shared.act acts x = { x with host := x.tables.machine.run x.host acts } := by
  induction acts generalizing x with
  | nil => rfl
  | cons a acts ih =>
    rw [run_cons, ih]
    rfl

theorem machine_run_stores (Z : Tables) (c : Fin 2) (stores : List (U64 × U8)) (s : VHost) :
    Z.machine.run s (stores.map fun p => .store c p.1 p.2) =
      stores.foldl (fun t p => Z.step t (.store c p.1 p.2)) s := by
  rw [Interference.Machine.run, List.foldl_map]
  rfl

theorem machine_run_append (Z : Tables) (acts acts' : List TenantAct) (s : VHost) :
    Z.machine.run s (acts ++ acts') = Z.machine.run (Z.machine.run s acts) acts' :=
  List.foldl_append ..

section Pass

variable {img : Image} {k : VirtioKind} {s : TenantDemo}

/-- What a pass keeps: the tables and the VTTBR values. -/
theorem setVcpu_tables {c : Fin 2} {v : Vcpu} {host : VHost} {guard : Nat}
    (hv : v.vttbr = (s.hv.vcpus c).vttbr) :
    (TenantDemo.mk (s.hv.setVcpu c v) host s.cur guard).tables img = s.tables img := by
  simp only [TenantDemo.tables, setVcpu_s2, Tables.mk.injEq, true_and]
  funext d
  by_cases hd : d = c
  · rw [hd, setVcpu_vcpus_self, hv]
  · rw [setVcpu_vcpus_of_ne _ hd]

theorem TenantDemo.enter_tables (s : TenantDemo) (img : Image) (e : TenantEvent) :
    (s.enter img e).tables img = s.tables img :=
  setVcpu_tables rfl

theorem again_eq : s.again.host = s.host ∧ s.again.tables img = s.tables img := by
  rw [TenantDemo.again]
  split_ifs <;> exact ⟨rfl, rfl⟩

theorem dabt_eq : (s.dabt k).tables img = s.tables img ∧ (s.dabt k).host =
    if k.contains (s.hv.vcpus s.vm).exitIpa = true then
      (mmio k s.vm (s.hv.vcpus s.vm) (s.hv.vcpus s.vm).exitIpa s.host).2
    else s.host := by
  rw [TenantDemo.dabt]
  split_ifs
  · exact ⟨setVcpu_tables (mmio_resumes k s.vm _ _ s.host).vttbr, rfl⟩
  · exact ⟨setVcpu_tables (mmioZero_resumes _).vttbr, rfl⟩

end Pass

/-- A pass of the demos as acts of its tenant. -/
def tenantDriver (img : Image) (k : VirtioKind) : Driver Shared.act TenantDemo TenantEvent where
  loop := tenantDemo img k
  view := fun s => ⟨s.host, s.tables img⟩
  ops := fun e s => e.acts k s
  sound := by
    intro e s
    have hvcpu : (s.enter img e).hv.vcpus s.vm = vcpuRunOnce e.ctx (s.hv.vcpus s.vm) :=
      setVcpu_vcpus_self _
    have hvm : (s.enter img e).vm = s.vm := rfl
    have hstores : (s.enter img e).host = (s.tables img).machine.run s.host
        (e.stores.map fun p => .store s.vm p.1 p.2) := (machine_run_stores _ _ _ _).symm
    have htables := s.enter_tables img e
    rw [run_act]
    by_cases hec : (vcpuRunOnce e.ctx (s.hv.vcpus s.vm)).exitEc = ecDabtLow
    · have hbody : (tenantDemo img k).body e s = .next ((s.enter img e).dabt k).again := by
        simp only [tenantDemo, hvm, hvcpu, if_pos hec]
      obtain ⟨hdt, hdh⟩ := @dabt_eq img k (s.enter img e)
      obtain ⟨hah, hat⟩ := @again_eq img ((s.enter img e).dabt k)
      rw [hvm, hvcpu, hstores] at hdh
      simp only [hbody, Flow.state, hah, hat, hdt, hdh, htables, TenantEvent.acts]
      by_cases hin : k.contains (vcpuRunOnce e.ctx (s.hv.vcpus s.vm)).exitIpa = true
      · rw [if_pos hin, if_pos ⟨hec, hin⟩, machine_run_append]
        rfl
      · rw [if_neg hin, if_neg fun h => hin h.2, List.append_nil]
    · have hbody : (tenantDemo img k).body e s = .next (s.enter img e).leave := by
        simp only [tenantDemo, hvm, hvcpu, if_neg hec]
      have hleave : (s.enter img e).leave.tables img = s.tables img := htables
      simp only [hbody, Flow.state, hleave, TenantEvent.acts]
      rw [if_neg fun h => hec h.1, List.append_nil, ← hstores]
      rfl

/-! ## 3. Whole runs -/

/-- The tables at the start are those the two `stage2_build_vm` calls made. -/
theorem start_tables (img : Image) (k : VirtioKind) (mem : Mem 64) (h : Hv) (host : VHost) :
    (tenantDemoStart img k mem h host).tables img =
      (TenantTables.build img (stage2Init h.s2)).toTables := by
  simp only [TenantDemo.tables, TenantTables.build, tenantDemoStart, Tables.mk.injEq, true_and]
  refine ⟨rfl, ?_⟩
  funext c
  fin_cases c <;> rfl

theorem along_machine {C : VHost → TenantAct → Prop} {acts : List TenantAct} {x : Shared}
    (h : Along Shared.act (fun a x => C x.host a) acts x) :
    x.tables.machine.Along C x.host acts := by
  induction acts generalizing x with
  | nil => trivial
  | cons a acts ih => exact ⟨h.1, ih h.2⟩

/-- The acts of a run from the start of a demo. -/
def demoActs (img : Image) (k : VirtioKind) (s : TenantDemo) (es : List TenantEvent) :
    List TenantAct :=
  (tenantDriver img k).trace s es

/-- Throughout the run a notify stays in the RAM and on the disk of its tenant. -/
def DemoStays (img : Image) (k : VirtioKind) (s : TenantDemo) (es : List TenantEvent) : Prop :=
  Along Shared.act (fun a x => Tables.Stays x.host a) (demoActs img k s es) ⟨s.host, s.tables img⟩

theorem final_host (img : Image) (k : VirtioKind) (s : TenantDemo) (es : List TenantEvent) :
    (final (tenantDemo img k) s es).host =
      (s.tables img).machine.run s.host (demoActs img k s es) := by
  have hfinal := congrArg Shared.host ((tenantDriver img k).view_final s es)
  rw [run_act] at hfinal
  exact hfinal

/-- From any state in which the tenants have their tables. -/
theorem sameFor_final {img : Image} {k : VirtioKind} {s : TenantDemo} {es : List TenantEvent}
    {Z : TenantTables} (hZ : s.tables img = Z.toTables) (hstays : DemoStays img k s es)
    (b : Fin 2) : SameFor (demoTenant b) (final (tenantDemo img k) s es).host
      ((s.tables img).machine.run s.host
        ((s.tables img).machine.own b (demoActs img k s es))) := by
  have halong : (s.tables img).machine.Along Tables.Stays s.host (demoActs img k s es) :=
    along_machine (x := ⟨s.host, s.tables img⟩) hstays
  rw [final_host]
  rw [hZ] at halong ⊢
  exact (TenantTables.noninterfere halong).2

instance (img : Image) (k : VirtioKind) (s : TenantDemo) (es : List TenantEvent) :
    Decidable (DemoStays img k s es) :=
  inferInstanceAs (Decidable (Along ..))

/-- Over every run of the two demos, for any guests whose notifies stay in their RAM and
on their disk: each tenant's RAM, devices and disk are what its own acts alone make of
the start. -/
theorem tenant_demo_isolated (img : Image) (k : VirtioKind) (mem : Mem 64) (h : Hv)
    (host : VHost) (es : List TenantEvent) (b : Fin 2)
    (hstays : DemoStays img k (tenantDemoStart img k mem h host) es) :
    let s := tenantDemoStart img k mem h host
    let M := (s.tables img).machine
    SameFor (demoTenant b) (final (tenantDemo img k) s es).host
      (M.run s.host (M.own b (demoActs img k s es))) :=
  sameFor_final (start_tables img k mem h host) hstays b

/-- A register write of the guest, before which it has stored some bytes. -/
def regWriteEvent (ipa val : U64) (stores : List (U64 × U8)) : TenantEvent where
  ctx := (storePass ipa val []).ev.ctx
  stores

/-- A turn: set up a queue of four entries in the first page, put a request for the
empty buffer into it, notify, and end. -/
def demoTurn : List TenantEvent :=
  [regWriteEvent 0x0A000038 4 [], regWriteEvent 0x0A000040 0x40000 [],
    regWriteEvent 0x0A000050 0 [(0x40000042, 1)],
    { ctx := (syncExit 0x58000000 0).ctx, stores := [] }]

/-- Both tenants take the same turn in `mtenant_virtio_demo`. -/
theorem tenant_demo_isolated_turns :
    let s := tenantDemoStart exampleImage .con (fun _ => 0) (resetHv exampleImage 0) demoHost
    let M := (s.tables exampleImage).machine
    SameFor (demoTenant 1) (final (tenantDemo exampleImage .con) s (demoTurn ++ demoTurn)).host
      (M.run s.host (M.own 1 (demoActs exampleImage .con s (demoTurn ++ demoTurn)))) :=
  tenant_demo_isolated exampleImage .con (fun _ => 0) (resetHv exampleImage 0) demoHost
    (demoTurn ++ demoTurn) 1 (by decide +kernel)

end FermiHV
