import FermiHV.Ops
import FermiHV.Virtio.Noninterference

/-!
# The memory of two tenants

The demos with two isolated VMs give each a 1 GiB block of host memory through a
stage-2 table of its own. While a guest runs, the bytes it stores go through the table
that its VTTBR selects at that moment, and the loops go on mapping, injecting and
emulating between its runs.

Here a pass of a loop is taken together with the bytes that the guest stores in it. A
machine with two private memories and nothing else is what the tenants should see;
`tenant_ram_private` says that they do, over whole runs of the demos from their own
start, and that no other byte of the host's memory ever changes.
-/

namespace FermiHV

open ByteMem (Mem store)
open OpTrace
open RunLoop (Flow Loop)

/-! ## 1. Passes with memory -/

/-- A pass: how the guest exits, and the bytes it has stored before, in order. -/
structure RamEvent where
  ev : Event
  stores : List (U64 × U8)

/-- An operation of a pass, with the stores of the guest should it run one. -/
structure RamOp where
  op : HvOp
  stores : List (U64 × U8)

def HvOp.entered : HvOp → Option (Fin 2)
  | .enter c _ => some c
  | _ => none

/-- The tables as the MMU finds them. -/
def Hv.tables (img : Image) (h : Hv) : Tables where
  img := img
  st := h.s2
  vttbr := fun c => (h.vcpus c).vttbr

/-- A byte that a guest stores; a stage-2 fault stores nothing. -/
def Tables.storeByte (Z : Tables) (c : Fin 2) (m : Mem 64) (p : U64 × U8) : Mem 64 :=
  match Z.host c p.1 with
  | some x => store m x 1 p.2.toNat
  | none => m

def RamOp.apply (img : Image) (o : RamOp) (x : Hv × Mem 64) : Hv × Mem 64 :=
  (o.op.apply x.1,
    match o.op.entered with
    | some c => o.stores.foldl ((x.1.tables img).storeByte c) x.2
    | none => x.2)

theorem run_ramOps (img : Image) (stores : List (U64 × U8)) (ops : List HvOp) (x : Hv × Mem 64) :
    (run (RamOp.apply img) (ops.map (⟨·, stores⟩)) x).1 = run HvOp.apply ops x.1 := by
  induction ops generalizing x with
  | nil => rfl
  | cons o ops ih => exact ih _

/-- A loop with the host's memory. -/
def withRam {S : Type} (img : Image) (D : HvDriver S) :
    Driver (RamOp.apply img) (S × Mem 64) RamEvent where
  loop :=
    { cond := fun x => D.loop.cond x.1
      body := fun e x => (D.loop.body e.ev x.1).map fun s =>
        (s, (run (RamOp.apply img) ((D.ops e.ev x.1).map (⟨·, e.stores⟩)) (D.view x.1, x.2)).2) }
  view := fun x => (D.view x.1, x.2)
  ops := fun e x => (D.ops e.ev x.1).map (⟨·, e.stores⟩)
  sound := by
    intro e x
    rw [Flow.state_map]
    refine Prod.ext ?_ rfl
    rw [run_ramOps]
    exact D.sound e.ev x.1

/-! ## 2. Private memories -/

/-- The guest address is in the RAM of a tenant. -/
def InRam (a : U64) : Prop := a.toNat / 2 ^ 30 = 1

instance : DecidablePred InRam := fun _ => inferInstanceAs (Decidable (_ = _))

/-- The host address behind an address in the RAM of tenant `c`. -/
def ramHost (c : Fin 2) (a : U64) : U64 := vmPa c + (a - 0x40000000)

/-- The RAM of tenant `c`, by guest address. -/
def guestRam (c : Fin 2) (m : Mem 64) : Mem 64 := fun a => m (ramHost c a)

def writeByte (r : Mem 64) (p : U64 × U8) : Mem 64 :=
  if InRam p.1 then Function.update r p.1 p.2 else r

/-- The bytes that `c` stores. -/
def storesOf (c : Fin 2) (ops : List RamOp) : List (U64 × U8) :=
  ops.flatMap fun o => if o.op.entered = some c then o.stores else []

/-- Each tenant has a memory of its own. -/
def privateApply (o : RamOp) (r : Fin 2 → Mem 64) : Fin 2 → Mem 64 := fun c =>
  if o.op.entered = some c then o.stores.foldl writeByte (r c) else r c

theorem run_privateApply (ops : List RamOp) (r : Fin 2 → Mem 64) (c : Fin 2) :
    run privateApply ops r c = (storesOf c ops).foldl writeByte (r c) := by
  induction ops generalizing r with
  | nil => rfl
  | cons o ops ih =>
    have hstores : storesOf c (o :: ops) =
        (if o.op.entered = some c then o.stores else []) ++ storesOf c ops := List.flatMap_cons
    rw [run_cons, ih, hstores, List.foldl_append, privateApply]
    split_ifs <;> rfl

/-! ## 3. Tables during a run -/

/-- Each vCPU has its table, and the tables map the two blocks. -/
structure Tabled (img : Image) (h : Hv) : Prop where
  built : ∀ c, Built h.s2 c 0x40000000 (vmPa c)
  base : ∀ c, vttbrBaddr (h.vcpus c).vttbr = img.s2VmAddr c
  vmid : ∀ c : Fin 2, vttbrVmid (h.vcpus c).vttbr = c.val + 1

/-- The tables of such a state are those of two tenants. -/
def Tabled.tables {img : Image} {h : Hv} (ht : Tabled img h) : TenantTables where
  toTables := h.tables img
  vmid := fun c => BitVec.ofNat 32 (c.val + 1)
  sees := by
    intro c
    have hpa : ∀ c : Fin 2, (vmPa c).toNat < 2 ^ 40 := by decide
    have hid : ∀ c : Fin 2, (BitVec.ofNat 32 (c.val + 1)).toNat = c.val + 1 := by decide
    refine seesBlock_of_built (ht.built c) (by decide) (hpa c) (ht.base c) ?_
    rw [hid]
    exact ht.vmid c

section Tabled

variable {img : Image} {h : Hv} {c d : Fin 2}

theorem inject_vttbr (k : U32) : ((h.inject c k).vcpus d).vttbr = (h.vcpus d).vttbr := by
  by_cases hd : d = c
  · rw [hd, Hv.inject, setVcpu_vcpus_self]
    rcases vgicInject_cases k (h.vcpus c) with ⟨hsame, -⟩ | ⟨i, -, -, hnew⟩
    · rw [hsame]
    · rw [hnew]
      rfl
  · rw [inject_vcpus_of_ne k hd]

theorem setVcpu_vttbr {v : Vcpu} (hv : v.vttbr = (h.vcpus c).vttbr) :
    ((h.setVcpu c v).vcpus d).vttbr = (h.vcpus d).vttbr := by
  by_cases hd : d = c
  · rw [hd, setVcpu_vcpus_self, hv]
  · rw [setVcpu_vcpus_of_ne _ hd]

/-- Only a fault-in changes a table, and that is the shared one. -/
theorem apply_vmTables (o : HvOp) : (o.apply h).s2.s2Vm = h.s2.s2Vm := by
  cases o with
  | enter | inject | post | skip | cpuOn => rfl
  | timer c =>
    simp only [HvOp.apply, Hv.injectTimer]
    split_ifs <;> rfl
  | key ch =>
    cases ch with
    | none => rfl
    | some ch =>
      simp only [HvOp.apply, Hv.keyIn]
      split_ifs <;> rfl
  | deliver c =>
    rcases vgicPopSgi_cases c.val h.vgic with hpop | ⟨b, -, hpop⟩ <;>
      simp only [HvOp.apply, Hv.deliverSgi, hpop, inject_s2]
  | psci c => rw [HvOp.apply, psciHandle_s2]
  | cntp vm c => rw [HvOp.apply, cntpEmulate_s2]
  | abort vm c ipa a =>
    rw [HvOp.apply, abort_s2]
    cases a <;> rfl

theorem psciHandle_vttbr : ((psciHandle c h).vcpus d).vttbr = (h.vcpus d).vttbr := by
  simp only [psciHandle]
  split_ifs <;> exact setVcpu_vttbr rfl

/-- Only `vcpu_init` of the secondary sets a VTTBR. -/
theorem apply_vttbr {o : HvOp} (hon : ∀ img sp, o ≠ .cpuOn img sp) :
    ((o.apply h).vcpus d).vttbr = (h.vcpus d).vttbr := by
  cases o with
  | enter c g => exact setVcpu_vttbr rfl
  | inject c k => exact inject_vttbr k
  | timer c =>
    simp only [HvOp.apply, Hv.injectTimer]
    split_ifs
    · exact inject_vttbr 30
    · exact inject_vttbr 27
    · rfl
  | key ch =>
    cases ch with
    | none => rfl
    | some ch =>
      simp only [HvOp.apply, Hv.keyIn]
      split_ifs
      · exact inject_vttbr 33
      · rfl
  | deliver c =>
    rcases vgicPopSgi_cases c.val h.vgic with hpop | ⟨b, -, hpop⟩ <;>
      simp only [HvOp.apply, Hv.deliverSgi, hpop, inject_vttbr]
  | post c => exact setVcpu_vttbr rfl
  | skip c => exact setVcpu_vttbr rfl
  | psci c => exact psciHandle_vttbr
  | cntp vm c => exact cntpEmulate_vttbr vm
  | abort vm c ipa a => exact abort_vttbr vm ipa a
  | cpuOn img sp => exact absurd rfl (hon img sp)

theorem Tabled.setVcpu {v : Vcpu} (ht : Tabled img h) (hv : v.vttbr = (h.vcpus c).vttbr) :
    Tabled img (h.setVcpu c v) where
  built := ht.built
  base := fun d => (congrArg vttbrBaddr (setVcpu_vttbr hv)).trans (ht.base d)
  vmid := fun d => (congrArg vttbrVmid (setVcpu_vttbr hv)).trans (ht.vmid d)

theorem Tabled.apply {o : HvOp} (ht : Tabled img h) (hon : ∀ img sp, o ≠ .cpuOn img sp) :
    Tabled img (o.apply h) where
  built := by
    intro c
    rw [Built, apply_vmTables]
    exact ht.built c
  base := by
    intro c
    rw [apply_vttbr hon]
    exact ht.base c
  vmid := by
    intro c
    rw [apply_vttbr hon]
    exact ht.vmid c

/-- The two `stage2_build_vm` calls give each vCPU its table. -/
theorem tabled_twoTenants (img : Image) (pc0 sp0 pc1 sp1 : U64) (h : Hv) :
    Tabled img (h.twoTenants img pc0 sp0 pc1 sp1) := by
  have hsees := (TenantTables.build img h.s2).sees
  refine ⟨fun c => ?_, fun c => ?_, fun c => ?_⟩
  · fin_cases c
    · have hother : ∀ op ∈ [Stage2Op.buildVm 1 0x40000000 0xC0000000 2], ¬ op.Builds 0 := by
        simp [Stage2Op.Builds]
      exact @built_runStage2 img _ _ _ _ _ (built_buildVm img 0 0x40000000 0x80000000 1 h.s2) hother
    · exact built_buildVm img 1 0x40000000 0xC0000000 2 _
  · fin_cases c
    · exact (hsees 0).table
    · exact (hsees 1).table
  · fin_cases c
    · exact (hsees 0).vmid_eq
    · exact (hsees 1).vmid_eq

theorem toNat_ramHost {a : U64} (ha : InRam a) :
    (ramHost c a).toNat = 0x80000000 + c.val * 0x40000000 + a.toNat % 2 ^ 30 := by
  have hpa : ∀ d : Fin 2, (vmPa d).toNat = 0x80000000 + d.val * 0x40000000 := by decide
  have hipa : (0x40000000 : U64).toNat = 2 ^ 30 := rfl
  have hc := c.isLt
  rw [InRam] at ha
  rw [ramHost, BitVec.toNat_add, hpa, BitVec.toNat_sub, hipa]
  omega

/-- Where a guest address leads. -/
theorem host_eq (Z : TenantTables) (c : Fin 2) (a : U64) :
    Z.host c a = if InRam a then some (ramHost c a) else none := by
  have hsees := Z.sees c
  by_cases ha : a.toNat < 2 ^ 39
  · have hmapped := hsees.mapped a ha
    by_cases hin : InRam a
    · rw [if_pos hin]
      obtain ⟨x, hx⟩ := Option.isSome_iff_exists.mp (hmapped.mpr hin)
      have hoff := hsees.offset a x hx
      have hpa : ∀ d : Fin 2, (vmPa d).toNat / 2 ^ 30 * 2 ^ 30 = 0x80000000 + d.val * 0x40000000 :=
        by decide
      refine hx.trans (congrArg some (BitVec.eq_of_toNat_eq ?_))
      rw [toNat_ramHost hin, hoff, hpa]
    · rw [if_neg hin]
      exact Option.not_isSome_iff_eq_none.mp fun hs => hin (hmapped.mp hs)
  · have hout : ¬ InRam a := by
      rw [InRam]
      omega
    rw [if_neg hout]
    exact if_neg ha

/-- No two addresses of the tenants share a host address. -/
theorem ramHost_inj {a a' : U64} (ha : InRam a) (ha' : InRam a')
    (he : ramHost c a = ramHost d a') : c = d ∧ a = a' := by
  have hval := congrArg BitVec.toNat he
  have hc := c.isLt
  have hd := d.isLt
  rw [toNat_ramHost ha, toNat_ramHost ha'] at hval
  rw [InRam] at ha ha'
  exact ⟨Fin.ext (by omega), BitVec.eq_of_toNat_eq (by omega)⟩

theorem inBlock_ramHost {a : U64} (ha : InRam a) : (demoTenant c).InBlock (ramHost c a) := by
  have hpa : ∀ d : Fin 2, (demoTenant d).pa.toNat = 0x80000000 + d.val * 0x40000000 := by decide
  rw [Tenant.InBlock, toNat_ramHost ha, hpa]
  omega

end Tabled

/-! ## 4. Stores -/

section Stores

variable {Z : TenantTables} {c d : Fin 2} {m : Mem 64}

theorem storeByte_eq (p : U64 × U8) : Z.storeByte c m p =
    if InRam p.1 then Function.update m (ramHost c p.1) p.2 else m := by
  rw [Tables.storeByte, host_eq]
  split_ifs
  · exact ByteMem.store_one m _ p.2
  · rfl

theorem writeByte_congr {r r' : Mem 64} {a : U64} (h : r a = r' a) (p : U64 × U8) :
    writeByte r p a = writeByte r' p a := by
  rw [writeByte, writeByte]
  split_ifs
  · by_cases ha : a = p.1
    · rw [ha, Function.update_self, Function.update_self]
    · rw [Function.update_of_ne ha, Function.update_of_ne ha, h]
  · exact h

theorem writeBytes_congr {r r' : Mem 64} {a : U64} (h : r a = r' a) (stores : List (U64 × U8)) :
    stores.foldl writeByte r a = stores.foldl writeByte r' a := by
  induction stores generalizing r r' with
  | nil => exact h
  | cons p stores ih => exact ih (writeByte_congr h p)

/-- A tenant's stores change its own RAM like a memory of its own. -/
theorem stores_own (stores : List (U64 × U8)) {a : U64} (ha : InRam a) :
    guestRam c (stores.foldl (Z.storeByte c) m) a =
      stores.foldl writeByte (guestRam c m) a := by
  induction stores generalizing m with
  | nil => rfl
  | cons p stores ih =>
    rw [List.foldl_cons, List.foldl_cons, ih]
    refine writeBytes_congr ?_ stores
    rw [storeByte_eq, writeByte]
    split_ifs with hin
    · by_cases hp : a = p.1
      · rw [hp, guestRam, Function.update_self, Function.update_self]
      · have hne : ramHost c a ≠ ramHost c p.1 := fun he => hp (ramHost_inj ha hin he).2
        rw [guestRam, Function.update_of_ne hne, Function.update_of_ne hp]
        rfl
    · rfl

/-- They change nothing outside its block. -/
theorem stores_outside (stores : List (U64 × U8)) {y : U64} (hy : ¬ (demoTenant c).InBlock y) :
    stores.foldl (Z.storeByte c) m y = m y := by
  induction stores generalizing m with
  | nil => rfl
  | cons p stores ih =>
    rw [List.foldl_cons, ih, storeByte_eq]
    split_ifs with hin
    · refine Function.update_of_ne ?_ _ _
      rintro rfl
      exact hy (inBlock_ramHost hin)
    · rfl

end Stores

/-! ## 5. Whole runs -/

/-- The host's memory holds the private memories, and is otherwise as it was. -/
structure Holds (img : Image) (m0 : Mem 64) (h : Hv) (m : Mem 64) (r : Fin 2 → Mem 64) :
    Prop where
  tabled : Tabled img h
  ram : ∀ c a, InRam a → guestRam c m a = r c a
  rest : ∀ y, (∀ c, ¬ (demoTenant c).InBlock y) → m y = m0 y

section Run

variable {img : Image} {m0 m : Mem 64} {h : Hv} {r : Fin 2 → Mem 64} {c : Fin 2}

theorem Holds.stores (hold : Holds img m0 h m r) (stores : List (U64 × U8)) :
    Holds img m0 h (stores.foldl ((h.tables img).storeByte c) m)
      (Function.update r c (stores.foldl writeByte (r c))) where
  tabled := hold.tabled
  ram := by
    intro d a ha
    by_cases hd : d = c
    · subst hd
      rw [Function.update_self]
      exact (stores_own (Z := hold.tabled.tables) stores ha).trans
        (writeBytes_congr (hold.ram d a ha) stores)
    · have hout := TenantTables.blocks_disjoint (Ne.symm hd) _ (inBlock_ramHost ha)
      rw [Function.update_of_ne hd]
      exact (stores_outside (Z := hold.tabled.tables) stores hout).trans (hold.ram d a ha)
  rest := fun y hy =>
    (stores_outside (Z := hold.tabled.tables) stores (hy c)).trans (hold.rest y hy)

/-- One operation of a pass, on the host and on the private memories. -/
theorem holds_apply (o : RamOp) (x : Hv × Mem 64) (r : Fin 2 → Mem 64)
    (hold : Holds img m0 x.1 x.2 r) (hon : ∀ img sp, o.op ≠ .cpuOn img sp) :
    Holds img m0 (o.apply img x).1 (o.apply img x).2 (privateApply o r) := by
  have htabled := hold.tabled.apply hon
  cases he : o.op.entered with
  | none =>
    have hprivate : privateApply o r = r := by
      funext d
      rw [privateApply, he, if_neg (by simp)]
    rw [RamOp.apply, he, hprivate]
    exact ⟨htabled, hold.ram, hold.rest⟩
  | some c =>
    have hprivate : privateApply o r = Function.update r c (o.stores.foldl writeByte (r c)) := by
      funext d
      rw [privateApply, he]
      by_cases hd : d = c
      · rw [hd, if_pos rfl, Function.update_self]
      · rw [if_neg fun h => hd (Option.some.inj h).symm, Function.update_of_ne hd]
    have hstores := hold.stores (c := c) o.stores
    rw [RamOp.apply, he, hprivate]
    exact ⟨htabled, hstores.ram, hstores.rest⟩

end Run

/-- The demos with two isolated VMs. -/
inductive TwoTenants
  | demo
  | vgic
  | real
  | os

namespace TwoTenants

def State : TwoTenants → Type
  | .demo => Once
  | .vgic => Ticks
  | .real | .os => Tenants

def driver : (L : TwoTenants) → HvDriver L.State
  | .demo => mtenantDriver
  | .vgic => mtenantVgicDriver
  | .real => mtenantRealDriver
  | .os => mtenantOsDriver

def start (img : Image) (h : Hv) : (L : TwoTenants) → L.State
  | .demo => mtenantDemoStart img h
  | .vgic => mtenantVgicDemoStart img h
  | .real => mtenantRealDemoStart img h
  | .os => mtenantOsDemoStart img h

theorem tabled_start (L : TwoTenants) (img : Image) (h : Hv) :
    Tabled img (L.driver.view (L.start img h)) := by
  cases L with
  | demo =>
    refine Tabled.setVcpu (c := 1) (Tabled.setVcpu (c := 0) (tabled_twoTenants ..) ?_) ?_
    · rfl
    · rfl
  | vgic | real => exact tabled_twoTenants ..
  | os => exact (tabled_twoTenants ..).setVcpu rfl

/-- These demos start no secondary. -/
theorem cpuOn_notMem_ops (L : TwoTenants) (s : L.State) (e : Event) (img : Image) (sp : U64) :
    HvOp.cpuOn img sp ∉ L.driver.ops e s := by
  cases L with
  | demo => simp [driver, mtenantDriver]
  | vgic =>
    simp only [driver, mtenantVgicDriver, tickDriver, pendOps, tickLoopOps, List.mem_append,
      List.mem_cons, reduceCtorEq, false_or]
    split_ifs <;> simp
  | real =>
    simp only [driver, mtenantRealDriver, pendOps, mtenantRealOps, List.mem_append,
      List.mem_cons, reduceCtorEq, false_or]
    cases e.ctx.exitKind <;> split_ifs <;> simp
  | os =>
    simp only [driver, mtenantOsDriver, mtenantOsOps, List.mem_append, List.mem_cons,
      reduceCtorEq, false_or]
    cases e.ctx.exitKind <;> split_ifs <;> simp

end TwoTenants

/-- Over every run of a demo with two isolated VMs, from its start on any machine, for
any guests: what a tenant loads at an address of its RAM is what its own stores, in
their order, made of that RAM, and any other address faults; and outside the two blocks
no byte of the host's memory has changed. -/
theorem tenant_ram_private (L : TwoTenants) (img : Image) (h : Hv) (m : Mem 64)
    (es : List RamEvent) :
    let D := withRam img L.driver
    let x := final D.loop (L.start img h, m) es
    (∀ c a, (((D.view x).1.tables img).host c a).map x.2 =
      if InRam a then
        some ((storesOf c (D.trace (L.start img h, m) es)).foldl writeByte (guestRam c m) a)
      else none) ∧
    ∀ y, (∀ c, ¬ (demoTenant c).InBlock y) → x.2 y = m y := by
  intro D x
  have hops : Along (RamOp.apply img) (fun o _ => ∀ img sp, o.op ≠ .cpuOn img sp)
      (D.trace (L.start img h, m) es) (D.view (L.start img h, m)) := by
    refine Driver.along_trace_iff.mpr fun p _ => along_of_forall (fun o ho _ img' sp hon => ?_) _
    obtain ⟨o', ho', rfl⟩ := List.mem_map.mp ho
    subst hon
    exact L.cpuOn_notMem_ops _ _ img' sp ho'
  have hstart : Holds img m (D.view (L.start img h, m)).1 (D.view (L.start img h, m)).2
      fun c => guestRam c m := ⟨L.tabled_start img h, fun _ _ _ => rfl, fun _ _ => rfl⟩
  have hfinal := run_of_simulation (R := fun x r => Holds img m x.1 x.2 r) holds_apply hstart hops
  rw [← D.view_final] at hfinal
  refine ⟨fun c a => ?_, hfinal.rest⟩
  have hhost := host_eq hfinal.tabled.tables c a
  change ((D.view x).1.tables img).host c a = _ at hhost
  rw [hhost]
  by_cases ha : InRam a
  · have hram := hfinal.ram c a ha
    rw [run_privateApply] at hram
    rw [if_pos ha, if_pos ha]
    exact congrArg some hram
  · rw [if_neg ha, if_neg ha]
    rfl

end FermiHV
