import FermiHV.Demos
import FermiHV.Injection
import FermiHV.Lib.OpTrace

/-!
# The operations of the run loops

What a run loop of `vcpu.c` that injects interrupts or runs tenants does to the
hypervisor's state, it does by a few operations (`HvOp`): run a vCPU, inject an
interrupt, deliver or post an SGI, handle a PSCI call, a timer register or an abort,
push a keystroke, start the secondary. For each of these loops this module gives the
operations of a pass and shows that they are what the pass does (`OpTrace.Driver`). A
property of the hypervisor's state then has to be proved for each operation, not for
each loop.

`lrChange_apply` says once what an operation can do to the list registers of a vCPU.
-/

namespace FermiHV

open RunLoop (Flow Loop)
open OpTrace (Driver run)

/-! ## 1. Operations -/

inductive HvOp
  /-- `vcpu_run_once`; the guest leaves the context `g`. -/
  | enter (c : Fin 2) (g : GuestCtx)
  | inject (c : Fin 2) (k : U32)
  /-- The guest's own timer interrupt: 30 if it is enabled, else 27 if it is. -/
  | timer (c : Fin 2)
  | key (ch : Option U8)
  | deliver (c : Fin 2)
  | post (c : Fin 2)
  | skip (c : Fin 2)
  | psci (c : Fin 2)
  | cntp (vm c : Fin 2)
  | abort (vm : Int) (c : Fin 2) (ipa : U64) (a : AbortAction)
  | cpuOn (img : Image) (sp : U64)

def HvOp.apply : HvOp → Hv → Hv
  | .enter c g, h => h.setVcpu c (vcpuRunOnce g (h.vcpus c))
  | .inject c k, h => h.inject c k
  | .timer c, h => h.injectTimer c
  | .key ch, h => h.keyIn ch
  | .deliver c, h => h.deliverSgi c
  | .post c, h => h.postSgi c
  | .skip c, h => h.skip c
  | .psci c, h => psciHandle c h
  | .cntp vm c, h => cntpEmulate vm c h
  | .abort vm c ipa a, h => h.abort vm c ipa a
  | .cpuOn img sp, h => h.cpuOn img sp

/-- A run loop, with the operations of its passes. -/
abbrev HvDriver (S : Type) := Driver HvOp.apply S Event

/-! ## 2. Loops over one vCPU -/

/-- The tick of a loop that injects `k` if the guest has it enabled. -/
def tickOps (g : Vgic) (k : U32) (e : Event) : List HvOp :=
  if e.timerTick && vgicIrqEnabled g 0 k then [.inject 0 k] else []

def virqDriver (nticks : Nat) : HvDriver Counted where
  loop := virqDemo nticks
  view := Counted.hv
  ops := fun e _ =>
    .enter 0 e.ctx :: if e.ctx.exitKind = .irq ∧ e.timerTick = true then [.inject 0 27] else []
  sound := by
    intro e s
    simp only [virqDemo, enter_vcpus_self, vcpuRunOnce_ctx]
    cases e.ctx.exitKind <;> cases e.timerTick <;> rfl

def vgicDemoOps (g : Vgic) (e : Event) : List HvOp :=
  match e.ctx.exitKind with
  | .irq => tickOps g 27 e
  | .abort => [.abort 0 0 e.ctx.exitIpa (vgicDemoAbort e.ctx.exitIpa)]
  | .hvc | .smc | .sysreg | .other => []

def vgicDemoDriver (nticks : Nat) : HvDriver Counted where
  loop := vgicDemo nticks
  view := Counted.hv
  ops := fun e s => .enter 0 e.ctx :: vgicDemoOps s.hv.vgic e
  sound := by
    intro e s
    simp only [vgicDemo, vgicDemoOps, tickOps, enter_vcpus_self, vcpuRunOnce_ctx, enter_vgic]
    cases e.ctx.exitKind with
    | irq =>
      by_cases ht : (e.timerTick && vgicIrqEnabled s.hv.vgic 0 27) = true <;> simp only [ht] <;> rfl
    | _ => rfl

def fermiosVgicOps (g : Vgic) (e : Event) : List HvOp :=
  match e.ctx.exitKind with
  | .irq => tickOps g 30 e
  | .abort => [.abort 0 0 e.ctx.exitIpa (fermiosVgicBootAbort e.ctx.exitIpa)]
  | .sysreg => [.cntp 0 0]
  | .smc => [.psci 0, .skip 0]
  | .hvc | .other => []

def fermiosVgicDriver : HvDriver Counted where
  loop := fermiosVgicBoot
  view := Counted.hv
  ops := fun e s =>
    .enter 0 e.ctx :: if (s.hv.vcpus 0).halted then [] else fermiosVgicOps s.hv.vgic e
  sound := by
    intro e s
    simp only [fermiosVgicBoot, fermiosVgicOps, tickOps, enter_vcpus_self, vcpuRunOnce_ctx,
      vcpuRunOnce_halted, enter_vgic]
    cases (s.hv.vcpus 0).halted with
    | true => rfl
    | false =>
      cases e.ctx.exitKind with
      | irq =>
        by_cases ht : (e.timerTick && vgicIrqEnabled s.hv.vgic 0 30) = true <;>
          simp only [ht] <;> rfl
      | _ => rfl

/-! ## 3. Loops over two vCPUs -/

def mtenantDriver : HvDriver Once where
  loop := mtenantDemo
  view := Once.hv
  ops := fun e s => [.enter (Fin.ofNat 2 s.i) e.ctx]
  sound := fun _ _ => rfl

/-- A tick that waits is injected if the guest has the interrupt enabled. -/
def pendOps (pend : Bool) (g : Vgic) (c : Fin 2) (k : U32) : List HvOp :=
  if pend && vgicIrqEnabled g c.val k then [.inject c k] else []

/-- The timer interrupt of a tenant of `mtenant_real_demo`. -/
def realIntid (c : Fin 2) : U32 := if c = 0 then 30 else 27

def mtenantRealOps (c : Fin 2) (g : GuestCtx) : List HvOp :=
  match g.exitKind with
  | .abort => [.abort c.val c g.exitIpa (mtenantRealAbort g.exitIpa)]
  | .sysreg => [.cntp c c]
  | .smc => [.psci c, .skip c]
  | .irq | .hvc | .other => []

theorem readyReal_hv (s : Tenants) : s.readyReal.hv =
    run HvOp.apply (pendOps (s.pend s.cur) s.hv.vgic s.cur (realIntid s.cur)) s.hv := by
  simp only [Tenants.readyReal, pendOps, realIntid]
  split_ifs <;> rfl

def mtenantRealDriver : HvDriver Tenants where
  loop := mtenantRealDemo
  view := Tenants.hv
  ops := fun e s => pendOps (s.pend s.cur) s.hv.vgic s.cur (realIntid s.cur) ++
    .enter s.cur e.ctx :: mtenantRealOps s.cur e.ctx
  sound := by
    intro e s
    rw [OpTrace.run_append, ← readyReal_hv]
    simp only [mtenantRealDemo, mtenantRealOps, enter_vcpus_self, vcpuRunOnce_ctx]
    cases e.ctx.exitKind with
    | irq => cases e.timerTick <;> rfl
    | hvc =>
      simp only [Flow.state]
      split_ifs <;> rfl
    | _ => rfl

def mtenantOsOps (c : Fin 2) (g : GuestCtx) : List HvOp :=
  match g.exitKind with
  | .abort => [.abort c.val c g.exitIpa (mtenantOsAbort g.exitIpa)]
  | .sysreg => [.cntp c c]
  | .smc => [.psci c, .skip c]
  | .hvc => [.psci c]
  | .irq | .other => []

theorem readyOs_hv (s : Tenants) : s.readyOs.hv =
    run HvOp.apply (if s.pend s.cur then [.timer s.cur] else []) s.hv := by
  simp only [Tenants.readyOs]
  split_ifs <;> rfl

theorem injectTimer_halted (c d : Fin 2) (h : Hv) :
    ((h.injectTimer c).vcpus d).halted = (h.vcpus d).halted := by
  have hinject : ∀ k, ((h.inject c k).vcpus d).halted = (h.vcpus d).halted := by
    intro k
    by_cases hd : d = c
    · rw [hd, Hv.inject, setVcpu_vcpus_self]
      simp only [vgicInject]
      split_ifs
      · rfl
      · cases freeSlot (h.vcpus c).ichLr <;> rfl
    · rw [Hv.inject, setVcpu_vcpus_of_ne _ hd]
  simp only [Hv.injectTimer]
  split_ifs
  · exact hinject 30
  · exact hinject 27
  · rfl

theorem readyOs_flag (s : Tenants) :
    (s.readyOs.hv.vcpus s.cur).halted = (s.hv.vcpus s.cur).halted := by
  rw [readyOs_hv]
  split_ifs
  · exact injectTimer_halted s.cur s.cur s.hv
  · rfl

def mtenantOsDriver : HvDriver Tenants where
  loop := mtenantOsDemo
  view := Tenants.hv
  ops := fun e s => (if s.pend s.cur then [.timer s.cur] else []) ++
    .enter s.cur e.ctx :: if (s.hv.vcpus s.cur).halted then [] else mtenantOsOps s.cur e.ctx
  sound := by
    intro e s
    rw [OpTrace.run_append, ← readyOs_hv, ← readyOs_flag]
    simp only [mtenantOsDemo, mtenantOsOps, enter_vcpus_self, vcpuRunOnce_ctx, vcpuRunOnce_halted]
    cases (s.readyOs.hv.vcpus s.cur).halted with
    | true => rfl
    | false =>
      cases e.ctx.exitKind with
      | irq => cases e.timerTick <;> rfl
      | _ => rfl

def tickLoopOps (vm : Fin 2 → Int) (other : AbortAction) (c : Fin 2) (g : GuestCtx) :
    List HvOp :=
  if g.exitKind = .abort ∧ g.exitEc = ecDabtLow then
    [.abort (vm c) c g.exitIpa (if vgicContains g.exitIpa then .vgic else other)]
  else []

theorem ticksReady_hv (s : Ticks) : s.ready.hv =
    run HvOp.apply (pendOps (s.pend s.cur) s.hv.vgic s.cur 27) s.hv := by
  simp only [Ticks.ready, pendOps]
  split_ifs <;> rfl

def tickDriver (limit : Nat) (vm : Fin 2 → Int) (other : AbortAction) : HvDriver Ticks where
  loop := tickLoop limit vm other
  view := Ticks.hv
  ops := fun e s => pendOps (s.pend s.cur) s.hv.vgic s.cur 27 ++
    .enter s.cur e.ctx :: tickLoopOps vm other s.cur e.ctx
  sound := by
    intro e s
    rw [OpTrace.run_append, ← ticksReady_hv]
    simp only [tickLoop, tickLoopOps, enter_vcpus_self, vcpuRunOnce_ctx]
    cases hk : e.ctx.exitKind with
    | irq => cases e.timerTick <;> rfl
    | abort =>
      simp only [true_and]
      split_ifs <;> rfl
    | _ => rfl

def mtenantVgicDriver : HvDriver Ticks := tickDriver 20000 (fun c => c.val) .report

def smpGicrDriver : HvDriver Ticks := tickDriver 60000 (fun _ => 0) .zero

def smpVtimerDriver : HvDriver Ticks := tickDriver 60000 (fun c => c.val) .zero

/-! ## 4. SMP loops -/

def smpDemoDriver : HvDriver SmpDemo where
  loop := smpDemo
  view := SmpDemo.hv
  ops := fun e s =>
    [.deliver s.i, .enter s.i e.ctx] ++ if e.ctx.exitKind = .sysreg then [.post s.i] else []
  sound := by
    intro e s
    simp only [smpDemo, enter_vcpus_self, vcpuRunOnce_ctx]
    cases e.ctx.exitKind <;> rfl

def smpSchedDriver : HvDriver SmpSched where
  loop := smpSchedDemo
  view := SmpSched.hv
  ops := fun e s =>
    [.deliver s.cur, .enter s.cur e.ctx] ++ if e.ctx.exitKind = .sysreg then [.post s.cur] else []
  sound := by
    intro e s
    simp only [smpSchedDemo, enter_vcpus_self, vcpuRunOnce_ctx]
    cases e.ctx.exitKind with
    | irq => cases e.timerTick <;> rfl
    | _ => rfl

/-- `smp_psci_demo` takes a hypercall of a PSCI range to `psci_handle`, any other for
the end. -/
def smpPsciOps (c : Fin 2) (g : GuestCtx) : List HvOp :=
  match g.exitKind with
  | .hvc => if psciRange g.psciFn then [.psci c] else []
  | .sysreg => [.post c]
  | .irq | .abort | .smc | .other => []

def smpPsciDriver (img : Image) (sp : U64) : HvDriver SmpPsci where
  loop := smpPsciDemo img sp
  view := SmpPsci.hv
  ops := fun e s => (if s.hv.psciOn.pending && !s.secOn then [.cpuOn img sp] else []) ++
    [.deliver s.cur, .enter s.cur e.ctx] ++ smpPsciOps s.cur e.ctx
  sound := by
    intro e s
    have hready : (s.ready img sp).hv = run HvOp.apply
        ((if s.hv.psciOn.pending && !s.secOn then [.cpuOn img sp] else []) ++ [.deliver s.cur])
        s.hv := by
      simp only [SmpPsci.ready]
      split_ifs <;> rfl
    have hops : (if s.hv.psciOn.pending && !s.secOn then [HvOp.cpuOn img sp] else []) ++
        [.deliver s.cur, .enter s.cur e.ctx] ++ smpPsciOps s.cur e.ctx =
        ((if s.hv.psciOn.pending && !s.secOn then [.cpuOn img sp] else []) ++ [.deliver s.cur]) ++
        (.enter s.cur e.ctx :: smpPsciOps s.cur e.ctx) := by
      simp only [List.append_assoc, List.cons_append, List.nil_append]
    rw [hops, OpTrace.run_append, ← hready]
    simp only [smpPsciDemo, smpPsciOps, enter_vcpus_self, vcpuRunOnce_ctx]
    cases e.ctx.exitKind with
    | irq =>
      simp only [Flow.state]
      split_ifs <;> rfl
    | hvc =>
      simp only
      split_ifs <;> rfl
    | _ => rfl

/-- What `linux_vgic_boot` does after an exit of a vCPU that is not powered off. -/
def linuxVgicOps (c : Fin 2) (e : Event) : List HvOp :=
  match e.ctx.exitKind with
  | .irq => if e.timerTick then [.timer c] else []
  | .abort => [.abort 0 c e.ctx.exitIpa (linuxVgicBootAbort e.ctx.exitIpa)]
  | .sysreg => if issCrn (esrIss e.ctx.exitEsr) = 12 then [.post c] else [.cntp c c]
  | .smc => [.psci c, .skip c]
  | .hvc => [.psci c]
  | .other => []

theorem linuxExit_hv (c : Fin 2) (e : Event) (h : Hv) :
    h.linuxExit c e = run HvOp.apply (linuxVgicOps c e) h := by
  simp only [Hv.linuxExit, linuxVgicOps]
  cases e.ctx.exitKind with
  | irq => cases e.timerTick <;> rfl
  | sysreg =>
    simp only
    split_ifs <;> rfl
  | _ => rfl

def linuxVgicDriver (img : Image) : HvDriver Smp where
  loop := linuxVgicBoot img
  view := Smp.hv
  ops := fun e s => (if s.hv.psciOn.pending && s.ncpu < 2 then [.cpuOn img 0] else []) ++
    [.key e.key, .deliver s.cur, .enter s.cur e.ctx] ++
    if s.GoesOn img e then linuxVgicOps s.cur e else []
  sound := by
    intro e s
    have hexited : (s.exited img e).hv = run HvOp.apply
        ((if s.hv.psciOn.pending && s.ncpu < 2 then [.cpuOn img 0] else []) ++
          [.key e.key, .deliver s.cur, .enter s.cur e.ctx]) s.hv := by
      simp only [Smp.exited, Smp.ready, Smp.bringUp]
      split_ifs <;> rfl
    rw [linuxVgicBoot_body_hv, OpTrace.run_append, ← hexited]
    by_cases hgo : s.GoesOn img e
    · rw [if_pos hgo, if_pos hgo]
      exact linuxExit_hv s.cur e _
    · rw [if_neg hgo, if_neg hgo]
      rfl

/-! ## 5. List registers -/

/-- The interrupt that an operation offers to `vgic_inject`, and the vCPU it is for. -/
def HvOp.offers : HvOp → Hv → Option (Fin 2 × U32)
  | .inject c k, _ => some (c, k)
  | .timer c, h =>
    if vgicIrqEnabled h.vgic c.val 30 then some (c, 30)
    else if vgicIrqEnabled h.vgic c.val 27 then some (c, 27)
    else none
  | .key (some ch), h =>
    if vuartRxIrqPending (vuartPushRx ch h.uart) && vgicSpiEnabled h.vgic 0 33 then some (0, 33)
    else none
  | .deliver c, h => (vgicPopSgi c.val h.vgic).1.map fun k => (c, BitVec.ofNat 32 k)
  | _, _ => none

/-- The guest works on its list registers through the virtual CPU interface only: it
changes no INTID, makes no interrupt pending and leaves idle slots idle. -/
def HvOp.Lawful : HvOp → Hv → Prop
  | .enter c g, h => ∀ i, SlotStep ((h.vcpus c).ichLr i) (g.ichLr i)
  | _, _ => True

instance (lr lr' : U64) : Decidable (SlotStep lr lr') :=
  decidable_of_iff
    (lr'.toNat % 2 ^ 62 = lr.toNat % 2 ^ 62 ∧ (lr.toNat / 2 ^ 62 = 0 → lr'.toNat / 2 ^ 62 = 0) ∧
      (lr'.toNat / 2 ^ 62 % 2 = 1 → lr.toNat / 2 ^ 62 % 2 = 1))
    ⟨fun h => ⟨h.1, h.2.1, h.2.2⟩, fun h => ⟨h.low, h.idle, h.pends⟩⟩

instance : ∀ (o : HvOp) (h : Hv), Decidable (o.Lawful h)
  | .enter c g, h =>
    inferInstanceAs (Decidable (∀ i, SlotStep ((h.vcpus c).ichLr i) (g.ichLr i)))
  | .inject .., _ | .timer _, _ | .key _, _ | .deliver _, _ | .post _, _ | .skip _, _
  | .psci _, _ | .cntp .., _ | .abort .., _ | .cpuOn .., _ => .isTrue trivial

/-- How the list registers of vCPU `d` become `lrs` by an operation. -/
inductive LrChange (o : HvOp) (h : Hv) (d : Fin 2) (lrs : Lrs) : Prop
  | guest (g : GuestCtx) (ho : o = .enter d g) (hl : lrs = g.ichLr)
  | start (img : Image) (sp : U64) (ho : o = .cpuOn img sp) (hd : d = 1) (hl : lrs = fun _ => 0)
  | offer (k : U32) (ho : o.offers h = some (d, k)) (hl : lrs = (vgicInject k (h.vcpus d)).ichLr)
  | keep (ho : ∀ k, o.offers h ≠ some (d, k)) (hl : lrs = (h.vcpus d).ichLr)

section ListRegs

variable {c d : Fin 2} {h : Hv}

theorem inject_ichLr_self (k : U32) :
    ((h.inject c k).vcpus c).ichLr = (vgicInject k (h.vcpus c)).ichLr := by
  rw [Hv.inject, setVcpu_vcpus_self]

theorem inject_vcpus_of_ne (k : U32) (hd : d ≠ c) : (h.inject c k).vcpus d = h.vcpus d :=
  setVcpu_vcpus_of_ne _ hd

/-- An operation that offers `(c, k)` and otherwise keeps the list registers. -/
theorem lrChange_of_inject {o : HvOp} (c : Fin 2) (k : U32) (h' : Hv)
    (ho : o.offers h = some (c, k)) (hv : h'.vcpus = h.vcpus) (ha : o.apply h = h'.inject c k) :
    LrChange o h d ((o.apply h).vcpus d).ichLr := by
  by_cases hd : d = c
  · subst hd
    refine .offer k ho ?_
    rw [ha, inject_ichLr_self, hv]
  · refine .keep (fun j hj => ?_) ?_
    · rw [ho] at hj
      exact hd (congrArg Prod.fst (Option.some.inj hj)).symm
    · rw [ha, inject_vcpus_of_ne k hd, hv]

theorem lrChange_timer : LrChange (.timer c) h d (((HvOp.timer c).apply h).vcpus d).ichLr := by
  by_cases h30 : vgicIrqEnabled h.vgic c.val 30 = true
  · refine lrChange_of_inject c 30 h ?_ rfl ?_
    · simp only [HvOp.offers, h30, if_true]
    · simp only [HvOp.apply, Hv.injectTimer, h30, if_true]
  · by_cases h27 : vgicIrqEnabled h.vgic c.val 27 = true
    · refine lrChange_of_inject c 27 h ?_ rfl ?_
      · simp only [HvOp.offers, if_neg h30, h27, if_true]
      · simp only [HvOp.apply, Hv.injectTimer, if_neg h30, h27, if_true]
    · refine .keep (fun k => ?_) ?_
      · simp only [HvOp.offers, if_neg h30, if_neg h27, ne_eq, reduceCtorEq, not_false_eq_true]
      · simp only [HvOp.apply, Hv.injectTimer, if_neg h30, if_neg h27]

theorem lrChange_key (ch : U8) :
    LrChange (.key (some ch)) h d (((HvOp.key (some ch)).apply h).vcpus d).ichLr := by
  by_cases hp : (vuartRxIrqPending (vuartPushRx ch h.uart) && vgicSpiEnabled h.vgic 0 33) = true
  · refine lrChange_of_inject 0 33 { h with uart := vuartPushRx ch h.uart } ?_ rfl ?_
    · simp only [HvOp.offers, hp, if_true]
    · exact if_pos hp
  · refine .keep (fun k => ?_) ?_
    · simp only [HvOp.offers, if_neg hp, ne_eq, reduceCtorEq, not_false_eq_true]
    · have hkey : (HvOp.key (some ch)).apply h = { h with uart := vuartPushRx ch h.uart } :=
        if_neg hp
      rw [hkey]

theorem lrChange_deliver :
    LrChange (.deliver c) h d (((HvOp.deliver c).apply h).vcpus d).ichLr := by
  rcases vgicPopSgi_cases c.val h.vgic with hpop | ⟨b, -, hpop⟩
  · refine .keep (fun k => ?_) ?_
    · simp only [HvOp.offers, hpop, Option.map_none, ne_eq, reduceCtorEq, not_false_eq_true]
    · simp only [HvOp.apply, Hv.deliverSgi, hpop]
  · refine lrChange_of_inject c (BitVec.ofNat 32 b)
      { h with vgic := (vgicPopSgi c.val h.vgic).2 } ?_ rfl ?_
    · simp only [HvOp.offers, hpop, Option.map_some]
    · simp only [HvOp.apply, Hv.deliverSgi, hpop]

/-- The guest, `vcpu_init` of the secondary and `vgic_inject` change list registers,
and nothing else does. -/
theorem lrChange_apply (o : HvOp) (h : Hv) (d : Fin 2) :
    LrChange o h d ((o.apply h).vcpus d).ichLr := by
  have hno : ∀ k : U32, (none : Option (Fin 2 × U32)) ≠ some (d, k) := by simp
  cases o with
  | enter c g =>
    by_cases hd : d = c
    · subst hd
      refine .guest g rfl ?_
      rw [HvOp.apply, setVcpu_vcpus_self]
      rfl
    · refine .keep hno ?_
      rw [HvOp.apply, setVcpu_vcpus_of_ne _ hd]
  | inject c k => exact lrChange_of_inject c k h rfl rfl rfl
  | timer c => exact lrChange_timer
  | key ch =>
    cases ch with
    | none => exact .keep hno rfl
    | some ch => exact lrChange_key ch
  | deliver c => exact lrChange_deliver
  | post c =>
    refine .keep hno ?_
    rw [HvOp.apply, Hv.postSgi, Hv.skip, setVcpu_ichLr (skip_ichLr _)]
  | skip c => exact .keep hno (setVcpu_ichLr rfl)
  | psci c => exact .keep hno psciHandle_ichLr
  | cntp vm c => exact .keep hno (cntpEmulate_ichLr vm)
  | abort vm c ipa a => exact .keep hno (abort_ichLr vm ipa a)
  | cpuOn img sp =>
    by_cases hd : d = 1
    · subst hd
      refine .start img sp rfl rfl ?_
      exact congrArg (·.ichLr) (setVcpu_vcpus_self _)
    · exact .keep hno (congrArg (·.ichLr) (setVcpu_vcpus_of_ne _ hd))

end ListRegs

end FermiHV
