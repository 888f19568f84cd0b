import FermiHV.Hypervisor
import FermiHV.Lib.RunLoop

/-!
# The run loops of `vcpu.c`

Each loop runs a vCPU until it exits, handles the exit and goes on. A loop is a
`RunLoop.Loop` over its local variables and the hypervisor state, and one pass
consumes one `Event`. The loops differ in what they test, in which order, and in
what they do with a stage-2 abort (section 1), so each keeps its own body.
-/

namespace FermiHV

open RunLoop (Flow Loop)

/-! ## 1. Stage-2 aborts -/

/-- RAM is faulted in; a data abort on the emulated UART is emulated. -/
def uartOrFault (ec ipa : U64) : AbortAction :=
  if ec = ecDabtLow ∧ vuartContains ipa = true then .vuart else .fault (blockBase ipa)

/-- The emulated GIC, then the emulated UART, then `other`. -/
def deviceOr (other : AbortAction) (ipa : U64) : AbortAction :=
  if vgicContains ipa then .vgic else if vuartContains ipa then .vuart else other

def runVcpusAbort (ec ipa : U64) : AbortAction := uartOrFault ec ipa

def realGuestAbort (ec ipa : U64) : AbortAction := uartOrFault ec ipa

def vgicDemoAbort (ipa : U64) : AbortAction :=
  if vgicContains ipa then .vgic else .fault (blockBase ipa)

def linuxBootAbort (ipa : U64) : AbortAction := .fault (blockBase ipa)

/-- Addresses that the table cannot hold are skipped. -/
def fermiosBootAbort (ipa : U64) : AbortAction :=
  if blockBase ipa < 0x8000000000 then .fault (blockBase ipa) else .skip

def fermiosVgicBootAbort (ipa : U64) : AbortAction := deviceOr (.fault (blockBase ipa)) ipa

def mtenantRealAbort (ipa : U64) : AbortAction := deviceOr .report ipa

def linuxVgicBootAbort (ipa : U64) : AbortAction := deviceOr .zero ipa

def mtenantOsAbort (ipa : U64) : AbortAction := deviceOr .zero ipa

/-! ## 2. Loops over one vCPU -/

/-- `h` after `stage2_init` and `vgic_reset`. -/
def Hv.reset (h : Hv) : Hv := { h with s2 := stage2Init h.s2, vgic := vgicReset h.vgic }

/-- `linux_boot`. -/
def linuxBoot : Loop Hv Event where
  cond := fun _ => true
  body := fun e h =>
    let h := h.enter 0 e
    let v := h.vcpus 0
    if v.halted then .brk h
    else
      match v.exitKind with
      | .irq => .next h
      | .smc => .next ((psciHandle 0 h).skip 0)
      | .hvc => .next (psciHandle 0 h)
      | .abort => .next (h.abort 0 0 v.exitIpa (linuxBootAbort v.exitIpa))
      | .sysreg | .other => .brk h

/-- What `linux_boot` does before its loop; Linux finds its device tree in `x0`. -/
def linuxBootStart (img : Image) (h : Hv) : Hv :=
  { h with s2 := stage2Map1gbDevice 0 (stage2Init h.s2) }.setVcpu 0
    ((vcpuInit 0x41000000 0 (stage2Vttbr img) 0).setX 0 0x48000000)

/-- `fermios_boot`. -/
def fermiosBoot : Loop Hv Event where
  cond := fun _ => true
  body := fun e h =>
    let h := h.enter 0 e
    let v := h.vcpus 0
    if v.halted then .brk h
    else
      match v.exitKind with
      | .irq => .next h
      | .smc => .next ((psciHandle 0 h).skip 0)
      | .abort => .next (h.abort 0 0 v.exitIpa (fermiosBootAbort v.exitIpa))
      | .hvc | .sysreg | .other => .brk h

/-- What `fermios_boot` does before its loop. -/
def fermiosBootStart (img : Image) (h : Hv) : Hv :=
  { h with s2 := stage2Map1gbDevice 0 (stage2Init h.s2) }.setVcpu 0
    (vcpuInit 0x40000000 0 (stage2Vttbr img) 0)

/-- `real_guest_demo`. -/
def realGuestDemo : Loop Hv Event where
  cond := fun _ => true
  body := fun e h =>
    let h := h.enter 0 e
    let v := h.vcpus 0
    match v.exitKind with
    | .irq => .next h
    | .abort => .next (h.abort 0 0 v.exitIpa (realGuestAbort v.exitEc v.exitIpa))
    | .hvc | .smc | .sysreg | .other => .brk h

/-- What `real_guest_demo` does before its loop, with the top of `gstack[0]` in
`sp`; the tables are those of the demos before it. -/
def realGuestDemoStart (img : Image) (sp : U64) (h : Hv) : Hv :=
  h.setVcpu 0 (vcpuInit 0x48000000 sp (stage2Vttbr img) 0)

/-- A loop with a counter: hypercalls in `vgic_demo`, passes in
`fermios_vgic_boot`. -/
structure Counted where
  hv : Hv
  count : Nat

/-- `vgic_demo(nticks)`. -/
def vgicDemo (nticks : Nat) : Loop Counted Event where
  cond := fun s => s.count < nticks
  body := fun e s =>
    let h := s.hv.enter 0 e
    let v := h.vcpus 0
    match v.exitKind with
    | .irq =>
      if e.timerTick && vgicIrqEnabled h.vgic 0 27 then .next { s with hv := h.inject 0 27 }
      else .next { s with hv := h }
    | .hvc => .next { hv := h, count := s.count + 1 }
    | .abort => .next { s with hv := h.abort 0 0 v.exitIpa (vgicDemoAbort v.exitIpa) }
    | .smc | .sysreg | .other => .brk { s with hv := h }

/-- What `vgic_demo` does before its loop; the guest starts at `entry` with the
top of `gstack[0]` in `sp`. -/
def vgicDemoStart (img : Image) (entry sp : U64) (h : Hv) : Counted where
  hv := h.reset.setVcpu 0 (vcpuInit entry sp (stage2Vttbr img) 0)
  count := 0

/-- `fermios_vgic_boot`; the counter is `guard`. -/
def fermiosVgicBoot : Loop Counted Event where
  cond := fun s => s.count < 2000000
  body := fun e s =>
    let h := s.hv.enter 0 e
    let v := h.vcpus 0
    let n := s.count + 1
    if v.halted then .brk { hv := h, count := n }
    else
      match v.exitKind with
      | .irq =>
        if e.timerTick && vgicIrqEnabled h.vgic 0 30 then .next { hv := h.inject 0 30, count := n }
        else .next { hv := h, count := n }
      | .abort =>
        .next { hv := h.abort 0 0 v.exitIpa (fermiosVgicBootAbort v.exitIpa), count := n }
      | .sysreg => .next { hv := cntpEmulate 0 0 h, count := n }
      | .smc => .next { hv := (psciHandle 0 h).skip 0, count := n }
      | .hvc | .other => .brk { hv := h, count := n }

/-- What `fermios_vgic_boot` does before its loop. -/
def fermiosVgicBootStart (img : Image) (h : Hv) : Counted where
  hv := h.reset.setVcpu 0 (vcpuInit 0x40000000 0 (stage2Vttbr img) 0)
  count := 0

/-! ## 3. Loops over two vCPUs -/

/-- The locals of `run_vcpus`: the position of the `for` loop, the hypercalls of
each vCPU and the number of vCPUs that are not halted. -/
structure RunVcpus where
  hv : Hv
  i : Fin 2
  hcalls : Fin 2 → Nat
  active : Int

/-- The next position of `for (i = 0; i < n; i++)` inside `while (active)`. -/
def nextIndex (n : Nat) (i : Fin 2) : Fin 2 := if i.val + 1 < n then i + 1 else 0

/-- Halt vCPU `i` and count it out. -/
def RunVcpus.halt (s : RunVcpus) : RunVcpus :=
  { s with
    hv := s.hv.setVcpu s.i { s.hv.vcpus s.i with halted := true }
    active := s.active - 1 }

/-- `run_vcpus(n, budget, tag)`. A pass is one turn of the inner loop; a halted
vCPU is passed over. The exit reason is not looked at. -/
def runVcpus (n budget : Nat) : Loop RunVcpus Event where
  cond := fun s => s.i ≠ 0 || s.active ≠ 0
  body := fun e s =>
    if (s.hv.vcpus s.i).halted then .next { s with i := nextIndex n s.i }
    else
      let h := s.hv.enter s.i e
      let v := h.vcpus s.i
      let s1 : RunVcpus :=
        match v.syncKind with
        | .hvc =>
          let s1 := { s with hv := h, hcalls := Function.update s.hcalls s.i (s.hcalls s.i + 1) }
          if budget ≤ s.hcalls s.i + 1 then s1.halt else s1
        | .abort =>
          { s with hv := h.abort 0 s.i v.exitIpa (runVcpusAbort v.exitEc v.exitIpa) }
        | .smc | .sysreg | .irq | .other => { s with hv := h }.halt
      .next { s1 with i := nextIndex n s.i }

/-- `h` after the two `stage2_build_vm` and `vcpu_init` calls of the two-tenant
demos. -/
def Hv.twoTenants (img : Image) (pc0 sp0 pc1 sp1 : U64) (h : Hv) : Hv :=
  let (vttbr0, s2) := stage2BuildVm img 0 0x40000000 0x80000000 1 h.s2
  let (vttbr1, s2) := stage2BuildVm img 1 0x40000000 0xC0000000 2 s2
  ({ h with s2 }.setVcpu 0 (vcpuInit pc0 sp0 vttbr0 0)).setVcpu 1 (vcpuInit pc1 sp1 vttbr1 1)

/-- The locals of `mtenant_real_demo` and `mtenant_os_demo`; the latter has no
`t1`. -/
structure Tenants where
  hv : Hv
  t1 : Nat
  pend : Fin 2 → Bool
  cur : Fin 2
  guard : Nat
  slot : Nat

/-- The tick of the EL2 timer: both tenants have one pending, and three of four
slices go to tenant 0. -/
def Tenants.tick (s : Tenants) : Tenants :=
  { s with
    pend := fun _ => true
    slot := s.slot + 1
    cur := if (s.slot + 1) % 4 = 0 then 1 else 0 }

/-- The state of `mtenant_real_demo` in which the guest is entered: a pending
tick is injected if the guest has its timer interrupt enabled. -/
def Tenants.readyReal (s : Tenants) : Tenants :=
  let c := s.cur
  let intid : U32 := if c = 0 then 30 else 27
  if s.pend c && vgicIrqEnabled s.hv.vgic c.val intid then
    { s with
      hv := s.hv.inject c intid
      pend := Function.update s.pend c false
      guard := s.guard + 1 }
  else { s with guard := s.guard + 1 }

/-- `mtenant_real_demo`. -/
def mtenantRealDemo : Loop Tenants Event where
  cond := fun s => s.t1 < 8 && s.guard < 2000000
  body := fun e s =>
    let c := s.cur
    let s := s.readyReal
    let s := { s with hv := s.hv.enter c e }
    let v := s.hv.vcpus c
    match v.exitKind with
    | .irq => .next (if e.timerTick then s.tick else s)
    | .abort => .next { s with hv := s.hv.abort c.val c v.exitIpa (mtenantRealAbort v.exitIpa) }
    | .sysreg => .next { s with hv := cntpEmulate c c s.hv }
    | .hvc => .next (if c = 1 then { s with t1 := s.t1 + 1 } else s)
    | .smc => .next { s with hv := (psciHandle c s.hv).skip c }
    | .other => .brk s

/-- What `mtenant_real_demo` does before its loop. -/
def mtenantRealDemoStart (img : Image) (h : Hv) : Tenants where
  hv := h.reset.twoTenants img 0x40000000 0 0x40000000 0x40010000
  t1 := 0
  pend := fun _ => false
  cur := 0
  guard := 0
  slot := 0

/-- The locals of the demos that count the timer ticks their guests have
serviced. -/
structure Ticks where
  hv : Hv
  ticks : Fin 2 → Nat
  pend : Fin 2 → Bool
  cur : Fin 2
  guard : Nat

/-- The state in which the guest is entered. -/
def Ticks.ready (s : Ticks) : Ticks :=
  let c := s.cur
  if s.pend c && vgicIrqEnabled s.hv.vgic c.val 27 then
    { s with
      hv := s.hv.inject c 27
      pend := Function.update s.pend c false
      guard := s.guard + 1 }
  else { s with guard := s.guard + 1 }

/-- The loop of these demos: `limit` bounds the passes, `vm c` is the argument of
`vgic_mmio` for vCPU `c`, and `other` answers an abort outside the GIC. -/
def tickLoop (limit : Nat) (vm : Fin 2 → Int) (other : AbortAction) : Loop Ticks Event where
  cond := fun s => (s.ticks 0 < 3 || s.ticks 1 < 3) && s.guard < limit
  body := fun e s =>
    let c := s.cur
    let s := s.ready
    let s := { s with hv := s.hv.enter c e }
    let v := s.hv.vcpus c
    match v.exitKind with
    | .irq => .next (if e.timerTick then { s with pend := fun _ => true, cur := c + 1 } else s)
    | .hvc => .next { s with ticks := Function.update s.ticks c (s.ticks c + 1) }
    | .abort =>
      if v.exitEc = ecDabtLow then
        let action := if vgicContains v.exitIpa then .vgic else other
        .next { s with hv := s.hv.abort (vm c) c v.exitIpa action }
      else .brk s
    | .smc | .sysreg | .other => .brk s

/-- `mtenant_vgic_demo`: two VMs, each with its own emulated GIC. -/
def mtenantVgicDemo : Loop Ticks Event := tickLoop 20000 (fun c => c.val) .report

/-- `smp_gicr_demo`: one VM with two vCPUs; the frame addressed selects the
redistributor. -/
def smpGicrDemo : Loop Ticks Event := tickLoop 60000 (fun _ => 0) .zero

/-- `smp_vtimer_demo`: one VM with two vCPUs, each with the emulated GIC of its
own number. -/
def smpVtimerDemo : Loop Ticks Event := tickLoop 60000 (fun c => c.val) .zero

/-- What `mtenant_vgic_demo` does before its loop. -/
def mtenantVgicDemoStart (img : Image) (h : Hv) : Ticks where
  hv := h.reset.twoTenants img 0x40000000 0x40010000 0x40000000 0x40010000
  ticks := fun _ => 0
  pend := fun _ => false
  cur := 0
  guard := 0

/-- What `smp_gicr_demo` does before its loop; `x0` is the CPU id. -/
def smpGicrDemoStart (img : Image) (h : Hv) : Ticks where
  hv :=
    let h := { h.reset with vgic := vgicSetNgicr 2 h.reset.vgic }
    let (vttbr, s2) := stage2BuildVm img 0 0x40000000 0x80000000 1 h.s2
    ({ h with s2 }.setVcpu 0 ((vcpuInit 0x40000000 0x40008000 vttbr 0).setX 0 0)).setVcpu 1
      ((vcpuInit 0x40000000 0x40010000 vttbr 1).setX 0 1)
  ticks := fun _ => 0
  pend := fun _ => false
  cur := 0
  guard := 0

/-- What `smp_vtimer_demo` does before its loop. -/
def smpVtimerDemoStart (img : Image) (h : Hv) : Ticks where
  hv :=
    let (vttbr, s2) := stage2BuildVm img 0 0x40000000 0x80000000 1 h.reset.s2
    ({ h.reset with s2 }.setVcpu 0 (vcpuInit 0x40000000 0x40008000 vttbr 0)).setVcpu 1
      (vcpuInit 0x40000000 0x40010000 vttbr 1)
  ticks := fun _ => 0
  pend := fun _ => false
  cur := 0
  guard := 0

/-- Inject the guest's timer interrupt: PPI 30 if it is enabled, else 27. -/
def Hv.injectTimer (c : Fin 2) (h : Hv) : Hv :=
  if vgicIrqEnabled h.vgic c.val 30 then h.inject c 30
  else if vgicIrqEnabled h.vgic c.val 27 then h.inject c 27
  else h

@[simp] theorem injectTimer_uart (c : Fin 2) (h : Hv) : (h.injectTimer c).uart = h.uart := by
  simp only [Hv.injectTimer]
  split_ifs <;> rfl

/-- The state of `mtenant_os_demo` in which the guest is entered. -/
def Tenants.readyOs (s : Tenants) : Tenants :=
  let c := s.cur
  if s.pend c then
    { s with
      hv := s.hv.injectTimer c
      pend := Function.update s.pend c false
      guard := s.guard + 1 }
  else { s with guard := s.guard + 1 }

/-- What `mtenant_os_demo` does before its loop; Linux finds its device tree in
`x0`. -/
def mtenantOsDemoStart (img : Image) (h : Hv) : Tenants where
  hv :=
    let h := h.reset.twoTenants img 0x41000000 0 0x40000000 0
    h.setVcpu 0 ((h.vcpus 0).setX 0 0x48000000)
  t1 := 0
  pend := fun _ => false
  cur := 0
  guard := 0
  slot := 0

/-- `mtenant_os_demo`. -/
def mtenantOsDemo : Loop Tenants Event where
  cond := fun s => s.guard < 4000000
  body := fun e s =>
    let c := s.cur
    let s := s.readyOs
    let s := { s with hv := s.hv.enter c e }
    let v := s.hv.vcpus c
    if v.halted then .brk s
    else
      match v.exitKind with
      | .irq => .next (if e.timerTick then s.tick else s)
      | .abort => .next { s with hv := s.hv.abort c.val c v.exitIpa (mtenantOsAbort v.exitIpa) }
      | .sysreg => .next { s with hv := cntpEmulate c c s.hv }
      | .smc => .next { s with hv := (psciHandle c s.hv).skip c }
      | .hvc => .next { s with hv := psciHandle c s.hv }
      | .other => .brk s

/-! ## 4. SMP loops -/

/-- Deliver a pending SGI to the vCPU about to run: it is taken out of
`g_sgi_pending` first and then offered to `vgic_inject`. -/
def Hv.deliverSgi (c : Fin 2) (h : Hv) : Hv :=
  match vgicPopSgi c.val h.vgic with
  | (some k, g) => { h with vgic := g }.inject c (BitVec.ofNat 32 k)
  | (none, g) => { h with vgic := g }

/-- Start `vcpus[1]` as CPU_ON asked. -/
def Hv.cpuOn (img : Image) (sp : U64) (h : Hv) : Hv :=
  { h.setVcpu 1 ((vcpuInit h.psciOn.entry sp (stage2Vttbr img) 1).setX 0 h.psciOn.ctx) with
    psciOn := { h.psciOn with pending := false } }

/-- The INTID in a trapped write to `ICC_SGI1R_EL1`. -/
def GuestCtx.sgiIntid (g : GuestCtx) : U32 :=
  ((g.getX (issRt (esrIss g.exitEsr)) >>> 24) &&& 0xF).setWidth 32

/-- Send an SGI from `c` to every other vCPU and resume. -/
def Hv.postSgi (c : Fin 2) (h : Hv) : Hv :=
  { h with vgic := vgicPostSgi c.val (h.vcpus c).sgiIntid h.vgic }.skip c

/-- A keystroke goes to the emulated UART and, if the guest has both enabled the
receive interrupt and SPI 33, into the list registers of vCPU 0. -/
def Hv.keyIn (key : Option U8) (h : Hv) : Hv :=
  match key with
  | none => h
  | some ch =>
    let h := { h with uart := vuartPushRx ch h.uart }
    if vuartRxIrqPending h.uart && vgicSpiEnabled h.vgic 0 33 then h.inject 0 33 else h

/-- The locals of `linux_vgic_boot`. -/
structure Smp where
  hv : Hv
  ncpu : Nat
  cur : Fin 2

/-- Bring up the secondary vCPU when CPU_ON has been called. -/
def Smp.bringUp (img : Image) (s : Smp) : Smp :=
  if s.hv.psciOn.pending && s.ncpu < 2 then { s with hv := s.hv.cpuOn img 0, ncpu := 2 } else s

/-- The timer tick of `linux_vgic_boot`: the current vCPU gets its timer
interrupt, then the other one its turn. -/
def Smp.tick (s : Smp) : Smp :=
  { s with
    hv := s.hv.injectTimer s.cur
    cur := if s.ncpu = 2 then s.cur + 1 else s.cur }

/-- The state of `linux_vgic_boot` in which the guest is entered. -/
def Smp.ready (img : Image) (key : Option U8) (s : Smp) : Smp :=
  let s := s.bringUp img
  { s with hv := (s.hv.keyIn key).deliverSgi s.cur }

/-- `linux_vgic_boot`. -/
def linuxVgicBoot (img : Image) : Loop Smp Event where
  cond := fun _ => true
  body := fun e s =>
    let s := s.ready img e.key
    let c := s.cur
    let s := { s with hv := s.hv.enter c e }
    let v := s.hv.vcpus c
    if v.halted then .brk s
    else
      match v.exitKind with
      | .irq => .next (if e.timerTick then s.tick else s)
      | .abort => .next { s with hv := s.hv.abort 0 c v.exitIpa (linuxVgicBootAbort v.exitIpa) }
      | .sysreg =>
        if issCrn (esrIss v.exitEsr) = 12 then .next { s with hv := s.hv.postSgi c }
        else .next { s with hv := cntpEmulate c c s.hv }
      | .smc => .next { s with hv := (psciHandle c s.hv).skip c }
      | .hvc => .next { s with hv := psciHandle c s.hv }
      | .other => .brk s

/-- The state in which the guest exits. -/
def Smp.exited (img : Image) (e : Event) (s : Smp) : Smp :=
  { s.ready img e.key with hv := (s.ready img e.key).hv.enter s.cur e }

/-- What `linux_vgic_boot` does before its loop, with `h` left by the demos before
it. -/
def linuxVgicBootStart (img : Image) (h : Hv) : Smp where
  hv :=
    { h.reset.setVcpu 0 ((vcpuInit 0x41000000 0 (stage2Vttbr img) 0).setX 0 0x48000000) with
      vgic := vgicSetNgicr 2 h.reset.vgic
      psciOn := { h.psciOn with pending := false } }
  ncpu := 1
  cur := 0

/-- The start of `linux_vgic_boot`. -/
def linuxStart : Smp where
  hv :=
    let h := resetHv exampleImage 0x41000000
    { h with vgic := vgicSetNgicr 2 h.vgic }
  ncpu := 1
  cur := 0

/-- What `linux_vgic_boot` does with an exit of a vCPU that is not powered off. -/
def Hv.linuxExit (c : Fin 2) (e : Event) (h : Hv) : Hv :=
  match e.ctx.exitKind with
  | .irq => if e.timerTick then h.injectTimer c else h
  | .abort => h.abort 0 c e.ctx.exitIpa (linuxVgicBootAbort e.ctx.exitIpa)
  | .sysreg => if issCrn (esrIss e.ctx.exitEsr) = 12 then h.postSgi c else cntpEmulate c c h
  | .smc => (psciHandle c h).skip c
  | .hvc => psciHandle c h
  | .other => h

/-- The locals of `smp_psci_demo`. -/
structure SmpPsci where
  hv : Hv
  cur : Fin 2
  secOn : Bool
  got : Bool
  guard : Nat

/-- `(fn & 0xFFFF0000)` is one of the PSCI ranges. -/
def psciRange (fn : U32) : Bool :=
  fn &&& 0xFFFF0000 = 0xC4000000 || fn &&& 0xFFFF0000 = 0x84000000

/-- The state of `smp_psci_demo` in which the guest is entered; `sp` is the top of
`gstack[1]`. -/
def SmpPsci.ready (img : Image) (sp : U64) (s : SmpPsci) : SmpPsci :=
  let s := { s with guard := s.guard + 1 }
  let s :=
    if s.hv.psciOn.pending && !s.secOn then { s with hv := s.hv.cpuOn img sp, secOn := true }
    else s
  { s with hv := s.hv.deliverSgi s.cur }

/-- What `smp_psci_demo` does before its loop; the primary starts at `entry` with
the top of `gstack[0]` in `sp0`. -/
def smpPsciDemoStart (img : Image) (entry sp0 : U64) (h : Hv) : SmpPsci where
  hv :=
    { h.reset.setVcpu 0 (vcpuInit entry sp0 (stage2Vttbr img) 0) with
      psciOn := { h.psciOn with pending := false } }
  cur := 0
  secOn := false
  got := false
  guard := 0

/-- `smp_psci_demo`. -/
def smpPsciDemo (img : Image) (sp : U64) : Loop SmpPsci Event where
  cond := fun s => !s.got && s.guard < 100000
  body := fun e s =>
    let c := s.cur
    let s := s.ready img sp
    let s := { s with hv := s.hv.enter c e }
    let v := s.hv.vcpus c
    match v.exitKind with
    | .irq => .next (if e.timerTick && s.secOn then { s with cur := c + 1 } else s)
    | .hvc =>
      if psciRange v.psciFn then .next { s with hv := psciHandle c s.hv }
      else .next { s with got := true }
    | .sysreg => .next { s with hv := s.hv.postSgi c }
    | .abort | .smc | .other => .brk s

/-! ## 5. The current vCPU before the guest runs -/

@[simp] theorem Ticks.ready_cur (s : Ticks) : s.ready.cur = s.cur := by
  simp only [Ticks.ready]
  split_ifs <;> rfl

@[simp] theorem Tenants.readyReal_cur (s : Tenants) : s.readyReal.cur = s.cur := by
  simp only [Tenants.readyReal]
  split_ifs <;> rfl

@[simp] theorem Tenants.readyOs_cur (s : Tenants) : s.readyOs.cur = s.cur := by
  simp only [Tenants.readyOs]
  split_ifs <;> rfl

@[simp] theorem Smp.bringUp_cur (img : Image) (s : Smp) : (s.bringUp img).cur = s.cur := by
  simp only [Smp.bringUp]
  split_ifs <;> rfl

@[simp] theorem Smp.ready_cur (img : Image) (key : Option U8) (s : Smp) :
    (s.ready img key).cur = s.cur := by
  simp only [Smp.ready, Smp.bringUp_cur]

@[simp] theorem Smp.exited_cur (img : Image) (e : Event) (s : Smp) : (s.exited img e).cur = s.cur :=
  Smp.ready_cur img e.key s

theorem Smp.exited_ctx (img : Image) (e : Event) (s : Smp) :
    ((s.exited img e).hv.vcpus s.cur).toGuestCtx = e.ctx := by
  rw [Smp.exited, enter_vcpus_self]
  rfl

@[simp] theorem SmpPsci.ready_cur (img : Image) (sp : U64) (s : SmpPsci) :
    (s.ready img sp).cur = s.cur := by
  simp only [SmpPsci.ready]
  split_ifs <;> rfl

/-! ## 6. The GIC before the guest runs -/

theorem bringUp_vgic {img : Image} {s : Smp} : (s.bringUp img).hv.vgic = s.hv.vgic := by
  simp only [Smp.bringUp]
  split_ifs <;> rfl

theorem keyIn_vgic {h : Hv} (key : Option U8) : (h.keyIn key).vgic = h.vgic := by
  cases key with
  | none => rfl
  | some ch =>
    simp only [Hv.keyIn]
    split_ifs <;> rfl

theorem deliverSgi_vg {c : Fin 2} {h : Hv} : (h.deliverSgi c).vgic.vg = h.vgic.vg := by
  rcases vgicPopSgi_cases c.val h.vgic with hpop | ⟨b, -, hpop⟩
  · simp only [Hv.deliverSgi, hpop]
  · simp only [Hv.deliverSgi, hpop]
    rfl

/-! ## 7. The passes of the tenants' loops -/

section TenantPass

variable {e : Event} {s : Tenants} {P : Hv → Prop}

/-- To show something after a pass, show it where the guest exits and after each
handler. -/
theorem mtenantRealDemo_body_cases (stay : P (s.readyReal.hv.enter s.cur e))
    (abort : e.ctx.exitKind = .abort → P ((s.readyReal.hv.enter s.cur e).abort s.cur.val s.cur
      e.ctx.exitIpa (mtenantRealAbort e.ctx.exitIpa)))
    (cntp : e.ctx.exitKind = .sysreg →
      P (cntpEmulate s.cur s.cur (s.readyReal.hv.enter s.cur e)))
    (skip : P ((psciHandle s.cur (s.readyReal.hv.enter s.cur e)).skip s.cur)) :
    P (mtenantRealDemo.body e s).state.hv := by
  simp only [mtenantRealDemo, enter_vcpus_self, vcpuRunOnce_ctx]
  cases hk : e.ctx.exitKind with
  | irq => cases e.timerTick <;> exact stay
  | abort => exact abort hk
  | sysreg => exact cntp hk
  | hvc =>
    simp only [Flow.state]
    split_ifs <;> exact stay
  | smc => exact skip
  | other => exact stay

theorem mtenantOsDemo_body_cases (stay : P (s.readyOs.hv.enter s.cur e))
    (abort : (s.readyOs.hv.vcpus s.cur).halted = false → e.ctx.exitKind = .abort →
      P ((s.readyOs.hv.enter s.cur e).abort s.cur.val s.cur e.ctx.exitIpa
        (mtenantOsAbort e.ctx.exitIpa)))
    (cntp : (s.readyOs.hv.vcpus s.cur).halted = false → e.ctx.exitKind = .sysreg →
      P (cntpEmulate s.cur s.cur (s.readyOs.hv.enter s.cur e)))
    (psci : P (psciHandle s.cur (s.readyOs.hv.enter s.cur e)))
    (skip : P ((psciHandle s.cur (s.readyOs.hv.enter s.cur e)).skip s.cur)) :
    P (mtenantOsDemo.body e s).state.hv := by
  simp only [mtenantOsDemo, enter_vcpus_self, vcpuRunOnce_ctx, vcpuRunOnce_halted]
  cases hhalt : (s.readyOs.hv.vcpus s.cur).halted with
  | true => exact stay
  | false =>
    simp only [Bool.false_eq_true, if_false]
    cases hk : e.ctx.exitKind with
    | irq => cases e.timerTick <;> exact stay
    | abort => exact abort hhalt hk
    | sysreg => exact cntp hhalt hk
    | smc => exact skip
    | hvc => exact psci
    | other => exact stay

end TenantPass

/-! ## 8. The passes of `linux_vgic_boot` -/

/-- To show something after an exit, show it after each handler. -/
theorem linuxExit_cases {c : Fin 2} {e : Event} {h : Hv} {P : Hv → Prop} (stay : P h)
    (tick : P (h.injectTimer c))
    (abort : e.ctx.exitKind = .abort →
      P (h.abort 0 c e.ctx.exitIpa (linuxVgicBootAbort e.ctx.exitIpa)))
    (sgi : P (h.postSgi c)) (cntp : e.ctx.exitKind = .sysreg → P (cntpEmulate c c h))
    (psci : P (psciHandle c h)) (skip : P ((psciHandle c h).skip c)) : P (h.linuxExit c e) := by
  simp only [Hv.linuxExit]
  cases hk : e.ctx.exitKind with
  | irq => cases e.timerTick with
    | true => exact tick
    | false => exact stay
  | abort => exact abort hk
  | sysreg =>
    by_cases hcrn : issCrn (esrIss e.ctx.exitEsr) = 12
    · simp only [if_pos hcrn]
      exact sgi
    · simp only [if_neg hcrn]
      exact cntp hk
  | smc => exact skip
  | hvc => exact psci
  | other => exact stay

section LinuxPass

variable {img : Image} {e : Event} {s : Smp}

/-- A pass that goes on: the vCPU is not powered off, its exit has been handled,
and only a tick with two vCPUs switches. -/
theorem linuxVgicBoot_body_next
    (hrun : ((s.exited img e).hv.vcpus s.cur).halted = false) (hkind : e.ctx.exitKind ≠ .other) :
    (linuxVgicBoot img).body e s = .next
      { hv := (s.exited img e).hv.linuxExit s.cur e
        ncpu := (s.exited img e).ncpu
        cur :=
          if e.ctx.exitKind = .irq ∧ e.timerTick = true ∧ (s.exited img e).ncpu = 2 then s.cur + 1
          else s.cur } := by
  simp only [linuxVgicBoot, Smp.ready_cur]
  change (if ((s.exited img e).hv.vcpus s.cur).halted = true then _ else _) = _
  rw [hrun, if_neg Bool.false_ne_true]
  simp only [enter_vcpus_self, vcpuRunOnce_ctx, Hv.linuxExit]
  cases hk : e.ctx.exitKind with
  | other => exact absurd hk hkind
  | irq =>
    cases e.timerTick with
    | true => simp only [if_true, true_and]; rfl
    | false => simp only [Bool.false_eq_true, if_false, false_and, and_false]; rfl
  | sysreg =>
    by_cases hcrn : issCrn (esrIss e.ctx.exitEsr) = 12
    · simp only [if_pos hcrn, reduceCtorEq, false_and, if_false]; rfl
    · simp only [if_neg hcrn, reduceCtorEq, false_and, if_false]; rfl
  | abort => simp only [reduceCtorEq, false_and, if_false]; rfl
  | smc => simp only [reduceCtorEq, false_and, if_false]; rfl
  | hvc => simp only [reduceCtorEq, false_and, if_false]; rfl

/-- The other passes end the loop where the guest exits. -/
theorem linuxVgicBoot_body_brk
    (h : ((s.exited img e).hv.vcpus s.cur).halted = true ∨ e.ctx.exitKind = .other) :
    (linuxVgicBoot img).body e s = .brk (s.exited img e) := by
  have hexited : s.exited img e =
      { hv := (s.ready img e.key).hv.enter s.cur e
        ncpu := (s.ready img e.key).ncpu
        cur := s.cur } := by
    simp only [Smp.exited, Smp.ready_cur]
  simp only [linuxVgicBoot, Smp.ready_cur, enter_vcpus_self, vcpuRunOnce_ctx]
  rw [hexited] at h ⊢
  rw [enter_vcpus_self] at h
  by_cases hh : (vcpuRunOnce e.ctx ((s.ready img e.key).hv.vcpus s.cur)).halted = true
  · rw [if_pos hh]
  · rw [if_neg hh]
    simp only [h.resolve_left hh]

/-- The pass goes on. -/
def Smp.GoesOn (img : Image) (e : Event) (s : Smp) : Prop :=
  ((s.exited img e).hv.vcpus s.cur).halted = false ∧ e.ctx.exitKind ≠ .other

instance : Decidable (s.GoesOn img e) := inferInstanceAs (Decidable (_ ∧ _))

theorem not_goesOn (h : ¬ s.GoesOn img e) :
    (linuxVgicBoot img).body e s = .brk (s.exited img e) := by
  refine linuxVgicBoot_body_brk ?_
  by_contra hno
  rw [not_or] at hno
  exact h ⟨Bool.eq_false_iff.mpr hno.1, hno.2⟩

/-- What a pass that goes on leaves. -/
theorem linuxVgicBoot_next_inv {t : Smp} (hb : (linuxVgicBoot img).body e s = .next t) :
    s.GoesOn img e ∧ t.hv = (s.exited img e).hv.linuxExit s.cur e ∧ t.ncpu = (s.exited img e).ncpu ∧
      (t.cur = s.cur ∨ t.ncpu = 2) ∧ (e.ctx.exitKind ≠ .irq → t.cur = s.cur) := by
  by_cases hgo : s.GoesOn img e
  · rw [linuxVgicBoot_body_next hgo.1 hgo.2, Flow.next.injEq] at hb
    rw [← hb]
    refine ⟨hgo, rfl, rfl, ?_, fun hirq => if_neg fun h => hirq h.1⟩
    by_cases hswitch : e.ctx.exitKind = .irq ∧ e.timerTick = true ∧ (s.exited img e).ncpu = 2
    · exact .inr hswitch.2.2
    · exact .inl (if_neg hswitch)
  · rw [not_goesOn hgo] at hb
    cases hb

theorem linuxVgicBoot_body_hv : ((linuxVgicBoot img).body e s).state.hv =
    if s.GoesOn img e then (s.exited img e).hv.linuxExit s.cur e else (s.exited img e).hv := by
  by_cases hgo : s.GoesOn img e
  · rw [linuxVgicBoot_body_next hgo.1 hgo.2, if_pos hgo]
    rfl
  · rw [not_goesOn hgo, if_neg hgo]
    rfl

end LinuxPass

end FermiHV
