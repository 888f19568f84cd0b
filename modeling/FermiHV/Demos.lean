import FermiHV.Loops

/-!
# The demos of `vcpu.c` that set up their guests themselves

`virq_demo` (virtual timer ticks), `smp_demo` and `smp_sched_demo` (two vCPUs that
send each other SGIs) and `mtenant_demo` (two isolated VMs, run once each), in the
terms of `Loops`.
-/

namespace FermiHV

open RunLoop (Flow Loop)

/-! ## 1. Ticks for one guest -/

/-- `virq_demo(nticks)`; the counter is `ticks`. -/
def virqDemo (nticks : Nat) : Loop Counted Event where
  cond := fun s => s.count < nticks
  body := fun e s =>
    let h := s.hv.enter 0 e
    let v := h.vcpus 0
    match v.exitKind with
    | .irq => .next { s with hv := if e.timerTick then h.inject 0 27 else h }
    | .hvc => .next { hv := h, count := s.count + 1 }
    | .abort | .smc | .sysreg | .other => .brk { s with hv := h }

/-- What `virq_demo` does before its loop; the tables and the emulated GIC are those
of the demos before it. -/
def virqDemoStart (img : Image) (entry sp : U64) (h : Hv) : Counted where
  hv := h.setVcpu 0 (vcpuInit entry sp (stage2Vttbr img) 0)
  count := 0

/-! ## 2. Two vCPUs and their SGIs -/

/-- `h` after `stage2_init`, `vgic_reset` and the two `vcpu_init` calls of these
demos: both vCPUs start at `entry`, each with its own stack and its number in
`x0`. -/
def Hv.twoCpus (img : Image) (entry sp0 sp1 : U64) (h : Hv) : Hv :=
  (h.reset.setVcpu 0 ((vcpuInit entry sp0 (stage2Vttbr img) 0).setX 0 0)).setVcpu 1
    ((vcpuInit entry sp1 (stage2Vttbr img) 1).setX 0 1)

/-- The locals of `smp_demo`. -/
structure SmpDemo where
  hv : Hv
  round : Nat
  i : Fin 2
  got : Bool

/-- The next turn of the inner `for`, or the first one of the next round. -/
def SmpDemo.turn (s : SmpDemo) : SmpDemo :=
  { s with i := s.i + 1, round := if s.i = 0 then s.round else s.round + 1 }

/-- `smp_demo`. A pass is one turn of the inner loop; both loops test `got`. -/
def smpDemo : Loop SmpDemo Event where
  cond := fun s => s.round < 50 && !s.got
  body := fun e s =>
    let c := s.i
    let h := (s.hv.deliverSgi c).enter c e
    let v := h.vcpus c
    let s := { s with hv := h }
    match v.exitKind with
    | .irq => .next s.turn
    | .sysreg => .next { s with hv := h.postSgi c }.turn
    | .hvc => .next { s with got := c ≠ 0 }.turn
    | .abort | .smc | .other => .next { s with got := true }.turn

/-- What `smp_demo` does before its loop. -/
def smpDemoStart (img : Image) (entry sp0 sp1 : U64) (h : Hv) : SmpDemo where
  hv := h.twoCpus img entry sp0 sp1
  round := 0
  i := 0
  got := false

/-- The locals of `smp_sched_demo`. -/
structure SmpSched where
  hv : Hv
  cur : Fin 2
  slices : Nat
  guard : Nat

/-- `smp_sched_demo`. -/
def smpSchedDemo : Loop SmpSched Event where
  cond := fun s => s.slices < 12 && s.guard < 100000
  body := fun e s =>
    let c := s.cur
    let h := (s.hv.deliverSgi c).enter c e
    let v := h.vcpus c
    let s := { s with hv := h, guard := s.guard + 1 }
    match v.exitKind with
    | .irq => .next (if e.timerTick then { s with slices := s.slices + 1, cur := c + 1 } else s)
    | .sysreg => .next { s with hv := h.postSgi c }
    | .abort | .smc | .hvc | .other => .brk s

/-- What `smp_sched_demo` does before its loop. -/
def smpSchedDemoStart (img : Image) (entry sp0 sp1 : U64) (h : Hv) : SmpSched where
  hv := h.twoCpus img entry sp0 sp1
  cur := 0
  slices := 0
  guard := 0

/-! ## 3. Two isolated VMs -/

/-- The position of the `for` loop of `mtenant_demo`. -/
structure Once where
  hv : Hv
  i : Nat

/-- The loop of `mtenant_demo`: each VM runs once, whatever its exit is. -/
def mtenantDemo : Loop Once Event where
  cond := fun s => s.i < 2
  body := fun e s => .next { hv := s.hv.enter (Fin.ofNat 2 s.i) e, i := s.i + 1 }

/-- What `mtenant_demo` does before its loop; the emulated GIC is not reset. -/
def mtenantDemoStart (img : Image) (h : Hv) : Once where
  hv :=
    let h := { h with s2 := stage2Init h.s2 }.twoTenants img
      0x40000000 0x40008000 0x40000000 0x40008000
    (h.setVcpu 0 ((h.vcpus 0).setX 0 0)).setVcpu 1 ((h.vcpus 1).setX 0 1)
  i := 0

end FermiHV
