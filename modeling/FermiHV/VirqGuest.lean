import FermiHV.Demos
import FermiHV.Injection
import FermiHV.Virtio.Guests

/-!
# The guest that counts virtual timer ticks (`guest.S`)

`guest_virq_entry` enables its virtual CPU interface, installs its vectors and waits.
Its handler acknowledges the interrupt, counts it in `x21` and reports the count with a
hypercall. `virq_demo` counts the reports. Physical interrupts preempt the guest at any
instruction, in the handler too; the interface may raise the virtual interrupt whenever
it likes.

`virq_counts_agree`: whatever they do, the guest's count is the hypervisor's in every
report, and the guest leaves for nothing else.
-/

namespace FermiHV

open A64 (Instr Core Platform Program Reg Stop)
open ByteMem (Mem load store)
open RunLoop (Flow Loop)

/-! ## 1. The guest -/

/-- The system registers of the interface that the guest uses. -/
inductive IccReg
  | sre
  | pmr
  | igrpen1
  | iar1
  | eoir1

/-- The state of the virtual CPU interface: `ICH_LR<n>_EL2`, `ICH_VMCR_EL2` and
`ICH_AP1R0_EL2`. -/
structure IfaceState where
  lrs : Lrs
  vmcr : U64
  ap1r0 : U64

/-- A virtual CPU interface: what its registers do, and when it raises the interrupt. -/
structure CpuIface where
  mrs : IccReg → IfaceState → U64 × IfaceState
  msr : IccReg → U64 → IfaceState → IfaceState
  irq : IfaceState → Bool

/-- The RAM of the guest and its interface. -/
structure VirqWorld where
  mem : Mem 64
  iface : IfaceState

def virqPlatform (f : CpuIface) : Platform IccReg VirqWorld where
  load := fun w a n => if InRamN a n then some (load w.mem a n) else none
  store := fun w a n v => if InRamN a n then some { w with mem := store w.mem a n v } else none
  mrs := fun r w => ((f.mrs r w.iface).1, { w with iface := (f.mrs r w.iface).2 })
  msr := fun r v w => { w with iface := f.msr r v w.iface }
  irq := fun w => f.irq w.iface

/-- `guest_virq_entry`, with its vectors at the index `vec`. -/
def virqSetup (vec : Nat) : List (Instr IccReg) :=
  [.mov 0 1, .msr .sre 0, .nop, .mov 0 0xFF, .msr .pmr 0, .mov 0 1, .msr .igrpen1 0,
    .adr 0 vec, .msrVbar 0, .nop, .mov 21 0, .unmaskIrq, .nop, .b 12]

/-- `guest_irq` and `guest_unhandled`, which has the index `bad`. -/
def virqHandler (bad : Nat) : List (Instr IccReg) :=
  [.addSp (-32), .stp 0 1 0, .stp 29 30 16, .mrs 0 .iar1, .add 21 21 1, .msr .eoir1 0,
    .movr 0 21, .hvc, .ldp 29 30 16, .ldp 0 1 0, .addSp 32, .eret, .b bad]

/-- A vector of `guest_el1_vectors`: 32 instructions, of which the first is a branch. The
sixth is the one for IRQs. -/
def virqVector (vec i : Nat) : Option (Instr IccReg) :=
  if i % 32 = 0 then some (.b (if i = 160 then vec + 481 else vec + 493)) else none

/-- The guest at `base`; the handler follows the last vector. In the image `vec` is where
`.balign 2048` puts the vectors. -/
def guestVirq (base : U64) (vec : Nat) : Program IccReg where
  base := base
  code := fun i =>
    if i < 14 then (virqSetup vec)[i]?
    else if i < vec then none
    else if i < vec + 481 then virqVector vec (i - vec)
    else (virqHandler (vec + 493))[i - (vec + 481)]?

/-! ## 2. The demo with its guest -/

/-- The context in which a physical interrupt takes the guest out. -/
def GuestCtx.preempted (g : GuestCtx) (s : Core) : GuestCtx :=
  { g with
    x := s.x
    spEl1 := s.sp
    pc := s.pc
    pstate := s.pstate
    vbarEl1 := s.vbar
    elrEl1 := s.elr
    spsrEl1 := s.spsr
    exitReason := 9 }

/-- The context that the guest leaves. -/
def virqExit (g : GuestCtx) (s : Core) (w : VirqWorld) (k : Option Stop) : GuestCtx :=
  { k.elim (g.preempted s) (g.left s) with
    ichLr := w.iface.lrs
    ichVmcr := w.iface.vmcr
    ichAp1r0 := w.iface.ap1r0 }

/-- One pass: the steps that the guest makes until a physical interrupt comes, if it does
not leave before, and the value of `gic_ack` then. -/
structure VirqPass where
  steps : Nat
  iar : U64

structure VirqRun where
  demo : Counted
  mem : Mem 64

namespace VirqRun

variable (p : Program IccReg) (f : CpuIface)

def guest (s : VirqRun) : GuestCtx := (s.demo.hv.vcpus 0).toGuestCtx

/-- The guest runs from where it was. -/
def ran (e : VirqPass) (s : VirqRun) : Core × VirqWorld × Option Stop :=
  A64.runFor p (virqPlatform f) e.steps s.guest.core
    { mem := s.mem, iface := ⟨s.guest.ichLr, s.guest.ichVmcr, s.guest.ichAp1r0⟩ }

def event (e : VirqPass) (s : VirqRun) : Event where
  ctx := virqExit s.guest (s.ran p f e).1 (s.ran p f e).2.1 (s.ran p f e).2.2
  iar := e.iar
  key := none

/-- `virq_demo` with the guest. -/
def loop (nticks : Nat) : Loop VirqRun VirqPass where
  cond := fun s => (virqDemo nticks).cond s.demo
  body := fun e s => ((virqDemo nticks).body (s.event p f e) s.demo).map fun demo =>
    { demo, mem := (s.ran p f e).2.1.mem }

end VirqRun

/-! ## 3. Where the guest is -/

section Steps

variable {base sp0 : U64} {vec n : Nat} {f : CpuIface} {s s' : Core} {w w' : VirqWorld}

/-- In its loop, at `wfi` or at the branch back. -/
def Idles (base : U64) (vec : Nat) (a : U64) : Prop :=
  a = (guestVirq base vec).label 12 ∨ a = (guestVirq base vec).label 13

/-- An interrupt of the loop is being handled. -/
structure Handling (base : U64) (vec : Nat) (s : Core) : Prop where
  masked : s.unmasked = false
  vbar : s.vbar = (guestVirq base vec).label vec
  elr : Idles base vec s.elr
  spsr : s.spsr &&& 0x80 = 0

theorem Handling.setPc (h : Handling base vec s) (a : U64) :
    Handling base vec { s with pc := a } where
  masked := by
    have hsame : ({ s with pc := a } : Core).unmasked = s.unmasked := by
      rw [Core.unmasked, Core.unmasked]
    rw [hsame]
    exact h.masked
  vbar := h.vbar
  elr := h.elr
  spsr := h.spsr

/-- The guest when it has made `n` reports. The counter is ahead by one between the
addition and the report. -/
inductive Counts (base sp0 : U64) (vec n : Nat) (s : Core) : Prop
  | setup (i : Nat) (hi : i < 12) (pc : s.pc = (guestVirq base vec).label i)
      (masked : s.unmasked = false) (sp : s.sp = sp0) (zero : n = 0)
      (x0 : i = 8 → s.x 0 = (guestVirq base vec).label vec)
      (vbar : 9 ≤ i → s.vbar = (guestVirq base vec).label vec) (x21 : i = 11 → s.x 21 = 0)
  | idle (pc : Idles base vec s.pc) (unmasked : s.unmasked = true)
      (vbar : s.vbar = (guestVirq base vec).label vec) (sp : s.sp = sp0)
      (x21 : s.x 21 = BitVec.ofNat 64 n)
  | vector (pc : s.pc = (guestVirq base vec).label (vec + 160)) (handling : Handling base vec s)
      (sp : s.sp = sp0) (x21 : s.x 21 = BitVec.ofNat 64 n)
  | handler (j : Nat) (hj : j < 12) (pc : s.pc = (guestVirq base vec).label (vec + 481 + j))
      (handling : Handling base vec s) (sp : s.sp = if 1 ≤ j ∧ j ≤ 10 then sp0 - 32 else sp0)
      (x21 : s.x 21 = BitVec.ofNat 64 (if 5 ≤ j ∧ j ≤ 7 then n + 1 else n))
      (x0 : j = 7 → s.x 0 = BitVec.ofNat 64 (n + 1))

theorem code_irq (base : U64) {vec : Nat} (hvec : 14 ≤ vec) :
    (guestVirq base vec).code (vec + 160) = some (.b (vec + 481)) := by
  have h1 : ¬ vec + 160 < 14 := by omega
  have h2 : ¬ vec + 160 < vec := by omega
  have h3 : vec + 160 < vec + 481 := by omega
  simp only [guestVirq, h1, h2, h3, if_true, if_false, virqVector, Nat.add_sub_cancel_left]

theorem code_handler (base : U64) {vec : Nat} (hvec : 14 ≤ vec) (j : Nat) :
    (guestVirq base vec).code (vec + 481 + j) = (virqHandler (vec + 493))[j]? := by
  have h1 : ¬ vec + 481 + j < 14 := by omega
  have h2 : ¬ vec + 481 + j < vec := by omega
  have h3 : ¬ vec + 481 + j < vec + 481 := by omega
  simp only [guestVirq, h1, h2, h3, if_false, Nat.add_sub_cancel_left]

theorem masked_quiet (f : CpuIface) (w : VirqWorld) (hm : s.unmasked = false) :
    ((virqPlatform f).irq w && s.unmasked) = false := by
  rw [hm, Bool.and_false]

/-- The handler is not interrupted: a step executes the instruction it is at. -/
theorem step_handler (f : CpuIface) (w : VirqWorld) {j : Nat} {c : Instr IccReg}
    (hvec : 14 ≤ vec) (hbig : vec < 2 ^ 32) (hj : j < 12)
    (hpc : s.pc = (guestVirq base vec).label (vec + 481 + j)) (ht : Handling base vec s)
    (hc : (virqHandler (vec + 493))[j]? = some c) :
    A64.step (guestVirq base vec) (virqPlatform f) s w =
      A64.exec (guestVirq base vec) (virqPlatform f) s w c :=
  A64.step_of_quiet (masked_quiet f w ht.masked) hpc (by omega)
    ((code_handler base hvec j).trans hc)

/-- A raised interrupt is taken when it is not masked. -/
theorem step_irq (hirq : (virqPlatform f).irq w = true) (hun : s.unmasked = true) :
    A64.step (guestVirq base vec) (virqPlatform f) s w = .next s.takeIrq w := by
  rw [A64.step, hirq, hun, Bool.true_and, if_pos rfl]

/-- Taking an interrupt in the loop. -/
theorem takeIrq_counts (hpc : Idles base vec s.pc) (hun : s.unmasked = true)
    (hvbar : s.vbar = (guestVirq base vec).label vec) (hsp : s.sp = sp0)
    (h21 : s.x 21 = BitVec.ofNat 64 n) : Counts base sp0 vec n s.takeIrq := by
  have hspsr : s.pstate &&& 0x80 = 0 := by simpa [Core.unmasked] using hun
  rw [Core.takeIrq]
  refine .vector ?_ ⟨?_, hvbar, hpc, hspsr⟩ hsp h21
  · have hoff : BitVec.ofNat 64 (4 * (vec + 160)) = BitVec.ofNat 64 (4 * vec) + 0x280 := by
      have hval : BitVec.ofNat 64 (4 * 160) = 0x280 := by decide
      rw [Nat.mul_add, BitVec.ofNat_add, hval]
    change s.vbar + 0x280 = _
    rw [hvbar, Program.label, Program.label, hoff, BitVec.add_assoc]
  · refine decide_eq_false fun hzero => ?_
    have hbit := congrArg (fun v : U64 => v.getLsbD 7) hzero
    simp at hbit

/-- A step of the set-up that only goes on. -/
theorem setup_next {i : Nat} (hi : i < 11) (hpc : s.pc = (guestVirq base vec).label i)
    (hm : s.unmasked = false) (hsp : s.sp = sp0) (hn : n = 0) (hpc' : s'.pc = s.pc + 4)
    (hps : s'.pstate = s.pstate) (hsp' : s'.sp = s.sp)
    (h0 : i + 1 = 8 → s'.x 0 = (guestVirq base vec).label vec)
    (hv : 9 ≤ i + 1 → s'.vbar = (guestVirq base vec).label vec) (h21 : i + 1 = 11 → s'.x 21 = 0) :
    Counts base sp0 vec n s' := by
  refine .setup (i + 1) (by omega) ?_ ?_ (hsp'.trans hsp) hn h0 hv h21
  · rw [hpc', hpc, Program.label_add_four]
  · rw [Core.unmasked, hps]
    exact hm

/-- A step of the handler that only goes on. -/
theorem handler_next {j : Nat} (hj : j < 11)
    (hpc : s.pc = (guestVirq base vec).label (vec + 481 + j)) (ht : Handling base vec s)
    (hpc' : s'.pc = s.pc + 4) (hps : s'.pstate = s.pstate) (hvbar : s'.vbar = s.vbar)
    (helr : s'.elr = s.elr) (hspsr : s'.spsr = s.spsr)
    (hsp : s'.sp = if 1 ≤ j + 1 ∧ j + 1 ≤ 10 then sp0 - 32 else sp0)
    (h21 : s'.x 21 = BitVec.ofNat 64 (if 5 ≤ j + 1 ∧ j + 1 ≤ 7 then n + 1 else n))
    (h0 : j + 1 = 7 → s'.x 0 = BitVec.ofNat 64 (n + 1)) : Counts base sp0 vec n s' := by
  refine .handler (j + 1) (by omega) ?_ ⟨?_, hvbar.trans ht.vbar, ?_, ?_⟩ hsp h21 h0
  · rw [hpc', hpc, Program.label_add_four]
    rfl
  · rw [Core.unmasked, hps]
    exact ht.masked
  · rw [helr]
    exact ht.elr
  · rw [hspsr]
    exact ht.spsr

theorem virq_store (hram : RamAt (sp0 - 32) 32) {off : U64} (hoff : off.toNat + 8 ≤ 32) (v : Nat) :
    (virqPlatform f).store w (sp0 - 32 + off) 8 v =
      some { w with mem := store w.mem (sp0 - 32 + off) 8 v } :=
  if_pos (hram.inRamN (by omega) le_rfl hoff)

theorem virq_load (hram : RamAt (sp0 - 32) 32) {off : U64} (hoff : off.toNat + 8 ≤ 32) :
    (virqPlatform f).load w (sp0 - 32 + off) 8 = some (load w.mem (sp0 - 32 + off) 8) :=
  if_pos (hram.inRamN (by omega) le_rfl hoff)

theorem setup_step {i : Nat} (hi : i < 12) (hpc : s.pc = (guestVirq base vec).label i)
    (hm : s.unmasked = false) (hsp : s.sp = sp0) (hn : n = 0)
    (h0 : i = 8 → s.x 0 = (guestVirq base vec).label vec)
    (hv : 9 ≤ i → s.vbar = (guestVirq base vec).label vec) (h21 : i = 11 → s.x 21 = 0)
    (hstep : A64.step (guestVirq base vec) (virqPlatform f) s w = .next s' w') :
    Counts base sp0 vec n s' := by
  have hq := masked_quiet f w hm
  interval_cases i
  all_goals
    rw [A64.step_of_quiet hq hpc (by decide) rfl] at hstep
    cases hstep
  iterate 7 exact setup_next (by decide) hpc hm hsp hn rfl rfl rfl (by omega) (by omega) (by omega)
  · exact setup_next (by decide) hpc hm hsp hn rfl rfl rfl (fun _ => rfl) (by omega) (by omega)
  · exact setup_next (by decide) hpc hm hsp hn rfl rfl rfl (by omega) (fun _ => h0 rfl) (by omega)
  · exact setup_next (by decide) hpc hm hsp hn rfl rfl rfl (by omega) (fun _ => hv le_rfl)
      (by omega)
  · exact setup_next (by decide) hpc hm hsp hn rfl rfl rfl (by omega) (fun _ => hv (by decide))
      (fun _ => rfl)
  · -- the interrupts are unmasked, and the loop begins
    refine .idle (.inl ?_) (decide_eq_true ?_) (hv (by decide)) hsp ?_
    · exact (congrArg (· + 4) hpc).trans (Program.label_add_four _ _)
    · change s.pstate &&& ~~~0x80 &&& 0x80 = 0
      rw [BitVec.and_assoc]
      exact BitVec.and_zero
    · rw [hn]
      exact h21 rfl

/-- In the loop either the interrupt is taken or the loop goes on. -/
theorem idle_step (hpc : Idles base vec s.pc) (hun : s.unmasked = true)
    (hvbar : s.vbar = (guestVirq base vec).label vec) (hsp : s.sp = sp0)
    (h21 : s.x 21 = BitVec.ofNat 64 n)
    (hstep : A64.step (guestVirq base vec) (virqPlatform f) s w = .next s' w') :
    Counts base sp0 vec n s' := by
  cases hirq : (virqPlatform f).irq w with
  | true =>
    rw [step_irq hirq hun] at hstep
    cases hstep
    exact takeIrq_counts hpc hun hvbar hsp h21
  | false =>
    rcases hpc with hpc | hpc
    · rw [A64.step_of_code hirq hpc (by decide) rfl] at hstep
      cases hstep
      refine .idle (.inr ?_) hun hvbar hsp h21
      exact (congrArg (· + 4) hpc).trans (Program.label_add_four _ _)
    · rw [A64.step_of_code hirq hpc (by decide) rfl] at hstep
      cases hstep
      exact .idle (.inl rfl) hun hvbar hsp h21

/-- The second register of a pair is in the frame of the handler. -/
theorem second_of_pair {off : U64} (hoff : off.toNat + 16 ≤ 32) : (off + 8).toNat + 8 ≤ 32 := by
  rw [BitVec.toNat_add]
  change (off.toNat + 8) % 2 ^ 64 + 8 ≤ 32
  omega

theorem exec_stp (base : U64) (vec : Nat) (f : CpuIface) (w : VirqWorld)
    (hram : RamAt (sp0 - 32) 32) (hsp : s.sp = sp0 - 32) {off : U64}
    (hoff : off.toNat + 16 ≤ 32) (t u : Reg) :
    ∃ w1, A64.exec (guestVirq base vec) (virqPlatform f) s w (.stp t u off) =
      .next s.advance w1 := by
  have hnext := second_of_pair hoff
  have hfirst : off.toNat + 8 ≤ 32 := by omega
  simp only [A64.exec, hsp, BitVec.add_assoc, virq_store hram hfirst, virq_store hram hnext]
  exact ⟨_, rfl⟩

theorem exec_ldp (base : U64) (vec : Nat) (f : CpuIface) (w : VirqWorld)
    (hram : RamAt (sp0 - 32) 32) (hsp : s.sp = sp0 - 32) {off : U64}
    (hoff : off.toNat + 16 ≤ 32) (t u : Reg) :
    ∃ a b, A64.exec (guestVirq base vec) (virqPlatform f) s w (.ldp t u off) =
      .next { s with x := Function.update (Function.update s.x t a) u b, pc := s.pc + 4 } w := by
  have hnext := second_of_pair hoff
  have hfirst : off.toNat + 8 ≤ 32 := by omega
  simp only [A64.exec, hsp, BitVec.add_assoc, virq_load hram hfirst, virq_load hram hnext]
  exact ⟨_, _, rfl⟩

theorem handler_step {j : Nat} (hvec : 14 ≤ vec) (hbig : vec < 2 ^ 32)
    (hram : RamAt (sp0 - 32) 32) (hj : j < 12)
    (hpc : s.pc = (guestVirq base vec).label (vec + 481 + j)) (ht : Handling base vec s)
    (hsp : s.sp = if 1 ≤ j ∧ j ≤ 10 then sp0 - 32 else sp0)
    (h21 : s.x 21 = BitVec.ofNat 64 (if 5 ≤ j ∧ j ≤ 7 then n + 1 else n))
    (hstep : A64.step (guestVirq base vec) (virqPlatform f) s w = .next s' w') :
    Counts base sp0 vec n s' := by
  have hcase : ∀ c, (virqHandler (vec + 493))[j]? = some c →
      A64.exec (guestVirq base vec) (virqPlatform f) s w c = .next s' w' :=
    fun _ hc => (step_handler f w hvec hbig hj hpc ht hc).symm.trans hstep
  interval_cases j
  · cases hcase _ rfl
    refine handler_next (by decide) hpc ht rfl rfl rfl rfl rfl ?_ h21 (by omega)
    exact (congrArg (· + -32) hsp).trans (BitVec.sub_eq_add_neg sp0 32).symm
  · obtain ⟨w1, hexec⟩ := exec_stp base vec f w hram hsp
      (show (0 : U64).toNat + 16 ≤ 32 by decide) 0 1
    cases hexec.symm.trans (hcase _ rfl)
    exact handler_next (by decide) hpc ht rfl rfl rfl rfl rfl hsp h21 (by omega)
  · obtain ⟨w1, hexec⟩ := exec_stp base vec f w hram hsp
      (show (16 : U64).toNat + 16 ≤ 32 by decide) 29 30
    cases hexec.symm.trans (hcase _ rfl)
    exact handler_next (by decide) hpc ht rfl rfl rfl rfl rfl hsp h21 (by omega)
  · cases hcase _ rfl
    exact handler_next (by decide) hpc ht rfl rfl rfl rfl rfl hsp h21 (by omega)
  · cases hcase _ rfl
    refine handler_next (by decide) hpc ht rfl rfl rfl rfl rfl hsp ?_ (by omega)
    exact (congrArg (· + 1) h21).trans (BitVec.ofNat_add n 1).symm
  · cases hcase _ rfl
    exact handler_next (by decide) hpc ht rfl rfl rfl rfl rfl hsp h21 (by omega)
  · cases hcase _ rfl
    exact handler_next (by decide) hpc ht rfl rfl rfl rfl rfl hsp h21 (fun _ => h21)
  · cases hcase _ rfl
  · obtain ⟨a, b, hexec⟩ := exec_ldp base vec f w hram hsp
      (show (16 : U64).toNat + 16 ≤ 32 by decide) 29 30
    cases hexec.symm.trans (hcase _ rfl)
    exact handler_next (by decide) hpc ht rfl rfl rfl rfl rfl hsp h21 (by omega)
  · obtain ⟨a, b, hexec⟩ := exec_ldp base vec f w hram hsp
      (show (0 : U64).toNat + 16 ≤ 32 by decide) 0 1
    cases hexec.symm.trans (hcase _ rfl)
    exact handler_next (by decide) hpc ht rfl rfl rfl rfl rfl hsp h21 (by omega)
  · cases hcase _ rfl
    refine handler_next (by decide) hpc ht rfl rfl rfl rfl rfl ?_ h21 (by omega)
    exact (congrArg (· + 32) hsp).trans (BitVec.sub_add_cancel sp0 32)
  · cases hcase _ rfl
    exact .idle ht.elr (decide_eq_true ht.spsr) ht.vbar hsp h21

/-- What each step keeps. -/
theorem Counts.step (hvec : 14 ≤ vec) (hbig : vec < 2 ^ 32) (hram : RamAt (sp0 - 32) 32)
    (h : Counts base sp0 vec n s)
    (hstep : A64.step (guestVirq base vec) (virqPlatform f) s w = .next s' w') :
    Counts base sp0 vec n s' := by
  cases h with
  | setup i hi hpc hm hsp hn h0 hv h21 => exact setup_step hi hpc hm hsp hn h0 hv h21 hstep
  | idle hpc hun hvbar hsp h21 => exact idle_step hpc hun hvbar hsp h21 hstep
  | vector hpc ht hsp h21 =>
    rw [A64.step_of_quiet (masked_quiet f w ht.masked) hpc (by omega) (code_irq base hvec)] at hstep
    cases hstep
    exact .handler 0 (by decide) rfl (ht.setPc _) hsp h21 (by omega)
  | handler j hj hpc ht hsp h21 => exact handler_step hvec hbig hram hj hpc ht hsp h21 hstep

/-- The guest stops only to report, with the new count in `x0`. -/
theorem Counts.stop (hvec : 14 ≤ vec) (hbig : vec < 2 ^ 32) (hram : RamAt (sp0 - 32) 32)
    (h : Counts base sp0 vec n s) {k : Stop}
    (hstep : A64.step (guestVirq base vec) (virqPlatform f) s w = .stop k) :
    k = .hvc ∧ s.x 0 = BitVec.ofNat 64 (n + 1) ∧
      Counts base sp0 vec (n + 1) { s with pc := s.pc + 4 } := by
  cases h with
  | setup i hi hpc hm hsp hn h0 hv h21 =>
    have hq := masked_quiet f w hm
    interval_cases i <;>
      (rw [A64.step_of_quiet hq hpc (by decide) rfl] at hstep
       cases hstep)
  | idle hpc hun hvbar hsp h21 =>
    cases hirq : (virqPlatform f).irq w with
    | true =>
      rw [step_irq hirq hun] at hstep
      cases hstep
    | false =>
      rcases hpc with hpc | hpc <;>
        (rw [A64.step_of_code hirq hpc (by decide) rfl] at hstep
         cases hstep)
  | vector hpc ht hsp h21 =>
    rw [A64.step_of_quiet (masked_quiet f w ht.masked) hpc (by omega) (code_irq base hvec)] at hstep
    cases hstep
  | handler j hj hpc ht hsp h21 h0 =>
    have hcase : ∀ c, (virqHandler (vec + 493))[j]? = some c →
        A64.exec (guestVirq base vec) (virqPlatform f) s w c = .stop k :=
      fun _ hc => (step_handler f w hvec hbig hj hpc ht hc).symm.trans hstep
    have hstp : ∀ {t u : Reg} {off : U64}, s.sp = sp0 - 32 → off.toNat + 16 ≤ 32 →
        A64.exec (guestVirq base vec) (virqPlatform f) s w (.stp t u off) ≠ .stop k := by
      intro t u off hsp hoff hstop
      obtain ⟨w1, hexec⟩ := exec_stp base vec f w hram hsp hoff t u
      cases hexec.symm.trans hstop
    have hldp : ∀ {t u : Reg} {off : U64}, s.sp = sp0 - 32 → off.toNat + 16 ≤ 32 →
        A64.exec (guestVirq base vec) (virqPlatform f) s w (.ldp t u off) ≠ .stop k := by
      intro t u off hsp hoff hstop
      obtain ⟨a, b, hexec⟩ := exec_ldp base vec f w hram hsp hoff t u
      cases hexec.symm.trans hstop
    interval_cases j
    · cases hcase _ rfl
    · exact absurd (hcase _ rfl) (hstp hsp (by decide))
    · exact absurd (hcase _ rfl) (hstp hsp (by decide))
    · cases hcase _ rfl
    · cases hcase _ rfl
    · cases hcase _ rfl
    · cases hcase _ rfl
    · cases hcase _ rfl
      refine ⟨rfl, h0 rfl, ?_⟩
      refine .handler 8 (by decide) ?_ (ht.setPc _) hsp h21 (by omega)
      exact (congrArg (· + 4) hpc).trans (Program.label_add_four _ _)
    · exact absurd (hcase _ rfl) (hldp hsp (by decide))
    · exact absurd (hcase _ rfl) (hldp hsp (by decide))
    · cases hcase _ rfl
    · cases hcase _ rfl

end Steps

/-! ## 4. The demo -/

section Demo

variable {base sp0 : U64} {vec : Nat} {f : CpuIface}

/-- The guest is where it is when it has made as many reports as the demo has counted. -/
def VirqRun.Agrees (base sp0 : U64) (vec : Nat) (s : VirqRun) : Prop :=
  Counts base sp0 vec s.demo.count s.guest.core

/-- A pass ends with a physical interrupt or with the next report. -/
theorem ran_cases (hvec : 14 ≤ vec) (hbig : vec < 2 ^ 32) (hram : RamAt (sp0 - 32) 32)
    {s : VirqRun} (h : s.Agrees base sp0 vec) (e : VirqPass) :
    let r := s.ran (guestVirq base vec) f e
    (r.2.2 = none ∧ Counts base sp0 vec s.demo.count r.1) ∨
      (r.2.2 = some .hvc ∧ r.1.x 0 = BitVec.ofNat 64 (s.demo.count + 1) ∧
        Counts base sp0 vec (s.demo.count + 1) { r.1 with pc := r.1.pc + 4 }) := by
  intro r
  obtain ⟨hcounts, hstop⟩ := A64.runFor_of_invariant (p := guestVirq base vec)
    (P := virqPlatform f) (I := fun s' _ => Counts base sp0 vec s.demo.count s') (n := e.steps)
    (m := { mem := s.mem, iface := ⟨s.guest.ichLr, s.guest.ichVmcr, s.guest.ichAp1r0⟩ })
    (fun _ _ _ _ hs hstep => hs.step hvec hbig hram hstep) h
  cases hk : r.2.2 with
  | none => exact .inl ⟨rfl, hcounts⟩
  | some k =>
    obtain ⟨rfl, h0, hnext⟩ := hcounts.stop hvec hbig hram (hstop k hk)
    exact .inr ⟨rfl, h0, hnext⟩

theorem exitKind_preempted (g : GuestCtx) (s : Core) (w : VirqWorld) :
    (virqExit g s w none).exitKind = .irq := by
  have hreason : (virqExit g s w none).exitReason = 9 := rfl
  rw [GuestCtx.exitKind, GuestCtx.exitIrq, hreason]
  exact if_pos (by decide)

theorem exitKind_hvc (g : GuestCtx) (s : Core) (w : VirqWorld) :
    (virqExit g s w (some .hvc)).exitKind = .hvc := by
  have hesr : (virqExit g s w (some .hvc)).exitEsr = 0x5A000000 := rfl
  have hreason : (virqExit g s w (some .hvc)).exitReason = 8 := rfl
  rw [GuestCtx.exitKind, GuestCtx.exitIrq, hreason, if_neg (by decide), GuestCtx.syncKind,
    GuestCtx.exitEc, hesr]
  decide

/-- An injection does not touch the registers of the guest. -/
theorem inject_core (h : Hv) (k : U32) :
    ((h.inject 0 k).vcpus 0).toGuestCtx.core = (h.vcpus 0).toGuestCtx.core := by
  rw [Hv.inject, setVcpu_vcpus_self]
  rcases vgicInject_cases k (h.vcpus 0) with ⟨hsame, -⟩ | ⟨i, -, -, hnew⟩
  · rw [hsame]
  · rw [hnew]
    rfl

/-- What a pass of the demo does with the exit of the guest. -/
def VirqRun.Reported (base : U64) (vec : Nat) (f : CpuIface) (s : VirqRun) (e : VirqPass)
    (count : Nat) : Prop :=
  let g := (s.event (guestVirq base vec) f e).ctx
  (g.exitKind = .irq ∧ count = s.demo.count) ∨
    (g.exitKind = .hvc ∧ g.x 0 = BitVec.ofNat 64 count ∧ count = s.demo.count + 1)

theorem loop_agrees (hvec : 14 ≤ vec) (hbig : vec < 2 ^ 32) (hram : RamAt (sp0 - 32) 32)
    (nticks : Nat) {s : VirqRun} (h : s.Agrees base sp0 vec) (e : VirqPass) :
    ∃ s', (VirqRun.loop (guestVirq base vec) f nticks).body e s = .next s' ∧
      s'.Agrees base sp0 vec ∧ s.Reported base vec f e s'.demo.count := by
  let ev := s.event (guestVirq base vec) f e
  have hctx : ev.ctx = virqExit s.guest (s.ran (guestVirq base vec) f e).1
    (s.ran (guestVirq base vec) f e).2.1 (s.ran (guestVirq base vec) f e).2.2 := rfl
  have hvcpu : (s.demo.hv.enter 0 ev).vcpus 0 = vcpuRunOnce ev.ctx (s.demo.hv.vcpus 0) :=
    enter_vcpus_self
  have hkind : ((s.demo.hv.enter 0 ev).vcpus 0).exitKind = ev.ctx.exitKind := by
    rw [hvcpu]
    rfl
  have hcore : ((s.demo.hv.enter 0 ev).vcpus 0).toGuestCtx.core = ev.ctx.core := by
    rw [hvcpu, vcpuRunOnce_ctx]
  rcases ran_cases (f := f) hvec hbig hram h e with ⟨hk, hcounts⟩ | ⟨hk, h0, hcounts⟩
  · rw [hk] at hctx
    have hirq : ev.ctx.exitKind = .irq := by rw [hctx, exitKind_preempted]
    have hbody : (virqDemo nticks).body ev s.demo = .next { s.demo with
        hv := if ev.timerTick then (s.demo.hv.enter 0 ev).inject 0 27
          else s.demo.hv.enter 0 ev } := by
      simp only [virqDemo, hkind, hirq]
    refine ⟨_, congrArg (Flow.map _) hbody, ?_, .inl ⟨hirq, rfl⟩⟩
    have hafter : ((if ev.timerTick then (s.demo.hv.enter 0 ev).inject 0 27
        else s.demo.hv.enter 0 ev).vcpus 0).toGuestCtx.core = ev.ctx.core := by
      split
      · rw [inject_core, hcore]
      · exact hcore
    change Counts base sp0 vec s.demo.count _
    rw [VirqRun.guest, hafter, hctx]
    exact hcounts
  · rw [hk] at hctx
    have hhvc : ev.ctx.exitKind = .hvc := by rw [hctx, exitKind_hvc]
    have hbody : (virqDemo nticks).body ev s.demo =
        .next { hv := s.demo.hv.enter 0 ev, count := s.demo.count + 1 } := by
      simp only [virqDemo, hkind, hhvc]
    have hx : ev.ctx.x 0 = BitVec.ofNat 64 (s.demo.count + 1) := by
      rw [hctx]
      exact h0
    refine ⟨_, congrArg (Flow.map _) hbody, ?_, .inr ⟨hhvc, hx, rfl⟩⟩
    change Counts base sp0 vec (s.demo.count + 1) _
    rw [VirqRun.guest, hcore, hctx]
    exact hcounts

/-- `virq_demo` before its loop. -/
def virqRunStart (img : Image) (base sp0 : U64) (h : Hv) (mem : Mem 64) : VirqRun where
  demo := virqDemoStart img base sp0 h
  mem := mem

theorem start_agrees (img : Image) (h : Hv) (mem : Mem 64) :
    (virqRunStart img base sp0 h mem).Agrees base sp0 vec := by
  have hguest : (virqRunStart img base sp0 h mem).guest =
      (vcpuInit base sp0 (stage2Vttbr img) 0).toGuestCtx := by
    rw [VirqRun.guest, virqRunStart, virqDemoStart, setVcpu_vcpus_self]
  rw [VirqRun.Agrees, hguest]
  refine .setup 0 (by decide) ?_ ?_ rfl rfl (by omega) (by omega) (by omega)
  · exact (BitVec.add_zero base).symm
  · have hps : (vcpuInit base sp0 (stage2Vttbr img) 0).toGuestCtx.core.pstate = 0x3C5 := rfl
    rw [Core.unmasked, hps]
    decide

/-- The virtual ticks: with whatever memory the guest starts, whenever the physical
interrupts preempt it and whatever its interface does, it leaves only for them and to
report, and what it reports is what the demo then has counted. -/
theorem virq_counts_agree (img : Image) (base sp0 : U64) (vec : Nat) (h : Hv) (mem : Mem 64)
    (f : CpuIface) (nticks : Nat) (es : List VirqPass) (hvec : 14 ≤ vec) (hbig : vec < 2 ^ 32)
    (hram : RamAt (sp0 - 32) 32) :
    let L := VirqRun.loop (guestVirq base vec) f nticks
    ∀ q ∈ L.iters (virqRunStart img base sp0 h mem) es,
      ∃ s', L.body q.2 q.1 = .next s' ∧ q.1.Reported base vec f q.2 s'.demo.count := by
  intro L q hq
  have hagrees : q.1.Agrees base sp0 vec := by
    refine Loop.iters_of_invariant (C := fun _ _ => True) ?_ (start_agrees img h mem)
      (fun _ _ => trivial) q hq
    intro s e s' hs _ hnext
    obtain ⟨s1, hbody, hs1, -⟩ := loop_agrees (f := f) hvec hbig hram nticks hs e
    cases hbody.symm.trans hnext
    exact hs1
  obtain ⟨s', hbody, -, hrep⟩ := loop_agrees (f := f) hvec hbig hram nticks hagrees q.2
  exact ⟨s', hbody, hrep⟩

/-- An interface that always raises the timer's interrupt. -/
def eagerIface : CpuIface where
  mrs := fun _ st => (27, st)
  msr := fun _ _ st => st
  irq := fun _ => true

theorem virq_counts_agree_eager :
    let s0 := virqRunStart exampleImage 0x40080000 0x40090000 (resetHv exampleImage 0) (fun _ => 0)
    let L := VirqRun.loop (guestVirq 0x40080000 512) eagerIface 3
    (s0.event (guestVirq 0x40080000 512) eagerIface ⟨30, 0⟩).ctx.exitKind = .hvc ∧
      ∀ q ∈ L.iters s0 [⟨30, 0⟩, ⟨5, 26⟩, ⟨30, 0⟩], ∃ s', L.body q.2 q.1 = .next s' ∧
        q.1.Reported 0x40080000 512 eagerIface q.2 s'.demo.count :=
  ⟨by decide +kernel, virq_counts_agree exampleImage 0x40080000 0x40090000 512
    (resetHv exampleImage 0) (fun _ => 0) eagerIface 3 _ (by decide) (by decide) (by decide)⟩

end Demo

end FermiHV
