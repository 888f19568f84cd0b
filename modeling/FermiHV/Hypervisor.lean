import FermiHV.Stage2
import FermiHV.Vgic
import FermiHV.Vuart

/-!
# The hypervisor's state and the exit handlers that the run loops share

`Hv` gathers the static variables that the run loops of `vcpu.c` read and write.
The loops decode an exit by its reason and exception class (`exitKind`) and call
the same handlers: `vgicInject`, `psciHandle`, `cntpEmulate`, and for a stage-2
abort one of the actions of `AbortAction`, which each loop selects in its own
order of tests.

Left out: what the hypervisor prints, the physical interrupt controller beyond
the value of `gic_ack`, the tick counter of the EL2 timer, and the control
registers that are written once before a loop.
-/

namespace FermiHV

/-- The emulated EL1 physical timer of a VM. -/
structure Cntp where
  ctl : U64
  cval : U64
  tval : U64

/-- `psci_on_pending`, `psci_on_entry`, `psci_on_ctx`. -/
structure PsciOn where
  pending : Bool
  entry : U64
  ctx : U64

structure Hv where
  vcpus : Fin 2 → Vcpu
  s2 : Stage2
  vgic : Vgic
  uart : Vuart
  cntp : Fin 2 → Cntp
  psciOn : PsciOn

/-- What comes from outside in one pass of a run loop: the context in which the
guest exits, the value of `gic_ack`, and a keystroke from
`uart_getc_nonblock`. -/
structure Event where
  ctx : GuestCtx
  iar : U64
  key : Option U8

def Hv.setVcpu (c : Fin 2) (v : Vcpu) (h : Hv) : Hv :=
  { h with vcpus := Function.update h.vcpus c v }

/-- `vcpu_run_once(&vcpus[c])`. -/
def Hv.enter (c : Fin 2) (e : Event) (h : Hv) : Hv := h.setVcpu c (vcpuRunOnce e.ctx (h.vcpus c))

/-- `vcpus[c].pc += 4`. -/
def Hv.skip (c : Fin 2) (h : Hv) : Hv := h.setVcpu c (h.vcpus c).skip

/-! ## 1. Decoding an exit -/

inductive ExitKind
  | irq
  | abort
  | sysreg
  | smc
  | hvc
  | other
deriving DecidableEq

/-- The tests on `ESR_EC(exit_esr)`. -/
def GuestCtx.syncKind (g : GuestCtx) : ExitKind :=
  if g.exitEc = ecDabtLow ∨ g.exitEc = ecIabtLow then .abort
  else if g.exitEc = ecSysreg then .sysreg
  else if g.exitEc = ecSmc64 then .smc
  else if g.exitEc = ecHvc64 then .hvc
  else .other

/-- The same after the test `(exit_reason & 3) == 1`. -/
def GuestCtx.exitKind (g : GuestCtx) : ExitKind := if g.exitIrq then .irq else g.syncKind

/-- The physical interrupt is the EL2 timer (`HYP_TIMER_PPI`). -/
def Event.timerTick (e : Event) : Bool := e.iar &&& 0xFFFFFF = 26

/-! ## 2. Interrupts -/

/-- The state field of a list register: 0 idle, 1 pending, 2 active, 3 both. -/
def lrState (lr : U64) : U64 := (lr >>> 62) &&& 3

/-- The slot holds the interrupt, pending or active. -/
def lrHolds (vintid : U32) (lr : U64) : Bool :=
  lrState lr ≠ 0 && lr &&& 0xFFFFFFFF = vintid.setWidth 64

/-- A pending Group-1 interrupt. -/
def pendingLr (vintid : U32) : U64 := (1#64 <<< 62) ||| (1#64 <<< 60) ||| vintid.setWidth 64

/-- The first idle slot. -/
def freeSlot (lrs : Fin 4 → U64) : Option (Fin 4) :=
  (List.finRange 4).find? fun i => lrState (lrs i) = 0

/-- `vgic_inject`: nothing happens when a slot holds the interrupt already or no
slot is free. -/
def vgicInject (vintid : U32) (v : Vcpu) : Vcpu :=
  if ∃ i, lrHolds vintid (v.ichLr i) = true then v
  else
    match freeSlot v.ichLr with
    | some i => { v with ichLr := Function.update v.ichLr i (pendingLr vintid) }
    | none => v

def Hv.inject (c : Fin 2) (vintid : U32) (h : Hv) : Hv :=
  h.setVcpu c (vgicInject vintid (h.vcpus c))

/-! ## 3. PSCI -/

/-- The function identifier of a PSCI call. -/
def GuestCtx.psciFn (g : GuestCtx) : U32 := (g.getX 0).setWidth 32

/-- SYSTEM_OFF or SYSTEM_RESET. -/
def psciOffFn (fn : U32) : Bool := fn = 0x84000008 || fn = 0x84000009

/-- CPU_ON, in its 64-bit and 32-bit forms. -/
def psciCpuOnFn (fn : U32) : Bool := fn = 0xC4000003 || fn = 0x84000003

/-- `psci_handle(&vcpus[c])`. -/
def psciHandle (c : Fin 2) (h : Hv) : Hv :=
  let v := h.vcpus c
  let fn := v.psciFn
  if fn = 0x84000000 then h.setVcpu c (v.setX 0 0x00010000)
  else if psciOffFn fn then h.setVcpu c { v with halted := true }
  else if psciCpuOnFn fn then
    { h.setVcpu c (v.setX 0 0) with
      psciOn := { pending := true, entry := v.getX 2, ctx := v.getX 3 } }
  else h.setVcpu c (v.setX 0 (-1))

/-! ## 4. The emulated physical timer -/

def Cntp.read (t : Cntp) (op2 : U64) : U64 :=
  if op2 = 1 then t.ctl else if op2 = 2 then t.cval else t.tval

def Cntp.write (t : Cntp) (op2 val : U64) : Cntp :=
  if op2 = 1 then { t with ctl := val }
  else if op2 = 2 then { t with cval := val }
  else { t with tval := val }

/-- `cntp_emulate(vm, &vcpus[c])`. -/
def cntpEmulate (vm c : Fin 2) (h : Hv) : Hv :=
  let v := h.vcpus c
  let iss := esrIss v.exitEsr
  if issCrn iss = 14 ∧ issCrm iss = 2 then
    if issDir iss = 0 then
      { h with
        cntp := Function.update h.cntp vm
          ((h.cntp vm).write (issOp2 iss) (v.getX (issRt iss))) }.skip c
    else (h.setVcpu c (v.setX (issRt iss) ((h.cntp vm).read (issOp2 iss)))).skip c
  else h.skip c

/-! ## 5. Stage-2 aborts -/

/-- What a run loop does with a stage-2 abort. -/
inductive AbortAction
  | vgic
  | vuart
  /-- `stage2_map_1gb(base)` and retry. -/
  | fault (base : U64)
  | zero
  | skip
  /-- Print a line and retry. -/
  | report

/-- Perform the action for an abort of `vcpus[c]` at `ipa`; the vGIC state is
that of `vm`. -/
def Hv.abort (vm : Int) (c : Fin 2) (ipa : U64) (a : AbortAction) (h : Hv) : Hv :=
  match a with
  | .vgic =>
    let (v, g) := vgicMmio vm (h.vcpus c) ipa h.vgic
    { h.setVcpu c v with vgic := g }
  | .vuart =>
    let (v, u) := mmioEmulate (h.vcpus c) ipa h.uart
    { h.setVcpu c v with uart := u }
  | .fault base => { h with s2 := stage2Map1gb base h.s2 }
  | .zero => h.setVcpu c (mmioZero (h.vcpus c))
  | .skip => h.skip c
  | .report => h

/-- The hypervisor after its resets, with both vCPUs about to start at `entry`. -/
def resetHv (img : Image) (entry : U64) : Hv where
  vcpus := fun c => vcpuInit entry 0 (stage2Vttbr img) c.val
  s2 := stage2Init { s2L1 := fun _ => 0, s2Vm := fun _ _ => 0, vtcr := 0 }
  vgic := vgicReset
    { vg := fun _ => { gicdCtlr := 0, enabled := 0, group := 0, spiEnabled := fun _ => 0 }
      sgiPending := fun _ => 0
      ngicr := 1 }
  uart := { imsc := 0, rx := none, console := [] }
  cntp := fun _ => { ctl := 0, cval := 0, tval := 0 }
  psciOn := { pending := false, entry := 0, ctx := 0 }

/-- A synchronous exit with the syndrome `esr`, with `x0` in the guest's first
register. -/
def syncExit (esr x0 : U64) : Event where
  ctx := { zeroCtx with exitReason := 8, exitEsr := esr, x := Function.update (fun _ => 0) 0 x0 }
  iar := 0
  key := none

/-- A stage-2 abort at `ipa` with the syndrome `esr`. -/
def abortExit (esr ipa : U64) : Event where
  ctx :=
    { zeroCtx with
      exitReason := 8, exitEsr := esr, exitHpfar := (ipa >>> 12) <<< 4, exitFar := ipa }
  iar := 0
  key := none

/-- The EL2 timer interrupts the guest. -/
def timerExit : Event where
  ctx := { zeroCtx with exitReason := 1 }
  iar := 26
  key := none

/-! ## 6. What the handlers leave alone -/

section Lemmas

variable {c d : Fin 2} {h : Hv} {e : Event}

@[simp] theorem setVcpu_vcpus_self (v : Vcpu) : (h.setVcpu c v).vcpus c = v := by
  simp [Hv.setVcpu]

theorem setVcpu_vcpus_of_ne (v : Vcpu) (hne : d ≠ c) : (h.setVcpu c v).vcpus d = h.vcpus d := by
  simp [Hv.setVcpu, hne]

@[simp] theorem setVcpu_s2 (v : Vcpu) : (h.setVcpu c v).s2 = h.s2 := rfl

@[simp] theorem setVcpu_vgic (v : Vcpu) : (h.setVcpu c v).vgic = h.vgic := rfl

@[simp] theorem enter_vcpus_self : (h.enter c e).vcpus c = vcpuRunOnce e.ctx (h.vcpus c) := by
  simp [Hv.enter]

theorem enter_ctx (h : Hv) (c : Fin 2) (e : Event) :
    ((h.enter c e).vcpus c).toGuestCtx = e.ctx := by
  rw [enter_vcpus_self]
  rfl

@[simp] theorem enter_s2 : (h.enter c e).s2 = h.s2 := rfl

@[simp] theorem enter_vgic : (h.enter c e).vgic = h.vgic := rfl

@[simp] theorem skip_s2 : (h.skip c).s2 = h.s2 := rfl

@[simp] theorem inject_s2 (k : U32) : (h.inject c k).s2 = h.s2 := rfl

@[simp] theorem vcpuRunOnce_ctx (g : GuestCtx) (v : Vcpu) : (vcpuRunOnce g v).toGuestCtx = g := rfl

@[simp] theorem vcpuRunOnce_halted (g : GuestCtx) (v : Vcpu) :
    (vcpuRunOnce g v).halted = v.halted := rfl

@[simp] theorem psciHandle_s2 : (psciHandle c h).s2 = h.s2 := by
  simp only [psciHandle]
  split_ifs <;> rfl

@[simp] theorem cntpEmulate_s2 (vm : Fin 2) : (cntpEmulate vm c h).s2 = h.s2 := by
  simp only [cntpEmulate]
  split_ifs <;> rfl

@[simp] theorem cntpEmulate_uart (vm : Fin 2) : (cntpEmulate vm c h).uart = h.uart := by
  simp only [cntpEmulate]
  split_ifs <;> rfl

theorem cntpEmulate_vgic (vm : Fin 2) : (cntpEmulate vm c h).vgic = h.vgic := by
  simp only [cntpEmulate]
  split_ifs <;> rfl

theorem psciHandle_vgic : (psciHandle c h).vgic = h.vgic := by
  simp only [psciHandle]
  split_ifs <;> rfl

@[simp] theorem psciHandle_uart : (psciHandle c h).uart = h.uart := by
  simp only [psciHandle]
  split_ifs <;> rfl

@[simp] theorem vcpuRunOnce_inject (g : GuestCtx) (k : U32) (v : Vcpu) :
    vcpuRunOnce g (vgicInject k v) = vcpuRunOnce g v := by
  simp only [vgicInject]
  split_ifs
  · rfl
  · cases freeSlot v.ichLr <;> rfl

/-- SYSTEM_OFF and SYSTEM_RESET do one thing: they set the flag. -/
theorem psciHandle_off (hoff : psciOffFn (h.vcpus c).psciFn = true) :
    psciHandle c h = h.setVcpu c { h.vcpus c with halted := true } := by
  have hver : (h.vcpus c).psciFn ≠ 0x84000000 := by
    intro he
    rw [he] at hoff
    exact absurd hoff (by decide)
  simp only [psciHandle, if_neg hver, hoff, if_true]

/-- CPU_ON answers 0 and notes the request. -/
theorem psciHandle_cpuOn (hon : psciCpuOnFn (h.vcpus c).psciFn = true) :
    psciHandle c h = { h.setVcpu c ((h.vcpus c).setX 0 0) with
      psciOn := { pending := true, entry := (h.vcpus c).getX 2, ctx := (h.vcpus c).getX 3 } } := by
  have hother : (h.vcpus c).psciFn ≠ 0x84000000 ∧ psciOffFn (h.vcpus c).psciFn = false := by
    simp only [psciCpuOnFn, Bool.or_eq_true, decide_eq_true_eq] at hon
    rcases hon with hfn | hfn <;> rw [hfn] <;> decide
  simp only [psciHandle, if_neg hother.1, hother.2, Bool.false_eq_true, if_false, hon, if_true]

theorem psciHandle_psciOn (hno : psciCpuOnFn (h.vcpus c).psciFn = false) :
    (psciHandle c h).psciOn = h.psciOn := by
  simp only [psciHandle, hno, Bool.false_eq_true, if_false]
  split_ifs <;> rfl

/-- Only a fault-in writes the shared stage-2 table. -/
theorem abort_s2 (vm : Int) (ipa : U64) (a : AbortAction) : (h.abort vm c ipa a).s2 =
    match a with
    | .fault base => stage2Map1gb base h.s2
    | _ => h.s2 := by
  cases a <;> rfl

end Lemmas

end FermiHV
