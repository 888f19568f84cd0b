import FermiHV.Loops

/-!
# Run loops that fault in RAM

Six run loops answer some stage-2 aborts by mapping the 1 GiB block of the
faulting address in the shared table. `FaultingLoop` is what they have in common:
a pass writes the table at most once, by `stage2_map_1gb` on the block that
`fault` names. What a run does to the table follows from that alone.
-/

namespace FermiHV

open RunLoop (Flow Loop)

/-- The block that an action maps. -/
def AbortAction.block : AbortAction → Option U64
  | .fault base => some base
  | _ => none

/-- A run loop that maps a block of the shared table on some aborts. -/
structure FaultingLoop where
  S : Type
  loop : Loop S Event
  s2 : S → Stage2
  /-- The block that the pass maps. -/
  fault : Event → S → Option U64
  body_s2 : ∀ e s, s2 (loop.body e s).state =
    match fault e s with
    | some base => stage2Map1gb base (s2 s)
    | none => s2 s

/-- The block that an exit maps, given what the loop does with aborts. -/
def faultOf (kind : ExitKind) (a : AbortAction) : Option U64 :=
  if kind = .abort then a.block else none

theorem abort_s2_block {h : Hv} {vm : Int} {c : Fin 2} {ipa : U64} (a : AbortAction) :
    (h.abort vm c ipa a).s2 =
      match a.block with
      | some base => stage2Map1gb base h.s2
      | none => h.s2 := by
  rw [abort_s2]
  cases a <;> rfl

@[simp] theorem halt_s2 (s : RunVcpus) : s.halt.hv.s2 = s.hv.s2 := rfl

def runVcpusFaults (n budget : Nat) : FaultingLoop where
  S := RunVcpus
  loop := runVcpus n budget
  s2 := fun s => s.hv.s2
  fault := fun e s =>
    if (s.hv.vcpus s.i).halted then none
    else faultOf e.ctx.syncKind (runVcpusAbort e.ctx.exitEc e.ctx.exitIpa)
  body_s2 := by
    intro e s
    cases hh : (s.hv.vcpus s.i).halted with
    | true => simp [runVcpus, hh, Flow.state]
    | false =>
      cases hk : e.ctx.syncKind with
      | abort => simp [runVcpus, hh, hk, faultOf, Flow.state, abort_s2_block]
      | hvc =>
        by_cases hb : budget ≤ s.hcalls s.i + 1 <;>
          simp [runVcpus, hh, hk, hb, faultOf, Flow.state]
      | smc | sysreg | irq | other => simp [runVcpus, hh, hk, faultOf, Flow.state]

def realGuestFaults : FaultingLoop where
  S := Hv
  loop := realGuestDemo
  s2 := Hv.s2
  fault := fun e _ => faultOf e.ctx.exitKind (realGuestAbort e.ctx.exitEc e.ctx.exitIpa)
  body_s2 := by
    intro e h
    cases hk : e.ctx.exitKind with
    | abort => simp [realGuestDemo, hk, faultOf, Flow.state, abort_s2_block]
    | irq | hvc | smc | sysreg | other => simp [realGuestDemo, hk, faultOf, Flow.state]

def vgicDemoFaults (nticks : Nat) : FaultingLoop where
  S := Counted
  loop := vgicDemo nticks
  s2 := fun s => s.hv.s2
  fault := fun e _ => faultOf e.ctx.exitKind (vgicDemoAbort e.ctx.exitIpa)
  body_s2 := by
    intro e s
    cases hk : e.ctx.exitKind with
    | abort => simp [vgicDemo, hk, faultOf, Flow.state, abort_s2_block]
    | irq =>
      simp only [vgicDemo, enter_vcpus_self, vcpuRunOnce_ctx, hk]
      split_ifs <;> rfl
    | hvc | smc | sysreg | other => simp [vgicDemo, hk, faultOf, Flow.state]

def fermiosVgicBootFaults : FaultingLoop where
  S := Counted
  loop := fermiosVgicBoot
  s2 := fun s => s.hv.s2
  fault := fun e s =>
    if (s.hv.vcpus 0).halted then none
    else faultOf e.ctx.exitKind (fermiosVgicBootAbort e.ctx.exitIpa)
  body_s2 := by
    intro e s
    cases hh : (s.hv.vcpus 0).halted with
    | true => simp [fermiosVgicBoot, hh, Flow.state]
    | false =>
      cases hk : e.ctx.exitKind with
      | abort => simp [fermiosVgicBoot, hh, hk, faultOf, Flow.state, abort_s2_block]
      | irq =>
        simp only [fermiosVgicBoot, enter_vcpus_self, vcpuRunOnce_ctx, vcpuRunOnce_halted, hh, hk]
        split_ifs <;> rfl
      | hvc | smc | sysreg | other => simp [fermiosVgicBoot, hh, hk, faultOf, Flow.state]

def linuxBootFaults : FaultingLoop where
  S := Hv
  loop := linuxBoot
  s2 := Hv.s2
  fault := fun e h =>
    if (h.vcpus 0).halted then none else faultOf e.ctx.exitKind (linuxBootAbort e.ctx.exitIpa)
  body_s2 := by
    intro e h
    cases hh : (h.vcpus 0).halted with
    | true => simp [linuxBoot, hh, Flow.state]
    | false =>
      cases hk : e.ctx.exitKind with
      | abort => simp [linuxBoot, hh, hk, faultOf, Flow.state, abort_s2_block]
      | irq | hvc | smc | sysreg | other => simp [linuxBoot, hh, hk, faultOf, Flow.state]

def fermiosBootFaults : FaultingLoop where
  S := Hv
  loop := fermiosBoot
  s2 := Hv.s2
  fault := fun e h =>
    if (h.vcpus 0).halted then none else faultOf e.ctx.exitKind (fermiosBootAbort e.ctx.exitIpa)
  body_s2 := by
    intro e h
    cases hh : (h.vcpus 0).halted with
    | true => simp [fermiosBoot, hh, Flow.state]
    | false =>
      cases hk : e.ctx.exitKind with
      | abort => simp [fermiosBoot, hh, hk, faultOf, Flow.state, abort_s2_block]
      | irq | hvc | smc | sysreg | other => simp [fermiosBoot, hh, hk, faultOf, Flow.state]

end FermiHV
