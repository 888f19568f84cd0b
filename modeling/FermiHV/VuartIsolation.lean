import FermiHV.Loops
import FermiHV.Lib.Interference

/-!
# Tenants and the emulated UART

The GIC and the virtio devices have state for each VM; the emulated UART has one
interrupt mask and one receiver for all. So in the multi-tenant loops a tenant
can change what the other one reads: by a write to `IMSC`, or by taking a byte
that waits in the receiver.

1. `UartAccess.quiet_iff`: the accesses that no later read can tell (`Quiet`).
2. `TenantLoop`: the two multi-tenant loops as runs of `uartMachine`.
3. `uart_isolation`: if one tenant makes only quiet accesses, every read of the
   other one returns what it returns when that tenant makes none.
4. `imsc_write_disturbs`: one write to `IMSC` does disturb.
-/

namespace FermiHV

open RunLoop (Flow Loop)

/-! ## 1. Accesses -/

/-- One trapped UART access: the tenant, its vCPU at the exit and the address. -/
structure UartAccess where
  vm : Fin 2
  v : Vcpu
  ipa : U64
  inWindow : vuartContains ipa = true

/-- The two tenants as clients of the UART: an access returns the vCPU with the
value read in its transfer register. -/
def uartMachine : Interference.Machine Vuart UartAccess Vcpu (Fin 2) where
  step := fun u a => (mmioEmulate a.v a.ipa u).2
  out := fun u a => (mmioEmulate a.v a.ipa u).1
  dom := UartAccess.vm

/-- The access does not write a new value to `IMSC` and does not take a received
byte. -/
def UartAccess.Quiet (u : Vuart) (a : UartAccess) : Prop :=
  let iss := esrIss a.v.exitEsr
  let off := a.ipa - vuartBase
  issIsv iss = true →
    (issWnr iss = true → off = 0x38 → (a.v.getX (issSrt iss)).setWidth 32 = u.imsc) ∧
      (issWnr iss = false → off = 0x00 → u.rx = none)

instance (u : Vuart) (a : UartAccess) : Decidable (a.Quiet u) := by
  unfold UartAccess.Quiet
  infer_instance

/-- The states that reads cannot tell apart: all but the console output. -/
def SameRegs (u u' : Vuart) : Prop := u'.imsc = u.imsc ∧ u'.rx = u.rx

theorem vuartRead_fst_congr {u u' : Vuart} (h : SameRegs u u') (off : U64) :
    (vuartRead off u').1 = (vuartRead off u).1 := by
  simp only [vuartRead, Vuart.ris, h.1, h.2]
  split_ifs <;> rfl

theorem vuartWrite_imsc (off val : U64) (u : Vuart) :
    SameRegs (vuartWrite off val u)
      { u with imsc := if off = 0x38 then val.setWidth 32 else u.imsc } := by
  simp only [vuartWrite]
  split_ifs with h0 h38
  · subst h0
    exact absurd h38 (by decide)
  · exact ⟨rfl, rfl⟩
  · exact ⟨rfl, rfl⟩
  · exact ⟨rfl, rfl⟩

/-- What an access leaves of the registers. -/
theorem step_sameRegs_iff (u : Vuart) (a : UartAccess) :
    SameRegs u (uartMachine.step u a) ↔ a.Quiet u := by
  simp only [uartMachine, mmioEmulate, UartAccess.Quiet]
  cases hisv : issIsv (esrIss a.v.exitEsr) with
  | false => simp [SameRegs]
  | true =>
    cases hwnr : issWnr (esrIss a.v.exitEsr) with
    | true =>
      obtain ⟨himsc, hrx⟩ :=
        vuartWrite_imsc (a.ipa - vuartBase) (a.v.getX (issSrt (esrIss a.v.exitEsr))) u
      simp only [Bool.not_true, Bool.false_eq_true, if_false, if_true, SameRegs, ← himsc, ← hrx]
      by_cases h38 : a.ipa - vuartBase = 0x38
      · simp [h38]
      · simp
    | false =>
      simp only [Bool.not_true, Bool.false_eq_true, if_false, SameRegs, vuartRead_rx]
      by_cases h0 : a.ipa - vuartBase = 0x00
      · rw [if_pos h0]
        constructor
        · exact fun h _ => ⟨fun hw => hw.elim, fun _ _ => h.2.symm⟩
        · exact fun h => ⟨rfl, ((h trivial).2 trivial h0).symm⟩
      · rw [if_neg h0]
        exact ⟨fun _ _ => ⟨fun hw => hw.elim, fun _ hz => absurd hz h0⟩, fun _ => ⟨rfl, rfl⟩⟩

theorem out_of_sameRegs {u u' : Vuart} (h : SameRegs u u') (v : Vcpu) (ipa : U64) :
    (mmioEmulate v ipa u').1 = (mmioEmulate v ipa u).1 := by
  simp only [mmioEmulate, vuartRead_fst_congr h]
  split_ifs <;> rfl

theorem step_of_sameRegs {u u' : Vuart} (h : SameRegs u u') (a : UartAccess) :
    SameRegs (uartMachine.step u a) (uartMachine.step u' a) := by
  simp only [uartMachine, mmioEmulate]
  split_ifs
  · exact h
  · obtain ⟨hi, hr⟩ := vuartWrite_imsc (a.ipa - vuartBase)
      (a.v.getX (issSrt (esrIss a.v.exitEsr))) u
    obtain ⟨hi', hr'⟩ := vuartWrite_imsc (a.ipa - vuartBase)
      (a.v.getX (issSrt (esrIss a.v.exitEsr))) u'
    refine ⟨?_, ?_⟩
    · rw [← hi, ← hi', h.1]
    · rw [← hr, ← hr']
      exact h.2
  · simp only [vuartRead_rx]
    split_ifs
    · exact ⟨h.1, rfl⟩
    · exact h

/-- A guest stopped at a 32-bit load to `x0` (`ISV`, `SAS` = 2). -/
def loadingVcpu : Vcpu := { vcpuInit 0x40000000 0 0 0 with exitEsr := 0x93800000 }

theorem loadingVcpu_read (ipa : U64) (u : Vuart) :
    ((mmioEmulate loadingVcpu ipa u).1).getX 0 = (vuartRead (ipa - vuartBase) u).1 := by
  have hisv : issIsv (esrIss loadingVcpu.exitEsr) = true := by decide
  have hwnr : issWnr (esrIss loadingVcpu.exitEsr) = false := by decide
  have hsrt : issSrt (esrIss loadingVcpu.exitEsr) = 0 := by decide
  simp only [mmioEmulate, hisv, hwnr, hsrt, Bool.not_true, Bool.false_eq_true, if_false, Vcpu.setX,
    Nat.zero_lt_succ, dif_pos, Vcpu.skip, GuestCtx.getX]
  rw [Function.update_self]

theorem vuartRead_dr {u : Vuart} {c : U8} (hrx : u.rx = some c) :
    (vuartRead 0x00 u).1 = c.setWidth 64 := by
  simp only [vuartRead, hrx, if_true]

/-- Reading `IMSC`, `FR` and `DR` tells the registers apart. -/
theorem sameRegs_of_reads {u u' : Vuart}
    (h : ∀ off, (vuartRead off u').1 = (vuartRead off u).1) : SameRegs u u' := by
  have himsc : (u'.imsc.setWidth 64 : U64) = u.imsc.setWidth 64 := h 0x38
  have hfr : (0x80 ||| (if u'.rx.isNone then 0x10 else 0) : U64) =
      0x80 ||| (if u.rx.isNone then 0x10 else 0) := h 0x18
  have hne : (0x80 ||| 0x10 : U64) ≠ 0x80 ||| 0 := by decide
  refine ⟨?_, ?_⟩
  · have hnat := congrArg BitVec.toNat himsc
    rw [BitVec.toNat_setWidth, BitVec.toNat_setWidth] at hnat
    have hlt := u.imsc.isLt
    have hlt' := u'.imsc.isLt
    exact BitVec.eq_of_toNat_eq (by omega)
  · cases hrx : u.rx with
    | none =>
      cases hrx' : u'.rx with
      | none => rfl
      | some c' =>
        rw [hrx, hrx'] at hfr
        exact absurd hfr.symm hne
    | some c =>
      cases hrx' : u'.rx with
      | none =>
        rw [hrx, hrx'] at hfr
        exact absurd hfr hne
      | some c' =>
        have hdr := h 0x00
        rw [vuartRead_dr hrx', vuartRead_dr hrx] at hdr
        have hnat := congrArg BitVec.toNat hdr
        rw [BitVec.toNat_setWidth, BitVec.toNat_setWidth] at hnat
        have hlt := c.isLt
        have hlt' := c'.isLt
        rw [BitVec.eq_of_toNat_eq (show c'.toNat = c.toNat by omega)]

/-- An access is quiet exactly when no access after it can tell that it was
made. -/
theorem UartAccess.quiet_iff (u : Vuart) (a : UartAccess) :
    a.Quiet u ↔
      ∀ v ipa, (mmioEmulate v ipa (uartMachine.step u a)).1 = (mmioEmulate v ipa u).1 := by
  rw [← step_sameRegs_iff]
  refine ⟨fun h v ipa => out_of_sameRegs h v ipa, fun h => sameRegs_of_reads fun off => ?_⟩
  have hread := congrArg (fun v : Vcpu => v.getX 0) (h loadingVcpu (off + vuartBase))
  simp only [loadingVcpu_read] at hread
  rwa [BitVec.add_sub_cancel] at hread

/-! ## 2. The loops -/

/-- The UART access that an exit of the current tenant is. -/
def uartAccess (e : Event) (s : Tenants) : Option UartAccess :=
  if h : e.ctx.exitKind = .abort ∧ vgicContains e.ctx.exitIpa = false ∧
      vuartContains e.ctx.exitIpa = true then
    some
      { vm := s.cur
        v := vcpuRunOnce e.ctx (s.hv.vcpus s.cur)
        ipa := e.ctx.exitIpa
        inWindow := h.2.2 }
  else none

/-- A multi-tenant loop: what its passes do to the UART and to the tenant that
makes an access. -/
structure TenantLoop where
  loop : Loop Tenants Event
  access : Event → Tenants → Option UartAccess
  access_vm : ∀ e s a, access e s = some a → a.vm = s.cur
  body_uart : ∀ e s, (loop.body e s).state.hv.uart =
    match access e s with
    | some a => uartMachine.step s.hv.uart a
    | none => s.hv.uart
  body_vcpu : ∀ e s a, access e s = some a →
    (loop.body e s).state.hv.vcpus s.cur = uartMachine.out s.hv.uart a

theorem uartAccess_vm {e : Event} {s : Tenants} {a : UartAccess} (h : uartAccess e s = some a) :
    a.vm = s.cur := by
  rw [uartAccess] at h
  split_ifs at h
  rw [← Option.some.inj h]

section Bodies

variable {s : Tenants} {e : Event}

/-- What `ready` leaves of the tenant about to run once it has run. -/
theorem enter_inject (c : Fin 2) (k : U32) (h : Hv) :
    ((h.inject c k).enter c e).vcpus c = vcpuRunOnce e.ctx (h.vcpus c) := by
  rw [enter_vcpus_self, Hv.inject, setVcpu_vcpus_self, vcpuRunOnce_inject]

theorem readyReal_enter : (s.readyReal.hv.enter s.cur e).uart = s.hv.uart ∧
    (s.readyReal.hv.enter s.cur e).vcpus s.cur = vcpuRunOnce e.ctx (s.hv.vcpus s.cur) := by
  simp only [Tenants.readyReal]
  generalize (if s.cur = 0 then (30 : U32) else 27) = intid
  split_ifs
  · exact ⟨rfl, enter_inject _ _ _⟩
  · exact ⟨rfl, enter_vcpus_self⟩

theorem readyOs_enter : (s.readyOs.hv.enter s.cur e).uart = s.hv.uart ∧
    (s.readyOs.hv.enter s.cur e).vcpus s.cur = vcpuRunOnce e.ctx (s.hv.vcpus s.cur) := by
  simp only [Tenants.readyOs, Hv.injectTimer]
  split_ifs
  · exact ⟨rfl, enter_inject _ _ _⟩
  · exact ⟨rfl, enter_inject _ _ _⟩
  · exact ⟨rfl, enter_vcpus_self⟩
  · exact ⟨rfl, enter_vcpus_self⟩

theorem readyOs_halted : (s.readyOs.hv.vcpus s.cur).halted = (s.hv.vcpus s.cur).halted := by
  have hv := (readyOs_enter (s := s) (e := timerExit)).2
  rw [enter_vcpus_self] at hv
  have hhalted := congrArg Vcpu.halted hv
  exact hhalted

/-- A stage-2 abort of a tenant, in a loop that answers aborts outside the devices
with `other`. -/
theorem abort_uart {h : Hv} {other : AbortAction} (hu : h.uart = s.hv.uart)
    (hv : h.vcpus s.cur = vcpuRunOnce e.ctx (s.hv.vcpus s.cur)) (hk : e.ctx.exitKind = .abort)
    (hother : other = .report ∨ other = .zero) :
    let h' := h.abort s.cur.val s.cur e.ctx.exitIpa (deviceOr other e.ctx.exitIpa)
    (h'.uart = match uartAccess e s with
      | some a => uartMachine.step s.hv.uart a
      | none => s.hv.uart) ∧
    ∀ a, uartAccess e s = some a → h'.vcpus s.cur = uartMachine.out s.hv.uart a := by
  cases hg : vgicContains e.ctx.exitIpa with
  | true =>
    have hnone : uartAccess e s = none := by simp [uartAccess, hg]
    simp only [hnone, deviceOr, hg, if_true]
    exact ⟨hu, fun a ha => by cases ha⟩
  | false =>
    cases hw : vuartContains e.ctx.exitIpa with
    | false =>
      have hnone : uartAccess e s = none := by simp [uartAccess, hw]
      simp only [hnone, deviceOr, hg, hw, Bool.false_eq_true, if_false]
      refine ⟨?_, fun a ha => by cases ha⟩
      rcases hother with rfl | rfl <;> exact hu
    | true =>
      have hsome : uartAccess e s = some ⟨s.cur, vcpuRunOnce e.ctx (s.hv.vcpus s.cur),
          e.ctx.exitIpa, hw⟩ := by
        rw [uartAccess, dif_pos ⟨hk, hg, hw⟩]
      simp only [hsome, deviceOr, hg, hw, Bool.false_eq_true, if_false, if_true, Hv.abort, hv, hu]
      refine ⟨rfl, fun a ha => ?_⟩
      rw [← Option.some.inj ha]
      exact setVcpu_vcpus_self _

/-- An exit that is not an abort makes no access. -/
theorem uartAccess_of_kind (hk : e.ctx.exitKind ≠ .abort) : uartAccess e s = none := by
  rw [uartAccess, dif_neg fun h => hk h.1]

theorem exitKind_of_access {a : UartAccess} (h : uartAccess e s = some a) :
    e.ctx.exitKind = .abort := by
  by_contra hk
  rw [uartAccess_of_kind hk] at h
  cases h

/-- The other exits leave the UART alone. -/
theorem mtenantReal_uart (hk : e.ctx.exitKind ≠ .abort) :
    (mtenantRealDemo.body e s).state.hv.uart = s.hv.uart := by
  have hu := (readyReal_enter (s := s) (e := e)).1
  exact mtenantRealDemo_body_cases (P := fun h => h.uart = s.hv.uart) hu
    (fun hkind => absurd hkind hk) (fun _ => (cntpEmulate_uart _).trans hu)
    (psciHandle_uart.trans hu)

theorem mtenantOs_uart (hk : (s.hv.vcpus s.cur).halted = true ∨ e.ctx.exitKind ≠ .abort) :
    (mtenantOsDemo.body e s).state.hv.uart = s.hv.uart := by
  have hu := (readyOs_enter (s := s) (e := e)).1
  refine mtenantOsDemo_body_cases (P := fun h => h.uart = s.hv.uart) hu (fun hrun hkind => ?_)
    (fun _ _ => (cntpEmulate_uart _).trans hu) (psciHandle_uart.trans hu) (psciHandle_uart.trans hu)
  rw [readyOs_halted] at hrun
  rcases hk with hk | hk
  · rw [hrun] at hk
    exact absurd hk Bool.false_ne_true
  · exact absurd hkind hk

end Bodies

/-- `mtenant_real_demo`. -/
def mtenantRealUart : TenantLoop where
  loop := mtenantRealDemo
  access := uartAccess
  access_vm := fun _ _ _ => uartAccess_vm
  body_uart := by
    intro e s
    obtain ⟨hu, hv⟩ := readyReal_enter (s := s) (e := e)
    by_cases hk : e.ctx.exitKind = .abort
    · have habort := (abort_uart hu hv hk (.inl rfl)).1
      simpa [mtenantRealDemo, hv, hk, Flow.state, mtenantRealAbort] using habort
    · rw [uartAccess_of_kind hk, mtenantReal_uart hk]
  body_vcpu := by
    intro e s a ha
    obtain ⟨hu, hv⟩ := readyReal_enter (s := s) (e := e)
    have hk := exitKind_of_access ha
    have habort := (abort_uart hu hv hk (.inl rfl)).2 a ha
    simpa [mtenantRealDemo, hv, hk, Flow.state, mtenantRealAbort] using habort

/-- `mtenant_os_demo`: the loop ends before it looks at the exit of a tenant that is
powered off. -/
def mtenantOsUart : TenantLoop where
  loop := mtenantOsDemo
  access := fun e s => if (s.hv.vcpus s.cur).halted then none else uartAccess e s
  access_vm := by
    intro e s a ha
    split_ifs at ha
    exact uartAccess_vm ha
  body_uart := by
    intro e s
    obtain ⟨hu, hv⟩ := readyOs_enter (s := s) (e := e)
    cases hh : (s.hv.vcpus s.cur).halted with
    | true => rw [mtenantOs_uart (.inl hh), if_pos rfl]
    | false =>
      rw [if_neg Bool.false_ne_true]
      by_cases hk : e.ctx.exitKind = .abort
      · have habort := (abort_uart hu hv hk (.inr rfl)).1
        simpa [mtenantOsDemo, readyOs_halted, hh, hk, Flow.state, mtenantOsAbort] using habort
      · rw [uartAccess_of_kind hk, mtenantOs_uart (.inr hk)]
  body_vcpu := by
    intro e s a ha
    obtain ⟨hu, hv⟩ := readyOs_enter (s := s) (e := e)
    split_ifs at ha with hh
    have hk := exitKind_of_access ha
    have habort := (abort_uart hu hv hk (.inr rfl)).2 a ha
    simpa [mtenantOsDemo, readyOs_halted, hh, hk, Flow.state, mtenantOsAbort] using habort

/-! ## 3. Isolation -/

/-- The UART access of a pass. -/
def TenantLoop.passAccess (L : TenantLoop) (p : Tenants × Event) : Option UartAccess :=
  L.access p.2 p.1

/-- The vCPU of tenant `b` after the pass, if it has made a UART access. -/
def TenantLoop.passResumed (L : TenantLoop) (b : Fin 2) (p : Tenants × Event) : Option Vcpu :=
  if (L.passAccess p).isSome ∧ p.1.cur = b then some ((L.loop.body p.2 p.1).state.hv.vcpus b)
  else none

/-- The UART accesses of a run, in order. -/
def TenantLoop.accesses (L : TenantLoop) (s : Tenants) (es : List Event) : List UartAccess :=
  (L.loop.iters s es).filterMap L.passAccess

/-- The vCPU of tenant `b` as it resumes after each of its UART accesses, with the
value it has read. -/
def TenantLoop.resumed (L : TenantLoop) (b : Fin 2) (s : Tenants) (es : List Event) : List Vcpu :=
  (L.loop.iters s es).filterMap (L.passResumed b)

section Runs

variable (L : TenantLoop) (b : Fin 2)

/-- The first pass of a run, and then the rest from the state it leaves. -/
theorem TenantLoop.resumed_eq_cons {s t : Tenants} {e : Event} {rest : List (Tenants × Event)}
    (ht : (L.loop.body e s).state = t)
    (hrest : rest.filterMap (L.passResumed b) =
      uartMachine.outputs b t.hv.uart (rest.filterMap L.passAccess)) :
    ((s, e) :: rest).filterMap (L.passResumed b) =
      uartMachine.outputs b s.hv.uart (((s, e) :: rest).filterMap L.passAccess) := by
  have hu := L.body_uart e s
  rw [ht] at hu
  cases ha : L.access e s with
  | none =>
    have hpass : L.passAccess (s, e) = none := ha
    have hres : L.passResumed b (s, e) = none := by simp [TenantLoop.passResumed, hpass]
    rw [ha] at hu
    rw [List.filterMap_cons_none hres, List.filterMap_cons_none hpass, hrest, hu]
  | some a =>
    have hpass : L.passAccess (s, e) = some a := ha
    have hvm : uartMachine.dom a = s.cur := L.access_vm e s a ha
    rw [ha] at hu
    rw [List.filterMap_cons_some hpass, Interference.Machine.outputs, hvm]
    by_cases hb : s.cur = b
    · have hout := L.body_vcpu e s a ha
      rw [hb] at hout
      have hres : L.passResumed b (s, e) = some (uartMachine.out s.hv.uart a) := by
        simp [TenantLoop.passResumed, hpass, hb, hout]
      rw [List.filterMap_cons_some hres, if_pos hb, hrest, hu]
    · have hres : L.passResumed b (s, e) = none := by simp [TenantLoop.passResumed, hb]
      rw [List.filterMap_cons_none hres, if_neg hb, hrest, hu]

/-- A run of the loop is a run of the UART. -/
theorem TenantLoop.resumed_eq (s : Tenants) (es : List Event) :
    L.resumed b s es = uartMachine.outputs b s.hv.uart (L.accesses s es) := by
  induction es generalizing s with
  | nil => rfl
  | cons e es ih =>
    rw [TenantLoop.resumed, TenantLoop.accesses]
    cases hc : L.loop.cond s with
    | false =>
      rw [Loop.iters_of_not_cond hc]
      rfl
    | true =>
      cases hb : L.loop.body e s with
      | next t =>
        rw [Loop.iters_cons_next hc hb]
        exact L.resumed_eq_cons b (congrArg Flow.state hb) (ih t)
      | brk t =>
        rw [Loop.iters_cons_brk hc hb]
        exact L.resumed_eq_cons b (congrArg Flow.state hb) rfl

end Runs

/-- Tenant `b` in a run of a multi-tenant loop: if every access of the other tenant
is quiet, each access of `b` returns what it returns when the other tenant makes
none. And quiet are exactly the accesses that no access after them can tell. -/
theorem uart_isolation (L : TenantLoop) (s : Tenants) (es : List Event) (b : Fin 2)
    (hquiet : uartMachine.Along (fun u a => a.vm ≠ b → a.Quiet u) s.hv.uart (L.accesses s es)) :
    L.resumed b s es =
      uartMachine.outputs b s.hv.uart (uartMachine.own b (L.accesses s es)) ∧
    ∀ (u : Vuart) (a : UartAccess), a.Quiet u ↔
      ∀ v ipa, (mmioEmulate v ipa (uartMachine.step u a)).1 = (mmioEmulate v ipa u).1 := by
  refine ⟨?_, fun u a => a.quiet_iff u⟩
  rw [L.resumed_eq]
  have hrun := Interference.Machine.undisturbed_along (M := uartMachine) (b := b)
    (R := fun u u' => SameRegs u' u)
    (fun u u' a hne hq h => ?_) (fun u u' a _ _ h => step_of_sameRegs h a)
    (fun u u' a _ _ h => out_of_sameRegs h a.v a.ipa) hquiet ⟨rfl, rfl⟩
  · exact hrun.1
  · have hsame := (step_sameRegs_iff u a).mpr (hq hne)
    exact ⟨hsame.1.trans h.1, hsame.2.trans h.2⟩

/-! ## 4. A write to `IMSC` -/

/-- The locals at the start of a multi-tenant loop. -/
def firstSlice (h : Hv) : Tenants where
  hv := h
  t1 := 0
  pend := fun _ => false
  cur := 0
  guard := 0
  slot := 0

/-- Tenant 0 makes an access; then tenant 1, which has every fourth slice, reads
`IMSC`. -/
def thenReadImsc (e : Event) : List Event :=
  [e, timerExit, timerExit, timerExit, timerExit, abortExit 0x93800000 0x09000038]

/-- The access is a write to `ICR`. -/
theorem uart_isolation_icr :
    let s := firstSlice (resetHv exampleImage 0x40000000)
    let es := thenReadImsc (abortExit 0x93800040 0x09000044)
    (mtenantRealUart.resumed 1 s es).length = 1 ∧
    mtenantRealUart.resumed 1 s es =
      uartMachine.outputs 1 s.hv.uart (uartMachine.own 1 (mtenantRealUart.accesses s es)) := by
  intro s es
  exact ⟨by decide +kernel, (uart_isolation mtenantRealUart s es 1 (by decide +kernel)).1⟩

/-- The access is a write of 0x10 to `IMSC`: tenant 1 reads 0x10 in place of 0. -/
theorem imsc_write_disturbs :
    let s := firstSlice (resetHv exampleImage 0x40000000)
    let imscWrite : Event :=
      { abortExit 0x93800040 0x09000038 with
        ctx := { (abortExit 0x93800040 0x09000038).ctx with x := fun _ => 0x10 } }
    let es := thenReadImsc imscWrite
    (∀ L ∈ [mtenantRealUart, mtenantOsUart],
      (L.resumed 1 s es).map (fun v => v.getX 0) = [0x10]) ∧
    (∀ L ∈ [mtenantRealUart, mtenantOsUart],
      (uartMachine.outputs 1 s.hv.uart (uartMachine.own 1 (L.accesses s es))).map
        (fun v => v.getX 0) = [0]) := by
  decide +kernel

end FermiHV
