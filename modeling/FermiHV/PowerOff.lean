import FermiHV.Loops

/-!
# Powering off a vCPU

`psci_handle` answers SYSTEM_OFF and SYSTEM_RESET by setting `halted`, and the
run loops look at that flag, if at all, right after `vcpu_run_once`: after the
call the guest is entered once more, and in the two loops without the test it
goes on running.

`PsciLoop` is what the seven loops that call `psci_handle` have in common; the
laws it carries are proved for each of them. A loop that has handled such a call
goes back to its head with the same vCPU, so it enters it again unless its pass
counter has run out (`PsciLoop.last`). `stays_off_iff` says for all of them that a
powered-off vCPU is never entered again, the entry that is due at the loop head
included, exactly when every such call comes in that last pass.
-/

namespace FermiHV

open RunLoop (Flow Loop)

/-- A run loop that serves PSCI calls. Every pass enters the vCPU `cur`. -/
structure PsciLoop where
  S : Type
  loop : Loop S Event
  hv : S → Hv
  cur : S → Fin 2
  /-- The pass calls `psci_handle` for SYSTEM_OFF or SYSTEM_RESET. -/
  off : Event → S → Prop
  /-- The pass is the last one that the counter of the loop allows. -/
  last : S → Bool
  off_halts : ∀ e s, off e s → ((hv (loop.body e s).state).vcpus (cur s)).halted = true
  /-- The loop goes back to its head with the vCPU it has powered off. -/
  off_returns : ∀ s e, loop.cond s = true → off e s →
    ∃ s', loop.body e s = .next s' ∧ cur s' = cur s ∧ loop.cond s' = !last s

/-- No vCPU is entered that an earlier pass has powered off. -/
def PsciLoop.StaysOff (L : PsciLoop) (s : L.S) (es : List Event) : Prop :=
  L.loop.NeverAgain L.cur L.off s es

/-! ## 1. The seven loops -/

/-- A guest exit that asks for SYSTEM_OFF or SYSTEM_RESET. -/
def Event.asksOff (e : Event) : Prop := psciOffFn e.ctx.psciFn = true

section Halting

variable {c : Fin 2} {h : Hv} {e : Event}

theorem halted_psciHandle (ho : e.asksOff) :
    ((psciHandle c (h.enter c e)).vcpus c).halted = true := by
  rw [psciHandle_off (by simpa [Event.asksOff] using ho)]
  simp

theorem halted_psciHandle_skip (ho : e.asksOff) :
    (((psciHandle c (h.enter c e)).skip c).vcpus c).halted = true := by
  have hh := halted_psciHandle (c := c) (h := h) ho
  simpa [Hv.skip, Vcpu.skip] using hh

/-- A counter that has not run out. -/
theorem decide_lt_eq_not_le (n limit : Nat) : decide (n < limit) = !decide (limit ≤ n) := by
  rw [← decide_not]
  exact decide_eq_decide.mpr (Nat.not_le).symm

end Halting

section Counters

variable (s : Tenants)

theorem readyReal_t1 : s.readyReal.t1 = s.t1 := by
  simp only [Tenants.readyReal]
  split_ifs <;> rfl

theorem readyReal_guard : s.readyReal.guard = s.guard + 1 := by
  simp only [Tenants.readyReal]
  split_ifs <;> rfl

theorem readyOs_guard : s.readyOs.guard = s.guard + 1 := by
  simp only [Tenants.readyOs]
  split_ifs <;> rfl

theorem SmpPsci.ready_got (img : Image) (sp : U64) (s : SmpPsci) :
    (s.ready img sp).got = s.got := by
  simp only [SmpPsci.ready]
  split_ifs <;> rfl

theorem SmpPsci.ready_guard (img : Image) (sp : U64) (s : SmpPsci) :
    (s.ready img sp).guard = s.guard + 1 := by
  simp only [SmpPsci.ready]
  split_ifs <;> rfl

end Counters

/-- `linux_boot` takes PSCI calls by SMC and by HVC. -/
def linuxBootPsci : PsciLoop where
  S := Hv
  loop := linuxBoot
  hv := id
  cur := fun _ => 0
  off := fun e h =>
    (h.vcpus 0).halted = false ∧ (e.ctx.exitKind = .smc ∨ e.ctx.exitKind = .hvc) ∧ e.asksOff
  last := fun _ => false
  off_halts := by
    rintro e h ⟨hh, hk | hk, ho⟩
    · simpa [linuxBoot, hh, hk, Flow.state] using halted_psciHandle_skip ho
    · simpa [linuxBoot, hh, hk, Flow.state] using halted_psciHandle ho
  off_returns := by
    rintro h e - ⟨hh, hk | hk, -⟩
    all_goals
      simp only [linuxBoot, enter_vcpus_self, vcpuRunOnce_ctx, vcpuRunOnce_halted, hh, hk,
        Bool.false_eq_true, if_false]
      exact ⟨_, rfl, trivial, rfl⟩

/-- `fermios_boot` takes PSCI calls by SMC. -/
def fermiosBootPsci : PsciLoop where
  S := Hv
  loop := fermiosBoot
  hv := id
  cur := fun _ => 0
  off := fun e h => (h.vcpus 0).halted = false ∧ e.ctx.exitKind = .smc ∧ e.asksOff
  last := fun _ => false
  off_halts := by
    rintro e h ⟨hh, hk, ho⟩
    simpa [fermiosBoot, hh, hk, Flow.state] using halted_psciHandle_skip ho
  off_returns := by
    rintro h e - ⟨hh, hk, -⟩
    simp only [fermiosBoot, enter_vcpus_self, vcpuRunOnce_ctx, vcpuRunOnce_halted, hh, hk,
      Bool.false_eq_true, if_false]
    exact ⟨_, rfl, trivial, rfl⟩

def fermiosVgicBootPsci : PsciLoop where
  S := Counted
  loop := fermiosVgicBoot
  hv := Counted.hv
  cur := fun _ => 0
  off := fun e s => (s.hv.vcpus 0).halted = false ∧ e.ctx.exitKind = .smc ∧ e.asksOff
  last := fun s => 2000000 ≤ s.count + 1
  off_halts := by
    rintro e s ⟨hh, hk, ho⟩
    simpa [fermiosVgicBoot, hh, hk, Flow.state] using halted_psciHandle_skip ho
  off_returns := by
    rintro s e - ⟨hh, hk, -⟩
    simp only [fermiosVgicBoot, enter_vcpus_self, vcpuRunOnce_ctx, vcpuRunOnce_halted, hh, hk,
      Bool.false_eq_true, if_false]
    exact ⟨_, rfl, trivial, decide_lt_eq_not_le _ _⟩

/-- `mtenant_real_demo` does not look at `halted`. -/
def mtenantRealPsci : PsciLoop where
  S := Tenants
  loop := mtenantRealDemo
  hv := Tenants.hv
  cur := Tenants.cur
  off := fun e _ => e.ctx.exitKind = .smc ∧ e.asksOff
  last := fun s => 2000000 ≤ s.guard + 1
  off_halts := by
    rintro e s ⟨hk, ho⟩
    simpa [mtenantRealDemo, hk, Flow.state] using halted_psciHandle_skip ho
  off_returns := by
    rintro s e hc ⟨hk, -⟩
    rw [mtenantRealDemo, Bool.and_eq_true] at hc
    simp only [mtenantRealDemo, enter_vcpus_self, vcpuRunOnce_ctx, hk]
    refine ⟨_, rfl, s.readyReal_cur, ?_⟩
    rw [readyReal_t1, hc.1, readyReal_guard, Bool.true_and]
    exact decide_lt_eq_not_le _ _

def mtenantOsPsci : PsciLoop where
  S := Tenants
  loop := mtenantOsDemo
  hv := Tenants.hv
  cur := Tenants.cur
  off := fun e s =>
    (s.readyOs.hv.vcpus s.cur).halted = false ∧
      (e.ctx.exitKind = .smc ∨ e.ctx.exitKind = .hvc) ∧ e.asksOff
  last := fun s => 4000000 ≤ s.guard + 1
  off_halts := by
    rintro e s ⟨hh, hk | hk, ho⟩
    · simpa [mtenantOsDemo, hh, hk, Flow.state] using halted_psciHandle_skip ho
    · simpa [mtenantOsDemo, hh, hk, Flow.state] using halted_psciHandle ho
  off_returns := by
    rintro s e - ⟨hh, hk | hk, -⟩
    all_goals
      simp only [mtenantOsDemo, enter_vcpus_self, vcpuRunOnce_ctx, vcpuRunOnce_halted, hh, hk,
        Bool.false_eq_true, if_false]
      refine ⟨_, rfl, s.readyOs_cur, ?_⟩
      rw [readyOs_guard]
      exact decide_lt_eq_not_le _ _

def linuxVgicBootPsci (img : Image) : PsciLoop where
  S := Smp
  loop := linuxVgicBoot img
  hv := Smp.hv
  cur := Smp.cur
  off := fun e s =>
    ((s.ready img e.key).hv.vcpus s.cur).halted = false ∧
      (e.ctx.exitKind = .smc ∨ e.ctx.exitKind = .hvc) ∧ e.asksOff
  last := fun _ => false
  off_halts := by
    rintro e s ⟨hh, hk | hk, ho⟩
    · simpa [linuxVgicBoot, hh, hk, Flow.state] using halted_psciHandle_skip ho
    · simpa [linuxVgicBoot, hh, hk, Flow.state] using halted_psciHandle ho
  off_returns := by
    rintro s e - ⟨hh, hk | hk, -⟩
    all_goals
      simp only [linuxVgicBoot, Smp.ready_cur, enter_vcpus_self, vcpuRunOnce_ctx,
        vcpuRunOnce_halted, hh, hk, Bool.false_eq_true, if_false]
      exact ⟨_, rfl, rfl, rfl⟩

theorem psciRange_of_off {fn : U32} (h : psciOffFn fn = true) : psciRange fn = true := by
  simp only [psciOffFn, Bool.or_eq_true, decide_eq_true_eq] at h
  rcases h with rfl | rfl <;> decide

/-- `smp_psci_demo` takes PSCI calls by HVC and does not look at `halted`. -/
def smpPsciPsci (img : Image) (sp : U64) : PsciLoop where
  S := SmpPsci
  loop := smpPsciDemo img sp
  hv := SmpPsci.hv
  cur := SmpPsci.cur
  off := fun e _ => e.ctx.exitKind = .hvc ∧ e.asksOff
  last := fun s => 100000 ≤ s.guard + 1
  off_halts := by
    rintro e s ⟨hk, ho⟩
    simpa [smpPsciDemo, hk, psciRange_of_off ho, Flow.state] using halted_psciHandle ho
  off_returns := by
    rintro s e hc ⟨hk, ho⟩
    rw [smpPsciDemo, Bool.and_eq_true] at hc
    simp only [smpPsciDemo, enter_vcpus_self, vcpuRunOnce_ctx, hk, psciRange_of_off ho, if_true]
    refine ⟨_, rfl, SmpPsci.ready_cur img sp s, ?_⟩
    rw [SmpPsci.ready_got, hc.1, SmpPsci.ready_guard, Bool.true_and]
    exact decide_lt_eq_not_le _ _

/-- The loops that call `psci_handle`. -/
def psciLoops (img : Image) (sp : U64) : List PsciLoop :=
  [linuxBootPsci, fermiosBootPsci, fermiosVgicBootPsci, mtenantRealPsci, linuxVgicBootPsci img,
    mtenantOsPsci, smpPsciPsci img sp]

/-! ## 2. When a powered-off vCPU stays off -/

theorem PsciLoop.staysOff_iff (L : PsciLoop) (s : L.S) (es : List Event) :
    L.StaysOff s es ↔ ∀ p ∈ L.loop.iters s es, L.off p.2 p.1 → L.last p.1 = true :=
  Loop.neverAgain_iff L.off_returns s es

/-- In each loop, from every state and for every sequence of exits: a vCPU that
a PSCI call has powered off is never entered again if and only if no such call is
handled, or only in the last pass that the counter of the loop allows. -/
theorem stays_off_iff (img : Image) (sp : U64) :
    ∀ L ∈ psciLoops img sp, ∀ (s : L.S) (es : List Event),
      (∀ p ∈ L.loop.iters s es, L.off p.2 p.1 →
        ((L.hv (L.loop.body p.2 p.1).state).vcpus (L.cur p.1)).halted = true) ∧
      (L.StaysOff s es ↔ ∀ p ∈ L.loop.iters s es, L.off p.2 p.1 → L.last p.1 = true) :=
  fun L _ s es => ⟨fun p _ ho => L.off_halts p.2 p.1 ho, L.staysOff_iff s es⟩

/-- The guest calls SYSTEM_OFF by SMC. -/
def smcOff : Event := syncExit 0x5C000000 0x84000008

/-- The guest asks for the version of PSCI by SMC. -/
def smcVersion : Event := syncExit 0x5C000000 0x84000000

theorem smcOff_asksOff : smcOff.ctx.exitKind = .smc ∧ smcOff.asksOff := by
  refine ⟨by decide, ?_⟩
  unfold Event.asksOff
  decide

/-- `fermios_vgic_boot` at the head of its last pass. -/
def lastPass : Counted := { hv := resetHv exampleImage 0x40000000, count := 1999999 }

/-- A guest of `linux_boot` that makes other PSCI calls is not powered off, and one of
`fermios_vgic_boot` that calls SYSTEM_OFF in the last pass stays off. -/
theorem stays_off_last_pass :
    linuxBootPsci ∈ psciLoops exampleImage 0 ∧
    fermiosVgicBootPsci ∈ psciLoops exampleImage 0 ∧
    linuxBootPsci.StaysOff (resetHv exampleImage 0x41000000) [smcVersion, smcVersion] ∧
    fermiosVgicBootPsci.off smcOff lastPass ∧
    fermiosVgicBootPsci.StaysOff lastPass [smcOff, smcOff] := by
  have hlinux : linuxBootPsci ∈ psciLoops exampleImage 0 := List.mem_cons_self
  have hfermi : fermiosVgicBootPsci ∈ psciLoops exampleImage 0 := by
    simp only [psciLoops, List.mem_cons, true_or, or_true]
  have hoff : fermiosVgicBootPsci.off smcOff lastPass := ⟨rfl, smcOff_asksOff⟩
  refine ⟨hlinux, hfermi, (stays_off_iff exampleImage 0 _ hlinux _ _).2.mpr ?_,
    hoff, (stays_off_iff exampleImage 0 _ hfermi _ _).2.mpr ?_⟩
  · intro p hp hoff
    have hevent := Loop.event_mem_of_iters hp
    have hp2 : p.2 = smcVersion := by simpa using hevent
    rw [hp2] at hoff
    exact absurd hoff.2.2 (by unfold Event.asksOff; decide)
  · intro p hp _
    obtain ⟨s', hb, -, hend⟩ :=
      fermiosVgicBootPsci.off_returns lastPass smcOff (by decide) hoff
    rw [Loop.iters_cons_next (by decide) hb, Loop.iters_of_not_cond (by rw [hend]; decide)] at hp
    rw [List.mem_singleton.mp hp]
    decide

/-- After SYSTEM_OFF, `linux_boot` enters the guest again before it looks at the
flag, and `mtenant_real_demo` never looks. -/
theorem off_call_is_reentered :
    ¬ linuxBootPsci.StaysOff (resetHv exampleImage 0x41000000) [smcOff] ∧
    ¬ mtenantRealPsci.StaysOff
      { hv := resetHv exampleImage 0x40000000, t1 := 0, pend := fun _ => false, cur := 0,
        guard := 0, slot := 0 } [smcOff, smcOff, smcOff] := by
  obtain ⟨hk, ho⟩ := smcOff_asksOff
  constructor
  · intro hstays
    have hall := (PsciLoop.staysOff_iff _ _ _).mp hstays
    exact absurd (hall _ List.mem_cons_self ⟨rfl, .inl hk, ho⟩) Bool.false_ne_true
  · intro hstays
    have hall := (PsciLoop.staysOff_iff _ _ _).mp hstays
    exact absurd (hall _ List.mem_cons_self ⟨hk, ho⟩) (by decide)

end FermiHV
