import FermiHV.EnableBits
import FermiHV.Ipi
import FermiHV.Secondary

/-!
# Delivery of disabled interrupts

The run loops test the enable bit of an interrupt when they put it into a list
register (`vgic_irq_enabled`, `vgic_spi_enabled`, then `vgic_inject`). A guest that
clears the bit afterwards (ICENABLER) finds the interrupt still in the list
register and takes it.

`VgicLoop` is what the five loops that deliver timer ticks have in common. The enable
bits change only by the stores of the guests (`VgicLoop.next_vg`), so the condition is
one on these: `KeepsPending` says that a store to ICENABLER has no one where an
interrupt is pending. `no_disabled_delivery`: in the runs that meet it pending
interrupts are enabled whenever a guest is entered, and a pass that goes on keeps
them so exactly when it meets it.
-/

namespace FermiHV

open RunLoop (Flow Loop)

/-! ## 1. Pending and enabled -/

/-- The INTID in a list register. -/
def lrVintid (lr : U64) : U32 := lr.setWidth 32

/-- The list register is pending, or pending and active. -/
def lrPending (lr : U64) : Bool := lr.getLsbD 62

/-- `k` is enabled for vCPU `c`: an SGI or PPI in the redistributor of the vCPU, an
SPI in the distributor `dist` of its VM. -/
def enabledFor (g : Vgic) (dist : Int) (c : Fin 2) (k : U32) : Bool :=
  if k < 32 then vgicIrqEnabled g c.val k else vgicSpiEnabled g dist k

/-- Every pending interrupt of vCPU `c` that is not an SGI is enabled. -/
def PendsEnabled (dist : Int) (c : Fin 2) (h : Hv) : Prop :=
  ∀ i, lrPending ((h.vcpus c).ichLr i) = true → 16 ≤ lrVintid ((h.vcpus c).ichLr i) →
    enabledFor h.vgic dist c (lrVintid ((h.vcpus c).ichLr i)) = true

instance (dist : Int) (c : Fin 2) (h : Hv) : Decidable (PendsEnabled dist c h) :=
  inferInstanceAs (Decidable (∀ _, _))

/-- The bit that decides it. -/
def enableBitFor (dist : Int) (c : Fin 2) (k : U32) : EnableBit :=
  if k < 32 then ppiBit c.val k else spiBit dist k

theorem enabledFor_congr {g g' : Vgic} (hg : g'.vg = g.vg) (dist : Int) (c : Fin 2) (k : U32) :
    enabledFor g' dist c k = enabledFor g dist c k := by
  rw [enabledFor, enabledFor, vgicIrqEnabled, vgicSpiEnabled, hg]
  rfl

/-- An enabled interrupt after a guest exit: a store to ICENABLER has cleared its bit, or
it is enabled. -/
theorem enabledFor_gicExit {g : Vgic} {dist : Int} {c : Fin 2} {k : U32}
    (hen : enabledFor g dist c k = true) (vm : Int) (x : GuestCtx) :
    enabledFor (gicExit vm x g) dist c k = true ↔
      x.enableAct vm (enableBitFor dist c k) ≠ some false := by
  have hlast : ∀ act : Option Bool, act.getD true = true ↔ act ≠ some false := by decide
  rw [enabledFor] at hen ⊢
  by_cases hk : k < 32
  · rw [if_pos hk] at hen
    rw [if_pos hk, irqEnabled_gicExit g vm c.val x hk, hen, enableBitFor, if_pos hk]
    exact hlast _
  · rw [if_neg hk] at hen
    have hhi : k < 256 := by
      by_contra hge
      rw [vgicSpiEnabled, dif_pos (.inr (BitVec.not_lt.mp hge))] at hen
      cases hen
    rw [if_neg hk, spiEnabled_gicExit g vm dist x (BitVec.not_lt.mp hk) hhi, hen, enableBitFor,
      if_neg hk]
    exact hlast _

theorem lrPending_zero : ¬ lrPending 0 = true := by decide

theorem lrPending_iff {lr : U64} : lrPending lr = true ↔ lr.toNat / 2 ^ 62 % 2 = 1 := by
  rw [lrPending, BitVec.getLsbD, Nat.testBit_eq_decide_div_mod_eq, decide_eq_true_eq]

theorem lrState_ne_zero_of_pending {lr : U64} (h : lrPending lr = true) : lrState lr ≠ 0 := by
  rw [lrPending_iff] at h
  rw [ne_eq, lrState_eq_iff]
  change ¬ _ = 0
  omega

theorem lrVintid_pendingLr (k : U32) : lrVintid (pendingLr k) = k := by
  have hk := k.isLt
  apply BitVec.eq_of_toNat_eq
  rw [lrVintid, BitVec.toNat_setWidth, toNat_pendingLr]
  omega

/-- The guest makes nothing pending and changes no INTID. -/
theorem SlotStep.pending {lr lr' : U64} (h : SlotStep lr lr') (hp : lrPending lr' = true) :
    lrPending lr = true ∧ lrVintid lr' = lrVintid lr := by
  refine ⟨lrPending_iff.mpr (h.pends (lrPending_iff.mp hp)), BitVec.eq_of_toNat_eq ?_⟩
  have hlow := h.low
  rw [lrVintid, lrVintid, BitVec.toNat_setWidth, BitVec.toNat_setWidth]
  omega

/-! ## 2. Steps that only queue enabled interrupts -/

/-- From `h` to `h'` the enable bits of vCPU `c` stay, and idle list registers may
receive an SGI or an enabled interrupt. -/
structure Queues (dist : Int) (c : Fin 2) (h h' : Hv) : Prop where
  enabled : ∀ k, enabledFor h'.vgic dist c k = enabledFor h.vgic dist c k
  slot : ∀ i, (h'.vcpus c).ichLr i = (h.vcpus c).ichLr i ∨
    (lrState ((h.vcpus c).ichLr i) = 0 ∧
      ∃ k, (k < 16 ∨ enabledFor h'.vgic dist c k = true) ∧ (h'.vcpus c).ichLr i = pendingLr k)

namespace Queues

variable {dist : Int} {c d : Fin 2} {h h' h'' : Hv}

theorem of_eq (hg : h'.vgic.vg = h.vgic.vg) (hv : (h'.vcpus c).ichLr = (h.vcpus c).ichLr) :
    Queues dist c h h' where
  enabled := enabledFor_congr hg dist c
  slot := fun i => .inl (by rw [hv])

theorem refl (dist : Int) (c : Fin 2) (h : Hv) : Queues dist c h h := of_eq rfl rfl

/-- Any access to the GIC, if the list registers stay. -/
theorem of_lrs (hv : (h'.vcpus c).ichLr = (h.vcpus c).ichLr) :
    Queues dist c { h with vgic := h'.vgic } h' := of_eq rfl hv

theorem trans (h1 : Queues dist c h h') (h2 : Queues dist c h' h'') : Queues dist c h h'' where
  enabled := fun k => (h2.enabled k).trans (h1.enabled k)
  slot := fun i => by
    rcases h2.slot i with hsame | ⟨hidle, k, hk, hnew⟩
    · rw [hsame]
      refine (h1.slot i).imp_right ?_
      rintro ⟨hidle, k, hk, hnew⟩
      exact ⟨hidle, k, hk.imp_right fun he => (h2.enabled k).trans he, hnew⟩
    · rcases h1.slot i with hsame | ⟨-, j, -, hnew'⟩
      · rw [hsame] at hidle
        exact .inr ⟨hidle, k, hk, hnew⟩
      · rw [hnew'] at hidle
        exact absurd hidle (lrState_ne_zero_of_pends (lrPends_pendingLr j))

theorem inject {k : U32} (hk : d = c → k < 16 ∨ enabledFor h.vgic dist c k = true) :
    Queues dist c h (h.inject d k) where
  enabled := fun _ => rfl
  slot := fun i => by
    by_cases hd : c = d
    · subst hd
      rw [Hv.inject, setVcpu_vcpus_self]
      rcases vgicInject_slot k (h.vcpus c) i with hsame | hnew
      · exact .inl hsame
      · by_cases hidle : lrState ((h.vcpus c).ichLr i) = 0
        · exact .inr ⟨hidle, k, hk rfl, hnew⟩
        · exact .inl (vgicInject_ichLr hidle)
    · exact .inl (by rw [Hv.inject, setVcpu_vcpus_of_ne _ hd])

/-- A PPI that the vCPU has enabled. -/
theorem ppi {k : U32} (hlt : k < 32) (hen : vgicIrqEnabled h.vgic d.val k = true) :
    Queues dist c h (h.inject d k) := by
  refine inject fun hd => .inr ?_
  rw [enabledFor, if_pos hlt, ← hd]
  exact hen

theorem injectTimer : Queues dist c h (h.injectTimer d) := by
  simp only [Hv.injectTimer]
  split_ifs with h30 h27
  · exact ppi (by decide) h30
  · exact ppi (by decide) h27
  · exact refl dist c h

/-- The same as the effect of an exit: the GIC is not accessed. -/
theorem injectTimer_exit :
    Queues dist c { h with vgic := (h.injectTimer d).vgic } (h.injectTimer d) := by
  have hg : (h.injectTimer d).vgic = h.vgic := by
    simp only [Hv.injectTimer]
    split_ifs <;> rfl
  rw [hg]
  exact injectTimer

theorem deliverSgi : Queues dist c h (h.deliverSgi d) := by
  rcases vgicPopSgi_cases d.val h.vgic with hpop | ⟨b, hlt, hpop⟩
  · simp only [Hv.deliverSgi, hpop]
    exact of_eq rfl rfl
  · simp only [Hv.deliverSgi, hpop]
    have hsgi : BitVec.ofNat 32 b < 16 := by
      rw [BitVec.lt_def, BitVec.toNat_ofNat]
      change _ < 16
      omega
    refine trans ?_ (inject fun _ => .inl hsgi)
    exact of_eq rfl rfl

/-- A keystroke queues SPI 33 if the distributor of VM 0 has it enabled. -/
theorem keyIn (key : Option U8) : Queues 0 c h (h.keyIn key) := by
  cases key with
  | none => exact refl 0 c h
  | some ch =>
    simp only [Hv.keyIn]
    split_ifs with hen
    · refine trans ?_ (inject fun _ => .inr (Bool.and_eq_true_iff.mp hen).2)
      exact of_eq rfl rfl
    · exact of_eq rfl rfl

/-- What is pending after the step and was not before is enabled. -/
theorem pendsEnabled (hq : Queues dist c h h') (hp : PendsEnabled dist c h) :
    PendsEnabled dist c h' := by
  intro i hpend h16
  rcases hq.slot i with hsame | ⟨-, k, hk, hnew⟩
  · rw [hsame] at hpend h16 ⊢
    rw [hq.enabled]
    exact hp i hpend h16
  · rw [hnew, lrVintid_pendingLr] at h16 ⊢
    exact hk.resolve_left (BitVec.not_lt.mpr h16)

end Queues

/-! ## 3. The loops -/

/-- A run loop that delivers interrupts through the emulated GIC. -/
structure VgicLoop where
  S : Type
  loop : Loop S Event
  hv : S → Hv
  cur : S → Fin 2
  /-- The loop has initialised the vCPU. -/
  live : S → Fin 2 → Bool
  /-- The distributor of the VM of a vCPU. -/
  dist : Fin 2 → Int
  /-- The state at the first loop head; the argument is what earlier demos left. -/
  start : Hv → S
  /-- The state in which `vcpu_run_once` is called; the argument is the keystroke of
  the pass. -/
  entry : Option U8 → S → Hv
  start_live : ∀ h, live (start h) (cur (start h)) = true
  start_idle : ∀ h c, live (start h) c = true → ((hv (start h)).vcpus c).ichLr = fun _ => 0
  entry_queues : ∀ key s c, live s c = true → Queues (dist c) c (hv s) (entry key s)
  /-- A vCPU that the pass initialises does not run in it and has no interrupt. -/
  next_live : ∀ e s t, live s (cur s) = true → loop.body e s = .next t →
    live t (cur t) = true ∧ (∀ c, live s c = true → live t c = true) ∧
      ∀ c, live t c = true → live s c = true ∨
        (c ≠ cur s ∧ ((entry e.key s).vcpus c).ichLr = fun _ => 0)
  /-- The enable bits change only by the store of the exit. -/
  next_vg : ∀ e s t, loop.body e s = .next t →
    (hv t).vgic.vg = (gicExit (dist (cur s)) e.ctx (entry e.key s).vgic).vg
  /-- Once the exit's access to the GIC is done, the exit only queues. -/
  next_queues : ∀ e s t, loop.body e s = .next t → ∀ c,
    Queues (dist c) c { (entry e.key s).enter (cur s) e with vgic := (hv t).vgic } (hv t)

namespace VgicLoop

variable {L : VgicLoop} {e : IpiEvent} {s t : L.S} {c : Fin 2}

/-- The exit of the pass: the guest leaves the list registers as its steps make
them. -/
def exit (L : VgicLoop) (e : IpiEvent) (s : L.S) : Event :=
  { e.ev with
    ctx := { e.ev.ctx with
      ichLr := runLrs e.steps ((L.entry e.ev.key s).vcpus (L.cur s)).ichLr } }

/-- The loop over guests that follow the list-register state machine. -/
def run (L : VgicLoop) : Loop L.S IpiEvent where
  cond := L.loop.cond
  body := fun e s => L.loop.body (L.exit e s) s

/-- The state in which the guest exits. -/
def exited (L : VgicLoop) (e : IpiEvent) (s : L.S) : Hv :=
  (L.entry e.ev.key s).enter (L.cur s) (L.exit e s)

/-- The exit is no store to ICENABLER with a one for an interrupt, other than an SGI, that
is pending for a vCPU of the loop when the guest exits. -/
def KeepsPending (L : VgicLoop) (e : IpiEvent) (s : L.S) : Prop :=
  ∀ c, L.live s c = true → ∀ i,
    lrPending (((L.exited e s).vcpus c).ichLr i) = true →
    16 ≤ lrVintid (((L.exited e s).vcpus c).ichLr i) →
    e.ev.ctx.enableAct (L.dist (L.cur s))
      (enableBitFor (L.dist c) c (lrVintid (((L.exited e s).vcpus c).ichLr i))) ≠ some false

instance (L : VgicLoop) (e : IpiEvent) (s : L.S) : Decidable (L.KeepsPending e s) :=
  inferInstanceAs (Decidable (∀ _, _))

/-- The vCPUs that may run have only enabled interrupts pending. -/
structure Inv (L : VgicLoop) (s : L.S) : Prop where
  live : L.live s (L.cur s) = true
  pends : ∀ c, L.live s c = true → PendsEnabled (L.dist c) c (L.hv s)

theorem inv_start (L : VgicLoop) (h : Hv) : L.Inv (L.start h) where
  live := L.start_live h
  pends := fun c hc i hp => by
    rw [L.start_idle h c hc] at hp
    exact absurd hp lrPending_zero

theorem exited_vcpu_of_ne (hne : c ≠ L.cur s) :
    (L.exited e s).vcpus c = (L.entry e.ev.key s).vcpus c :=
  setVcpu_vcpus_of_ne _ hne

/-- While a guest runs, what is pending stays enabled. -/
theorem pendsEnabled_exited (h : PendsEnabled (L.dist c) c (L.entry e.ev.key s)) :
    PendsEnabled (L.dist c) c (L.exited e s) := by
  intro i hp h16
  have hstep : SlotStep (((L.entry e.ev.key s).vcpus c).ichLr i)
      (((L.exited e s).vcpus c).ichLr i) := by
    by_cases hc : c = L.cur s
    · subst hc
      rw [exited, enter_vcpus_self]
      exact slotStep_runLrs _ _ _
    · rw [exited_vcpu_of_ne hc]
      exact .refl _
  obtain ⟨hpend, hid⟩ := hstep.pending hp
  rw [hid] at h16 ⊢
  exact h i hpend h16

/-- The guest's steps on the list registers are no part of its store. -/
theorem exit_enableAct (b : EnableBit) : (L.exit e s).ctx.enableAct (L.dist (L.cur s)) b =
    e.ev.ctx.enableAct (L.dist (L.cur s)) b := rfl

/-- What is pending and enabled when the guest exits is enabled after the pass exactly
when the store of the exit does not clear it. -/
theorem enabledFor_next {k : U32} (hb : L.run.body e s = .next t)
    (hen : enabledFor (L.exited e s).vgic (L.dist c) c k = true) :
    enabledFor (L.hv t).vgic (L.dist c) c k = true ↔
      e.ev.ctx.enableAct (L.dist (L.cur s)) (enableBitFor (L.dist c) c k) ≠ some false := by
  have hentry : enabledFor (L.entry (L.exit e s).key s).vgic (L.dist c) c k = true := hen
  rw [enabledFor_congr (L.next_vg (L.exit e s) s t hb), enabledFor_gicExit hentry, exit_enableAct]

/-- A pass that goes on keeps the invariant exactly when its exit disables no pending
interrupt. -/
theorem inv_next_iff (hinv : L.Inv s) (hb : L.run.body e s = .next t) :
    L.Inv t ↔ L.KeepsPending e s := by
  obtain ⟨hlive, hmono, hnew⟩ := L.next_live (L.exit e s) s t hinv.live hb
  have hq : ∀ c, Queues (L.dist c) c { L.exited e s with vgic := (L.hv t).vgic } (L.hv t) :=
    L.next_queues (L.exit e s) s t hb
  have hexited : ∀ c, L.live s c = true → PendsEnabled (L.dist c) c (L.exited e s) := fun c hc =>
    pendsEnabled_exited ((L.entry_queues e.ev.key s c hc).pendsEnabled (hinv.pends c hc))
  constructor
  · intro h c hc i hp h16
    -- a pending slot is not idle, so the exit has left it as it was
    have hsame := ((hq c).slot i).resolve_right fun hidle =>
      lrState_ne_zero_of_pending hp hidle.1
    change _ = ((L.exited e s).vcpus c).ichLr i at hsame
    have hen := h.pends c (hmono c hc) i
    rw [hsame] at hen
    exact (enabledFor_next hb (hexited c hc i hp h16)).mp (hen hp h16)
  · intro hkeeps
    refine ⟨hlive, fun c hc => (hq c).pendsEnabled fun i hp h16 => ?_⟩
    -- a vCPU that may run now could run before, or has just been brought up idle
    rcases hnew c hc with hs | ⟨hne, hidle⟩
    · exact (enabledFor_next hb (hexited c hs i hp h16)).mpr (hkeeps c hs i hp h16)
    · change lrPending (((L.exited e s).vcpus c).ichLr i) = true at hp
      rw [exited_vcpu_of_ne hne] at hp
      change ((L.entry e.ev.key s).vcpus c).ichLr = _ at hidle
      rw [hidle] at hp
      exact absurd hp lrPending_zero

end VgicLoop

/-- `fermios_vgic_boot`. -/
def fermiosVgic (img : Image) : VgicLoop where
  S := Counted
  loop := fermiosVgicBoot
  hv := Counted.hv
  cur := fun _ => 0
  live := fun _ c => c = 0
  dist := fun _ => 0
  start := fermiosVgicBootStart img
  entry := fun _ s => s.hv
  start_live := fun _ => rfl
  start_idle := fun h c hc => by
    rw [of_decide_eq_true hc]
    exact congrArg (fun v : Vcpu => v.ichLr) (setVcpu_vcpus_self _)
  entry_queues := fun _ s c _ => .refl _ _ _
  next_live := fun _ _ _ _ _ => ⟨rfl, fun _ hc => hc, fun _ hc => .inl hc⟩
  next_vg := fun e s t hb => by
    simp only [fermiosVgicBoot, enter_vcpus_self, vcpuRunOnce_ctx] at hb
    have hctx : ((s.hv.enter 0 e).vcpus 0).toGuestCtx = e.ctx := enter_ctx s.hv 0 e
    by_cases hhalt : (vcpuRunOnce e.ctx (s.hv.vcpus 0)).halted = true
    · rw [if_pos hhalt] at hb
      cases hb
    rw [if_neg hhalt] at hb
    by_cases hk : e.ctx.exitKind = .abort
    · simp only [hk] at hb
      cases hb
      exact congrArg Vgic.vg
        (abort_gicExit hctx hk (uart_or_ne_vgic AbortAction.noConfusion))
    · rw [gicExit_of_not_abort hk]
      cases hkind : e.ctx.exitKind with
      | abort => exact absurd hkind hk
      | irq =>
        simp only [hkind] at hb
        split_ifs at hb <;> cases hb <;> rfl
      | sysreg =>
        simp only [hkind] at hb
        cases hb
        exact congrArg Vgic.vg (cntpEmulate_vgic 0)
      | smc =>
        simp only [hkind] at hb
        cases hb
        exact congrArg Vgic.vg psciHandle_vgic
      | hvc | other =>
        simp only [hkind] at hb
        cases hb
  next_queues := fun e s t hb c => by
    simp only [fermiosVgicBoot] at hb
    generalize s.hv.enter 0 e = h at hb ⊢
    by_cases hhalt : (h.vcpus 0).halted = true
    · rw [if_pos hhalt] at hb
      cases hb
    rw [if_neg hhalt] at hb
    cases hk : (h.vcpus 0).exitKind with
    | irq =>
      simp only [hk] at hb
      split_ifs at hb with htick
      · cases hb
        exact .ppi (by decide) (Bool.and_eq_true_iff.mp htick).2
      · cases hb
        exact .refl _ _ _
    | abort =>
      simp only [hk] at hb
      cases hb
      exact .of_lrs (abort_ichLr _ _ _)
    | sysreg =>
      simp only [hk] at hb
      cases hb
      exact .of_lrs (cntpEmulate_ichLr _)
    | smc =>
      simp only [hk] at hb
      cases hb
      exact .of_lrs ((setVcpu_ichLr (skip_ichLr _)).trans psciHandle_ichLr)
    | hvc | other =>
      simp only [hk] at hb
      cases hb

/-- The demos that count timer ticks. -/
def ticksVgic (limit : Nat) (vm : Fin 2 → Int) (other : AbortAction) (start : Hv → Ticks)
    (hother : other ≠ .vgic) (hcur : ∀ h c, (((start h).hv).vcpus c).ichLr = fun _ => 0) :
    VgicLoop where
  S := Ticks
  loop := tickLoop limit vm other
  hv := Ticks.hv
  cur := Ticks.cur
  live := fun _ _ => true
  dist := vm
  start := start
  entry := fun _ s => s.ready.hv
  start_live := fun _ => rfl
  start_idle := fun h c _ => hcur h c
  entry_queues := fun _ s c _ => by
    simp only [Ticks.ready]
    split_ifs with hpend
    · exact .ppi (by decide) (Bool.and_eq_true_iff.mp hpend).2
    · exact .refl _ _ _
  next_live := fun _ _ _ _ _ => ⟨rfl, fun _ _ => rfl, fun _ _ => .inl rfl⟩
  next_vg := fun e s t hb => by
    simp only [tickLoop, enter_vcpus_self, vcpuRunOnce_ctx] at hb
    have hctx : ((s.ready.hv.enter s.cur e).vcpus s.cur).toGuestCtx = e.ctx :=
      enter_ctx s.ready.hv s.cur e
    by_cases hk : e.ctx.exitKind = .abort
    · simp only [hk] at hb
      by_cases hec : e.ctx.exitEc = ecDabtLow
      · rw [if_pos hec] at hb
        cases hb
        exact congrArg Vgic.vg (abort_gicExit hctx hk hother)
      · rw [if_neg hec] at hb
        cases hb
    · rw [gicExit_of_not_abort hk]
      cases hkind : e.ctx.exitKind with
      | abort => exact absurd hkind hk
      | irq =>
        simp only [hkind] at hb
        cases hb
        split_ifs <;> rfl
      | hvc =>
        simp only [hkind] at hb
        cases hb
        rfl
      | smc | sysreg | other =>
        simp only [hkind] at hb
        cases hb
  next_queues := fun e s t hb c => by
    simp only [tickLoop] at hb
    generalize s.ready.hv.enter s.cur e = h at hb ⊢
    cases hk : (h.vcpus s.cur).exitKind with
    | irq =>
      simp only [hk] at hb
      cases hb
      split_ifs
      · exact .refl _ _ _
      · exact .refl _ _ _
    | hvc =>
      simp only [hk] at hb
      cases hb
      exact .refl _ _ _
    | abort =>
      simp only [hk] at hb
      by_cases hec : (h.vcpus s.cur).exitEc = ecDabtLow
      · rw [if_pos hec] at hb
        cases hb
        exact .of_lrs (abort_ichLr _ _ _)
      · rw [if_neg hec] at hb
        cases hb
    | smc | sysreg | other =>
      simp only [hk] at hb
      cases hb

theorem setVcpu_both_idle {h : Hv} {v w : Vcpu} (hv : v.ichLr = fun _ => 0)
    (hw : w.ichLr = fun _ => 0) (c : Fin 2) :
    (((h.setVcpu 0 v).setVcpu 1 w).vcpus c).ichLr = fun _ => 0 := by
  by_cases hc : c = 1
  · rw [hc, setVcpu_vcpus_self, hw]
  · have h0 : c = 0 := by omega
    rw [setVcpu_vcpus_of_ne _ hc, h0, setVcpu_vcpus_self, hv]

/-- `mtenant_vgic_demo`. -/
def mtenantVgic (img : Image) : VgicLoop :=
  ticksVgic 20000 (fun c => c.val) .report (mtenantVgicDemoStart img) AbortAction.noConfusion
    fun _ => setVcpu_both_idle rfl rfl

/-- `smp_gicr_demo`. -/
def smpGicrVgic (img : Image) : VgicLoop :=
  ticksVgic 60000 (fun _ => 0) .zero (smpGicrDemoStart img) AbortAction.noConfusion
    fun _ => setVcpu_both_idle rfl rfl

example (img : Image) : (mtenantVgic img).loop = mtenantVgicDemo := rfl

example (img : Image) : (smpGicrVgic img).loop = smpGicrDemo := rfl

/-- `mtenant_os_demo`. -/
def mtenantOsVgic (img : Image) : VgicLoop where
  S := Tenants
  loop := mtenantOsDemo
  hv := Tenants.hv
  cur := Tenants.cur
  live := fun _ _ => true
  dist := fun c => c.val
  start := mtenantOsDemoStart img
  entry := fun _ s => s.readyOs.hv
  start_live := fun _ => rfl
  start_idle := fun h c _ => (setVcpu_ichLr (setX_ichLr _ _ _)).trans (setVcpu_both_idle rfl rfl c)
  entry_queues := fun _ s c _ => by
    simp only [Tenants.readyOs]
    split_ifs
    · exact .injectTimer
    · exact .refl _ _ _
  next_live := fun _ _ _ _ _ => ⟨rfl, fun _ _ => rfl, fun _ _ => .inl rfl⟩
  next_vg := fun e s t hb => by
    have hctx : ((s.readyOs.hv.enter s.cur e).vcpus s.cur).toGuestCtx = e.ctx :=
      enter_ctx s.readyOs.hv s.cur e
    by_cases hk : e.ctx.exitKind = .abort
    · simp only [mtenantOsDemo, enter_vcpus_self, vcpuRunOnce_ctx, hk] at hb
      split_ifs at hb
      cases hb
      exact congrArg Vgic.vg
        (abort_gicExit hctx hk (uart_or_ne_vgic AbortAction.noConfusion))
    · rw [gicExit_of_not_abort hk]
      have hpass := mtenantOsDemo_body_cases (e := e) (s := s)
        (P := fun h => h.vgic.vg = s.readyOs.hv.vgic.vg) rfl
        (fun _ hkind => absurd hkind hk) (fun _ _ => congrArg Vgic.vg (cntpEmulate_vgic s.cur))
        (congrArg Vgic.vg psciHandle_vgic) (congrArg Vgic.vg psciHandle_vgic)
      rw [hb] at hpass
      exact hpass
  next_queues := fun e s t hb c => by
    have hpass := mtenantOsDemo_body_cases (e := e) (s := s)
      (P := fun h => Queues c.val c { s.readyOs.hv.enter s.cur e with vgic := h.vgic } h)
      (.refl _ _ _) (fun _ _ => .of_lrs (abort_ichLr _ _ _))
      (fun _ _ => .of_lrs (cntpEmulate_ichLr _)) (.of_lrs psciHandle_ichLr)
      (.of_lrs ((setVcpu_ichLr (skip_ichLr _)).trans psciHandle_ichLr))
    rw [hb] at hpass
    exact hpass

section LinuxVgicBoot

variable {img : Image} {s : Smp} {c : Fin 2}

/-- A vCPU that is up is left alone. -/
theorem bringUp_vcpu (hup : c = 0 ∨ 2 ≤ s.ncpu) : (s.bringUp img).hv.vcpus c = s.hv.vcpus c := by
  simp only [Smp.bringUp]
  split_ifs with hb
  · rcases hup with rfl | hup
    · have hne : (0 : Fin 2) ≠ 1 := by decide
      simp only [Hv.cpuOn, setVcpu_vcpus_of_ne _ hne]
    · rw [Bool.and_eq_true, decide_eq_true_eq] at hb
      omega
  · rfl

/-- A vCPU that comes up has no interrupt. -/
theorem bringUp_idle (hdown : ¬ (c = 0 ∨ 2 ≤ s.ncpu)) (hup : 2 ≤ (s.bringUp img).ncpu) :
    ((s.bringUp img).hv.vcpus c).ichLr = fun _ => 0 := by
  rw [not_or] at hdown
  have hone : c = 1 := by omega
  rw [hone]
  simp only [Smp.bringUp] at hup ⊢
  split_ifs with hb
  · simp only [Hv.cpuOn, setVcpu_vcpus_self, setX_ichLr]
    rfl
  · rw [if_neg hb] at hup
    omega

/-- `linux_vgic_boot`. -/
def linuxVgic (img : Image) : VgicLoop where
  S := Smp
  loop := linuxVgicBoot img
  hv := Smp.hv
  cur := Smp.cur
  live := fun s c => c = 0 ∨ 2 ≤ s.ncpu
  dist := fun _ => 0
  start := linuxVgicBootStart img
  entry := fun key s => (s.ready img key).hv
  start_live := fun _ => rfl
  start_idle := fun h c hc => by
    have h0 : c = 0 := (of_decide_eq_true hc).resolve_right (show ¬ 2 ≤ 1 by omega)
    rw [h0]
    exact congrArg (fun v : Vcpu => v.ichLr) (setVcpu_vcpus_self _)
  entry_queues := fun key s c hc => by
    have hup : Queues 0 c s.hv (s.bringUp img).hv :=
      .of_eq (by rw [bringUp_vgic]) (by rw [bringUp_vcpu (of_decide_eq_true hc)])
    exact (hup.trans (.keyIn key)).trans .deliverSgi
  next_live := fun e s t hcur hb => by
    obtain ⟨-, -, hncpu, hswitch, -⟩ := linuxVgicBoot_next_inv hb
    have hready : t.ncpu = (s.bringUp img).ncpu := hncpu
    have hmono : s.ncpu ≤ t.ncpu ∨ t.ncpu = 2 := by
      rw [hready, Smp.bringUp]
      split_ifs
      · exact .inr rfl
      · exact .inl le_rfl
    simp only [decide_eq_true_eq] at hcur ⊢
    refine ⟨?_, fun c hc => hc.imp_right fun h => by omega, fun c hc => ?_⟩
    · rcases hswitch with hsame | h2
      · rw [hsame]
        exact hcur.imp_right fun h => by omega
      · exact .inr h2.ge
    · by_cases hs : c = 0 ∨ 2 ≤ s.ncpu
      · exact .inl hs
      · have hne : c ≠ s.cur := fun he => hs (he ▸ hcur)
        have h2 : 2 ≤ (s.bringUp img).ncpu := hready ▸ hc.resolve_left fun h => hs (.inl h)
        refine .inr ⟨hne, ?_⟩
        rw [← bringUp_idle hs h2]
        have hone : c = 1 := by omega
        simp only [Smp.ready, Smp.bringUp_cur, deliverSgi_vcpus, if_neg hne]
        rw [hone, keyIn_vcpus_one]
  next_vg := fun e s t hb => by
    obtain ⟨-, hhv, -⟩ := linuxVgicBoot_next_inv hb
    rw [hhv, linuxExit_vg (Smp.exited_ctx img e s)]
    rfl
  next_queues := fun e s t hb c => by
    obtain ⟨-, hhv, -⟩ := linuxVgicBoot_next_inv hb
    have hexited : (s.exited img e).hv = (s.ready img e.key).hv.enter s.cur e := rfl
    rw [hexited] at hhv
    rw [hhv]
    generalize (s.ready img e.key).hv.enter s.cur e = h
    exact linuxExit_cases (P := fun h' => Queues 0 c { h with vgic := h'.vgic } h') (.refl _ _ _)
      .injectTimer_exit (fun _ => .of_lrs (abort_ichLr _ _ _)) (.of_lrs postSgi_ichLr)
      (fun _ => .of_lrs (cntpEmulate_ichLr _)) (.of_lrs psciHandle_ichLr)
      (.of_lrs ((setVcpu_ichLr (skip_ichLr _)).trans psciHandle_ichLr))

end LinuxVgicBoot

/-- The loops that deliver timer ticks. -/
def vgicLoops (img : Image) : List VgicLoop :=
  [fermiosVgic img, mtenantVgic img, mtenantOsVgic img, smpGicrVgic img, linuxVgic img]

/-! ## 4. Runs -/

/-- In every run of the five loops in which no store to ICENABLER disables a pending
interrupt, whatever the earlier demos left: when a vCPU is entered, each interrupt
pending in its list registers is an SGI or enabled. And a pass that goes on keeps the
pending interrupts enabled exactly when its exit is no such store. A guest that does not
write to ICENABLER at all makes none. -/
theorem no_disabled_delivery (img : Image) : ∀ L ∈ vgicLoops img, ∀ (h : Hv) (es : List IpiEvent),
    (∀ p ∈ L.run.iters (L.start h) es, L.KeepsPending p.2 p.1) →
    (∀ p ∈ L.run.iters (L.start h) es,
      PendsEnabled (L.dist (L.cur p.1)) (L.cur p.1) (L.entry p.2.ev.key p.1)) ∧
    (∀ e s t, L.Inv s → L.run.body e s = .next t → (L.Inv t ↔ L.KeepsPending e s)) ∧
    ∀ e s, (∀ w ∈ e.ev.ctx.gicWrites, ∀ d, enableReg (L.dist (L.cur s)) w.1 ≠ some (false, d)) →
      L.KeepsPending e s := by
  intro L _ h es hkeeps
  refine ⟨fun p hp => ?_, fun e s t hinv hb => VgicLoop.inv_next_iff hinv hb,
    fun e s hno _ _ _ _ _ => enableAct_ne_clear hno _⟩
  have hinv : L.Inv p.1 := RunLoop.Loop.iters_of_invariant
    (fun _ _ _ hs hC hb => (VgicLoop.inv_next_iff hs hb).mpr hC) (L.inv_start h) hkeeps p hp
  exact (L.entry_queues _ _ _ hinv.live).pendsEnabled (hinv.pends _ hinv.live)

/-- The guest enables its timer interrupt, takes a tick, and disables it. -/
theorem no_disabled_delivery_taken :
    let L := fermiosVgic exampleImage
    let es := [storePass 0x080B0100 0x40000000 [], irqPass 26 [],
      storePass 0x080B0180 0x40000000 [.ack 0], irqPass 1023 [.eoi 0]]
    L ∈ vgicLoops exampleImage ∧
    (L.run.iters (L.start (resetHv exampleImage 0)) es).length = 4 ∧
    ∀ p ∈ L.run.iters (L.start (resetHv exampleImage 0)) es,
      PendsEnabled (L.dist (L.cur p.1)) (L.cur p.1) (L.entry p.2.ev.key p.1) := by
  intro L es
  have hmem : L ∈ vgicLoops exampleImage := List.mem_cons_self
  have hkeeps : ∀ p ∈ L.run.iters (L.start (resetHv exampleImage 0)) es,
      L.KeepsPending p.2 p.1 := by
    decide +kernel
  exact ⟨hmem, by decide +kernel, (no_disabled_delivery exampleImage L hmem _ es hkeeps).1⟩

/-- The guest disables its timer interrupt before it has taken the tick: it is
entered with INTID 30 pending and disabled. -/
theorem disabled_tick_is_delivered :
    let L := fermiosVgic exampleImage
    let es := [storePass 0x080B0100 0x40000000 [], irqPass 26 [],
      storePass 0x080B0180 0x40000000 [], irqPass 1023 []]
    ¬ ∀ p ∈ L.run.iters (L.start (resetHv exampleImage 0)) es,
      PendsEnabled (L.dist (L.cur p.1)) (L.cur p.1) (L.entry p.2.ev.key p.1) := by
  decide +kernel

end FermiHV
