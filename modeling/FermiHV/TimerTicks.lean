import FermiHV.Ipi
import FermiHV.Ops

/-!
# Timer interrupts and the four list registers

`vgic_inject` drops an interrupt when no list register is idle. Most loops of `vcpu.c`
inject nothing but the guest's timer interrupts, PPI 27 and PPI 30. Since no interrupt
is in two slots in use, two of the four slots suffice (`timer_interrupts_fit`).

The demos with two guests keep the ticks of the EL2 timer in `pend[]` until the guest
that is about to run has its timer interrupt enabled. `tick_reaches_guest`: a tick waits
until then, and a guest is entered with its timer interrupt in a list register no later
than in the first pass in which it runs with that interrupt enabled.
-/

namespace FermiHV

open OpTrace
open RunLoop (Loop)

/-! ## 1. Slots for a few interrupts -/

/-- Slots in use hold interrupts of `K`, each in one slot. -/
structure Tidy (K : Finset U32) (lrs : Lrs) : Prop where
  noDup : NoDuplicate lrs
  within : ∀ i, lrState (lrs i) ≠ 0 → ∃ k ∈ K, lrHolds k (lrs i) = true

section Slots

variable {K : Finset U32} {k : U32} {lrs : Lrs} {v : Vcpu}

theorem tidy_of_idle (h : ∀ i, lrState (lrs i) = 0) : Tidy K lrs where
  noDup := fun _ i _ hi => absurd (h i) (lrState_ne_zero_of_holds hi)
  within := fun i hi => absurd (h i) hi

/-- With at most four interrupts, an idle slot is left for one that no slot holds. -/
theorem Tidy.exists_idle (h : Tidy K lrs) (hK : K.card ≤ 4) (hk : k ∈ K)
    (hno : ¬ LrsHold k lrs) : ∃ i, lrState (lrs i) = 0 := by
  by_contra hfull
  push Not at hfull
  -- the four slots hold four different interrupts of `K`, none of them `k`
  choose f hfK hf using fun i => h.within i (hfull i)
  have hinj : Function.Injective f := by
    intro i j hij
    have hj := hf j
    rw [← hij] at hj
    exact h.noDup (f i) i j (hf i) hj
  have hsub : Finset.univ.image f ⊆ K.erase k := by
    intro k' hk'
    obtain ⟨i, -, rfl⟩ := Finset.mem_image.mp hk'
    refine Finset.mem_erase.mpr ⟨?_, hfK i⟩
    rintro rfl
    exact hno ⟨i, hf i⟩
  have hcard := Finset.card_le_card hsub
  rw [Finset.card_image_of_injective _ hinj, Finset.card_erase_of_mem hk, Finset.card_univ,
    Fintype.card_fin] at hcard
  omega

theorem Tidy.inject (h : Tidy K v.ichLr) (hk : k ∈ K) : Tidy K (vgicInject k v).ichLr where
  noDup := noDuplicate_inject h.noDup k
  within := fun i hi => by
    rcases vgicInject_slot k v i with hsame | hnew
    · rw [hsame] at hi ⊢
      exact h.within i hi
    · exact ⟨k, hk, by rw [hnew]; exact lrHolds_pendingLr.mpr rfl⟩

/-- An injection within `K` is not dropped. -/
theorem Tidy.lrsHold_inject (h : Tidy K v.ichLr) (hK : K.card ≤ 4) (hk : k ∈ K) :
    LrsHold k (vgicInject k v).ichLr := by
  rw [lrsHold_inject_iff]
  by_cases hheld : LrsHold k v.ichLr
  · exact .inl hheld
  · obtain ⟨i, hidle⟩ := h.exists_idle hK hk hheld
    exact .inr ⟨rfl, fun hnone => freeSlot_eq_none_iff.mp hnone i hidle⟩

theorem SlotStep.holds {lr lr' : U64} (h : SlotStep lr lr') (hk : lrHolds k lr' = true) :
    lrHolds k lr = true := by
  have hlow := h.low
  have hidle := h.idle
  rw [lrHolds_iff] at hk ⊢
  exact ⟨fun h0 => hk.1 (hidle h0), by omega⟩

theorem Tidy.slotStep {lrs' : Lrs} (h : Tidy K lrs) (hstep : ∀ i, SlotStep (lrs i) (lrs' i)) :
    Tidy K lrs' where
  noDup := fun k i j hi hj => h.noDup k i j ((hstep i).holds hi) ((hstep j).holds hj)
  within := fun i hi => by
    have hlow := (hstep i).low
    have hold : lrState (lrs i) ≠ 0 := by
      rw [ne_eq, lrState_eq_iff] at hi ⊢
      exact fun h0 => hi ((hstep i).idle h0)
    obtain ⟨k, hk, hholds⟩ := h.within i hold
    refine ⟨k, hk, ?_⟩
    rw [lrHolds_iff] at hholds ⊢
    rw [ne_eq, lrState_eq_iff] at hi
    exact ⟨hi, by omega⟩

end Slots

/-- The operation offers vCPU `c` only interrupts of `K`. -/
def HvOp.OffersIn (K : Finset U32) (c : Fin 2) (o : HvOp) (h : Hv) : Prop :=
  ∀ k, o.offers h = some (c, k) → k ∈ K

/-- What the operation offers to `c` is in a slot afterwards. -/
def HvOp.Fits (c : Fin 2) (o : HvOp) (h : Hv) : Prop :=
  ∀ k, o.offers h = some (c, k) → LrsHold k ((o.apply h).vcpus c).ichLr

theorem tidy_apply {K : Finset U32} {c : Fin 2} (o : HvOp) (h : Hv)
    (htidy : Tidy K (h.vcpus c).ichLr) (hop : o.Lawful h ∧ o.OffersIn K c h) :
    Tidy K ((o.apply h).vcpus c).ichLr := by
  cases lrChange_apply o h c with
  | guest g ho hl =>
    subst ho
    rw [hl]
    exact htidy.slotStep hop.1
  | start img sp ho hd hl =>
    rw [hl]
    exact tidy_of_idle fun _ => by decide
  | offer k ho hl =>
    rw [hl]
    exact htidy.inject (hop.2 k ho)
  | keep ho hl =>
    rw [hl]
    exact htidy

theorem fits_of_tidy {K : Finset U32} {c : Fin 2} (hK : K.card ≤ 4) (o : HvOp) (h : Hv)
    (hop : Tidy K (h.vcpus c).ichLr ∧ o.Lawful h ∧ o.OffersIn K c h) : o.Fits c h := by
  intro k hk
  cases lrChange_apply o h c with
  | guest g ho hl =>
    subst ho
    cases hk
  | start img sp ho hd hl =>
    subst ho
    cases hk
  | offer j ho hl =>
    have hj : j = k := congrArg Prod.snd (Option.some.inj (ho.symm.trans hk))
    rw [hl, hj]
    exact hop.1.lrsHold_inject hK (hop.2.2 k hk)
  | keep ho hl => exact absurd hk (ho k)

/-! ## 2. Loops that inject timer interrupts only -/

/-- PPI 27 and PPI 30, the virtual and the physical timer of EL1. -/
def timerIntids : Finset U32 := {27, 30}

/-- The operation can inject nothing but a timer interrupt. -/
def HvOp.timerOnly : HvOp → Bool
  | .inject _ k => k = 27 || k = 30
  | .key _ | .deliver _ => false
  | .enter .. | .timer _ | .post _ | .skip _ | .psci _ | .cntp .. | .abort .. | .cpuOn .. =>
    true

theorem offersIn_of_timerOnly {o : HvOp} (ho : o.timerOnly = true) (c : Fin 2) (h : Hv) :
    o.OffersIn timerIntids c h := by
  intro k hk
  cases o with
  | inject d j =>
    cases hk
    simpa [timerIntids, HvOp.timerOnly] using ho
  | timer d =>
    simp only [HvOp.offers] at hk
    split_ifs at hk <;> cases hk <;> decide
  | key ch => cases ho
  | deliver d => cases ho
  | enter | post | skip | psci | cntp | abort | cpuOn => cases hk

inductive IrqLoop
  | virq (nticks : Nat)
  | vgicDemo (nticks : Nat)
  | fermiosVgic
  | mtenantVgic
  | smpGicr
  | smpVtimer
  | mtenantReal
  | mtenantOs

namespace IrqLoop

def State : IrqLoop → Type
  | .virq _ | .vgicDemo _ | .fermiosVgic => Counted
  | .mtenantVgic | .smpGicr | .smpVtimer => Ticks
  | .mtenantReal | .mtenantOs => Tenants

def driver : (L : IrqLoop) → HvDriver L.State
  | .virq n => virqDriver n
  | .vgicDemo n => vgicDemoDriver n
  | .fermiosVgic => fermiosVgicDriver
  | .mtenantVgic => mtenantVgicDriver
  | .smpGicr => smpGicrDriver
  | .smpVtimer => smpVtimerDriver
  | .mtenantReal => mtenantRealDriver
  | .mtenantOs => mtenantOsDriver

variable (L : IrqLoop)

def hv (s : L.State) : Hv := L.driver.view s

def LawfulGuests (s : L.State) (es : List Event) : Prop :=
  Along HvOp.apply HvOp.Lawful (L.driver.trace s es) (L.hv s)

instance (s : L.State) (es : List Event) : Decidable (L.LawfulGuests s es) :=
  inferInstanceAs (Decidable (Along ..))

theorem timerOnly_inject (c : Fin 2) {k : U32} (hk : k = 27 ∨ k = 30) :
    (HvOp.inject c k).timerOnly = true := by
  rcases hk with rfl | rfl <;> rfl

theorem timerOnly_pendOps (pend : Bool) (g : Vgic) (c : Fin 2) {k : U32}
    (hk : k = 27 ∨ k = 30) : ∀ o ∈ pendOps pend g c k, o.timerOnly = true := by
  simp only [pendOps]
  split_ifs <;> simp [timerOnly_inject c hk]

theorem timerOnly_tickOps (g : Vgic) (e : Event) {k : U32} (hk : k = 27 ∨ k = 30) :
    ∀ o ∈ tickOps g k e, o.timerOnly = true := by
  simp only [tickOps]
  split_ifs <;> simp [timerOnly_inject 0 hk]

theorem timerOnly_vgicDemoOps (g : Vgic) (e : Event) :
    ∀ o ∈ vgicDemoOps g e, o.timerOnly = true := by
  simp only [vgicDemoOps]
  cases e.ctx.exitKind with
  | irq => exact timerOnly_tickOps g e (.inl rfl)
  | _ => simp [HvOp.timerOnly]

theorem timerOnly_fermiosVgicOps (g : Vgic) (e : Event) :
    ∀ o ∈ fermiosVgicOps g e, o.timerOnly = true := by
  simp only [fermiosVgicOps]
  cases e.ctx.exitKind with
  | irq => exact timerOnly_tickOps g e (.inr rfl)
  | _ => simp [HvOp.timerOnly]

theorem timerOnly_tickLoop (limit : Nat) (vm : Fin 2 → Int) (other : AbortAction) (s : Ticks)
    (e : Event) : ∀ o ∈ (tickDriver limit vm other).ops e s, o.timerOnly = true := by
  simp only [tickDriver, tickLoopOps, List.forall_mem_append, List.forall_mem_cons]
  refine ⟨timerOnly_pendOps _ _ _ (.inl rfl), rfl, ?_⟩
  split_ifs <;> simp [HvOp.timerOnly]

theorem realIntid_cases (c : Fin 2) : realIntid c = 27 ∨ realIntid c = 30 := by
  rw [realIntid]
  split_ifs
  · exact .inr rfl
  · exact .inl rfl

theorem timerOnly_ops (s : L.State) (e : Event) : ∀ o ∈ L.driver.ops e s, o.timerOnly = true := by
  cases L with
  | virq n =>
    simp only [driver, virqDriver, List.forall_mem_cons]
    refine ⟨rfl, ?_⟩
    split_ifs <;> simp [HvOp.timerOnly]
  | vgicDemo n =>
    simp only [driver, vgicDemoDriver, List.forall_mem_cons]
    exact ⟨rfl, timerOnly_vgicDemoOps _ e⟩
  | fermiosVgic =>
    simp only [driver, fermiosVgicDriver, List.forall_mem_cons]
    refine ⟨rfl, ?_⟩
    split_ifs
    · simp
    · exact timerOnly_fermiosVgicOps _ e
  | mtenantVgic => exact timerOnly_tickLoop _ _ _ s e
  | smpGicr => exact timerOnly_tickLoop _ _ _ s e
  | smpVtimer => exact timerOnly_tickLoop _ _ _ s e
  | mtenantReal =>
    simp only [driver, mtenantRealDriver, mtenantRealOps, List.forall_mem_append,
      List.forall_mem_cons]
    refine ⟨timerOnly_pendOps _ _ _ (realIntid_cases _), rfl, ?_⟩
    cases e.ctx.exitKind <;> simp [HvOp.timerOnly]
  | mtenantOs =>
    simp only [driver, mtenantOsDriver, mtenantOsOps, List.forall_mem_append,
      List.forall_mem_cons]
    refine ⟨?_, rfl, ?_⟩
    · split_ifs <;> simp [HvOp.timerOnly]
    · split_ifs
      · simp
      · cases e.ctx.exitKind <;> simp [HvOp.timerOnly]

/-- What the operations of a run satisfy: the guests' law, and that only timer
interrupts are offered. -/
theorem along_ops {s : L.State} {es : List Event} (hguests : L.LawfulGuests s es) (c : Fin 2) :
    Along HvOp.apply (fun o h => o.Lawful h ∧ o.OffersIn timerIntids c h) (L.driver.trace s es)
      (L.hv s) := by
  refine Along.and hguests (Driver.along_trace_iff.mpr fun p _ => along_of_forall ?_ _)
  intro o ho h
  exact offersIn_of_timerOnly (L.timerOnly_ops p.1 p.2 o ho) c h

end IrqLoop

/-- In the loops that inject only timer interrupts, from idle list registers: every
interrupt offered to a vCPU during a run is in one of its list registers afterwards,
whatever the guests do. -/
theorem timer_interrupts_fit (L : IrqLoop) (s : L.State) (es : List Event) (c : Fin 2)
    (hidle : ∀ i, lrState (((L.hv s).vcpus c).ichLr i) = 0) (hguests : L.LawfulGuests s es) :
    Along HvOp.apply (HvOp.Fits c) (L.driver.trace s es) (L.hv s) := by
  have htidy := (run_of_invariant (tidy_apply (K := timerIntids) (c := c)) (tidy_of_idle hidle)
    (L.along_ops hguests c)).2
  exact htidy.imp (fits_of_tidy (by decide))

/-- A tick, with PPI 27 still pending in the first slot. -/
def heldTick : Event :=
  { timerExit with
    ctx := { timerExit.ctx with ichLr := Function.update (fun _ => 0) 0 (pendingLr 27) } }

/-- The start of `virq_demo`. -/
def virqStart : (IrqLoop.virq 2).State :=
  virqDemoStart exampleImage 0 0 (resetHv exampleImage 0)

/-- The second tick finds the first one in its slot. -/
theorem timer_interrupts_fit_virq :
    Along HvOp.apply (HvOp.Fits 0) ((IrqLoop.virq 2).driver.trace virqStart [timerExit, heldTick])
      ((IrqLoop.virq 2).hv virqStart) :=
  timer_interrupts_fit (.virq 2) virqStart [timerExit, heldTick] 0 (by decide +kernel)
    (by decide +kernel)

/-! ## 3. Ticks that wait -/

/-- The demos that keep a tick in `pend[]` until the guest has its interrupt
enabled. -/
inductive TickDemo
  | mtenantVgic
  | smpGicr
  | smpVtimer
  | mtenantReal

namespace TickDemo

def toIrqLoop : TickDemo → IrqLoop
  | .mtenantVgic => .mtenantVgic
  | .smpGicr => .smpGicr
  | .smpVtimer => .smpVtimer
  | .mtenantReal => .mtenantReal

abbrev State (L : TickDemo) : Type := L.toIrqLoop.State

variable (L : TickDemo)

def loop : Loop L.State Event := L.toIrqLoop.driver.loop

def hv (s : L.State) : Hv := L.toIrqLoop.hv s

def LawfulGuests (s : L.State) (es : List Event) : Prop := L.toIrqLoop.LawfulGuests s es

instance (s : L.State) (es : List Event) : Decidable (L.LawfulGuests s es) :=
  inferInstanceAs (Decidable (L.toIrqLoop.LawfulGuests s es))

def pend : (L : TickDemo) → L.State → Fin 2 → Bool
  | .mtenantVgic | .smpGicr | .smpVtimer => Ticks.pend
  | .mtenantReal => Tenants.pend

def cur : (L : TickDemo) → L.State → Fin 2
  | .mtenantVgic | .smpGicr | .smpVtimer => Ticks.cur
  | .mtenantReal => Tenants.cur

/-- The timer interrupt of a guest. -/
def intid : TickDemo → Fin 2 → U32
  | .mtenantVgic | .smpGicr | .smpVtimer => fun _ => 27
  | .mtenantReal => realIntid

/-- The state in which the guest is entered. -/
def entry : (L : TickDemo) → L.State → Hv
  | .mtenantVgic | .smpGicr | .smpVtimer => fun s => (Ticks.ready s).hv
  | .mtenantReal => fun s => (Tenants.readyReal s).hv

/-- The guest `c` has its timer interrupt enabled. -/
def enabled (s : L.State) (c : Fin 2) : Bool := vgicIrqEnabled (L.hv s).vgic c.val (L.intid c)

/-- A tick of the EL2 timer ends the pass. -/
def Tick (e : Event) : Prop := e.ctx.exitKind = .irq ∧ e.timerTick = true

instance (e : Event) : Decidable (Tick e) := inferInstanceAs (Decidable (_ ∧ _))

/-- The pass delivers the tick that waits for `c`. -/
def Delivers (c : Fin 2) (s : L.State) : Prop :=
  L.cur s = c ∧ L.pend s c = true ∧ L.enabled s c = true

/-- The operations of a pass: the tick that waits, then the guest. -/
theorem ops_eq (e : Event) (s : L.State) : ∃ rest, L.toIrqLoop.driver.ops e s =
    pendOps (L.pend s (L.cur s)) (L.hv s).vgic (L.cur s) (L.intid (L.cur s)) ++ rest := by
  cases L <;> exact ⟨_, rfl⟩

theorem entry_eq (s : L.State) : L.entry s = run HvOp.apply
    (pendOps (L.pend s (L.cur s)) (L.hv s).vgic (L.cur s) (L.intid (L.cur s))) (L.hv s) := by
  cases L with
  | mtenantVgic => exact ticksReady_hv s
  | smpGicr => exact ticksReady_hv s
  | smpVtimer => exact ticksReady_hv s
  | mtenantReal => exact readyReal_hv s

/-- What a pass does to a waiting tick: a new tick makes both guests wait, and any
other pass takes it away only to deliver it. -/
theorem tickLoop_pend (limit : Nat) (vm : Fin 2 → Int) (other : AbortAction) {e : Event}
    {s s' : Ticks} (hb : (tickLoop limit vm other).body e s = .next s') :
    s'.pend = fun d => decide (Tick e) || s.ready.pend d := by
  simp only [tickLoop, enter_vcpus_self, vcpuRunOnce_ctx] at hb
  cases hk : e.ctx.exitKind with
  | irq => cases ht : e.timerTick <;> simp only [hk, ht] at hb <;> cases hb <;> simp [Tick, hk, ht]
  | abort =>
    simp only [hk] at hb
    split_ifs at hb <;> cases hb <;> simp [Tick, hk]
  | hvc =>
    simp only [hk] at hb
    cases hb
    simp [Tick, hk]
  | smc | sysreg | other =>
    simp only [hk] at hb
    cases hb

theorem tickLoop_next_of_irq (limit : Nat) (vm : Fin 2 → Int) (other : AbortAction) {e : Event}
    (hk : e.ctx.exitKind = .irq) (s : Ticks) : (tickLoop limit vm other).body e s =
      .next ((tickLoop limit vm other).body e s).state := by
  simp only [tickLoop, enter_vcpus_self, vcpuRunOnce_ctx, hk]
  rfl

theorem mtenantReal_pend {e : Event} {s s' : Tenants} (hb : mtenantRealDemo.body e s = .next s') :
    s'.pend = fun d => decide (Tick e) || s.readyReal.pend d := by
  simp only [mtenantRealDemo, enter_vcpus_self, vcpuRunOnce_ctx] at hb
  cases hk : e.ctx.exitKind with
  | irq => cases ht : e.timerTick <;> simp only [hk, ht] at hb <;> cases hb <;>
      simp [Tick, hk, ht, Tenants.tick]
  | hvc =>
    simp only [hk] at hb
    split_ifs at hb <;> cases hb <;> simp [Tick, hk]
  | abort | sysreg | smc =>
    simp only [hk] at hb
    cases hb
    simp [Tick, hk]
  | other =>
    simp only [hk] at hb
    cases hb

/-- `pend[]` when the guest is entered. -/
def entryPend : (L : TickDemo) → L.State → Fin 2 → Bool
  | .mtenantVgic | .smpGicr | .smpVtimer => fun s => (Ticks.ready s).pend
  | .mtenantReal => fun s => (Tenants.readyReal s).pend

theorem pend_next {e : Event} {s s' : L.State} (hb : L.loop.body e s = .next s') :
    L.pend s' = fun d => decide (Tick e) || L.entryPend s d := by
  cases L with
  | mtenantVgic => exact tickLoop_pend 20000 (fun c => c.val) .report hb
  | smpGicr => exact tickLoop_pend 60000 (fun _ => 0) .zero hb
  | smpVtimer => exact tickLoop_pend 60000 (fun c => c.val) .zero hb
  | mtenantReal => exact mtenantReal_pend hb

theorem update_pend {pend : Fin 2 → Bool} {c d : Fin 2} (hp : pend c = true) :
    (Function.update pend d false) c = true ∨ d = c := by
  by_cases hd : d = c
  · exact .inr hd
  · exact .inl (by rw [Function.update_of_ne (Ne.symm hd), hp])

theorem entryPend_cases {s : L.State} {c : Fin 2} (hp : L.pend s c = true) :
    L.entryPend s c = true ∨ L.Delivers c s := by
  have hticks : ∀ t : Ticks, t.pend c = true → t.ready.pend c = true ∨
      (t.cur = c ∧ vgicIrqEnabled t.hv.vgic c.val 27 = true) := by
    intro t ht
    simp only [Ticks.ready]
    split_ifs with hen
    · refine (update_pend ht).imp_right fun hc => ?_
      rw [hc, Bool.and_eq_true] at hen
      exact ⟨hc, hen.2⟩
    · exact .inl ht
  have hreal : ∀ t : Tenants, t.pend c = true → t.readyReal.pend c = true ∨
      (t.cur = c ∧ vgicIrqEnabled t.hv.vgic c.val (realIntid c) = true) := by
    intro t ht
    by_cases hen : (t.pend t.cur && vgicIrqEnabled t.hv.vgic t.cur.val (realIntid t.cur)) = true
    · have hready : t.readyReal.pend = Function.update t.pend t.cur false :=
        congrArg Tenants.pend (if_pos hen)
      rw [hready]
      refine (update_pend ht).imp_right fun hc => ?_
      rw [hc, Bool.and_eq_true] at hen
      exact ⟨hc, hen.2⟩
    · have hready : t.readyReal = { t with guard := t.guard + 1 } := if_neg hen
      rw [hready]
      exact .inl ht
  cases L with
  | mtenantVgic => exact (hticks s hp).imp_right fun h => ⟨h.1, hp, h.2⟩
  | smpGicr => exact (hticks s hp).imp_right fun h => ⟨h.1, hp, h.2⟩
  | smpVtimer => exact (hticks s hp).imp_right fun h => ⟨h.1, hp, h.2⟩
  | mtenantReal => exact (hreal s hp).imp_right fun h => ⟨h.1, hp, h.2⟩

/-- After a tick of the history, the tick waits for `c` or has been delivered. -/
def Waits (c : Fin 2) (done : List (L.State × Event)) (s : L.State) : Prop :=
  ∀ pre p mid, done = pre ++ p :: mid → Tick p.2 →
    L.pend s c = true ∨ ∃ r ∈ mid, L.Delivers c r.1

theorem waits_step (c : Fin 2) (done : List (L.State × Event)) (s : L.State) (e : Event)
    (s' : L.State) (h : L.Waits c done s) (hb : L.loop.body e s = .next s') :
    L.Waits c (done ++ [(s, e)]) s' := by
  intro pre p mid hsplit htick
  have hpend := L.pend_next hb
  rcases List.eq_nil_or_concat mid with rfl | ⟨mid, r, rfl⟩
  · -- the tick ended this very pass
    obtain ⟨-, hp⟩ := List.append_inj' hsplit rfl
    cases hp
    left
    rw [hpend]
    simp only [htick, decide_true, Bool.true_or]
  · rw [List.concat_eq_append, ← List.cons_append, ← List.append_assoc] at hsplit
    obtain ⟨hdone, hr⟩ := List.append_inj' hsplit rfl
    cases hr
    rw [List.concat_eq_append]
    rcases h pre p mid hdone htick with hp | ⟨r, hr, hdel⟩
    · rcases L.entryPend_cases hp with hkeep | hdel
      · left
        rw [hpend]
        simp only [hkeep, Bool.or_true]
      · exact .inr ⟨(s, e), by simp, hdel⟩
    · exact .inr ⟨r, List.mem_append_left _ hr, hdel⟩

/-- A pass that delivers a tick enters the guest with the interrupt in a slot. -/
theorem lrsHold_of_delivers {c : Fin 2} {s : L.State}
    {e : Event} (hdel : L.Delivers c s)
    (hops : Along HvOp.apply (HvOp.Fits c) (L.toIrqLoop.driver.ops e s) (L.hv s)) :
    LrsHold (L.intid c) ((L.entry s).vcpus c).ichLr := by
  obtain ⟨hcur, hp, hen⟩ := hdel
  obtain ⟨rest, hrest⟩ := L.ops_eq e s
  have hpend : pendOps (L.pend s (L.cur s)) (L.hv s).vgic (L.cur s) (L.intid (L.cur s)) =
      [.inject c (L.intid c)] := by
    rw [hcur, pendOps, if_pos]
    rw [hp, Bool.true_and]
    exact hen
  rw [hrest, hpend] at hops
  rw [entry_eq, hpend]
  exact hops.1 (L.intid c) rfl

end TickDemo

/-- After a tick of the EL2 timer: the tick waits in `pend[]` for a guest until the guest
runs with its timer interrupt enabled, and one of the passes up to the first in which it
does enters it with the interrupt in a list register. -/
theorem tick_reaches_guest (L : TickDemo) (s : L.State) (es : List Event) (c : Fin 2)
    (hidle : ∀ i, lrState (((L.hv s).vcpus c).ichLr i) = 0) (hguests : L.LawfulGuests s es)
    (pre mid post : List (L.State × Event)) (p q : L.State × Event)
    (hiters : L.loop.iters s es = pre ++ p :: mid ++ q :: post) (htick : TickDemo.Tick p.2) :
    ((∀ r ∈ mid, ¬ (L.cur r.1 = c ∧ L.enabled r.1 c = true)) → L.pend q.1 c = true) ∧
    (L.cur q.1 = c → L.enabled q.1 c = true →
      ∃ r ∈ mid ++ [q], L.cur r.1 = c ∧ LrsHold (L.intid c) ((L.entry r.1).vcpus c).ichLr) := by
  have hfits := Driver.iters_of_invariant (tidy_apply (K := timerIntids) (c := c))
    (tidy_of_idle hidle) (L.toIrqLoop.along_ops hguests c)
  have hwaits : L.Waits c (pre ++ p :: mid) q.1 := by
    have h0 : L.Waits c [] s := fun pre p mid hnil => absurd hnil (by simp)
    exact Loop.iters_of_history (L.waits_step c) h0 hiters
  constructor
  · intro hnot
    rcases hwaits pre p mid rfl htick with hp | ⟨r, hr, hdel⟩
    · exact hp
    · exact absurd ⟨hdel.1, hdel.2.2⟩ (hnot r hr)
  · intro hcur hen
    have hsome : ∃ r ∈ mid ++ [q], L.Delivers c r.1 := by
      rcases hwaits pre p mid rfl htick with hp | ⟨r, hr, hdel⟩
      · exact ⟨q, by simp, hcur, hp, hen⟩
      · exact ⟨r, List.mem_append_left _ hr, hdel⟩
    obtain ⟨r, hr, hdel⟩ := hsome
    have hmem : r ∈ L.loop.iters s es := by
      rw [hiters]
      simp only [List.mem_append, List.mem_cons, List.not_mem_nil, or_false] at hr ⊢
      tauto
    have hops := (hfits r hmem).2.imp (fits_of_tidy (by decide))
    exact ⟨r, hr, hdel.1, L.lrsHold_of_delivers hdel hops⟩

/-- The start of `mtenant_vgic_demo`. -/
def tickStart : TickDemo.mtenantVgic.State :=
  mtenantVgicDemoStart exampleImage (resetHv exampleImage 0)

/-- The guest enables PPI 27 in its GICR_ISENABLER0. -/
def enableTimer : Event := (storePass 0x080B0100 0x08000000 []).ev

/-- Guest 0 enables its interrupt; two ticks later it runs again. -/
def tickRun : List Event :=
  [enableTimer, timerExit, timerExit, heldTick]

/-- The first of the two ticks waits for guest 0 and is there when it is entered. -/
theorem tick_reaches_guest_tickRun :
    let L := TickDemo.mtenantVgic
    let s1 := (L.loop.body enableTimer tickStart).state
    let s2 := (L.loop.body timerExit s1).state
    let s3 := (L.loop.body timerExit s2).state
    L.pend s3 0 = true ∧ ∃ r ∈ [(s2, timerExit)] ++ [(s3, heldTick)],
      L.cur r.1 = 0 ∧ LrsHold (L.intid 0) ((L.entry r.1).vcpus 0).ichLr := by
  intro L s1 s2 s3
  have hstore : L.loop.body enableTimer tickStart = .next s1 := rfl
  have htick : ∀ s, L.loop.body timerExit s = .next (L.loop.body timerExit s).state :=
    TickDemo.tickLoop_next_of_irq 20000 (fun c => c.val) .report (by decide)
  have hlast : L.loop.iters s3 [heldTick] = [(s3, heldTick)] :=
    Loop.iters_cons_next (by decide +kernel)
      (TickDemo.tickLoop_next_of_irq 20000 (fun c => c.val) .report (by decide) s3)
  have hiters : L.loop.iters tickStart tickRun =
      [(tickStart, enableTimer)] ++ (s1, timerExit) :: [(s2, timerExit)] ++
        (s3, heldTick) :: [] := by
    rw [tickRun, Loop.iters_cons_next (by decide +kernel) hstore,
      Loop.iters_cons_next (by decide +kernel) (htick s1),
      Loop.iters_cons_next (by decide +kernel) (htick s2), hlast]
    rfl
  obtain ⟨hwaits, hreaches⟩ := tick_reaches_guest L tickStart tickRun 0 (by decide +kernel)
    (by decide +kernel) _ _ _ _ _ hiters (by decide)
  refine ⟨hwaits ?_, hreaches (by decide +kernel) (by decide +kernel)⟩
  -- guest 1 runs in between
  rw [List.forall_mem_singleton]
  decide +kernel

end FermiHV
