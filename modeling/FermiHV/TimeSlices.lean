import FermiHV.El2Exception
import FermiHV.Ops

/-!
# Time slices

The loops that use the EL2 timer start it, count its interrupts with `hyptimer_on_irq`
and, where they run two vCPUs, switch at each of them. `TickingLoop` is such a loop
together with the timer, and `withTimer` adds the timer to a run loop.

1. `deadlines_kept`: throughout a run the timer stands where the number of ticks so far
   puts it, so that its line is up exactly while fewer ticks have been taken than
   intervals have passed: none is early, none is lost and the deadlines do not drift.
2. `schedule_follows_clock`: in the time-sliced loops the vCPU whose turn it is, is
   decided by the number of ticks so far, and so by the time.
-/

namespace FermiHV

open RunLoop (Flow Loop)

/-! ## 1. Loops with the timer -/

/-- A pass of a loop, and the physical counter when its interrupt is taken. -/
structure TickEvent where
  ev : Event
  now : U64

structure TickingLoop where
  S : Type
  loop : Loop S TickEvent
  timer : S → HypTimer
  /-- The pass calls `hyptimer_on_irq`. -/
  tick : TickEvent → S → Bool
  /-- The argument of `hyptimer_start`. -/
  ms : U64
  sound : ∀ e s, timer (loop.body e s).state =
    if tick e s then hyptimerOnIrq (timer s) else timer s

/-- The exit is the interrupt of the EL2 timer. -/
def Event.takesTick (e : Event) : Bool := e.ctx.exitKind = .irq && e.timerTick

theorem takesTick_of_irq {e : Event} (hk : e.ctx.exitKind = .irq) :
    e.takesTick = e.timerTick := by
  simp [Event.takesTick, hk]

theorem takesTick_of_ne {e : Event} (hk : e.ctx.exitKind ≠ .irq) : e.takesTick = false := by
  simp [Event.takesTick, hk]

/-- A run loop that starts the timer with `ms` and whose pass counts a tick if `tick`
says so. -/
def withTimer {S : Type} (L : Loop S Event) (tick : Event → S → Bool) (ms : U64) :
    TickingLoop where
  S := S × HypTimer
  loop :=
    { cond := fun s => L.cond s.1
      body := fun e s => (L.body e.ev s.1).map fun s' =>
        (s', if tick e.ev s.1 then hyptimerOnIrq s.2 else s.2) }
  timer := Prod.snd
  tick := fun e s => tick e.ev s.1
  ms
  sound := fun e s => congrArg Prod.snd (Flow.state_map _ (L.body e.ev s.1))

theorem withTimer_next {S : Type} {L : Loop S Event} {tick : Event → S → Bool} {ms : U64}
    {e : TickEvent} {s s' : S × HypTimer} (hb : (withTimer L tick ms).loop.body e s = .next s') :
    s'.1 = (L.body e.ev s.1).state := by
  have hmap : (L.body e.ev s.1).map (fun s' =>
      (s', if tick e.ev s.1 then hyptimerOnIrq s.2 else s.2)) = .next s' := hb
  have hstate := congrArg Flow.state hmap
  rw [Flow.state_map] at hstate
  exact (congrArg Prod.fst hstate).symm

/-- The loop of `hv_main` that waits for five ticks. The interrupts come through the
vector table. -/
def waitForTicks : TickingLoop where
  S := El2
  loop :=
    { cond := fun s => hyptimerTicks s.timer < 5
      body := fun e s =>
        match el2ExceptionDispatch e.ev.iar 0 5 ⟨fun _ => 0, 0, 0, 0, 0⟩ s with
        | some (.ret _ s) => .next s
        | _ => .brk s }
  timer := El2.timer
  tick := fun e _ => (e.ev.iar &&& 0xFFFFFF).setWidth 32 = (26 : U32)
  ms := 100
  sound := by
    intro e s
    obtain ⟨text, hdispatch⟩ := dispatch_eq e.ev.iar 0 5 ⟨fun _ => 0, 0, 0, 0, 0⟩ s
    rw [el2Effect_irq (by decide)] at hdispatch
    simp only [hdispatch, Outcome.prints, Flow.state, El2.prints, El2.irqEffect, decide_eq_true_eq]

/-- The loops with the timer. -/
inductive TimedDemo
  | wait
  | virq (nticks : Nat)
  | vgic (nticks : Nat)
  | smpSched
  | mtenantVgic
  | fermiosVgic
  | mtenantReal
  | linuxVgic (img : Image)
  | mtenantOs
  | smpPsci (img : Image) (sp : U64)
  | smpVtimer
  | smpGicr

/-- A vCPU that is powered off ends the loop before its exit is looked at. -/
def TimedDemo.toTicking : TimedDemo → TickingLoop
  | .wait => waitForTicks
  | .virq n => withTimer (virqDemo n) (fun e _ => e.takesTick) 100
  | .vgic n => withTimer (vgicDemo n) (fun e _ => e.takesTick) 100
  | .smpSched => withTimer smpSchedDemo (fun e _ => e.takesTick) 10
  | .mtenantVgic => withTimer mtenantVgicDemo (fun e _ => e.takesTick) 10
  | .fermiosVgic =>
    withTimer fermiosVgicBoot (fun e s => e.takesTick && !(s.hv.vcpus 0).halted) 100
  | .mtenantReal => withTimer mtenantRealDemo (fun e _ => e.takesTick) 10
  | .linuxVgic img => withTimer (linuxVgicBoot img) (fun e s => e.takesTick && s.GoesOn img e) 10
  | .mtenantOs =>
    withTimer mtenantOsDemo (fun e s => e.takesTick && !(s.hv.vcpus s.cur).halted) 10
  | .smpPsci img sp => withTimer (smpPsciDemo img sp) (fun e _ => e.takesTick) 10
  | .smpVtimer => withTimer smpVtimerDemo (fun e _ => e.takesTick) 10
  | .smpGicr => withTimer smpGicrDemo (fun e _ => e.takesTick) 10

section Branch

variable {S : Type} {L : Loop S Event} {tick : Event → S → Bool} {ms : U64} {e : TickEvent}
  {s : S × HypTimer}

theorem withTimer_goes_on :
    (∃ s', (withTimer L tick ms).loop.body e s = .next s') ↔ ∃ s', L.body e.ev s.1 = .next s' := by
  constructor
  · rintro ⟨s', hb⟩
    cases hbody : L.body e.ev s.1 with
    | next t => exact ⟨t, rfl⟩
    | brk t =>
      simp only [withTimer, hbody, Flow.map, reduceCtorEq] at hb
  · rintro ⟨t, hbody⟩
    exact ⟨_, by simp only [withTimer, hbody]; rfl⟩

/-- If the passes with an interrupt go on exactly when `runs` says so, the ticks are the
passes that take the interrupt of the timer and go on. -/
theorem withTimer_tick_iff (runs : Event → S → Bool)
    (htick : ∀ e s, tick e s = (e.takesTick && runs e s))
    (hirq : ∀ e s, e.ctx.exitKind = .irq → (runs e s = true ↔ ∃ s', L.body e s = .next s')) :
    (withTimer L tick ms).tick e s = true ↔
      e.ev.takesTick = true ∧ ∃ s', (withTimer L tick ms).loop.body e s = .next s' := by
  rw [withTimer_goes_on]
  change tick e.ev s.1 = true ↔ _
  rw [htick, Bool.and_eq_true]
  refine and_congr_right fun htakes => hirq e.ev s.1 ?_
  rw [Event.takesTick, Bool.and_eq_true, decide_eq_true_eq] at htakes
  exact htakes.1

/-- The same for a loop that goes on after every interrupt. -/
theorem withTimer_tick_iff_irq (htick : ∀ e s, tick e s = e.takesTick)
    (hirq : ∀ e s, e.ctx.exitKind = .irq → ∃ s', L.body e s = .next s') :
    (withTimer L tick ms).tick e s = true ↔
      e.ev.takesTick = true ∧ ∃ s', (withTimer L tick ms).loop.body e s = .next s' :=
  withTimer_tick_iff (fun _ _ => true) (fun e s => by rw [htick, Bool.and_true])
    fun e s hk => iff_of_true rfl (hirq e s hk)

end Branch

theorem tickLoop_irq (limit : Nat) (vm : Fin 2 → Int) (other : AbortAction) (e : Event)
    (s : Ticks) (hk : e.ctx.exitKind = .irq) :
    ∃ s', (tickLoop limit vm other).body e s = .next s' := by
  simp only [tickLoop, enter_vcpus_self, vcpuRunOnce_ctx, hk]
  exact ⟨_, rfl⟩

theorem linuxVgicBoot_goes_on (img : Image) (e : Event) (s : Smp) :
    s.GoesOn img e ↔ ∃ s', (linuxVgicBoot img).body e s = .next s' := by
  constructor
  · exact fun h => ⟨_, linuxVgicBoot_body_next h.1 h.2⟩
  · rintro ⟨s', hb⟩
    exact (linuxVgicBoot_next_inv hb).1

/-- In each of the run loops `hyptimer_on_irq` is called in the passes that exit by the
interrupt of the timer and go on; the others that exit by it end where the vCPU is found
powered off. -/
theorem TimedDemo.tick_iff {L : TimedDemo} (hrun : L ≠ .wait) (e : TickEvent)
    (s : L.toTicking.S) : L.toTicking.tick e s = true ↔
      e.ev.takesTick = true ∧ ∃ s', L.toTicking.loop.body e s = .next s' := by
  cases L with
  | wait => exact absurd rfl hrun
  | virq n =>
    refine withTimer_tick_iff_irq (fun _ _ => rfl) fun e s hk => ?_
    simp only [virqDemo, enter_vcpus_self, vcpuRunOnce_ctx, hk]
    exact ⟨_, rfl⟩
  | vgic n =>
    refine withTimer_tick_iff_irq (fun _ _ => rfl) fun e s hk => ?_
    simp only [vgicDemo, enter_vcpus_self, vcpuRunOnce_ctx, hk]
    split_ifs <;> exact ⟨_, rfl⟩
  | smpSched =>
    refine withTimer_tick_iff_irq (fun _ _ => rfl) fun e s hk => ?_
    simp only [smpSchedDemo, enter_vcpus_self, vcpuRunOnce_ctx, hk]
    exact ⟨_, rfl⟩
  | mtenantVgic => exact withTimer_tick_iff_irq (fun _ _ => rfl) (tickLoop_irq _ _ _)
  | smpVtimer => exact withTimer_tick_iff_irq (fun _ _ => rfl) (tickLoop_irq _ _ _)
  | smpGicr => exact withTimer_tick_iff_irq (fun _ _ => rfl) (tickLoop_irq _ _ _)
  | fermiosVgic =>
    refine withTimer_tick_iff (fun _ (s : Counted) => !(s.hv.vcpus 0).halted)
      (fun _ _ => rfl) fun e s hk => ?_
    simp only [fermiosVgicBoot, enter_vcpus_self, vcpuRunOnce_ctx, vcpuRunOnce_halted, hk]
    cases (s.hv.vcpus 0).halted with
    | true => simp
    | false =>
      simp only [Bool.not_false, Bool.false_eq_true, if_false, true_iff]
      split_ifs <;> exact ⟨_, rfl⟩
  | mtenantReal =>
    refine withTimer_tick_iff_irq (fun _ _ => rfl) fun e s hk => ?_
    simp only [mtenantRealDemo, enter_vcpus_self, vcpuRunOnce_ctx, hk]
    exact ⟨_, rfl⟩
  | linuxVgic img =>
    refine withTimer_tick_iff (fun e (s : Smp) => s.GoesOn img e) (fun _ _ => rfl)
      fun e s _ => ?_
    rw [decide_eq_true_eq]
    exact linuxVgicBoot_goes_on img e s
  | mtenantOs =>
    refine withTimer_tick_iff (fun _ (s : Tenants) => !(s.hv.vcpus s.cur).halted)
      (fun _ _ => rfl) fun e s hk => ?_
    simp only [mtenantOsDemo, enter_vcpus_self, vcpuRunOnce_ctx, vcpuRunOnce_halted, readyOs_flag,
      hk]
    cases (s.hv.vcpus s.cur).halted with
    | true => simp
    | false =>
      simp only [Bool.not_false, Bool.false_eq_true, if_false, true_iff]
      exact ⟨_, rfl⟩
  | smpPsci img sp =>
    refine withTimer_tick_iff_irq (fun _ _ => rfl) fun e s hk => ?_
    simp only [smpPsciDemo, enter_vcpus_self, vcpuRunOnce_ctx, hk]
    exact ⟨_, rfl⟩

namespace TickingLoop

variable {T : TickingLoop}

/-- The ticks among the passes. -/
def ticksIn (T : TickingLoop) (passes : List (T.S × TickEvent)) : Nat :=
  passes.countP fun p => T.tick p.2 p.1

/-- The counter cycles of an interval. -/
def interval (T : TickingLoop) (t : HypTimer) : U64 := t.freq * T.ms / 1000

theorem timer_next {hist : List (T.S × TickEvent)} {freq i t0 : U64} {s s' : T.S}
    {e : TickEvent} (hs : T.timer s = .after freq i t0 (T.ticksIn hist))
    (hb : T.loop.body e s = .next s') :
    T.timer s' = .after freq i t0 (T.ticksIn (hist ++ [(s, e)])) := by
  have hsound := T.sound e s
  rw [hb, Flow.state] at hsound
  rw [hsound, hs, ticksIn, ticksIn, List.countP_append, List.countP_singleton]
  cases T.tick e s with
  | true => exact hyptimerOnIrq_after freq i t0 _
  | false => rfl

theorem timer_of_iters {t : HypTimer} {t0 : U64} {s : T.S} {es : List TickEvent}
    {pre post : List (T.S × TickEvent)} {p : T.S × TickEvent}
    (hstart : T.timer s = hyptimerStart T.ms t0 t)
    (hiters : T.loop.iters s es = pre ++ p :: post) :
    T.timer p.1 = .after t.freq (T.interval t) t0 (T.ticksIn pre) := by
  have h0 : T.timer s = .after t.freq (T.interval t) t0 (T.ticksIn []) := by
    rw [hstart, hyptimerStart_eq]
    rfl
  exact Loop.iters_of_history
    (H := fun hist s => T.timer s = .after t.freq (T.interval t) t0 (T.ticksIn hist))
    (fun hist s e s' hs hb => timer_next hs hb) h0 hiters

end TickingLoop

/-- At every pass of a loop with the timer, `n` ticks after `hyptimer_start` at `t0`: the
next deadline is `n + 1` intervals after `t0`, and the line of the timer is up exactly
when more than `n` intervals have passed. -/
theorem deadlines_kept (L : TimedDemo) (t : HypTimer) (t0 : U64) (s : L.toTicking.S)
    (es : List TickEvent) (pre post : List (L.toTicking.S × TickEvent))
    (p : L.toTicking.S × TickEvent)
    (hstart : L.toTicking.timer s = hyptimerStart L.toTicking.ms t0 t)
    (hiters : L.toTicking.loop.iters s es = pre ++ p :: post) :
    let i := L.toTicking.interval t
    let n := L.toTicking.ticksIn pre
    L.toTicking.timer p.1 = .after t.freq i t0 n ∧
      (0 < i.toNat → t0.toNat + (n + 1) * i.toNat < 2 ^ 64 → ∀ now : U64,
        t0.toNat ≤ now.toNat →
        ((L.toTicking.timer p.1).line now = true ↔ n < (now.toNat - t0.toNat) / i.toNat)) := by
  intro i n
  have htimer := TickingLoop.timer_of_iters hstart hiters
  refine ⟨htimer, fun hpos hfit now hnow => ?_⟩
  rw [htimer]
  exact line_after_iff hpos hfit hnow

/-- A counter of 62.5 MHz. -/
def boardTimer : HypTimer := { freq := 62500000, interval := 0, ticks := 0, cval := 0, ctl := 0 }

/-- `smp_sched_demo`, started when the counter is at 1000. -/
def schedStart : (TimedDemo.smpSched).toTicking.S :=
  (smpSchedDemoStart exampleImage 0x40080000 0 0 (resetHv exampleImage 0),
    hyptimerStart 10 1000 boardTimer)

/-- Its first tick, 500 cycles late. -/
def schedTick : TickEvent := { ev := timerExit, now := 626500 }

def schedTicked : (TimedDemo.smpSched).toTicking.S :=
  ((TimedDemo.smpSched).toTicking.loop.body schedTick schedStart).state

theorem sched_iters : (TimedDemo.smpSched).toTicking.loop.iters schedStart [schedTick, schedTick] =
    [(schedStart, schedTick)] ++ (schedTicked, schedTick) :: [] := by
  have hfirst : (TimedDemo.smpSched).toTicking.loop.body schedTick schedStart =
      .next schedTicked := rfl
  have hsecond : (TimedDemo.smpSched).toTicking.loop.body schedTick schedTicked =
      .next ((TimedDemo.smpSched).toTicking.loop.body schedTick schedTicked).state := rfl
  rw [Loop.iters_cons_next (by decide +kernel) hfirst,
    Loop.iters_cons_next (by decide +kernel) hsecond]
  rfl

/-- After the late tick the line is down until the second deadline, at 1251000. -/
theorem deadlines_kept_late_tick :
    ((TimedDemo.smpSched).toTicking.timer schedTicked).line 1250999 = false ∧
      ((TimedDemo.smpSched).toTicking.timer schedTicked).line 1251000 = true := by
  obtain ⟨-, hline⟩ := deadlines_kept .smpSched boardTimer 1000 schedStart [schedTick, schedTick]
    [(schedStart, schedTick)] [] (schedTicked, schedTick) rfl sched_iters
  have hpos : 0 < ((TimedDemo.smpSched).toTicking.interval boardTimer).toNat := by decide +kernel
  have hfit : (1000 : U64).toNat + ((TimedDemo.smpSched).toTicking.ticksIn
      [(schedStart, schedTick)] + 1) *
      ((TimedDemo.smpSched).toTicking.interval boardTimer).toNat < 2 ^ 64 := by decide +kernel
  have hbefore := hline hpos hfit 1250999 (by decide)
  have hat := hline hpos hfit 1251000 (by decide)
  refine ⟨?_, hat.mpr (by decide +kernel)⟩
  rw [← Bool.not_eq_true, hbefore]
  decide +kernel

/-! ## 2. The clock decides whose turn it is -/

/-- The loops that switch between two vCPUs at every tick. -/
inductive SlicedDemo
  | smpSched
  | mtenantVgic
  | smpVtimer
  | smpGicr
  | mtenantReal
  | mtenantOs

namespace SlicedDemo

def timed : SlicedDemo → TimedDemo
  | .smpSched => .smpSched
  | .mtenantVgic => .mtenantVgic
  | .smpVtimer => .smpVtimer
  | .smpGicr => .smpGicr
  | .mtenantReal => .mtenantReal
  | .mtenantOs => .mtenantOs

abbrev ticking (L : SlicedDemo) : TickingLoop := L.timed.toTicking

def cur : (L : SlicedDemo) → L.ticking.S → Fin 2
  | .smpSched, s => s.1.cur
  | .mtenantVgic, s | .smpVtimer, s | .smpGicr, s => s.1.cur
  | .mtenantReal, s | .mtenantOs, s => s.1.cur

/-- The vCPU that has the slice after `n` ticks: they alternate, or every fourth slice
goes to tenant 1. -/
def owner : SlicedDemo → Nat → Fin 2
  | .smpSched, n | .mtenantVgic, n | .smpVtimer, n | .smpGicr, n => Fin.ofNat 2 n
  | .mtenantReal, n | .mtenantOs, n => if n % 4 = 0 ∧ n ≠ 0 then 1 else 0

/-- The start of the demo, with `hyptimer_start` at `t0`. -/
def start : (L : SlicedDemo) → (img : Image) → (entry sp0 sp1 : U64) → Hv → HypTimer → U64 →
    L.ticking.S
  | .smpSched, img, entry, sp0, sp1, h, t, t0 =>
    (smpSchedDemoStart img entry sp0 sp1 h, hyptimerStart 10 t0 t)
  | .mtenantVgic, img, _, _, _, h, t, t0 => (mtenantVgicDemoStart img h, hyptimerStart 10 t0 t)
  | .smpVtimer, img, _, _, _, h, t, t0 => (smpVtimerDemoStart img h, hyptimerStart 10 t0 t)
  | .smpGicr, img, _, _, _, h, t, t0 => (smpGicrDemoStart img h, hyptimerStart 10 t0 t)
  | .mtenantReal, img, _, _, _, h, t, t0 => (mtenantRealDemoStart img h, hyptimerStart 10 t0 t)
  | .mtenantOs, img, _, _, _, h, t, t0 => (mtenantOsDemoStart img h, hyptimerStart 10 t0 t)

/-- The state after `n` ticks. -/
def Turn : (L : SlicedDemo) → Nat → L.ticking.S → Prop
  | .smpSched, n, s => s.1.cur = Fin.ofNat 2 n
  | .mtenantVgic, n, s | .smpVtimer, n, s | .smpGicr, n, s => s.1.cur = Fin.ofNat 2 n
  | .mtenantReal, n, s | .mtenantOs, n, s =>
    s.1.slot = n ∧ s.1.cur = if n % 4 = 0 ∧ n ≠ 0 then 1 else 0

theorem turn_start (L : SlicedDemo) (img : Image) (entry sp0 sp1 : U64) (h : Hv) (t : HypTimer)
    (t0 : U64) : L.Turn 0 (L.start img entry sp0 sp1 h t t0) := by
  cases L with
  | smpSched => rfl
  | mtenantVgic => rfl
  | smpVtimer => rfl
  | smpGicr => rfl
  | mtenantReal => exact ⟨rfl, rfl⟩
  | mtenantOs => exact ⟨rfl, rfl⟩

theorem timer_start (L : SlicedDemo) (img : Image) (entry sp0 sp1 : U64) (h : Hv)
    (t : HypTimer) (t0 : U64) : L.ticking.timer (L.start img entry sp0 sp1 h t t0) =
      hyptimerStart L.ticking.ms t0 t := by
  cases L <;> rfl

theorem Turn.cur_eq {L : SlicedDemo} {n : Nat} {s : L.ticking.S} (h : L.Turn n s) :
    L.cur s = L.owner n := by
  cases L with
  | smpSched => exact h
  | mtenantVgic => exact h
  | smpVtimer => exact h
  | smpGicr => exact h
  | mtenantReal => exact h.2
  | mtenantOs => exact h.2

/-- Exactly the passes that take a tick switch. -/
theorem smpSched_cur (e : Event) (s : SmpSched) :
    (smpSchedDemo.body e s).state.cur = if e.takesTick then s.cur + 1 else s.cur := by
  simp only [smpSchedDemo, enter_vcpus_self, vcpuRunOnce_ctx]
  cases hk : e.ctx.exitKind with
  | irq =>
    rw [takesTick_of_irq hk]
    cases e.timerTick <;> rfl
  | _ =>
    rw [takesTick_of_ne (by rw [hk]; decide)]
    rfl

theorem tickLoop_cur (limit : Nat) (vm : Fin 2 → Int) (other : AbortAction) (e : Event)
    (s : Ticks) : ((tickLoop limit vm other).body e s).state.cur =
      if e.takesTick then s.cur + 1 else s.cur := by
  simp only [tickLoop, enter_vcpus_self, vcpuRunOnce_ctx]
  cases hk : e.ctx.exitKind with
  | irq =>
    rw [takesTick_of_irq hk]
    cases e.timerTick with
    | true => rfl
    | false => exact s.ready_cur
  | abort =>
    rw [takesTick_of_ne (by rw [hk]; decide), if_neg Bool.false_ne_true]
    simp only
    split_ifs <;> exact s.ready_cur
  | _ =>
    rw [takesTick_of_ne (by rw [hk]; decide)]
    exact s.ready_cur

/-- The slice that a tenant gets at the tick number `slot`. -/
def weighted (slot : Nat) : Fin 2 := if slot % 4 = 0 then 1 else 0

theorem readyReal_slot (s : Tenants) : s.readyReal.slot = s.slot := by
  simp only [Tenants.readyReal]
  split_ifs <;> rfl

theorem readyOs_slot (s : Tenants) : s.readyOs.slot = s.slot := by
  simp only [Tenants.readyOs]
  split_ifs <;> rfl

theorem mtenantReal_slot (e : Event) (s : Tenants) :
    (mtenantRealDemo.body e s).state.slot = (if e.takesTick then s.slot + 1 else s.slot) ∧
      (mtenantRealDemo.body e s).state.cur =
        if e.takesTick then weighted (s.slot + 1) else s.cur := by
  simp only [mtenantRealDemo, enter_vcpus_self, vcpuRunOnce_ctx]
  cases hk : e.ctx.exitKind with
  | irq =>
    rw [takesTick_of_irq hk]
    cases e.timerTick with
    | true =>
      rw [← readyReal_slot s]
      exact ⟨rfl, rfl⟩
    | false => exact ⟨readyReal_slot s, s.readyReal_cur⟩
  | hvc =>
    rw [takesTick_of_ne (by rw [hk]; decide)]
    simp only [Flow.state, Bool.false_eq_true, if_false]
    split_ifs <;> exact ⟨readyReal_slot s, s.readyReal_cur⟩
  | _ =>
    rw [takesTick_of_ne (by rw [hk]; decide)]
    exact ⟨readyReal_slot s, s.readyReal_cur⟩

theorem mtenantOs_slot (e : Event) (s : Tenants) (tick : Bool)
    (htick : tick = (e.takesTick && !(s.hv.vcpus s.cur).halted)) :
    (mtenantOsDemo.body e s).state.slot = (if tick then s.slot + 1 else s.slot) ∧
      (mtenantOsDemo.body e s).state.cur =
        if tick then weighted (s.slot + 1) else s.cur := by
  simp only [mtenantOsDemo, enter_vcpus_self, vcpuRunOnce_ctx, vcpuRunOnce_halted, readyOs_flag]
  cases hhalt : (s.hv.vcpus s.cur).halted with
  | true =>
    rw [hhalt, Bool.not_true, Bool.and_false] at htick
    rw [htick]
    exact ⟨readyOs_slot s, s.readyOs_cur⟩
  | false =>
    rw [hhalt, Bool.not_false, Bool.and_true] at htick
    rw [htick]
    simp only [Bool.false_eq_true, if_false]
    cases hk : e.ctx.exitKind with
    | irq =>
      rw [takesTick_of_irq hk]
      cases e.timerTick with
      | true =>
        rw [← readyOs_slot s]
        exact ⟨rfl, rfl⟩
      | false => exact ⟨readyOs_slot s, s.readyOs_cur⟩
    | _ =>
      rw [takesTick_of_ne (by rw [hk]; decide)]
      exact ⟨readyOs_slot s, s.readyOs_cur⟩

theorem ofNat_succ (n : Nat) : Fin.ofNat 2 (n + 1) = Fin.ofNat 2 n + 1 := by
  refine Fin.ext ?_
  simp only [Fin.ofNat, Fin.val_add, Fin.val_one]
  omega

/-- A turn of two that alternate. -/
theorem alternate_next {n : Nat} {tick : Bool} {c c' : Fin 2} (hc : c = Fin.ofNat 2 n)
    (hc' : c' = if tick then c + 1 else c) :
    c' = Fin.ofNat 2 (n + if tick then 1 else 0) := by
  rw [hc', hc]
  cases tick with
  | true => exact (ofNat_succ n).symm
  | false => rfl

/-- A turn of the tenants, of which the first gets three slices of four. -/
theorem weighted_next {n : Nat} {tick : Bool} {s s' : Tenants}
    (hs : s.slot = n ∧ s.cur = if n % 4 = 0 ∧ n ≠ 0 then 1 else 0)
    (hs' : s'.slot = (if tick then s.slot + 1 else s.slot) ∧
      s'.cur = if tick then weighted (s.slot + 1) else s.cur) :
    s'.slot = (n + if tick then 1 else 0) ∧
      s'.cur = if (n + if tick then 1 else 0) % 4 = 0 ∧ (n + if tick then 1 else 0) ≠ 0 then 1
        else 0 := by
  rw [hs'.1, hs'.2, hs.1, hs.2]
  cases tick with
  | true =>
    refine ⟨rfl, ?_⟩
    simp only [if_true, weighted, ne_eq, Nat.add_eq_zero_iff, one_ne_zero, and_false,
      not_false_eq_true, and_true]
  | false => exact ⟨rfl, rfl⟩

/-- One pass. -/
theorem turn_next {L : SlicedDemo} {n : Nat} {e : TickEvent} {s s' : L.ticking.S}
    (hs : L.Turn n s) (hb : L.ticking.loop.body e s = .next s') :
    L.Turn (n + if L.ticking.tick e s then 1 else 0) s' := by
  cases L with
  | smpSched =>
    refine alternate_next hs ?_
    rw [withTimer_next hb]
    exact smpSched_cur e.ev s.1
  | mtenantVgic =>
    refine alternate_next hs ?_
    rw [withTimer_next hb]
    exact tickLoop_cur _ _ _ e.ev s.1
  | smpVtimer =>
    refine alternate_next hs ?_
    rw [withTimer_next hb]
    exact tickLoop_cur _ _ _ e.ev s.1
  | smpGicr =>
    refine alternate_next hs ?_
    rw [withTimer_next hb]
    exact tickLoop_cur _ _ _ e.ev s.1
  | mtenantReal =>
    refine weighted_next hs ?_
    rw [withTimer_next hb]
    exact mtenantReal_slot e.ev s.1
  | mtenantOs =>
    refine weighted_next hs ?_
    rw [withTimer_next hb]
    exact mtenantOs_slot e.ev s.1 _ rfl

theorem turn_of_iters {L : SlicedDemo} {s : L.ticking.S} {es : List TickEvent}
    {pre post : List (L.ticking.S × TickEvent)} {p : L.ticking.S × TickEvent}
    (hs : L.Turn 0 s) (hiters : L.ticking.loop.iters s es = pre ++ p :: post) :
    L.Turn (L.ticking.ticksIn pre) p.1 := by
  have h0 : L.Turn (L.ticking.ticksIn []) s := hs
  refine Loop.iters_of_history (H := fun hist s => L.Turn (L.ticking.ticksIn hist) s)
    (fun hist s e s' hs hb => ?_) h0 hiters
  have hnext := turn_next hs hb
  rwa [TickingLoop.ticksIn, List.countP_append, List.countP_singleton]

end SlicedDemo

/-- The last element of a kind. -/
theorem exists_last_of_countP {α : Type} {P : α → Bool} {l : List α} (h : 0 < l.countP P) :
    ∃ l1 x l2, l = l1 ++ x :: l2 ∧ P x = true ∧ l.countP P = l1.countP P + 1 := by
  induction l using List.reverseRecOn with
  | nil => cases h
  | append_singleton l x ih =>
    rw [List.countP_append, List.countP_singleton] at h ⊢
    cases hx : P x with
    | true => exact ⟨l, x, [], rfl, hx, rfl⟩
    | false =>
      rw [hx] at h
      obtain ⟨l1, y, l2, rfl, hy, hcount⟩ := ih h
      exact ⟨l1, y, l2 ++ [x], by simp, hy, hcount⟩

/-- Ticks are not early: there are at most as many as intervals have passed. -/
theorem ticksIn_le {T : TickingLoop} {t : HypTimer} {t0 now : U64} {s : T.S}
    {es : List TickEvent} {pre post : List (T.S × TickEvent)}
    (hstart : T.timer s = hyptimerStart T.ms t0 t)
    (hiters : T.loop.iters s es = pre ++ post) (hpos : 0 < (T.interval t).toNat)
    (hfit : t0.toNat + (T.ticksIn pre + 1) * (T.interval t).toNat < 2 ^ 64)
    (htaken : ∀ q ∈ pre, T.tick q.2 q.1 = true →
      (T.timer q.1).line q.2.now = true ∧ q.2.now ≤ now) :
    T.ticksIn pre ≤ (now.toNat - t0.toNat) / (T.interval t).toNat := by
  rcases Nat.eq_zero_or_pos (T.ticksIn pre) with hzero | hsome
  · rw [hzero]
    exact Nat.zero_le _
  · obtain ⟨pre1, q, pre2, rfl, hq, hcount⟩ := exists_last_of_countP hsome
    have hn : T.ticksIn (pre1 ++ q :: pre2) = T.ticksIn pre1 + 1 := hcount
    obtain ⟨hline, hle⟩ := htaken q (by simp) hq
    rw [List.append_assoc, List.cons_append] at hiters
    rw [TickingLoop.timer_of_iters hstart hiters] at hline
    rw [hn] at hfit ⊢
    have hq1 : t0.toNat + (T.ticksIn pre1 + 1) * (T.interval t).toNat < 2 ^ 64 := by
      rw [Nat.add_mul (T.ticksIn pre1 + 1) 1] at hfit
      omega
    have hdue := le_of_line_after hpos hq1 hline
    rw [BitVec.le_def] at hle
    rw [Nat.le_div_iff_mul_le hpos]
    omega

/-- Of the passes before another one, the ticks are those that take the interrupt of the
timer. -/
theorem ticksIn_eq_countP {L : TimedDemo} (hrun : L ≠ .wait) {s : L.toTicking.S}
    {es : List TickEvent} {pre post : List (L.toTicking.S × TickEvent)}
    {p : L.toTicking.S × TickEvent} (hiters : L.toTicking.loop.iters s es = pre ++ p :: post) :
    L.toTicking.ticksIn pre = pre.countP fun q => q.2.ev.takesTick := by
  refine List.countP_congr fun q hq => ?_
  rw [TimedDemo.tick_iff hrun]
  exact and_iff_left (Loop.goes_on_of_iters hiters hq)

theorem SlicedDemo.timed_ne_wait (L : SlicedDemo) : L.timed ≠ .wait := by
  cases L <;> exact TimedDemo.noConfusion

/-- The interrupt of the timer comes only while its line is up. -/
def TickingLoop.Signalled (T : TickingLoop) (passes : List (T.S × TickEvent)) : Prop :=
  ∀ q ∈ passes, T.tick q.2 q.1 = true → (T.timer q.1).line q.2.now = true

/-- The schedule is decided by the ticks, and so by the clock. At every pass of every run
of the time-sliced loops, the vCPU to be run is the owner of the slice after as many
ticks as the passes so far have taken interrupts of the timer. If these came only while
the line of the timer was up, each was taken at or after its own deadline, and when no
tick is due the vCPU is the owner of the slice in which the counter is. -/
theorem schedule_follows_clock (L : SlicedDemo) (img : Image) (entry sp0 sp1 : U64) (h : Hv)
    (t : HypTimer) (t0 : U64) (es : List TickEvent)
    (pre post : List (L.ticking.S × TickEvent)) (p : L.ticking.S × TickEvent)
    (hiters : L.ticking.loop.iters (L.start img entry sp0 sp1 h t t0) es = pre ++ p :: post) :
    let i := (L.ticking.interval t).toNat
    let n := pre.countP fun q => q.2.ev.takesTick
    L.cur p.1 = L.owner n ∧
      (0 < i → t0.toNat + (n + 1) * i < 2 ^ 64 → L.ticking.Signalled pre →
        (∀ pre1 q pre2, pre = pre1 ++ q :: pre2 → q.2.ev.takesTick = true →
          t0.toNat + ((pre1.countP fun q => q.2.ev.takesTick) + 1) * i ≤ q.2.now.toNat) ∧
        ∀ now : U64, t0.toNat ≤ now.toNat → (∀ q ∈ pre, q.2.now ≤ now) →
          (L.ticking.timer p.1).line now = false →
          L.cur p.1 = L.owner ((now.toNat - t0.toNat) / i)) := by
  intro i n
  have hstart := L.timer_start img entry sp0 sp1 h t t0
  have hcount : L.ticking.ticksIn pre = n := ticksIn_eq_countP L.timed_ne_wait hiters
  have hcur : L.cur p.1 = L.owner n := by
    rw [← hcount]
    exact (SlicedDemo.turn_of_iters (L.turn_start img entry sp0 sp1 h t t0) hiters).cur_eq
  refine ⟨hcur, fun hpos hfit hsignalled => ⟨?_, ?_⟩⟩
  · rintro pre1 q pre2 rfl hq
    have hq' : L.ticking.tick q.2 q.1 = true :=
      (TimedDemo.tick_iff L.timed_ne_wait q.2 q.1).mpr
        ⟨hq, Loop.goes_on_of_iters hiters (by simp)⟩
    have hline := hsignalled q (by simp) hq'
    rw [List.append_assoc, List.cons_append] at hiters
    rw [TickingLoop.timer_of_iters hstart hiters,
      ticksIn_eq_countP L.timed_ne_wait hiters] at hline
    refine le_of_line_after hpos (lt_of_le_of_lt ?_ hfit) hline
    have hfewer : (pre1.countP fun q => q.2.ev.takesTick) ≤ n := by
      rw [show n = _ from List.countP_append]
      exact Nat.le_add_right _ _
    gcongr
  · intro now hnow hbefore hdone
    rw [← hcount] at hfit
    have hle := ticksIn_le hstart hiters hpos hfit
      fun q hq htick => ⟨hsignalled q hq htick, hbefore q hq⟩
    rw [TickingLoop.timer_of_iters hstart hiters] at hdone
    have hge : ¬ L.ticking.ticksIn pre < (now.toNat - t0.toNat) / i := by
      intro hlt
      rw [(line_after_iff hpos hfit hnow).mpr hlt] at hdone
      cases hdone
    rw [hcur, ← hcount, Nat.le_antisymm hle (Nat.not_lt.mp hge)]

/-- At 626800 the first tick has been taken, after its deadline at 626000, and vCPU 1 is
to be run. -/
theorem schedule_follows_clock_second_slice :
    SlicedDemo.smpSched.cur schedTicked = SlicedDemo.smpSched.owner 1 ∧
      626000 ≤ schedTick.now.toNat ∧
      SlicedDemo.smpSched.cur schedTicked =
        SlicedDemo.smpSched.owner ((626800 - 1000) / 625000) := by
  obtain ⟨hcur, hclock⟩ := schedule_follows_clock .smpSched exampleImage 0x40080000 0 0
    (resetHv exampleImage 0) boardTimer 1000 [schedTick, schedTick] [(schedStart, schedTick)] []
    (schedTicked, schedTick) sched_iters
  have hsignalled : SlicedDemo.smpSched.ticking.Signalled [(schedStart, schedTick)] := by
    intro q hq _
    rw [List.mem_singleton.mp hq]
    decide +kernel
  obtain ⟨hdeadline, howner⟩ := hclock (by decide +kernel) (by decide +kernel) hsignalled
  refine ⟨hcur, hdeadline [] (schedStart, schedTick) [] rfl (by decide), ?_⟩
  refine howner 626800 (by decide) (fun q hq => ?_) (by decide +kernel)
  rw [List.mem_singleton.mp hq]
  decide

end FermiHV
