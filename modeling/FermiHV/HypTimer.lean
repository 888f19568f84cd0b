import FermiHV.Printf

/-!
# The EL2 timer (`timer.c`)

The hypervisor's timer raises its line while the physical counter has reached the
deadline in `CNTHP_CVAL_EL2`. The handler counts a tick and moves the deadline on by one
interval, whatever the counter reads.

`HypTimer.after` is the state after a start and `n` handled interrupts, and
`line_after_iff` says when the line is up in it: while fewer ticks have been counted
than intervals have passed.
-/

namespace FermiHV

open Uart (CStr PrintM ascii uartPrintf)

structure HypTimer where
  /-- `t_freq`. -/
  freq : U64
  /-- `t_interval`. -/
  interval : U64
  /-- `t_ticks`. -/
  ticks : U64
  /-- `CNTHP_CVAL_EL2`. -/
  cval : U64
  /-- `CNTHP_CTL_EL2`. -/
  ctl : U64
deriving DecidableEq

/-- `HYP_TIMER_PPI`. -/
def hypTimerPpi : U64 := 26

def timerInitFmt : CStr :=
  ⟨ascii "[TIMER] CNTFRQ = %u Hz; hyp timer PPI %u enabled\n", by decide +kernel⟩

/-- `hyptimer_init`, with `CNTFRQ_EL0` in `cntfrq`. -/
def hyptimerInit (cntfrq : U64) (t : HypTimer) : PrintM HypTimer := do
  let t := { t with freq := cntfrq }
  uartPrintf timerInitFmt [.word t.freq, .word hypTimerPpi]
  pure t

/-- `hyptimer_start`, with `CNTPCT_EL0` in `now`. -/
def hyptimerStart (intervalMs now : U64) (t : HypTimer) : HypTimer :=
  let interval := t.freq * intervalMs / 1000
  { t with interval, ticks := 0, cval := now + interval, ctl := 1 }

/-- `hyptimer_stop`. -/
def hyptimerStop (t : HypTimer) : HypTimer := { t with ctl := 0 }

/-- `hyptimer_on_irq`. -/
def hyptimerOnIrq (t : HypTimer) : HypTimer :=
  { t with ticks := t.ticks + 1, cval := t.cval + t.interval }

/-- `hyptimer_ticks`. -/
def hyptimerTicks (t : HypTimer) : U64 := t.ticks

/-- The interrupt line: the timer is enabled and not masked, and the counter has
reached the deadline. -/
def HypTimer.line (t : HypTimer) (now : U64) : Bool := t.ctl &&& 3 = 1 && t.cval ≤ now

theorem line_iff {t : HypTimer} {now : U64} :
    t.line now = true ↔ t.ctl &&& 3 = 1 ∧ t.cval ≤ now := by
  simp [HypTimer.line]

/-- The timer that was started at `t0` and whose interrupt has been handled `n` times. -/
def HypTimer.after (freq interval t0 : U64) (n : Nat) : HypTimer where
  freq
  interval
  ticks := BitVec.ofNat 64 n
  cval := t0 + BitVec.ofNat 64 (n + 1) * interval
  ctl := 1

theorem hyptimerStart_eq (ms t0 : U64) (t : HypTimer) :
    hyptimerStart ms t0 t = .after t.freq (t.freq * ms / 1000) t0 0 := by
  simp only [hyptimerStart, HypTimer.after]
  rw [show BitVec.ofNat 64 (0 + 1) * (t.freq * ms / 1000) = t.freq * ms / 1000 from
    BitVec.one_mul _]
  rfl

/-- Deadlines do not drift: the next one is an interval after the last one. -/
theorem hyptimerOnIrq_after (freq interval t0 : U64) (n : Nat) :
    hyptimerOnIrq (.after freq interval t0 n) = .after freq interval t0 (n + 1) := by
  have hticks : BitVec.ofNat 64 n + 1 = BitVec.ofNat 64 (n + 1) := (BitVec.ofNat_add n 1).symm
  have hdeadline : BitVec.ofNat 64 (n + 1) * interval + interval =
      BitVec.ofNat 64 (n + 1 + 1) * interval := by
    rw [BitVec.ofNat_add (n + 1) 1, BitVec.add_mul, BitVec.one_mul]
  simp only [hyptimerOnIrq, HypTimer.after, hticks, BitVec.add_assoc, hdeadline]

/-- A deadline that does not wrap. -/
theorem toNat_cval_after {freq interval t0 : U64} {n : Nat}
    (hfit : t0.toNat + (n + 1) * interval.toNat < 2 ^ 64) (hpos : 0 < interval.toNat) :
    (HypTimer.after freq interval t0 n).cval.toNat = t0.toNat + (n + 1) * interval.toNat := by
  have hn : n + 1 < 2 ^ 64 := by
    have hmul := Nat.le_mul_of_pos_right (n + 1) hpos
    omega
  rw [HypTimer.after, BitVec.toNat_add, BitVec.toNat_mul, BitVec.toNat_ofNat,
    Nat.mod_eq_of_lt hn, Nat.mod_eq_of_lt (a := (n + 1) * interval.toNat) (by omega),
    Nat.mod_eq_of_lt hfit]

theorem le_of_line_after {freq interval t0 now : U64} {n : Nat} (hpos : 0 < interval.toNat)
    (hfit : t0.toNat + (n + 1) * interval.toNat < 2 ^ 64)
    (hline : (HypTimer.after freq interval t0 n).line now = true) :
    t0.toNat + (n + 1) * interval.toNat ≤ now.toNat := by
  have hcval := (line_iff.mp hline).2
  rwa [BitVec.le_def, toNat_cval_after hfit hpos] at hcval

/-- As long as the deadline does not wrap, the line is up while fewer ticks have been
counted than intervals have passed. -/
theorem line_after_iff {freq interval t0 now : U64} {n : Nat} (hpos : 0 < interval.toNat)
    (hfit : t0.toNat + (n + 1) * interval.toNat < 2 ^ 64) (hnow : t0.toNat ≤ now.toNat) :
    (HypTimer.after freq interval t0 n).line now = true ↔
      n < (now.toNat - t0.toNat) / interval.toNat := by
  have henabled : (HypTimer.after freq interval t0 n).ctl &&& 3 = 1 :=
    (by decide : (1 : U64) &&& 3 = 1)
  rw [line_iff, and_iff_right henabled, BitVec.le_def, toNat_cval_after hfit hpos,
    ← Nat.succ_le_iff, Nat.succ_eq_add_one, Nat.le_div_iff_mul_le hpos]
  omega

end FermiHV
