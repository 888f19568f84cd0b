import FermiHV.Loops
import FermiHV.Resume

/-!
# The round-robin scheduler `run_vcpus`

`run_vcpus` keeps its own account of the vCPUs: `hcalls[i]` counts hypercalls
against a budget and `active` the vCPUs that have not been halted. Two branches
take a vCPU out of the account, and the inner loop goes on after `active` has
become zero. `SchedInv` is what the account means at every turn of that loop;
`turn_idle` and `turn_entered` say what one turn does, and `scheduler_law`
assembles the law of whole runs.

`sched_demo`, the only caller, leaves `HCR_EL2.IMO` clear, so that every exit is
synchronous and its class is the one in `ESR_EL2`.
-/

namespace FermiHV

open RunLoop (Flow Loop)

/-! ## 1. Exits and turns -/

/-- The exit is a hypercall. -/
def Event.hvc (e : Event) : Bool := e.ctx.exitEc = ecHvc64

/-- The exit is a data or instruction abort from stage 2. -/
def Event.stage2Abort (e : Event) : Bool := e.ctx.exitEc = ecDabtLow || e.ctx.exitEc = ecIabtLow

/-- The exit is of a class that `run_vcpus` does not serve. -/
def Event.unexpected (e : Event) : Bool := !e.hvc && !e.stage2Abort

/-- `vcpu_init` of the first `n` vCPUs. -/
def Hv.initVcpus (n : Nat) (entry sp vttbr : Fin 2 → U64) (h : Hv) : Hv :=
  { h with
    vcpus := fun c =>
      if c.val < n then vcpuInit (entry c) (sp c) (vttbr c) c.val else h.vcpus c }

/-- `run_vcpus(n, …)` is called on freshly initialised vCPUs. -/
def runVcpusStart (n : Nat) (entry sp vttbr : Fin 2 → U64) (h : Hv) : RunVcpus where
  hv := h.initVcpus n entry sp vttbr
  i := 0
  hcalls := fun _ => 0
  active := n

/-- The vCPUs among the first `n` that are not halted. -/
def runnable (n : Nat) (h : Hv) : List (Fin 2) :=
  (List.finRange 2).filter fun c => c.val < n && !(h.vcpus c).halted

/-- The vCPU whose turn it is will be entered. -/
def RunVcpus.entering (s : RunVcpus) : Bool := !(s.hv.vcpus s.i).halted

/-- The exits that vCPU `c` has taken in these turns. -/
def exitsOf (c : Fin 2) (turns : List (RunVcpus × Event)) : List Event :=
  (turns.filter fun p => p.1.i = c && p.1.entering).map Prod.snd

variable {n budget : Nat} {e : Event} {s s' : RunVcpus}

/-- A turn of a halted vCPU only moves the index. -/
theorem turn_idle (n budget : Nat) (e : Event) (h : s.entering = false) :
    (runVcpus n budget).body e s = .next { s with i := nextIndex n s.i } := by
  have hh : (s.hv.vcpus s.i).halted = true := by simpa [RunVcpus.entering] using h
  simp only [runVcpus, hh, if_true]

/-- A turn in which the guest runs and exits with `e`. -/
structure Entered (n budget : Nat) (e : Event) (s s' : RunVcpus) : Prop where
  index : s'.i = nextIndex n s.i
  syndrome : (s'.hv.vcpus s.i).exitEsr = e.ctx.exitEsr
  others : ∀ d, d ≠ s.i → s'.hv.vcpus d = s.hv.vcpus d
  hcalls : s'.hcalls = Function.update s.hcalls s.i (s.hcalls s.i + if e.hvc then 1 else 0)
  halted : (s'.hv.vcpus s.i).halted =
    (e.hvc && decide (budget ≤ s.hcalls s.i + 1) || e.unexpected)
  active : s'.active = s.active - if (s'.hv.vcpus s.i).halted then 1 else 0

/-- The classes that `run_vcpus` tells apart. -/
theorem syncKind_cases (e : Event) :
    (e.ctx.syncKind = .hvc ∧ e.hvc = true ∧ e.stage2Abort = false) ∨
    (e.ctx.syncKind = .abort ∧ e.hvc = false ∧ e.stage2Abort = true) ∨
    (e.ctx.syncKind ≠ .hvc ∧ e.ctx.syncKind ≠ .abort ∧ e.hvc = false ∧
      e.stage2Abort = false) := by
  simp only [GuestCtx.syncKind, Event.hvc, Event.stage2Abort]
  by_cases hd : e.ctx.exitEc = ecDabtLow ∨ e.ctx.exitEc = ecIabtLow
  · have hne : e.ctx.exitEc ≠ ecHvc64 := by
      rcases hd with h | h <;> rw [h] <;> decide
    simp [hd, hne]
  · by_cases hh : e.ctx.exitEc = ecHvc64
    · rw [hh]
      decide
    · simp only [hd, hh, if_false]
      split_ifs <;> simp_all

/-- The vCPU leaves the guest with `e` and is halted. -/
theorem entered_halt {s₁ : RunVcpus} (hi : s₁.i = s.i) (hact : s₁.active = s.active)
    (hcalls : s₁.hcalls = Function.update s.hcalls s.i (s.hcalls s.i + if e.hvc then 1 else 0))
    (hhv : s₁.hv = s.hv.enter s.i e)
    (hstop : (e.hvc && decide (budget ≤ s.hcalls s.i + 1) || e.unexpected) = true) :
    Entered n budget e s { s₁.halt with i := nextIndex n s.i } := by
  have hself : (s₁.halt.hv.vcpus s.i).exitEsr = e.ctx.exitEsr ∧
      (s₁.halt.hv.vcpus s.i).halted = true := by
    simp [RunVcpus.halt, hi, hhv]
  refine ⟨rfl, hself.1, fun d hd => ?_, hcalls, hself.2.trans hstop.symm, ?_⟩
  · simp only [RunVcpus.halt, hi, hhv, setVcpu_vcpus_of_ne _ hd]
    exact setVcpu_vcpus_of_ne _ hd
  · change s₁.active - 1 = s.active - if (s₁.halt.hv.vcpus s.i).halted = true then 1 else 0
    rw [hself.2, hact]
    rfl

/-- The vCPU leaves the guest with `e` and stays in the account. -/
theorem entered_next (hi : s'.i = nextIndex n s.i) (hact : s'.active = s.active)
    (hcalls : s'.hcalls = Function.update s.hcalls s.i (s.hcalls s.i + if e.hvc then 1 else 0))
    (hesr : (s'.hv.vcpus s.i).exitEsr = e.ctx.exitEsr)
    (hhalted : (s'.hv.vcpus s.i).halted = false)
    (hothers : ∀ d, d ≠ s.i → s'.hv.vcpus d = s.hv.vcpus d)
    (hgo : (e.hvc && decide (budget ≤ s.hcalls s.i + 1) || e.unexpected) = false) :
    Entered n budget e s s' := by
  refine ⟨hi, hesr, hothers, hcalls, hhalted.trans hgo.symm, ?_⟩
  simp only [hhalted, Bool.false_eq_true, if_false, hact, Int.sub_zero]

theorem turn_entered (n budget : Nat) (e : Event) (h : s.entering = true) :
    ∃ s', (runVcpus n budget).body e s = .next s' ∧ Entered n budget e s s' := by
  have hh : (s.hv.vcpus s.i).halted = false := by simpa [RunVcpus.entering] using h
  have hothers : ∀ d, d ≠ s.i → (s.hv.enter s.i e).vcpus d = s.hv.vcpus d := fun d hd =>
    setVcpu_vcpus_of_ne _ hd
  have hsame : s.hcalls = Function.update s.hcalls s.i (s.hcalls s.i + 0) := by simp
  simp only [runVcpus, hh, Bool.false_eq_true, if_false, enter_vcpus_self, vcpuRunOnce_ctx]
  rcases syncKind_cases e with ⟨hk, hv, ha⟩ | ⟨hk, hv, ha⟩ | ⟨hk, hk', hv, ha⟩
  · -- a hypercall, the last one of the budget or not
    simp only [hk]
    split_ifs with hb
    · exact ⟨_, rfl, entered_halt rfl rfl (by rw [hv]; rfl) rfl (by simp [hv, hb])⟩
    · refine ⟨_, rfl, entered_next rfl rfl (by rw [hv]; rfl) ?_ ?_ hothers ?_⟩
      · rw [enter_vcpus_self]
        rfl
      · rw [enter_vcpus_self]
        exact hh
      · simp [Event.unexpected, hv, hb]
  · -- a stage-2 abort is served and the vCPU stays in the account
    simp only [hk]
    refine ⟨_, rfl, entered_next rfl rfl ?_ ?_ ?_ (fun d hd => ?_) ?_⟩
    · rw [hv]
      exact hsame
    · rw [abort_exitEsr, enter_vcpus_self]
      rfl
    · rw [abort_halted, enter_vcpus_self]
      exact hh
    · rw [abort_vcpus_of_ne _ _ _ hd, hothers d hd]
    · simp [Event.unexpected, hv, ha]
  · -- any other class halts it
    have hstop : (e.hvc && decide (budget ≤ s.hcalls s.i + 1) || e.unexpected) = true := by
      simp [Event.unexpected, hv, ha]
    cases hkind : e.ctx.syncKind with
    | hvc => exact absurd hkind hk
    | abort => exact absurd hkind hk'
    | smc | sysreg | irq | other =>
      exact ⟨_, rfl, entered_halt rfl rfl (by rw [hv]; exact hsame) rfl hstop⟩

/-! ## 2. The account -/

/-- What the locals of `run_vcpus` mean at each turn. -/
structure SchedInv (n budget : Nat) (s : RunVcpus) : Prop where
  index : s.i.val < n
  active : s.active = ((runnable n s.hv).length : Int)
  within : ∀ c, s.hcalls c ≤ budget
  left : ∀ c, (s.hv.vcpus c).halted = false → s.hcalls c < budget

theorem nextIndex_lt (hn : 0 < n) (i : Fin 2) : (nextIndex n i).val < n := by
  unfold nextIndex
  split_ifs with h
  · have := i.isLt
    rw [Fin.val_add]
    omega
  · exact hn

theorem runnable_eq (n : Nat) (h : Hv) : runnable n h =
    (if 0 < n ∧ (h.vcpus 0).halted = false then [0] else []) ++
      (if 1 < n ∧ (h.vcpus 1).halted = false then [1] else []) := by
  have hlist : List.finRange 2 = [0, 1] := by decide
  simp only [runnable, hlist, List.filter_cons, List.filter_nil, Bool.and_eq_true,
    decide_eq_true_eq, Bool.not_eq_true', Fin.val_zero, Fin.val_one]
  split_ifs <;> rfl

/-- A turn in which a vCPU of the first `n` goes from running to halted takes one
off the number of the running ones. -/
theorem length_runnable_entered {h h' : Hv} {c : Fin 2} (hc : c.val < n)
    (hrun : (h.vcpus c).halted = false) (hothers : ∀ d, d ≠ c → h'.vcpus d = h.vcpus d) :
    ((runnable n h').length : Int) =
      (runnable n h).length - if (h'.vcpus c).halted then 1 else 0 := by
  rw [runnable_eq, runnable_eq]
  obtain hc0 | hc1 : c = 0 ∨ c = 1 := by omega
  · subst hc0
    rw [hothers 1 (by decide)]
    cases (h'.vcpus 0).halted <;> simp_all
  · subst hc1
    rw [hothers 0 (by decide)]
    cases (h'.vcpus 1).halted <;> simp_all

theorem inv_start (hb : 1 ≤ budget) (hn : n = 1 ∨ n = 2) (entry sp vttbr : Fin 2 → U64) (h : Hv) :
    SchedInv n budget (runVcpusStart n entry sp vttbr h) where
  index := by
    change 0 < n
    omega
  active := by
    rw [runnable_eq]
    rcases hn with rfl | rfl <;> rfl
  within := fun _ => Nat.zero_le _
  left := fun _ _ => hb

theorem inv_idle (hn : 0 < n) (h : SchedInv n budget s) :
    SchedInv n budget { s with i := nextIndex n s.i } :=
  ⟨nextIndex_lt hn s.i, h.active, h.within, h.left⟩

theorem inv_entered (hn : 0 < n) (h : SchedInv n budget s) (hrun : s.entering = true)
    (ht : Entered n budget e s s') : SchedInv n budget s' := by
  have hh : (s.hv.vcpus s.i).halted = false := by simpa [RunVcpus.entering] using hrun
  have hleft := h.left s.i hh
  refine ⟨?_, ?_, fun c => ?_, fun c hc => ?_⟩
  · rw [ht.index]
    exact nextIndex_lt hn s.i
  · rw [length_runnable_entered h.index hh ht.others, ht.active, h.active]
  · rw [ht.hcalls]
    by_cases hci : c = s.i
    · rw [hci, Function.update_self]
      split_ifs <;> omega
    · rw [Function.update_of_ne hci]
      exact h.within c
  · rw [ht.hcalls]
    by_cases hci : c = s.i
    · rw [hci, ht.halted] at hc
      rw [hci, Function.update_self]
      cases hv : e.hvc with
      | false => simpa [hv] using hleft
      | true => simpa [hv, Event.unexpected] using hc
    · rw [Function.update_of_ne hci]
      exact h.left c (ht.others c hci ▸ hc)

/-- Every turn goes on, and keeps the account. -/
theorem inv_turn (hn : 0 < n) (h : SchedInv n budget s) (e : Event) :
    ∃ s', (runVcpus n budget).body e s = .next s' ∧ s'.i = nextIndex n s.i ∧
      (∀ d, d ≠ s.i → s'.hv.vcpus d = s.hv.vcpus d) ∧ SchedInv n budget s' := by
  cases hrun : s.entering with
  | false => exact ⟨_, turn_idle n budget e hrun, rfl, fun _ _ => rfl, inv_idle hn h⟩
  | true =>
    obtain ⟨s', hbody, ht⟩ := turn_entered n budget e hrun
    exact ⟨s', hbody, ht.index, ht.others, inv_entered hn h hrun ht⟩

/-! ## 3. Whole runs -/

/-- One turn of a run, after the turns `pre`. -/
structure TurnLaw (n budget : Nat) (pre : List (RunVcpus × Event)) (s : RunVcpus) (e : Event) :
    Prop where
  /-- `hcalls` is the number of hypercalls so far. -/
  counted : s.hcalls s.i = (exitsOf s.i pre).countP Event.hvc
  /-- A halted vCPU is not entered. -/
  idle : (s.hv.vcpus s.i).halted = true →
    (runVcpus n budget).body e s = .next { s with i := nextIndex n s.i }
  /-- A vCPU that is not halted is entered. It is halted and counted out after
  its `budget`-th hypercall and after an exit of an unexpected class. -/
  entered : (s.hv.vcpus s.i).halted = false →
    ∃ s', (runVcpus n budget).body e s = .next s' ∧ s'.i = nextIndex n s.i ∧
      (s'.hv.vcpus s.i).exitEsr = e.ctx.exitEsr ∧
      (∀ d, d ≠ s.i → s'.hv.vcpus d = s.hv.vcpus d) ∧
      ((s'.hv.vcpus s.i).halted = true ↔
        e.hvc = true ∧ (exitsOf s.i pre).countP Event.hvc + 1 = budget ∨
          e.hvc = false ∧ e.stage2Abort = false) ∧
      s'.active = s.active - if (s'.hv.vcpus s.i).halted then 1 else 0

/-- The law of the runs of `run_vcpus(n, budget, …)` from `s` over the exits `es`. -/
structure SchedulerLaw (n budget : Nat) (s : RunVcpus) (es : List Event) : Prop where
  active : ∀ t ∈ (runVcpus n budget).reached s es, t.active = ((runnable n t.hv).length : Int)
  within : ∀ t ∈ (runVcpus n budget).reached s es, ∀ c, t.hcalls c ≤ budget
  turns : ∀ pre p post, (runVcpus n budget).iters s es = pre ++ p :: post →
    TurnLaw n budget pre p.1 p.2
  /-- A pass of the outer loop takes all its turns, and enters each vCPU that is
  not halted at its start exactly once, in order. -/
  rounds : ∀ t ∈ (runVcpus n budget).reached s es, t.i = 0 → (runVcpus n budget).cond t = true →
    ∀ exits : List Event, exits.length = n →
      (((runVcpus n budget).iters t exits).filter fun p => p.1.entering).map (·.1.i) =
          runnable n t.hv ∧
        ∃ t', (runVcpus n budget).after t exits = some t' ∧ t'.i = 0
  /-- The loop is left at the head of a pass, when all vCPUs are halted. -/
  ends : ∀ t ∈ (runVcpus n budget).reached s es,
    ((runVcpus n budget).cond t = false ↔ t.i = 0 ∧ runnable n t.hv = [])
  /-- Once all are halted, the loop is left in the same pass and enters no one. -/
  drains : ∀ t ∈ (runVcpus n budget).reached s es, runnable n t.hv = [] →
    ∀ exits : List Event, exits.length = n →
      (runVcpus n budget).after t exits = none ∧
        ∀ p ∈ (runVcpus n budget).iters t exits, p.1.entering = false

theorem exitsOf_concat (c : Fin 2) (pre : List (RunVcpus × Event)) (s : RunVcpus) (e : Event) :
    exitsOf c (pre ++ [(s, e)]) =
      exitsOf c pre ++ if s.i = c ∧ s.entering = true then [e] else [] := by
  simp only [exitsOf, List.filter_append, List.map_append, List.filter_singleton]
  by_cases hc : s.i = c <;> cases hrun : s.entering <;> simp [hc]

/-- The hypercalls in the account are those of the turns so far. -/
theorem hcalls_step {pre : List (RunVcpus × Event)}
    (h : ∀ c, s.hcalls c = (exitsOf c pre).countP Event.hvc)
    (hbody : (runVcpus n budget).body e s = .next s') (c : Fin 2) :
    s'.hcalls c = (exitsOf c (pre ++ [(s, e)])).countP Event.hvc := by
  rw [exitsOf_concat, List.countP_append, ← h c]
  cases hrun : s.entering with
  | false =>
    rw [turn_idle n budget e hrun] at hbody
    cases hbody
    simp
  | true =>
    obtain ⟨t, ht, hent⟩ := turn_entered n budget e hrun
    rw [hbody] at ht
    cases ht
    rw [hent.hcalls]
    by_cases hc : s.i = c
    · subst hc
      simp [List.countP_cons]
    · simp [Function.update_of_ne (Ne.symm hc), hc]

theorem turnLaw (h : SchedInv n budget s) {pre : List (RunVcpus × Event)}
    (hcalls : ∀ c, s.hcalls c = (exitsOf c pre).countP Event.hvc) (e : Event) :
    TurnLaw n budget pre s e where
  counted := hcalls s.i
  idle := fun hh => turn_idle n budget e (by simp [RunVcpus.entering, hh])
  entered := fun hh => by
    obtain ⟨s', hbody, ht⟩ := turn_entered (s := s) n budget e
      (by simp [RunVcpus.entering, hh])
    refine ⟨s', hbody, ht.index, ht.syndrome, ht.others, ?_, ht.active⟩
    -- the test `>=` of the source is an equality, as the vCPU was still running
    have hleft := h.left s.i hh
    have hlast : budget ≤ s.hcalls s.i + 1 ↔ s.hcalls s.i + 1 = budget := by omega
    rw [ht.halted, ← hcalls s.i]
    simp [Event.unexpected, hlast]

theorem cond_iff : (runVcpus n budget).cond s = true ↔ s.i ≠ 0 ∨ s.active ≠ 0 := by
  simp [runVcpus]

theorem cond_false_iff (h : SchedInv n budget s) :
    (runVcpus n budget).cond s = false ↔ s.i = 0 ∧ runnable n s.hv = [] := by
  rw [← Bool.not_eq_true, cond_iff, h.active]
  simp

/-- The turns of one pass of the outer loop, for one vCPU and for two. -/
theorem round_entered (hn : n = 1 ∨ n = 2) (h : SchedInv n budget s) (hi : s.i = 0)
    (hc : (runVcpus n budget).cond s = true) {exits : List Event} (hlen : exits.length = n) :
    (((runVcpus n budget).iters s exits).filter fun p => p.1.entering).map (·.1.i) =
        runnable n s.hv ∧
      ∃ t, (runVcpus n budget).after s exits = some t ∧ t.i = 0 := by
  have hfirst : s.entering = !(s.hv.vcpus 0).halted := by rw [RunVcpus.entering, hi]
  rw [runnable_eq]
  rcases hn with rfl | rfl
  · obtain ⟨e, rfl⟩ := List.length_eq_one_iff.mp hlen
    obtain ⟨t, hbody, hidx, -, -⟩ := inv_turn (by decide) h e
    refine ⟨?_, t, ?_, hidx⟩
    · rw [Loop.iters_cons_next hc hbody, Loop.iters]
      cases hh : (s.hv.vcpus 0).halted <;> simp [hfirst, hh, hi]
    · simp only [Loop.after, hc, hbody, if_true]
  · obtain ⟨e₀, e₁, rfl⟩ := List.length_eq_two.mp hlen
    obtain ⟨t, hbody, hidx, hothers, ht⟩ := inv_turn (by decide) h e₀
    have hti : t.i = 1 := by rw [hidx, hi]; rfl
    have htc : (runVcpus 2 budget).cond t = true := cond_iff.mpr (.inl (by rw [hti]; decide))
    -- the first turn leaves the second vCPU as it is
    have hsecond : t.entering = !(s.hv.vcpus 1).halted := by
      rw [RunVcpus.entering, hti, hothers 1 (by rw [hi]; decide)]
    obtain ⟨u, hbody', hidx', -, -⟩ := inv_turn (by decide) ht e₁
    refine ⟨?_, u, ?_, ?_⟩
    · rw [Loop.iters_cons_next hc hbody, Loop.iters_cons_next htc hbody', Loop.iters]
      cases hh : (s.hv.vcpus 0).halted <;> cases hh' : (s.hv.vcpus 1).halted <;>
        simp [hfirst, hsecond, hh, hh', hi, hti]
    · simp only [Loop.after, hc, htc, hbody, hbody', if_true]
    · rw [hidx', hti]
      rfl

/-- With all vCPUs halted, the rest of the pass is idle and the loop is left. -/
theorem drained (hn : n = 1 ∨ n = 2) (h : SchedInv n budget s) (hall : runnable n s.hv = [])
    {exits : List Event} (hlen : exits.length = n) :
    (runVcpus n budget).after s exits = none ∧
      ∀ p ∈ (runVcpus n budget).iters s exits, p.1.entering = false := by
  obtain ⟨e, rest, rfl⟩ : ∃ e rest, exits = e :: rest :=
    List.exists_cons_of_length_pos (by omega)
  by_cases hi : s.i = 0
  · have hc := (cond_false_iff h).mpr ⟨hi, hall⟩
    refine ⟨by simp [Loop.after, hc], ?_⟩
    rw [Loop.iters_of_not_cond hc]
    exact fun p hp => absurd hp List.not_mem_nil
  · -- the second of two vCPUs
    have hn2 : n = 2 := by
      have := h.index
      omega
    have hi1 : s.i = 1 := by omega
    subst hn2
    have hidle : s.entering = false := by
      have hmem : s.i ∉ runnable 2 s.hv := by
        rw [hall]
        exact List.not_mem_nil
      simpa [runnable, hi1, RunVcpus.entering] using hmem
    have hbody := turn_idle 2 budget e hidle
    have hc : (runVcpus 2 budget).cond s = true := cond_iff.mpr (.inl hi)
    have hstop : (runVcpus 2 budget).cond { s with i := nextIndex 2 s.i } = false := by
      refine (cond_false_iff (inv_idle (by decide) h)).mpr ⟨?_, hall⟩
      rw [hi1]
      rfl
    obtain ⟨e', rfl⟩ := List.length_eq_one_iff.mp (Nat.succ.inj hlen)
    refine ⟨by simp only [Loop.after, hc, hbody, hstop, if_true, Bool.false_eq_true, if_false], ?_⟩
    rw [Loop.iters_cons_next hc hbody, Loop.iters_of_not_cond hstop]
    exact fun p hp => List.mem_singleton.mp hp ▸ hidle

/-- `run_vcpus` on one or two freshly initialised vCPUs, for any budget and any
exits. -/
theorem scheduler_law (n budget : Nat) (hn : n = 1 ∨ n = 2) (hb : 1 ≤ budget)
    (entry sp vttbr : Fin 2 → U64) (h : Hv) (es : List Event) :
    SchedulerLaw n budget (runVcpusStart n entry sp vttbr h) es := by
  have hpos : 0 < n := by omega
  have hstart := inv_start hb hn entry sp vttbr h
  have hstep : ∀ s e s', SchedInv n budget s → (runVcpus n budget).body e s = .next s' →
      SchedInv n budget s' := by
    intro s e s' hs hbody
    obtain ⟨t, hbody', -, -, hinv⟩ := inv_turn hpos hs e
    rw [hbody] at hbody'
    cases hbody'
    exact hinv
  have hreached : ∀ t ∈ (runVcpus n budget).reached (runVcpusStart n entry sp vttbr h) es,
      SchedInv n budget t := by
    refine Loop.reached_of_invariant (C := fun _ _ => True) (fun s e hs _ _ => ?_) hstart
      (fun _ _ => trivial)
    obtain ⟨t, hbody, -, -, hinv⟩ := inv_turn hpos hs e
    rw [hbody]
    exact hinv
  refine ⟨fun t ht => (hreached t ht).active, fun t ht => (hreached t ht).within,
    fun pre p post heq => ?_,
    fun t ht hi hc exits hlen => round_entered hn (hreached t ht) hi hc hlen,
    fun t ht => cond_false_iff (hreached t ht),
    fun t ht hall exits hlen => drained hn (hreached t ht) hall hlen⟩
  have hinv : SchedInv n budget p.1 ∧
      ∀ c, p.1.hcalls c = (exitsOf c ([] ++ pre)).countP Event.hvc :=
    Loop.iters_of_history
      (H := fun pre s => SchedInv n budget s ∧
        ∀ c, s.hcalls c = (exitsOf c pre).countP Event.hvc)
      (fun pre s e s' hs hbody => ⟨hstep s e s' hs.1 hbody, hcalls_step hs.2 hbody⟩)
      ⟨hstart, fun _ => rfl⟩ heq
  exact turnLaw hinv.1 hinv.2 p.2

/-- Two vCPUs with a budget of one hypercall: the loop is left after two exits. -/
theorem scheduler_law_two_hvcs :
    let s := runVcpusStart 2 (fun _ => 0x40000000) (fun _ => 0) (fun _ => 0)
      (resetHv exampleImage 0x40000000)
    let hvc := syncExit 0x5A000000 7
    ((runVcpus 2 1).iters s [hvc, hvc, hvc]).length = 2 ∧ SchedulerLaw 2 1 s [hvc, hvc, hvc] :=
  ⟨by decide +kernel, scheduler_law 2 1 (.inr rfl) (le_refl 1) (fun _ => 0x40000000) (fun _ => 0)
    (fun _ => 0) (resetHv exampleImage 0x40000000) _⟩

end FermiHV
