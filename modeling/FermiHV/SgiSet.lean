import FermiHV.Vgic
import FermiHV.Lib.FlagHistory

/-!
# The pending SGIs of the vCPUs

`vgic_post_sgi` makes an SGI pending for every vCPU but the sender,
`vgic_pop_sgi` takes the lowest one that is pending for a vCPU. Over any
interleaving of the two that starts at `vgic_reset`, what is pending for a vCPU
is what some other vCPU has posted since the vCPU last popped it.

1. `popSgi_eq_some_iff`, `popSgi_eq_none_iff`: what a pop returns, by the bits
   of the set.
2. `pending_iff_outstanding`: the bits, by the history.
3. `pops_eq`: a number of pops in a row.
4. `sgi_set_law`: the pending sets over whole runs.
-/

namespace FermiHV

open FlagHistory

/-! ## 1. One pop -/

/-- The array has an element for `c`. -/
def InSgiRange (c : Int) : Prop := 0 ≤ c ∧ c < vgicMaxVcpus

/-- SGI `k` is pending for `c`. -/
def sgiPends (g : Vgic) (c : Int) (k : Nat) : Bool := (g.sgiPending c).getLsbD k

/-- The SGIs pending for `c`, in increasing order. -/
def pendingSgis (g : Vgic) (c : Int) : List Nat := (List.range 16).filter (sgiPends g c)

theorem mem_pendingSgis {g : Vgic} {c : Int} {k : Nat} :
    k ∈ pendingSgis g c ↔ k < 16 ∧ sgiPends g c k = true := by
  rw [pendingSgis, List.mem_filter, List.mem_range]

theorem pendingSgis_sorted (g : Vgic) (c : Int) : (pendingSgis g c).Pairwise (· < ·) :=
  List.Pairwise.filter _ List.pairwise_lt_range

/-- The set without SGI `k`. -/
def Vgic.clearSgi (g : Vgic) (c : Int) (k : Nat) : Vgic :=
  { g with
    sgiPending := Function.update g.sgiPending c (g.sgiPending c &&& ~~~(1#32 <<< k)) }

theorem clearSgi_self (g : Vgic) (c : Int) (k : Nat) :
    (g.clearSgi c k).sgiPending c = g.sgiPending c &&& ~~~(1#32 <<< k) :=
  Function.update_self ..

theorem clearSgi_of_ne (g : Vgic) {c c' : Int} (h : c' ≠ c) (k : Nat) :
    (g.clearSgi c k).sgiPending c' = g.sgiPending c' :=
  Function.update_of_ne h ..

theorem sgiPends_clearSgi (g : Vgic) (c : Int) (k : Nat) (c' : Int) (j : Nat) :
    sgiPends (g.clearSgi c k) c' j = (sgiPends g c' j && !decide (c' = c ∧ j = k)) := by
  unfold sgiPends
  by_cases hc : c' = c
  · subst hc
    rw [clearSgi_self, BitVec.getLsbD_and, BitVec.getLsbD_not, Bits.getLsbD_one_shl]
    by_cases hj : j < 32
    · simp [hj]
    · rw [BitVec.getLsbD_of_ge _ _ (by omega)]
      rfl
  · rw [clearSgi_of_ne g hc]
    simp [hc]

theorem vgicPopSgi_of_not_inRange (g : Vgic) {c : Int} (hc : ¬ InSgiRange c) :
    vgicPopSgi c g = (none, g) := by
  have hout : c < 0 ∨ vgicMaxVcpus ≤ c ∨ g.sgiPending c = 0 := by
    by_cases hlo : c < 0
    · exact .inl hlo
    · exact .inr (.inl (not_lt.mp fun hhi => hc ⟨not_lt.mp hlo, hhi⟩))
  rw [vgicPopSgi, if_pos hout]

/-- A pop takes the first of the pending SGIs. -/
theorem vgicPopSgi_eq (g : Vgic) {c : Int} (hc : InSgiRange c) : vgicPopSgi c g =
    ((pendingSgis g c).head?, (pendingSgis g c).head?.elim g (g.clearSgi c)) := by
  have hfind : (List.range 16).find? (fun b => g.sgiPending c &&& (1#32 <<< b) ≠ 0) =
      (pendingSgis g c).head? := by
    rw [pendingSgis, List.head?_filter]
    congr 1
    funext b
    rw [Bool.eq_iff_iff, decide_eq_true_iff]
    exact Bits.and_one_shl_ne_zero_iff _ _
  obtain ⟨hlo, hhi⟩ := hc
  by_cases hzero : g.sgiPending c = 0
  · have hnil : pendingSgis g c = [] := by
      rw [List.eq_nil_iff_forall_not_mem]
      intro k hk
      have hbit := (mem_pendingSgis.mp hk).2
      rw [sgiPends, hzero] at hbit
      exact absurd hbit (by simp)
    rw [vgicPopSgi, if_pos (.inr (.inr hzero)), hnil]
    rfl
  · have hin : ¬ (c < 0 ∨ vgicMaxVcpus ≤ c ∨ g.sgiPending c = 0) := by
      rintro (h | h | h)
      · exact not_lt.mpr hlo h
      · exact not_lt.mpr h hhi
      · exact hzero h
    rw [vgicPopSgi, if_neg hin, hfind]
    cases (pendingSgis g c).head? <;> rfl

/-- What a pop returns: the least SGI that is pending. -/
theorem popSgi_eq_some_iff {g : Vgic} {c : Int} {k : Nat} : (vgicPopSgi c g).1 = some k ↔
    InSgiRange c ∧ (k < 16 ∧ sgiPends g c k = true) ∧ ∀ j < k, sgiPends g c j = false := by
  by_cases hc : InSgiRange c
  · rw [vgicPopSgi_eq g hc, pendingSgis, List.head?_filter, List.find?_range_eq_some]
    simp only [List.mem_range, Bool.not_eq_true']
    tauto
  · rw [vgicPopSgi_of_not_inRange g hc]
    simp [hc]

/-- When a pop returns nothing. -/
theorem popSgi_eq_none_iff {g : Vgic} {c : Int} : (vgicPopSgi c g).1 = none ↔
    ¬ InSgiRange c ∨ ∀ k < 16, sgiPends g c k = false := by
  by_cases hc : InSgiRange c
  · rw [vgicPopSgi_eq g hc, pendingSgis, List.head?_filter, List.find?_range_eq_none]
    simp [hc]
  · rw [vgicPopSgi_of_not_inRange g hc]
    simp [hc]

/-- A pop concerns the set of its vCPU only. -/
theorem popSgi_of_ne (g : Vgic) {c c' : Int} (h : c' ≠ c) :
    (vgicPopSgi c g).2.sgiPending c' = g.sgiPending c' := by
  rcases vgicPopSgi_cases c g with hpop | ⟨b, -, hpop⟩
  · rw [hpop]
  · rw [hpop]
    exact clearSgi_of_ne g h b

/-! ## 2. Histories -/

/-- A call of `vgic_post_sgi` or `vgic_pop_sgi`. -/
inductive SgiOp where
  | post (self : Fin 4) (k : Fin 16)
  | pop (c : Int)

/-- A call with its answer. -/
inductive SgiEvent where
  | posted (self : Fin 4) (k : Fin 16)
  | popped (c : Int) (answer : Option Nat)
deriving DecidableEq

def SgiOp.apply (g : Vgic) : SgiOp → Vgic
  | .post self k => vgicPostSgi self.val (BitVec.ofNat 32 k.val) g
  | .pop c => (vgicPopSgi c g).2

def SgiOp.event (g : Vgic) : SgiOp → SgiEvent
  | .post self k => .posted self k
  | .pop c => .popped c (vgicPopSgi c g).1

def sgiRun (g : Vgic) (ops : List SgiOp) : Vgic := ops.foldl SgiOp.apply g

def sgiHistory (g : Vgic) (ops : List SgiOp) : List SgiEvent :=
  history SgiOp.apply SgiOp.event g ops

/-- Some vCPU other than `c` has posted `k` since `c` last popped it. -/
def Outstanding (es : List SgiEvent) (c : Int) (k : Nat) : Prop :=
  ∃ (pre : List SgiEvent) (self : Fin 4) (j : Fin 16) (post : List SgiEvent),
    es = pre ++ .posted self j :: post ∧ (self.val : Int) ≠ c ∧ j.val = k ∧
      .popped c (some k) ∉ post

/-- What an event does to "`k` is pending for `c`". -/
def SgiEvent.act (c : Int) (k : Nat) : SgiEvent → Option Bool
  | .posted self j => if (self.val : Int) ≠ c ∧ j.val = k then some true else none
  | .popped c' answer => if c' = c ∧ answer = some k then some false else none

theorem SgiEvent.act_eq_true_iff {c : Int} {k : Nat} {e : SgiEvent} :
    e.act c k = some true ↔ ∃ self j, e = .posted self j ∧ (self.val : Int) ≠ c ∧ j.val = k := by
  cases e with
  | posted self j => simp [SgiEvent.act, and_assoc]
  | popped c' answer => simp [SgiEvent.act]

theorem SgiEvent.act_eq_false_iff {c : Int} {k : Nat} {e : SgiEvent} :
    e.act c k = some false ↔ e = .popped c (some k) := by
  cases e with
  | posted self j => simp [SgiEvent.act]
  | popped c' answer => simp [SgiEvent.act]

theorem outstanding_iff {es : List SgiEvent} {c : Int} {k : Nat} :
    Outstanding es c k ↔ lastAct (SgiEvent.act c k) es = some true := by
  rw [lastAct_eq_true_iff]
  constructor
  · rintro ⟨pre, self, j, post, heq, hself, hj, hpost⟩
    refine ⟨pre, _, post, heq, SgiEvent.act_eq_true_iff.mpr ⟨self, j, rfl, hself, hj⟩, ?_⟩
    intro e he hact
    rw [SgiEvent.act_eq_false_iff.mp hact] at he
    exact hpost he
  · rintro ⟨pre, e, post, heq, hact, hpost⟩
    obtain ⟨self, j, rfl, hself, hj⟩ := SgiEvent.act_eq_true_iff.mp hact
    exact ⟨pre, self, j, post, heq, hself, hj,
      fun he => hpost _ he (SgiEvent.act_eq_false_iff.mpr rfl)⟩

theorem Outstanding.lt {es : List SgiEvent} {c : Int} {k : Nat} (h : Outstanding es c k) :
    k < 16 := by
  obtain ⟨-, -, j, -, -, -, rfl, -⟩ := h
  exact j.isLt

theorem sgiPends_post (g : Vgic) (self : Fin 4) (j : Fin 16) {c : Int} (hc : InSgiRange c)
    (k : Nat) : sgiPends (vgicPostSgi self.val (BitVec.ofNat 32 j.val) g) c k =
      (sgiPends g c k || decide ((self.val : Int) ≠ c ∧ j.val = k)) := by
  have hmask : (BitVec.ofNat 32 j.val &&& 0x1F).toNat = j.val := by
    revert j
    decide
  obtain ⟨hlo, hhi⟩ := hc
  unfold sgiPends vgicPostSgi
  by_cases hself : c = self.val
  · simp [hself]
  · simp only [hlo, hhi, hself, ne_eq, not_false_eq_true, and_self, if_true, hmask,
      BitVec.getLsbD_or, Bits.getLsbD_one_shl]
    congr 1
    by_cases hk : k = j.val
    · have hlt : k < 32 := by omega
      simp [hk, Ne.symm hself, hk ▸ hlt]
    · simp [hk, Ne.symm hk]

theorem sgiPends_pop (g : Vgic) (c' : Int) (c : Int) (k : Nat) :
    sgiPends (vgicPopSgi c' g).2 c k =
      (sgiPends g c k && !decide (c' = c ∧ (vgicPopSgi c' g).1 = some k)) := by
  rcases vgicPopSgi_cases c' g with hpop | ⟨b, -, hpop⟩
  · rw [hpop]
    simp
  · rw [hpop]
    change sgiPends (g.clearSgi c' b) c k = _
    rw [sgiPends_clearSgi]
    simp [eq_comm]

/-- One call does to the sets what its event says. -/
theorem sgiPends_apply (g : Vgic) (op : SgiOp) {c : Int} (hc : InSgiRange c) (k : Nat) :
    sgiPends (op.apply g) c k = ((op.event g).act c k).getD (sgiPends g c k) := by
  cases op with
  | post self j =>
    rw [SgiOp.apply, sgiPends_post g self j hc k, SgiOp.event, SgiEvent.act]
    split_ifs with h <;> simp [h]
  | pop c' =>
    rw [SgiOp.apply, sgiPends_pop, SgiOp.event, SgiEvent.act]
    split_ifs with h
    · rw [decide_eq_true h]
      simp
    · rw [decide_eq_false h]
      simp

/-- After a run that starts at `vgic_reset`, the sets are what the history
says. -/
theorem pending_iff_outstanding (g : Vgic) (ops : List SgiOp) {c : Int} (hc : InSgiRange c)
    (k : Nat) : sgiPends (sgiRun (vgicReset g) ops) c k = true ↔
      Outstanding (sgiHistory (vgicReset g) ops) c k := by
  have hreset : sgiPends (vgicReset g) c k = false := by
    obtain ⟨hlo, hhi⟩ := hc
    simp [sgiPends, vgicReset, hlo, hhi]
  rw [outstanding_iff, sgiRun, flag_run SgiOp.apply SgiOp.event (SgiEvent.act c k)
    (fun g => sgiPends g c k) (fun pre op post _ => sgiPends_apply _ op hc k), hreset, sgiHistory]
  cases lastAct (SgiEvent.act c k) (history SgiOp.apply SgiOp.event (vgicReset g) ops) <;> simp

/-! ## 3. Pops in a row -/

/-- The answers of `n` pops for `c` in a row. -/
def pops (c : Int) : Nat → Vgic → List (Option Nat)
  | 0, _ => []
  | n + 1, g => (vgicPopSgi c g).1 :: pops c n (vgicPopSgi c g).2

/-- Clearing the first pending SGI leaves the others. -/
theorem pendingSgis_clearSgi {g : Vgic} {c : Int} {k : Nat} {ks : List Nat}
    (h : pendingSgis g c = k :: ks) : pendingSgis (g.clearSgi c k) c = ks := by
  have hfilter : pendingSgis (g.clearSgi c k) c = (pendingSgis g c).filter (· ≠ k) := by
    rw [pendingSgis, pendingSgis, List.filter_filter]
    congr 1
    funext j
    rw [sgiPends_clearSgi, Bool.and_comm]
    simp
  have hsorted := pendingSgis_sorted g c
  rw [h] at hfilter hsorted
  have hrest : ∀ j ∈ ks, k < j := (List.pairwise_cons.mp hsorted).1
  rw [hfilter, List.filter_cons_of_neg (by simp), List.filter_eq_self]
  intro j hj
  have hlt := hrest j hj
  simpa using Nat.ne_of_gt hlt

/-- Pops in a row return the pending SGIs in increasing order, then nothing. -/
theorem pops_eq {c : Int} (hc : InSgiRange c) (n : Nat) (g : Vgic) :
    pops c n g = ((pendingSgis g c).map some ++ List.replicate n none).take n := by
  induction n generalizing g with
  | zero => rfl
  | succ n ih =>
    rw [pops, ih, vgicPopSgi_eq g hc]
    cases hpend : pendingSgis g c with
    | nil =>
      simp only [List.head?_nil, Option.elim_none, hpend, List.map_nil, List.nil_append]
      simp [List.replicate_succ]
    | cons k ks =>
      have hpad : (ks.map some ++ List.replicate (n + 1) none).take n =
          (ks.map some ++ List.replicate n none).take n := by
        rw [List.replicate_succ', ← List.append_assoc]
        exact List.take_append_of_le_length (by simp)
      simp only [List.head?_cons, Option.elim_some, pendingSgis_clearSgi hpend, List.map_cons,
        List.cons_append, List.take_succ_cons, hpad]

/-! ## 4. Whole runs -/

/-- The pending sets over a run from `g`. -/
structure SgiSetLaw (g : Vgic) (ops : List SgiOp) : Prop where
  /-- A pop returns the least SGI that another vCPU has posted since it was last
  popped. -/
  least : ∀ c k, (vgicPopSgi c (sgiRun g ops)).1 = some k ↔
    InSgiRange c ∧ Outstanding (sgiHistory g ops) c k ∧
      ∀ j < k, ¬ Outstanding (sgiHistory g ops) c j
  empty : ∀ c, (vgicPopSgi c (sgiRun g ops)).1 = none ↔
    ¬ InSgiRange c ∨ ∀ k, ¬ Outstanding (sgiHistory g ops) c k
  /-- Between two pops that return `k` to `c`, another vCPU has posted `k`. -/
  once : ∀ (pre mid post : List SgiEvent) (c : Int) (k : Nat), sgiHistory g ops =
      pre ++ .popped c (some k) :: (mid ++ .popped c (some k) :: post) →
    ∃ (self : Fin 4) (j : Fin 16), .posted self j ∈ mid ∧ (self.val : Int) ≠ c ∧ j.val = k
  /-- What a pop returns to `c` was posted before by a vCPU other than `c`. -/
  sender : ∀ (pre post : List SgiEvent) (c : Int) (k : Nat),
    sgiHistory g ops = pre ++ .popped c (some k) :: post →
    ∃ (self : Fin 4) (j : Fin 16), .posted self j ∈ pre ∧ (self.val : Int) ≠ c ∧ j.val = k
  others : ∀ c c', c' ≠ c →
    (vgicPopSgi c (sgiRun g ops)).2.sgiPending c' = (sgiRun g ops).sgiPending c'
  /-- Pops in a row drain the set in increasing order and then return nothing. -/
  drain : ∀ c, InSgiRange c → ∃ ks : List Nat, ks.Pairwise (· < ·) ∧
    (∀ k, k ∈ ks ↔ Outstanding (sgiHistory g ops) c k) ∧
    ∀ n, pops c n (sgiRun g ops) = (ks.map some ++ List.replicate n none).take n

theorem Outstanding.posted {es : List SgiEvent} {c : Int} {k : Nat} (h : Outstanding es c k) :
    ∃ self j, .posted self j ∈ es ∧ (self.val : Int) ≠ c ∧ j.val = k := by
  obtain ⟨pre, self, j, post, rfl, hself, hj, -⟩ := h
  exact ⟨self, j, by simp, hself, hj⟩

/-- An SGI that is outstanding after it was popped has been posted since. -/
theorem Outstanding.of_popped {pre mid : List SgiEvent} {c : Int} {k : Nat}
    (h : Outstanding (pre ++ .popped c (some k) :: mid) c k) : Outstanding mid c k := by
  rw [outstanding_iff] at h ⊢
  have hclear : lastAct (SgiEvent.act c k) (pre ++ [.popped c (some k)]) = some false := by
    rw [lastAct_concat, SgiEvent.act_eq_false_iff.mpr rfl, Option.some_or]
  -- the pop is the last action before `mid`, so the flag was set again in `mid`
  rw [← List.singleton_append, ← List.append_assoc, lastAct_append, hclear] at h
  cases hmid : lastAct (SgiEvent.act c k) mid with
  | none =>
    rw [hmid] at h
    cases h
  | some b =>
    rw [hmid] at h
    exact h

section Runs

variable (g : Vgic) (ops : List SgiOp)

theorem popSgi_run_some_iff (c : Int) (k : Nat) :
    (vgicPopSgi c (sgiRun (vgicReset g) ops)).1 = some k ↔
      InSgiRange c ∧ Outstanding (sgiHistory (vgicReset g) ops) c k ∧
        ∀ j < k, ¬ Outstanding (sgiHistory (vgicReset g) ops) c j := by
  rw [popSgi_eq_some_iff]
  refine and_congr_right fun hc => ?_
  simp only [← pending_iff_outstanding g ops hc, Bool.not_eq_true]
  exact and_congr_left fun _ =>
    ⟨fun h => h.2, fun h => ⟨((pending_iff_outstanding g ops hc k).mp h).lt, h⟩⟩

/-- What is returned by a pop of the history was outstanding then. -/
theorem outstanding_of_popped {pre post : List SgiEvent} {c : Int} {k : Nat}
    (h : sgiHistory (vgicReset g) ops = pre ++ .popped c (some k) :: post) :
    Outstanding pre c k := by
  obtain ⟨ops₁, op, ops₂, -, rfl, he⟩ := history_split h
  cases op with
  | post self j => cases he
  | pop c' =>
    obtain ⟨rfl, hpop⟩ := SgiEvent.popped.inj he
    exact ((popSgi_run_some_iff g ops₁ c k).mp hpop.symm).2.1

/-- The law of the pending sets, for every run that starts at `vgic_reset`. -/
theorem sgi_set_law : SgiSetLaw (vgicReset g) ops where
  least := popSgi_run_some_iff g ops
  empty := by
    intro c
    rw [popSgi_eq_none_iff]
    by_cases hc : InSgiRange c
    · simp only [← pending_iff_outstanding g ops hc, hc, not_true, false_or, Bool.not_eq_true]
      refine ⟨fun h k => ?_, fun h k _ => h k⟩
      -- nothing from 16 on is ever posted
      by_cases hk : k < 16
      · exact h k hk
      · refine Bool.eq_false_iff.mpr fun hpend => hk ?_
        exact ((pending_iff_outstanding g ops hc k).mp hpend).lt
    · simp [hc]
  once := by
    intro pre mid post c k heq
    have hsecond : sgiHistory (vgicReset g) ops =
        (pre ++ .popped c (some k) :: mid) ++ .popped c (some k) :: post := by
      rw [heq]
      simp
    exact (outstanding_of_popped g ops hsecond).of_popped.posted
  sender := fun pre post c k heq => (outstanding_of_popped g ops heq).posted
  others := fun c c' hne => popSgi_of_ne _ hne
  drain := by
    intro c hc
    refine ⟨_, pendingSgis_sorted _ c, fun k => ?_, fun n => pops_eq hc n _⟩
    rw [mem_pendingSgis, pending_iff_outstanding g ops hc k]
    exact ⟨fun h => h.2, fun h => ⟨h.lt, h⟩⟩

end Runs

end FermiHV
