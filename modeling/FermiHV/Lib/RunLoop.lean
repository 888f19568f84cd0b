import Mathlib

/-!
# Loops driven by outside events

Two shapes of loop.

* `Loop`: a loop whose body consumes one outside event per pass and may leave
  through a `break`. `iters` lists the passes that are executed on a list of
  events, `after` is the state at the loop head once the events are consumed,
  `due` is that state if another pass begins in it, and `reached` lists every
  state the run goes through.
* `whileLoop`: a closed `while` loop with a measure. `whileLoop_eq_iterate`
  gives the number of passes when each of them decreases the measure by one.

The rules: `reached_of_invariant`, `iters_of_invariant` and `after_of_invariant` (an
invariant kept by every pass), `iters_of_history` (the same with the passes so far),
`after_or_stopped` (a property kept until a pass of a kind),
`reached_iff` (a state property holds throughout a run exactly when every pass
meets a condition), `neverAgain_iff` (no pass begins after one of a kind that keeps
its subject).
-/

namespace RunLoop

universe u v

/-- How one pass of a loop body ends. -/
inductive Flow (S : Type u)
  | next (s : S)
  | brk (s : S)

/-- The state one pass leaves, whichever way it ends. -/
def Flow.state {S : Type u} : Flow S → S
  | .next s => s
  | .brk s => s

def Flow.map {S : Type u} {T : Type v} (f : S → T) : Flow S → Flow T
  | .next s => .next (f s)
  | .brk s => .brk (f s)

theorem Flow.state_map {S : Type u} {T : Type v} (f : S → T) (r : Flow S) :
    (r.map f).state = f r.state := by
  cases r <;> rfl

/-- A loop: the test at its head and the body for one event. -/
structure Loop (S : Type u) (I : Type v) where
  cond : S → Bool
  body : I → S → Flow S

variable {S : Type u} {I : Type v}

namespace Loop

/-- The executed passes, each with the state at its head and its event. -/
def iters (L : Loop S I) : S → List I → List (S × I)
  | _, [] => []
  | s, i :: is =>
    if L.cond s then
      (s, i) :: (match L.body i s with
        | .next s' => L.iters s' is
        | .brk _ => [])
    else []

/-- The state at the loop head after the events, if the loop is still running. -/
def after (L : Loop S I) : S → List I → Option S
  | s, [] => some s
  | s, i :: is =>
    if L.cond s then
      match L.body i s with
      | .next s' => L.after s' is
      | .brk _ => none
    else none

/-- Every state the run goes through, the one a `break` leaves included. -/
def reached (L : Loop S I) : S → List I → List S
  | s, [] => [s]
  | s, i :: is =>
    if L.cond s then
      s :: (match L.body i s with
        | .next s' => L.reached s' is
        | .brk s' => [s'])
    else [s]

variable {L : Loop S I}

theorem iters_cons_next {s s' : S} {i : I} {is : List I} (hc : L.cond s = true)
    (hb : L.body i s = .next s') : L.iters s (i :: is) = (s, i) :: L.iters s' is := by
  simp only [iters, hc, if_true, hb]

theorem iters_cons_brk {s s' : S} {i : I} {is : List I} (hc : L.cond s = true)
    (hb : L.body i s = .brk s') : L.iters s (i :: is) = [(s, i)] := by
  simp only [iters, hc, if_true, hb]

theorem iters_of_not_cond {s : S} {is : List I} (hc : L.cond s = false) : L.iters s is = [] := by
  cases is with
  | nil => rfl
  | cons i is => simp [iters, hc]

/-- The first executed pass, and what its end leaves for the others. -/
theorem iters_eq_cons {s : S} {is : List I} {p : S × I} {rest : List (S × I)}
    (h : L.iters s is = p :: rest) : ∃ i is', is = i :: is' ∧ p = (s, i) ∧
      ((∃ s', L.body i s = .next s' ∧ rest = L.iters s' is') ∨
        ((∃ s', L.body i s = .brk s') ∧ rest = [])) := by
  cases is with
  | nil => simp [iters] at h
  | cons i is =>
    refine ⟨i, is, rfl, ?_⟩
    cases hc : L.cond s with
    | false => simp [iters_of_not_cond hc] at h
    | true =>
      cases hb : L.body i s with
      | next s' =>
        rw [iters_cons_next hc hb, List.cons.injEq] at h
        exact ⟨h.1.symm, .inl ⟨s', rfl, h.2.symm⟩⟩
      | brk s' =>
        rw [iters_cons_brk hc hb, List.cons.injEq] at h
        exact ⟨h.1.symm, .inr ⟨⟨s', rfl⟩, h.2.symm⟩⟩

theorem head_state_of_iters {s : S} {is : List I} {p : S × I} {rest : List (S × I)}
    (h : L.iters s is = p :: rest) : p.1 = s := by
  obtain ⟨i, is', -, rfl, -⟩ := iters_eq_cons h
  rfl

/-- A property that a pass keeps unless it meets `stop` holds after the events, or
some pass met `stop`. -/
theorem after_or_stopped {P : S → Prop} {stop : I → S → Prop}
    (hstep : ∀ i s s', P s → L.body i s = .next s' → P s' ∨ stop i s)
    {s s' : S} {is : List I} (hs : P s) (hafter : L.after s is = some s') :
    P s' ∨ ∃ p ∈ L.iters s is, stop p.2 p.1 := by
  induction is generalizing s with
  | nil =>
    cases hafter
    exact .inl hs
  | cons i is ih =>
    cases hc : L.cond s with
    | false => simp [after, hc] at hafter
    | true =>
      cases hb : L.body i s with
      | brk s1 => simp [after, hc, hb] at hafter
      | next s1 =>
        simp only [after, hc, if_true, hb] at hafter
        rw [iters_cons_next hc hb]
        rcases hstep i s s1 hs hb with h1 | hstop
        · rcases ih h1 hafter with hP | ⟨p, hp, hstop⟩
          · exact .inl hP
          · exact .inr ⟨p, List.mem_cons_of_mem _ hp, hstop⟩
        · exact .inr ⟨(s, i), List.mem_cons_self, hstop⟩

/-- The state after the events has every property that each pass keeps. -/
theorem after_of_invariant {P : S → Prop}
    (hstep : ∀ i s s', P s → L.body i s = .next s' → P s')
    {s s' : S} {is : List I} (hs : P s) (hafter : L.after s is = some s') : P s' := by
  have hkept : P s' ∨ ∃ p ∈ L.iters s is, False :=
    @after_or_stopped S I L P (fun _ _ => False)
      (fun i s s' h hb => .inl (hstep i s s' h hb)) s s' is hs hafter
  rcases hkept with h | ⟨_, _, h⟩
  · exact h
  · exact h.elim

/-- A single event leads on only through `next`. -/
theorem body_of_after_singleton {s s' : S} {i : I} (h : L.after s [i] = some s') :
    L.body i s = .next s' := by
  cases hc : L.cond s with
  | false => simp [after, hc] at h
  | true =>
    cases hb : L.body i s with
    | brk s1 => simp [after, hc, hb] at h
    | next s1 =>
      simp only [after, hc, if_true, hb, Option.some.injEq] at h
      rw [h]

theorem event_mem_of_iters {s : S} {is : List I} {p : S × I} (h : p ∈ L.iters s is) :
    p.2 ∈ is := by
  induction is generalizing s with
  | nil => simp [iters] at h
  | cons i is ih =>
    cases hc : L.cond s with
    | false => rw [iters_of_not_cond hc] at h; exact absurd h List.not_mem_nil
    | true =>
      cases hb : L.body i s with
      | next s' =>
        rw [iters_cons_next hc hb] at h
        rcases List.mem_cons.mp h with rfl | h
        · exact List.mem_cons_self
        · exact List.mem_cons_of_mem _ (ih h)
      | brk s' =>
        rw [iters_cons_brk hc hb, List.mem_singleton] at h
        subst h
        exact List.mem_cons_self

/-- A run meets `P` throughout when `P` holds at the start and each executed
pass that meets the condition `C` keeps it. -/
theorem reached_of_invariant {P : S → Prop} {C : I → S → Prop}
    (hstep : ∀ s i, P s → L.cond s = true → C i s → P (L.body i s).state) {s : S} {is : List I}
    (h0 : P s) (hC : ∀ p ∈ L.iters s is, C p.2 p.1) : ∀ t ∈ L.reached s is, P t := by
  induction is generalizing s with
  | nil => simpa [reached] using h0
  | cons i is ih =>
    cases hc : L.cond s with
    | false => simpa [reached, hc] using h0
    | true =>
      have hP := hstep s i h0 hc
      cases hb : L.body i s with
      | next s' =>
        rw [hb] at hP
        rw [iters_cons_next hc hb] at hC
        intro t ht
        simp only [reached, hc, if_true, hb, List.mem_cons] at ht
        rcases ht with rfl | ht
        · exact h0
        · exact ih (hP (hC _ List.mem_cons_self))
            (fun p hp => hC p (List.mem_cons_of_mem _ hp)) t ht
      | brk s' =>
        rw [hb] at hP
        rw [iters_cons_brk hc hb] at hC
        intro t ht
        simp only [reached, hc, if_true, hb, List.mem_cons, List.not_mem_nil, or_false] at ht
        rcases ht with rfl | rfl
        · exact h0
        · exact hP (hC _ List.mem_cons_self)

theorem head_mem_reached (L : Loop S I) (s : S) (is : List I) : s ∈ L.reached s is := by
  cases is with
  | nil => simp [reached]
  | cons i is =>
    cases hc : L.cond s with
    | false => simp [reached, hc]
    | true => simp [reached, hc]

/-- Every pass begins in a state with a property that each executed pass keeps. -/
theorem iters_of_invariant {P : S → Prop} {C : I → S → Prop}
    (hstep : ∀ s i s', P s → C i s → L.body i s = .next s' → P s') {s : S} {is : List I}
    (h0 : P s) (hC : ∀ p ∈ L.iters s is, C p.2 p.1) : ∀ p ∈ L.iters s is, P p.1 := by
  induction is generalizing s with
  | nil => intro p hp; simp [iters] at hp
  | cons i is ih =>
    cases hc : L.cond s with
    | false => intro p hp; rw [iters_of_not_cond hc] at hp; exact absurd hp List.not_mem_nil
    | true =>
      cases hb : L.body i s with
      | next s' =>
        rw [iters_cons_next hc hb] at hC ⊢
        have hP := hstep s i s' h0 (hC _ List.mem_cons_self) hb
        intro p hp
        rcases List.mem_cons.mp hp with rfl | hp
        · exact h0
        · exact ih hP (fun q hq => hC q (List.mem_cons_of_mem _ hq)) p hp
      | brk s' =>
        rw [iters_cons_brk hc hb]
        intro p hp
        rw [List.mem_singleton.mp hp]
        exact h0

/-- A pass begins where the one before it went on. -/
theorem next_state_of_iters {s : S} {is : List I} {pre post : List (S × I)} {p q : S × I} {s' : S}
    (hiters : L.iters s is = pre ++ p :: q :: post) (hb : L.body p.2 p.1 = .next s') :
    q.1 = s' := by
  induction pre generalizing s is with
  | nil =>
    obtain ⟨i, is', -, rfl, ⟨t, hnext, hrest⟩ | ⟨-, hrest⟩⟩ := iters_eq_cons hiters
    · have ht : Flow.next t = Flow.next s' := hnext.symm.trans hb
      cases ht
      exact head_state_of_iters hrest.symm
    · cases hrest
  | cons r pre ih =>
    obtain ⟨i, is', -, -, ⟨t, -, hrest⟩ | ⟨-, hrest⟩⟩ := iters_eq_cons hiters
    · exact ih hrest.symm
    · simp at hrest

/-- A pass that is followed by another one went on. -/
theorem goes_on_of_iters {s : S} {is : List I} {pre post : List (S × I)} {p q : S × I}
    (hiters : L.iters s is = pre ++ q :: post) (hp : p ∈ pre) :
    ∃ s', L.body p.2 p.1 = .next s' := by
  induction pre generalizing s is with
  | nil => exact absurd hp List.not_mem_nil
  | cons r pre ih =>
    obtain ⟨i, is', -, rfl, ⟨t, hnext, hrest⟩ | ⟨-, hrest⟩⟩ := iters_eq_cons hiters
    · rcases List.mem_cons.mp hp with rfl | hp
      · exact ⟨t, hnext⟩
      · exact ih hrest.symm hp
    · simp at hrest

/-- A relation between the passes so far and the state at the loop head holds at
the head of every pass when each pass that goes on keeps it. -/
theorem iters_of_history {H : List (S × I) → S → Prop}
    (hstep : ∀ pre s i s', H pre s → L.body i s = .next s' → H (pre ++ [(s, i)]) s')
    {s : S} {is : List I} {done : List (S × I)} (h0 : H done s) {pre post : List (S × I)}
    {p : S × I}
    (hiters : L.iters s is = pre ++ p :: post) : H (done ++ pre) p.1 := by
  induction pre generalizing s is done with
  | nil =>
    rw [head_state_of_iters hiters, List.append_nil]
    exact h0
  | cons q pre ih =>
    obtain ⟨i, is', -, rfl, ⟨t, hnext, hrest⟩ | ⟨-, hrest⟩⟩ := iters_eq_cons hiters
    · have htail := ih (hstep done s i t h0 hnext) hrest.symm
      rwa [List.append_assoc, List.singleton_append] at htail
    · simp at hrest

/-- A state property `P` holds throughout a run exactly when every executed
pass meets `C`, provided that a pass from a state with `P` keeps `P` exactly
when it meets `C`. -/
theorem reached_iff {P : S → Prop} {C : I → S → Prop}
    (hstep : ∀ s i, P s → L.cond s = true → (P (L.body i s).state ↔ C i s)) {s : S} {is : List I}
    (h0 : P s) : (∀ t ∈ L.reached s is, P t) ↔ ∀ p ∈ L.iters s is, C p.2 p.1 := by
  refine ⟨fun hall => ?_, fun hC =>
    reached_of_invariant (fun s i hs hc hCi => (hstep s i hs hc).mpr hCi) h0 hC⟩
  induction is generalizing s with
  | nil => intro p hp; simp [iters] at hp
  | cons i is ih =>
    cases hc : L.cond s with
    | false => intro p hp; rw [iters_of_not_cond hc] at hp; exact absurd hp List.not_mem_nil
    | true =>
      have hiff := hstep s i h0 hc
      cases hb : L.body i s with
      | next s' =>
        rw [hb] at hiff
        simp only [reached, hc, if_true, hb, List.mem_cons, forall_eq_or_imp] at hall
        have hP' : P s' := hall.2 s' (head_mem_reached L s' is)
        intro p hp
        rw [iters_cons_next hc hb] at hp
        rcases List.mem_cons.mp hp with rfl | hp
        · exact hiff.mp hP'
        · exact ih hP' hall.2 p hp
      | brk s' =>
        rw [hb] at hiff
        simp only [reached, hc, if_true, hb, List.mem_cons, List.not_mem_nil, or_false,
          forall_eq_or_imp, forall_eq] at hall
        intro p hp
        rw [iters_cons_brk hc hb, List.mem_singleton] at hp
        subst hp
        exact hiff.mp hall.2

/-- The state in which another pass begins once the events are consumed. -/
def due (L : Loop S I) (s : S) (is : List I) : Option S := (L.after s is).filter L.cond

/-- The states in which passes begin, the one that is due included. -/
def heads (L : Loop S I) (s : S) (is : List I) : List S :=
  (L.iters s is).map Prod.fst ++ (L.due s is).toList

theorem cond_of_mem_iters {s : S} {is : List I} {p : S × I} (hp : p ∈ L.iters s is) :
    L.cond p.1 = true := by
  induction is generalizing s with
  | nil => exact absurd hp List.not_mem_nil
  | cons i is ih =>
    cases hc : L.cond s with
    | false => rw [iters_of_not_cond hc] at hp; exact absurd hp List.not_mem_nil
    | true =>
      cases hb : L.body i s with
      | next s' =>
        rw [iters_cons_next hc hb] at hp
        rcases List.mem_cons.mp hp with rfl | hp
        · exact hc
        · exact ih hp
      | brk s' =>
        rw [iters_cons_brk hc hb, List.mem_singleton] at hp
        rw [hp]
        exact hc

/-- When the test succeeds, a pass begins in the state. -/
theorem mem_heads_of_cond {s : S} (hc : L.cond s = true) (is : List I) : s ∈ L.heads s is := by
  cases is with
  | nil => simp [heads, iters, due, after, hc]
  | cons i is => cases hb : L.body i s <;> simp [heads, iters, hc, hb]

theorem heads_of_not_cond {s : S} (hc : L.cond s = false) (is : List I) : L.heads s is = [] := by
  cases is <;> simp [heads, iters, due, after, hc]

/-- What follows a pass that goes on is the run from where it went. -/
theorem rest_of_iters {s s' : S} {is : List I} {pre post : List (S × I)} {p : S × I}
    (hiters : L.iters s is = pre ++ p :: post) (hb : L.body p.2 p.1 = .next s') :
    ∃ is', post = L.iters s' is' ∧ L.due s is = L.due s' is' := by
  induction pre generalizing s is with
  | nil =>
    obtain ⟨i, is', rfl, rfl, ⟨t, hnext, hrest⟩ | ⟨⟨t, hbrk⟩, -⟩⟩ := iters_eq_cons hiters
    · have hfirst : (s, i) ∈ L.iters s (i :: is') := by rw [hiters]; simp
      have hc : L.cond s = true := cond_of_mem_iters hfirst
      have ht : Flow.next t = Flow.next s' := hnext.symm.trans hb
      cases ht
      exact ⟨is', hrest, by simp only [due, after, hc, if_true, hnext]⟩
    · cases hbrk.symm.trans hb
  | cons q pre ih =>
    obtain ⟨i, is', rfl, rfl, ⟨t, hnext, hrest⟩ | ⟨-, hrest⟩⟩ := iters_eq_cons hiters
    · have hfirst : (s, i) ∈ L.iters s (i :: is') := by rw [hiters]; simp
      have hc : L.cond s = true := cond_of_mem_iters hfirst
      obtain ⟨is'', hpost, hdue⟩ := ih hrest.symm
      refine ⟨is'', hpost, ?_⟩
      rw [← hdue]
      simp only [due, after, hc, if_true, hnext]
    · simp at hrest

/-- No pass begins with the subject of an earlier pass of the kind `K`. -/
def NeverAgain {A : Type*} (L : Loop S I) (who : S → A) (K : I → S → Prop) (s : S)
    (is : List I) : Prop :=
  ∀ pre p post, L.iters s is = pre ++ p :: post → K p.2 p.1 →
    ∀ t ∈ post.map Prod.fst ++ (L.due s is).toList, who t ≠ who p.1

/-- Suppose a pass of the kind `K` goes on to the loop head with its subject, and the
test fails there exactly after a `last` pass. Then no pass begins with the subject of
an earlier pass of that kind exactly when all of that kind are last ones. -/
theorem neverAgain_iff {A : Type*} {who : S → A} {K : I → S → Prop} {last : S → Bool}
    (hkeep : ∀ s i, L.cond s = true → K i s →
      ∃ s', L.body i s = .next s' ∧ who s' = who s ∧ L.cond s' = !last s) (s : S) (is : List I) :
    L.NeverAgain who K s is ↔ ∀ p ∈ L.iters s is, K p.2 p.1 → last p.1 = true := by
  constructor
  · intro hnever p hp hK
    obtain ⟨pre, post, hiters⟩ := List.append_of_mem hp
    obtain ⟨s', hb, hwho, hcond⟩ := hkeep p.1 p.2 (cond_of_mem_iters hp) hK
    obtain ⟨is', rfl, hdue⟩ := rest_of_iters hiters hb
    have hlater := hnever pre p _ hiters hK
    rw [hdue] at hlater
    by_contra hlast
    rw [Bool.not_eq_true] at hlast
    rw [hlast] at hcond
    exact hlater s' (mem_heads_of_cond hcond is') hwho
  · intro hall pre p post hiters hK t ht
    have hp : p ∈ L.iters s is := by rw [hiters]; simp
    obtain ⟨s', hb, -, hcond⟩ := hkeep p.1 p.2 (cond_of_mem_iters hp) hK
    obtain ⟨is', rfl, hdue⟩ := rest_of_iters hiters hb
    have hnone := heads_of_not_cond (by rw [hcond, hall p hp hK]; rfl) is'
    rw [hdue] at ht
    change t ∈ L.heads s' is' at ht
    rw [hnone] at ht
    exact absurd ht List.not_mem_nil

end Loop

/-! ## Closed loops -/

/-- A `while` loop whose passes decrease a measure. -/
def whileLoop (cond : S → Bool) (body : S → S) (μ : S → Nat)
    (hdec : ∀ s, cond s = true → μ (body s) < μ s) (s : S) : S :=
  if _h : cond s = true then whileLoop cond body μ hdec (body s) else s
termination_by μ s
decreasing_by exact hdec s _h

/-- When the test says that the measure is positive and each pass decreases it
by one, the loop runs exactly that many passes. -/
theorem whileLoop_eq_iterate {cond : S → Bool} {body : S → S} {μ : S → Nat}
    {hdec : ∀ s, cond s = true → μ (body s) < μ s} (hcond : ∀ s, cond s = true ↔ μ s ≠ 0)
    (hbody : ∀ s, μ s ≠ 0 → μ (body s) + 1 = μ s) (s : S) :
    whileLoop cond body μ hdec s = body^[μ s] s := by
  generalize hn : μ s = n
  induction n generalizing s with
  | zero =>
    have hc : cond s ≠ true := fun h => (hcond s).mp h hn
    rw [whileLoop, dif_neg hc, Function.iterate_zero_apply]
  | succ n ih =>
    have hc : cond s = true := (hcond s).mpr (by omega)
    have hs := hbody s (by omega)
    rw [whileLoop, dif_pos hc, ih (body s) (by omega), Function.iterate_succ_apply]

end RunLoop
