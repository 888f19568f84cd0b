import Mathlib

/-!
# Flags set and cleared by a history of events

Some events set a flag of a machine, some clear it and the others leave it
alone: `act` says which, with `some true` for an event that sets it. What an
event is may depend on the state it happens in (the answer of an operation is
part of it), so the history of a run is collected along the run.

1. `lastAct_eq_some_iff`, `lastAct_eq_true_iff`: what the last event that acts
   on the flag does to it, as a split of the history.
2. `flag_run`: if one step does to the flag what its event says, then after a
   run the flag is what the last event of the run made of it.
-/

namespace FlagHistory

universe u v w

variable {S : Type u} {A : Type v} {E : Type w}

/-! ## 1. The last event that acts -/

/-- What the last event that acts on the flag does to it. -/
def lastAct (act : E → Option Bool) (es : List E) : Option Bool := es.reverse.findSome? act

variable {act : E → Option Bool} {es : List E}

theorem lastAct_append (act : E → Option Bool) (es fs : List E) :
    lastAct act (es ++ fs) = (lastAct act fs).or (lastAct act es) := by
  rw [lastAct, List.reverse_append, List.findSome?_append]
  rfl

theorem lastAct_concat (act : E → Option Bool) (es : List E) (e : E) :
    lastAct act (es ++ [e]) = (act e).or (lastAct act es) := by
  rw [lastAct_append]
  simp [lastAct]

/-- The last event that acts does `b`: some event does, and none after it acts. -/
theorem lastAct_eq_some_iff {b : Bool} : lastAct act es = some b ↔
    ∃ pre e post, es = pre ++ e :: post ∧ act e = some b ∧ ∀ e' ∈ post, act e' = none := by
  rw [lastAct, List.findSome?_eq_some_iff]
  constructor
  · rintro ⟨later, e, earlier, heq, he, hlater⟩
    refine ⟨earlier.reverse, e, later.reverse, ?_, he,
      fun x hx => hlater x (List.mem_reverse.mp hx)⟩
    rw [← List.reverse_reverse es, heq]
    simp
  · rintro ⟨pre, e, post, rfl, he, hpost⟩
    exact ⟨post.reverse, e, pre.reverse, by simp, he, fun x hx => hpost x (List.mem_reverse.mp hx)⟩

/-- The last event that acts sets the flag: some event does, and none after it
clears it. -/
theorem lastAct_eq_true_iff : lastAct act es = some true ↔
    ∃ pre e post, es = pre ++ e :: post ∧ act e = some true ∧ ∀ e' ∈ post, act e' ≠ some false := by
  constructor
  · intro h
    obtain ⟨pre, e, post, heq, he, hpost⟩ := lastAct_eq_some_iff.mp h
    exact ⟨pre, e, post, heq, he, fun x hx => by rw [hpost x hx]; simp⟩
  · rintro ⟨pre, e, post, heq, he, hpost⟩
    induction post using List.reverseRecOn generalizing es with
    | nil => rw [heq, lastAct_concat, he, Option.some_or]
    | append_singleton post x ih =>
      rw [heq, ← List.cons_append, ← List.append_assoc, lastAct_concat]
      cases hx : act x with
      | none => exact ih rfl fun y hy => hpost y (by simp [hy])
      | some b =>
        cases b with
        | true => rfl
        | false => exact absurd hx (hpost x (by simp))

/-! ## 2. Runs -/

variable (step : S → A → S) (event : S → A → E)

/-- The events of a run. -/
def history : S → List A → List E
  | _, [] => []
  | s, a :: as => event s a :: history (step s a) as

variable {step event}

theorem history_append (s : S) (as bs : List A) : history step event s (as ++ bs) =
    history step event s as ++ history step event (as.foldl step s) bs := by
  induction as generalizing s with
  | nil => rfl
  | cons a as ih => exact congrArg (event s a :: ·) (ih (step s a))

theorem history_concat (s : S) (as : List A) (a : A) : history step event s (as ++ [a]) =
    history step event s as ++ [event (as.foldl step s) a] :=
  history_append s as [a]

/-- An event of the history comes from an action of the run, and what precedes
it is the history of the actions before. -/
theorem history_split {s : S} {as : List A} {pre post : List E} {e : E}
    (h : history step event s as = pre ++ e :: post) : ∃ as₁ a as₂, as = as₁ ++ a :: as₂ ∧
      pre = history step event s as₁ ∧ e = event (as₁.foldl step s) a := by
  induction as generalizing s pre with
  | nil => simp [history] at h
  | cons a as ih =>
    cases pre with
    | nil => exact ⟨[], a, as, rfl, rfl, (List.cons.inj h).1.symm⟩
    | cons p pre =>
      obtain ⟨hp, htail⟩ := List.cons.inj h
      obtain ⟨as₁, b, as₂, rfl, rfl, rfl⟩ := ih htail
      exact ⟨a :: as₁, b, as₂, rfl, congrArg (· :: _) hp.symm, rfl⟩

/-- If the actions are the events, the history is the run. -/
theorem history_self (s : S) (as : List A) : history step (fun _ a => a) s as = as := by
  induction as generalizing s with
  | nil => rfl
  | cons a as ih => exact congrArg (a :: ·) (ih (step s a))

/-- After a run in which every step does to the flag what its event says, the
flag is what the last event that acts on it made of it. -/
theorem flag_run (step : S → A → S) (event : S → A → E) (act : E → Option Bool) (flag : S → Bool)
    {s : S} {as : List A}
    (h : ∀ pre a post, as = pre ++ a :: post → flag (step (pre.foldl step s) a) =
      (act (event (pre.foldl step s) a)).getD (flag (pre.foldl step s))) :
    flag (as.foldl step s) = (lastAct act (history step event s as)).getD (flag s) := by
  induction as using List.reverseRecOn with
  | nil => rfl
  | append_singleton as a ih =>
    have hlast := h as a [] rfl
    rw [List.foldl_append, history_concat, lastAct_concat]
    change flag (step (as.foldl step s) a) = _
    rw [hlast, ih fun pre b post heq => h pre b (post ++ [a]) (by rw [heq]; simp)]
    cases act (event (as.foldl step s) a) <;> rfl

end FlagHistory
