import Mathlib

/-!
# Non-interference of clients of one machine

Several clients act on one deterministic machine; each action returns an
output to its client. A client `b` is undisturbed when its outputs are those of
the run in which only `b` acts. `undisturbed_of_unwinding` reduces this to one
step: a relation `R` between the states of the two runs that an action of
another client keeps, and under which an action of `b` returns the same output
and keeps `R`. The step may assume a condition on actions; in
`undisturbed_along` the condition may also speak of the state acted on.
-/

namespace Interference

universe u v w x

variable {S : Type u} {A : Type v} {O : Type w} {D : Type x} [DecidableEq D]

/-- A machine with clients: the effect, the output and the client of an
action. -/
structure Machine (S : Type u) (A : Type v) (O : Type w) (D : Type x) where
  step : S → A → S
  out : S → A → O
  dom : A → D

namespace Machine

/-- The state after a list of actions. -/
def run (M : Machine S A O D) (s : S) (as : List A) : S := as.foldl M.step s

/-- What client `b` is told during a run. -/
def outputs (M : Machine S A O D) (b : D) : S → List A → List O
  | _, [] => []
  | s, a :: as =>
    if M.dom a = b then M.out s a :: M.outputs b (M.step s a) as
    else M.outputs b (M.step s a) as

/-- The actions of client `b` alone. -/
def own (M : Machine S A O D) (b : D) (as : List A) : List A := as.filter fun a => M.dom a = b

variable {M : Machine S A O D}

/-- Every action of a run meets `C` in the state it acts on. -/
def Along (M : Machine S A O D) (C : S → A → Prop) : S → List A → Prop
  | _, [] => True
  | s, a :: as => C s a ∧ M.Along C (M.step s a) as

instance decidableAlong (M : Machine S A O D) (C : S → A → Prop) [∀ s a, Decidable (C s a)] :
    ∀ s as, Decidable (M.Along C s as)
  | _, [] => .isTrue trivial
  | s, a :: as =>
    haveI := M.decidableAlong C (M.step s a) as
    inferInstanceAs (Decidable (C s a ∧ M.Along C (M.step s a) as))

omit [DecidableEq D] in
theorem along_of_forall {C : A → Prop} {as : List A} (h : ∀ a ∈ as, C a) (s : S) :
    M.Along (fun _ => C) s as := by
  induction as generalizing s with
  | nil => trivial
  | cons a as ih =>
    exact ⟨h a List.mem_cons_self, ih (fun x hx => h x (List.mem_cons_of_mem _ hx)) _⟩

theorem undisturbed_along {b : D} {C : S → A → Prop} {R : S → S → Prop}
    (hother : ∀ s t a, M.dom a ≠ b → C s a → R s t → R (M.step s a) t)
    (hstep : ∀ s t a, M.dom a = b → C s a → R s t → R (M.step s a) (M.step t a))
    (hout : ∀ s t a, M.dom a = b → C s a → R s t → M.out s a = M.out t a)
    {as : List A} {s t : S} (hC : M.Along C s as) (h : R s t) :
    M.outputs b s as = M.outputs b t (M.own b as) ∧ R (M.run s as) (M.run t (M.own b as)) := by
  induction as generalizing s t with
  | nil => exact ⟨rfl, h⟩
  | cons a as ih =>
    obtain ⟨hCa, hCs⟩ := hC
    by_cases hd : M.dom a = b
    · have hown : M.own b (a :: as) = a :: M.own b as := by simp [own, hd]
      obtain ⟨houts, hrun⟩ := ih hCs (hstep s t a hd hCa h)
      rw [hown]
      refine ⟨?_, hrun⟩
      simp only [outputs, hd, if_true, hout s t a hd hCa h, houts]
    · have hown : M.own b (a :: as) = M.own b as := by simp [own, hd]
      obtain ⟨houts, hrun⟩ := ih hCs (hother s t a hd hCa h)
      rw [hown]
      refine ⟨?_, hrun⟩
      simp only [outputs, hd, if_false, houts]

theorem undisturbed_of_unwinding {b : D} {C : A → Prop} {R : S → S → Prop}
    (hother : ∀ s t a, M.dom a ≠ b → C a → R s t → R (M.step s a) t)
    (hstep : ∀ s t a, M.dom a = b → C a → R s t → R (M.step s a) (M.step t a))
    (hout : ∀ s t a, M.dom a = b → C a → R s t → M.out s a = M.out t a)
    {as : List A} (hC : ∀ a ∈ as, C a) {s t : S} (h : R s t) :
    M.outputs b s as = M.outputs b t (M.own b as) ∧ R (M.run s as) (M.run t (M.own b as)) :=
  undisturbed_along hother hstep hout (along_of_forall hC s) h

end Machine

end Interference
