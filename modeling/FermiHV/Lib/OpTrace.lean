import FermiHV.Lib.RunLoop

/-!
# Loops whose passes are made of operations

A system offers operations on a state `H`, and several loops work on that state;
each pass of a loop performs a list of operations. A `Driver` is a loop together
with these lists and the proof that they are what its passes do. What is known of
the operations then holds of every run of every driver:

* `run_of_invariant`: an invariant that each operation keeps;
* `total_balance`: a balance, when each operation pays for what it changes.

`Along` and `total` speak of a list of operations with each of them in the state
that it is applied to.
-/

namespace OpTrace

open RunLoop (Flow Loop)

universe u v w x

variable {H : Type u} {O : Type v} {apply : O → H → H}

/-! ## 1. Lists of operations -/

/-- The state after the operations. -/
def run (apply : O → H → H) (ops : List O) (h : H) : H := ops.foldl (fun h o => apply o h) h

/-- Every operation meets `C` in the state it is applied to. -/
def Along (apply : O → H → H) (C : O → H → Prop) : List O → H → Prop
  | [], _ => True
  | o :: ops, h => C o h ∧ Along apply C ops (apply o h)

instance decidableAlong (C : O → H → Prop) [∀ o h, Decidable (C o h)] :
    ∀ ops h, Decidable (Along apply C ops h)
  | [], _ => .isTrue trivial
  | o :: ops, h =>
    haveI := decidableAlong C ops (apply o h)
    inferInstanceAs (Decidable (C o h ∧ Along apply C ops (apply o h)))

/-- The sum of `n` over the operations. -/
def total (apply : O → H → H) (n : O → H → Nat) : List O → H → Nat
  | [], _ => 0
  | o :: ops, h => n o h + total apply n ops (apply o h)

@[simp] theorem run_nil (h : H) : run apply [] h = h := rfl

@[simp] theorem run_cons (o : O) (ops : List O) (h : H) :
    run apply (o :: ops) h = run apply ops (apply o h) := rfl

theorem run_append (ops ops' : List O) (h : H) :
    run apply (ops ++ ops') h = run apply ops' (run apply ops h) := by
  rw [run, List.foldl_append]
  rfl

theorem along_append {C : O → H → Prop} {ops ops' : List O} {h : H} :
    Along apply C (ops ++ ops') h ↔
      Along apply C ops h ∧ Along apply C ops' (run apply ops h) := by
  induction ops generalizing h with
  | nil => exact ⟨fun hall => ⟨trivial, hall⟩, fun hall => hall.2⟩
  | cons o ops ih =>
    rw [List.cons_append, Along, Along, ih, run_cons, and_assoc]

theorem Along.imp {C C' : O → H → Prop} (hC : ∀ o h, C o h → C' o h) {ops : List O} {h : H}
    (hall : Along apply C ops h) : Along apply C' ops h := by
  induction ops generalizing h with
  | nil => trivial
  | cons o ops ih => exact ⟨hC o h hall.1, ih hall.2⟩

theorem along_of_forall {C : O → H → Prop} {ops : List O} (hall : ∀ o ∈ ops, ∀ h, C o h)
    (h : H) : Along apply C ops h := by
  induction ops generalizing h with
  | nil => trivial
  | cons o ops ih =>
    exact ⟨hall o List.mem_cons_self h, ih (fun o ho => hall o (List.mem_cons_of_mem _ ho)) _⟩

theorem Along.and {C C' : O → H → Prop} {ops : List O} {h : H} (hC : Along apply C ops h)
    (hC' : Along apply C' ops h) : Along apply (fun o h => C o h ∧ C' o h) ops h := by
  induction ops generalizing h with
  | nil => trivial
  | cons o ops ih => exact ⟨⟨hC.1, hC'.1⟩, ih hC.2 hC'.2⟩

/-- An invariant that each operation keeps holds after them, and the operations
are applied in states that have it. -/
theorem run_of_invariant {P : H → Prop} {C : O → H → Prop}
    (hstep : ∀ o h, P h → C o h → P (apply o h)) {ops : List O} {h : H} (h0 : P h)
    (hC : Along apply C ops h) :
    P (run apply ops h) ∧ Along apply (fun o h => P h ∧ C o h) ops h := by
  induction ops generalizing h with
  | nil => exact ⟨h0, trivial⟩
  | cons o ops ih =>
    obtain ⟨hfinal, halong⟩ := ih (hstep o h h0 hC.1) hC.2
    exact ⟨hfinal, ⟨h0, hC.1⟩, halong⟩

/-- Operations that keep a relation one by one keep it together. -/
theorem run_of_simulation {H' : Type x} {apply' : O → H' → H'} {R : H → H' → Prop}
    {C : O → H → Prop} (hstep : ∀ o h h', R h h' → C o h → R (apply o h) (apply' o h'))
    {ops : List O} {h : H} {h' : H'} (h0 : R h h') (hC : Along apply C ops h) :
    R (run apply ops h) (run apply' ops h') := by
  induction ops generalizing h h' with
  | nil => exact h0
  | cons o ops ih => exact ih (hstep o h h' h0 hC.1) hC.2

/-- When each operation changes `f` by what it is given less what it takes, so do
all of them together. -/
theorem total_balance {C : O → H → Prop} {f : H → Nat} {given taken : O → H → Nat}
    (hstep : ∀ o h, C o h → f h + given o h = f (apply o h) + taken o h) {ops : List O} {h : H}
    (hC : Along apply C ops h) :
    f h + total apply given ops h = f (run apply ops h) + total apply taken ops h := by
  induction ops generalizing h with
  | nil => rfl
  | cons o ops ih =>
    have hhead := hstep o h hC.1
    have htail := ih hC.2
    rw [total, total, run_cons]
    omega

theorem total_add (n n' : O → H → Nat) (ops : List O) (h : H) :
    total apply (fun o h => n o h + n' o h) ops h =
      total apply n ops h + total apply n' ops h := by
  induction ops generalizing h with
  | nil => rfl
  | cons o ops ih =>
    rw [total, total, total, ih]
    omega

theorem total_append (n : O → H → Nat) (ops ops' : List O) (h : H) :
    total apply n (ops ++ ops') h = total apply n ops h + total apply n ops' (run apply ops h) := by
  induction ops generalizing h with
  | nil => exact (Nat.zero_add _).symm
  | cons o ops ih => rw [List.cons_append, total, total, ih, run_cons, Nat.add_assoc]

theorem total_eq_zero {n : O → H → Nat} {ops : List O} (hzero : ∀ o ∈ ops, ∀ h, n o h = 0)
    (h : H) : total apply n ops h = 0 := by
  induction ops generalizing h with
  | nil => rfl
  | cons o ops ih =>
    rw [total, hzero o List.mem_cons_self, ih fun o ho => hzero o (List.mem_cons_of_mem _ ho)]

/-! ## 2. Drivers -/

/-- The state in which a run of a loop stands when its events are consumed. -/
def final {S : Type w} {I : Type x} (L : Loop S I) : S → List I → S
  | s, [] => s
  | s, i :: is =>
    if L.cond s then
      match L.body i s with
      | .next s' => final L s' is
      | .brk s' => s'
    else s

/-- A loop whose passes are lists of operations on a part of its state. -/
structure Driver (apply : O → H → H) (S : Type w) (I : Type x) where
  loop : Loop S I
  view : S → H
  ops : I → S → List O
  sound : ∀ i s, view (loop.body i s).state = run apply (ops i s) (view s)

namespace Driver

variable {S : Type w} {I : Type x} {D : Driver apply S I}

/-- The operations of a run. -/
def trace (D : Driver apply S I) (s : S) (is : List I) : List O :=
  (D.loop.iters s is).flatMap fun p => D.ops p.2 p.1

/-- A run does to the state what its operations do. -/
theorem view_final (D : Driver apply S I) (s : S) (is : List I) :
    D.view (final D.loop s is) = run apply (D.trace s is) (D.view s) := by
  induction is generalizing s with
  | nil => rfl
  | cons i is ih =>
    have hsound := D.sound i s
    cases hc : D.loop.cond s with
    | false =>
      rw [trace, Loop.iters_of_not_cond hc]
      simp [final, hc]
    | true =>
      cases hb : D.loop.body i s with
      | next s' =>
        rw [hb] at hsound
        rw [trace, Loop.iters_cons_next hc hb, List.flatMap_cons, run_append, ← hsound]
        simp only [final, hc, if_true, hb]
        exact ih s'
      | brk s' =>
        rw [hb] at hsound
        rw [trace, Loop.iters_cons_brk hc hb, List.flatMap_singleton, ← hsound]
        simp only [final, hc, if_true, hb]
        rfl

/-- Every operation of a run meets `C` exactly when every pass makes its operations
meet it. -/
theorem along_trace_iff {C : O → H → Prop} {s : S} {is : List I} :
    Along apply C (D.trace s is) (D.view s) ↔
      ∀ p ∈ D.loop.iters s is, Along apply C (D.ops p.2 p.1) (D.view p.1) := by
  induction is generalizing s with
  | nil => exact ⟨fun _ p hp => absurd hp List.not_mem_nil, fun _ => trivial⟩
  | cons i is ih =>
    have hsound := D.sound i s
    cases hc : D.loop.cond s with
    | false =>
      rw [trace, Loop.iters_of_not_cond hc]
      exact ⟨fun _ p hp => absurd hp List.not_mem_nil, fun _ => trivial⟩
    | true =>
      cases hb : D.loop.body i s with
      | next s' =>
        rw [hb] at hsound
        rw [trace, Loop.iters_cons_next hc hb, List.flatMap_cons, along_append, ← hsound,
          List.forall_mem_cons]
        exact and_congr_right fun _ => ih
      | brk s' =>
        rw [trace, Loop.iters_cons_brk hc hb, List.flatMap_singleton, List.forall_mem_singleton]

/-- A sum to which a pass adds one or nothing counts the passes that add. -/
theorem total_trace {n : O → H → Nat} {p : S × I → Bool}
    (hpass : ∀ i s, total apply n (D.ops i s) (D.view s) = (p (s, i)).toNat) (s : S)
    (is : List I) :
    total apply n (D.trace s is) (D.view s) = (D.loop.iters s is).countP p := by
  have hone : ∀ x, (p x).toNat = if p x then 1 else 0 := by
    intro x
    cases p x <;> rfl
  induction is generalizing s with
  | nil => rfl
  | cons i is ih =>
    have hsound := D.sound i s
    cases hc : D.loop.cond s with
    | false =>
      rw [trace, Loop.iters_of_not_cond hc]
      rfl
    | true =>
      cases hb : D.loop.body i s with
      | next s' =>
        rw [hb] at hsound
        rw [trace, Loop.iters_cons_next hc hb, List.flatMap_cons, total_append, ← hsound,
          List.countP_cons, hpass, hone, Nat.add_comm]
        exact congrArg (· + _) (ih s')
      | brk s' =>
        rw [trace, Loop.iters_cons_brk hc hb, List.flatMap_singleton, hpass, List.countP_singleton,
          hone]

/-- An invariant that each operation keeps holds at the head of every pass, and every
operation of the pass is applied in a state that has it. -/
theorem iters_of_invariant {P : H → Prop} {C : O → H → Prop}
    (hstep : ∀ o h, P h → C o h → P (apply o h)) {s : S} {is : List I} (h0 : P (D.view s))
    (hC : Along apply C (D.trace s is) (D.view s)) : ∀ p ∈ D.loop.iters s is,
      P (D.view p.1) ∧ Along apply (fun o h => P h ∧ C o h) (D.ops p.2 p.1) (D.view p.1) := by
  have hpasses := along_trace_iff.mp hC
  have hhead : ∀ p ∈ D.loop.iters s is, P (D.view p.1) := by
    refine Loop.iters_of_invariant (P := fun s => P (D.view s))
      (C := fun i s => Along apply C (D.ops i s) (D.view s)) ?_ h0 hpasses
    intro s i s' hs hCi hb
    have hsound := D.sound i s
    rw [hb] at hsound
    change P (D.view (Flow.next s').state)
    rw [hsound]
    exact (run_of_invariant hstep hs hCi).1
  intro p hp
  exact ⟨hhead p hp, (run_of_invariant hstep (hhead p hp) (hpasses p hp)).2⟩

end Driver

end OpTrace
