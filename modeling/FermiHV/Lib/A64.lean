import Mathlib

/-!
# A small AArch64 machine

Enough of the instruction set to run small programs at EL1: moves and additions, loads
and stores, branches, system registers, interrupts through a vector table and `ERET`,
and the ways out to EL2. A program is given by its base address and its instructions by
index; labels are indices too.

What is outside the core is a `Platform`: the memory, which may refuse an access, the
system registers `R` and the interrupt line. `run` executes instructions until the core
stops at one that the platform has to serve.

* `Reaches` composes straight-line code, jumps and loops; fuel is needed only where a
  stop is reached (`Stops`).
* `Reaches.block`: straight-line code is executed instruction by instruction.
-/

namespace A64

universe u

abbrev Word := BitVec 64

abbrev Reg := Fin 31

/-! ## 1. Programs -/

/-- Instructions. The size of an access is in bytes; `none` is the zero register. -/
inductive Instr (R : Type)
  /-- `mov`, `movz` with its shift applied -/
  | mov (d : Reg) (v : Word)
  /-- `movk` into a register whose upper half is zero -/
  | movk (d : Reg) (v : BitVec 16) (shift : Nat)
  | movr (d n : Reg)
  | add (d n : Reg) (v : Word)
  /-- `add` or `sub` of a constant to the stack pointer -/
  | addSp (v : Word)
  | adr (d : Reg) (label : Nat)
  /-- `ldrb wt, [xn, xm]` -/
  | ldrb (t n m : Reg)
  /-- `strh`, `str` of a W or X register at an offset -/
  | str (size : Nat) (t : Option Reg) (n : Reg) (off : Word)
  /-- `stp xt, xu, [sp, #off]` -/
  | stp (t u : Reg) (off : Word)
  | ldp (t u : Reg) (off : Word)
  | cbz (t : Reg) (label : Nat)
  | b (label : Nat)
  | mrs (t : Reg) (r : R)
  | msr (r : R) (t : Reg)
  | msrVbar (t : Reg)
  /-- `msr daifclr, #2` -/
  | unmaskIrq
  | hvc
  | eret
  /-- barriers, and `wfi` when it lets go -/
  | nop

structure Program (R : Type) where
  base : Word
  code : Nat → Option (Instr R)

namespace Program

variable {R : Type} (p : Program R)

/-- The address of the instruction with the index `i`. -/
def label (i : Nat) : Word := p.base + BitVec.ofNat 64 (4 * i)

def fetch (a : Word) : Option (Instr R) :=
  if (a - p.base).toNat % 4 = 0 then p.code ((a - p.base).toNat / 4) else none

theorem label_add_four (i : Nat) : p.label i + 4 = p.label (i + 1) := by
  rw [label, label, BitVec.add_assoc, Nat.mul_add, BitVec.ofNat_add]
  rfl

theorem fetch_label {i : Nat} (hi : i < 2 ^ 62) : p.fetch (p.label i) = p.code i := by
  have hoff : (p.label i - p.base).toNat = 4 * i := by
    rw [label, BitVec.add_comm, BitVec.add_sub_cancel, BitVec.toNat_ofNat]
    omega
  rw [fetch, hoff, if_pos (Nat.mul_mod_right 4 i), Nat.mul_div_cancel_left i (by decide)]

/-- The instructions stand at the index `i`. -/
def CodeAt (i : Nat) (l : List (Instr R)) : Prop := ∀ j c, l[j]? = some c → p.code (i + j) = some c

variable {p} {i : Nat} {c : Instr R} {l l' : List (Instr R)}

theorem CodeAt.head (h : p.CodeAt i (c :: l)) : p.code i = some c := h 0 c rfl

theorem CodeAt.tail (h : p.CodeAt i (c :: l)) : p.CodeAt (i + 1) l := by
  intro j c' hj
  rw [Nat.add_assoc, Nat.add_comm 1 j]
  exact h (j + 1) c' hj

theorem CodeAt.left (h : p.CodeAt i (l ++ l')) : p.CodeAt i l := by
  intro j c hj
  refine h j c ?_
  rw [List.getElem?_append_left (List.getElem?_eq_some_iff.mp hj).1, hj]

theorem CodeAt.right (h : p.CodeAt i (l ++ l')) : p.CodeAt (i + l.length) l' := by
  intro j c hj
  rw [Nat.add_assoc]
  refine h (l.length + j) c ?_
  rw [List.getElem?_append_right (Nat.le_add_right _ _), Nat.add_sub_cancel_left, hj]

end Program

/-! ## 2. The machine -/

/-- The registers of the core; `sp` is the stack pointer of EL1. -/
@[ext] structure Core where
  x : Reg → Word
  sp : Word
  pc : Word
  pstate : Word
  vbar : Word
  elr : Word
  spsr : Word

/-- The instruction at which the core stops. -/
inductive Stop
  | undefined
  | hvc
  | loadAbort (t : Reg) (size : Nat) (a : Word)
  | storeAbort (t : Option Reg) (size : Nat) (a : Word)
deriving DecidableEq

/-- The world around the core. -/
structure Platform (R : Type) (M : Type u) where
  load : M → Word → Nat → Option Nat
  store : M → Word → Nat → Nat → Option M
  mrs : R → M → Word × M
  msr : R → Word → M → M
  irq : M → Bool

inductive Outcome (M : Type u)
  | next (s : Core) (m : M)
  | stop (k : Stop)

namespace Core

variable (s : Core)

def advance : Core := { s with pc := s.pc + 4 }

/-- Write a register and go on. -/
def set (d : Reg) (v : Word) : Core := { s with x := Function.update s.x d v, pc := s.pc + 4 }

/-- The value that is stored from `t`. -/
def get (t : Option Reg) : Word := t.elim 0 s.x

/-- IRQs are taken. -/
def unmasked : Bool := s.pstate &&& 0x80 = 0

/-- Take an IRQ from EL1 on its own stack pointer. -/
def takeIrq : Core :=
  { s with elr := s.pc, spsr := s.pstate, pstate := s.pstate ||| 0x3C0, pc := s.vbar + 0x280 }

end Core

section Machine

variable {R : Type} {M : Type u} (p : Program R) (P : Platform R M)

/-- One instruction. -/
def exec (s : Core) (m : M) : Instr R → Outcome M
  | .mov d v => .next (s.set d v) m
  | .movk d v shift =>
    .next (s.set d ((s.x d &&& ~~~((0xFFFF : Word) <<< shift)) ||| (v.setWidth 64 <<< shift))) m
  | .movr d n => .next (s.set d (s.x n)) m
  | .add d n v => .next (s.set d (s.x n + v)) m
  | .addSp v => .next { s with sp := s.sp + v, pc := s.pc + 4 } m
  | .adr d label => .next (s.set d (p.label label)) m
  | .ldrb t n i =>
    match P.load m (s.x n + s.x i) 1 with
    | some v => .next (s.set t (BitVec.ofNat 64 v)) m
    | none => .stop (.loadAbort t 1 (s.x n + s.x i))
  | .str size t n off =>
    match P.store m (s.x n + off) size (s.get t).toNat with
    | some m => .next s.advance m
    | none => .stop (.storeAbort t size (s.x n + off))
  | .stp t u off =>
    match P.store m (s.sp + off) 8 (s.x t).toNat with
    | some m =>
      match P.store m (s.sp + off + 8) 8 (s.x u).toNat with
      | some m => .next s.advance m
      | none => .stop (.storeAbort (some u) 8 (s.sp + off + 8))
    | none => .stop (.storeAbort (some t) 8 (s.sp + off))
  | .ldp t u off =>
    match P.load m (s.sp + off) 8 with
    | some v =>
      match P.load m (s.sp + off + 8) 8 with
      | some w =>
        .next { s with
          x := Function.update (Function.update s.x t (BitVec.ofNat 64 v)) u (BitVec.ofNat 64 w)
          pc := s.pc + 4 } m
      | none => .stop (.loadAbort u 8 (s.sp + off + 8))
    | none => .stop (.loadAbort t 8 (s.sp + off))
  | .cbz t label => .next (if s.x t = 0 then { s with pc := p.label label } else s.advance) m
  | .b label => .next { s with pc := p.label label } m
  | .mrs t r => .next (s.set t (P.mrs r m).1) (P.mrs r m).2
  | .msr r t => .next s.advance (P.msr r (s.x t) m)
  | .msrVbar t => .next { s with vbar := s.x t, pc := s.pc + 4 } m
  | .unmaskIrq => .next { s with pstate := s.pstate &&& ~~~0x80, pc := s.pc + 4 } m
  | .hvc => .stop .hvc
  | .eret => .next { s with pc := s.elr, pstate := s.spsr } m
  | .nop => .next s.advance m

/-- One step: an interrupt that is not masked, or else an instruction. -/
def step (s : Core) (m : M) : Outcome M :=
  if P.irq m && s.unmasked then .next s.takeIrq m
  else
    match p.fetch s.pc with
    | some i => exec p P s m i
    | none => .stop .undefined

/-- Run until the core stops, for at most the given number of steps. -/
def run : Nat → Core → M → Option (Core × M × Stop)
  | 0, _, _ => none
  | n + 1, s, m =>
    match step p P s m with
    | .next s m => run n s m
    | .stop k => some (s, m, k)

/-- The core comes to the second state without stopping. -/
def Reaches (a b : Core × M) : Prop := ∃ n, ∀ k, run p P (n + k) a.1 a.2 = run p P k b.1 b.2

/-- With enough fuel the core stops there. -/
def Stops (a : Core × M) (r : Core × M × Stop) : Prop :=
  ∃ n, ∀ k, run p P (n + k) a.1 a.2 = some r

variable {p P}

theorem Reaches.refl (a : Core × M) : Reaches p P a a := ⟨0, fun k => by rw [Nat.zero_add]⟩

theorem Reaches.trans {a b c : Core × M} (hab : Reaches p P a b) (hbc : Reaches p P b c) :
    Reaches p P a c := by
  obtain ⟨n, hn⟩ := hab
  obtain ⟨l, hl⟩ := hbc
  exact ⟨n + l, fun k => by rw [Nat.add_assoc, hn, hl]⟩

theorem Reaches.of_step {s s' : Core} {m m' : M} (h : step p P s m = .next s' m') :
    Reaches p P (s, m) (s', m') :=
  ⟨1, fun k => by rw [Nat.add_comm, run, h]⟩

theorem Reaches.stops {a b : Core × M} {r : Core × M × Stop} (hab : Reaches p P a b)
    (hb : Stops p P b r) : Stops p P a r := by
  obtain ⟨n, hn⟩ := hab
  obtain ⟨l, hl⟩ := hb
  exact ⟨n + l, fun k => by rw [Nat.add_assoc, hn, hl]⟩

theorem Stops.of_step {s : Core} {m : M} {k : Stop} (h : step p P s m = .stop k) :
    Stops p P (s, m) (s, m, k) :=
  ⟨1, fun n => by rw [Nat.add_comm, run, h]⟩

/-- An instruction at a label, when no interrupt is taken. -/
theorem step_of_quiet {s : Core} {m : M} {i : Nat} {c : Instr R}
    (hirq : (P.irq m && s.unmasked) = false) (hpc : s.pc = p.label i) (hi : i < 2 ^ 62)
    (hc : p.code i = some c) : step p P s m = exec p P s m c := by
  rw [step, hirq, if_neg Bool.false_ne_true, hpc, p.fetch_label hi, hc]

theorem step_of_code {s : Core} {m : M} {i : Nat} {c : Instr R} (hirq : P.irq m = false)
    (hpc : s.pc = p.label i) (hi : i < 2 ^ 62) (hc : p.code i = some c) :
    step p P s m = exec p P s m c :=
  step_of_quiet (by rw [hirq, Bool.false_and]) hpc hi hc

/-- Where a register write goes on. -/
theorem Core.pc_set {s : Core} {i : Nat} (hpc : s.pc = p.label i) (d : Reg) (v : Word) :
    (s.set d v).pc = p.label (i + 1) := by
  rw [Core.set, hpc, p.label_add_four]

theorem Reaches.of_exec {s s' : Core} {m m' : M} {i : Nat} {c : Instr R} (hirq : P.irq m = false)
    (hpc : s.pc = p.label i) (hi : i < 2 ^ 62) (hc : p.code i = some c)
    (h : exec p P s m c = .next s' m') : Reaches p P (s, m) (s', m') :=
  .of_step ((step_of_code hirq hpc hi hc).trans h)

theorem Stops.of_exec {s : Core} {m : M} {i : Nat} {c : Instr R} {k : Stop}
    (hirq : P.irq m = false) (hpc : s.pc = p.label i) (hi : i < 2 ^ 62) (hc : p.code i = some c)
    (h : exec p P s m c = .stop k) : Stops p P (s, m) (s, m, k) :=
  .of_step ((step_of_code hirq hpc hi hc).trans h)

/-! ### Preemption -/

/-- Run for the given number of steps, or until the core stops. -/
def runFor (p : Program R) (P : Platform R M) : Nat → Core → M → Core × M × Option Stop
  | 0, s, m => (s, m, none)
  | n + 1, s, m =>
    match step p P s m with
    | .next s m => runFor p P n s m
    | .stop k => (s, m, some k)

/-- What each step keeps holds wherever the core is preempted or stops. -/
theorem runFor_of_invariant {I : Core → M → Prop}
    (hstep : ∀ s m s' m', I s m → step p P s m = .next s' m' → I s' m') {n : Nat} {s : Core}
    {m : M} (h : I s m) :
    let r := runFor p P n s m
    I r.1 r.2.1 ∧ ∀ k, r.2.2 = some k → step p P r.1 r.2.1 = .stop k := by
  induction n generalizing s m with
  | zero => exact ⟨h, fun k hk => by cases hk⟩
  | succ n ih =>
    cases he : step p P s m with
    | next s' m' =>
      simp only [runFor, he]
      exact ih (hstep s m s' m' h he)
    | stop k =>
      simp only [runFor, he]
      refine ⟨h, ?_⟩
      intro k' hk'
      cases hk'
      rfl

/-! ### Straight-line code -/

/-- The instruction goes on to the next one unless it stops. -/
def Instr.straight : Instr R → Bool
  | .cbz .. | .b _ | .eret => false
  | _ => true

/-- The instructions one after the other. -/
def execBlock (p : Program R) (P : Platform R M) : List (Instr R) → Core → M → Option (Core × M)
  | [], s, m => some (s, m)
  | c :: l, s, m =>
    match exec p P s m c with
    | .next s m => execBlock p P l s m
    | .stop _ => none

theorem pc_of_exec {s s' : Core} {m m' : M} {c : Instr R} (hc : c.straight = true)
    (h : exec p P s m c = .next s' m') : s'.pc = s.pc + 4 := by
  cases c with
  | cbz | b | eret => cases hc
  | hvc => cases h
  | ldrb t n i =>
    simp only [exec] at h
    split at h
    · cases h
      rfl
    · cases h
  | str size t n off =>
    simp only [exec] at h
    split at h
    · cases h
      rfl
    · cases h
  | stp t u off | ldp t u off =>
    simp only [exec] at h
    split at h
    · split at h
      · cases h
        rfl
      · cases h
    · cases h
  | _ =>
    cases h
    rfl

/-- A block of straight-line code that starts at a label, when no interrupt can come. -/
theorem Reaches.block (hirq : ∀ m, P.irq m = false) {l : List (Instr R)}
    (hl : ∀ c ∈ l, c.straight = true) {i : Nat} (hi : i + l.length < 2 ^ 62)
    (hcode : p.CodeAt i l) {s s' : Core} {m m' : M}
    (hpc : s.pc = p.label i) (h : execBlock p P l s m = some (s', m')) :
    Reaches p P (s, m) (s', m') ∧ s'.pc = p.label (i + l.length) := by
  induction l generalizing i s m with
  | nil =>
    cases h
    exact ⟨.refl _, hpc⟩
  | cons c l ih =>
    rw [List.length_cons] at hi ⊢
    rw [execBlock] at h
    cases he : exec p P s m c with
    | stop k =>
      rw [he] at h
      cases h
    | next s1 m1 =>
      rw [he] at h
      have hstep : step p P s m = .next s1 m1 := by
        rw [step_of_code (hirq m) hpc (by omega) hcode.head, he]
      have hpc1 : s1.pc = p.label (i + 1) := by
        rw [pc_of_exec (hl c List.mem_cons_self) he, hpc, p.label_add_four]
      have hrest := ih (fun c hc => hl c (List.mem_cons_of_mem _ hc)) (by omega) hcode.tail hpc1 h
      refine ⟨(Reaches.of_step hstep).trans hrest.1, ?_⟩
      rw [hrest.2, Nat.add_right_comm, Nat.add_assoc]

end Machine

end A64
