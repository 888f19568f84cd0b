import FermiHV.Lib.ByteMem

/-!
# Symbolic execution of straight-line machine code

Code that moves 64-bit words between registers and memory: register moves, small
additions, loads and stores at a base register plus an offset, and a `havoc` after
which some registers hold whatever the environment left there. `exec` runs it on
a machine.

`symExec` runs it once for all machines. A symbolic value is an initial register
plus a constant, a word of the initial memory, a constant or a value of the
environment. Memory is seen as words in regions, each at a fixed place relative
to the initial value of a register; an access that is not to a word of a region
makes the symbolic run fail. `symExec_sound` says that on every machine whose
regions are apart the registers and words are as the symbolic run says, and that
no other byte has changed.
-/

namespace SymExec

open ByteMem

variable {R : Type} [DecidableEq R]

/-! ## 1. Code and its meaning -/

inductive Instr (R : Type)
  | mov (d s : R)
  | imm (d : R) (n : BitVec 64)
  | add (d s : R) (n : BitVec 64)
  | ldr (d b : R) (off : BitVec 64)
  | str (s b : R) (off : BitVec 64)
  /-- The registers in `p` take the values of the environment. -/
  | havoc (p : R → Bool)

structure Machine (R : Type) where
  regs : R → BitVec 64
  mem : Mem 64

/-- The 64-bit word at `a`. -/
def word (m : Mem 64) (a : BitVec 64) : BitVec 64 := BitVec.ofNat 64 (load m a 8)

def step (env : R → BitVec 64) (i : Instr R) (s : Machine R) : Machine R :=
  match i with
  | .mov d r => { s with regs := Function.update s.regs d (s.regs r) }
  | .imm d n => { s with regs := Function.update s.regs d n }
  | .add d r n => { s with regs := Function.update s.regs d (s.regs r + n) }
  | .ldr d b off => { s with regs := Function.update s.regs d (word s.mem (s.regs b + off)) }
  | .str r b off => { s with mem := store s.mem (s.regs b + off) 8 (s.regs r).toNat }
  | .havoc p => { s with regs := fun r => if p r then env r else s.regs r }

def exec (env : R → BitVec 64) (prog : List (Instr R)) (s : Machine R) : Machine R :=
  prog.foldl (fun s i => step env i s) s

theorem exec_append (env : R → BitVec 64) (p q : List (Instr R)) (s : Machine R) :
    exec env (p ++ q) s = exec env q (exec env p s) := by
  rw [exec, List.foldl_append]
  rfl

/-- The instruction sets no register that is not in the list. -/
def Instr.setsOnly (ds : List R) : Instr R → Bool
  | .mov d _ | .imm d _ | .add d _ _ | .ldr d _ _ => d ∈ ds
  | .str _ _ _ => true
  | .havoc _ => false

theorem step_regs_of_setsOnly (env : R → BitVec 64) {ds : List R} {i : Instr R}
    (h : i.setsOnly ds = true) {r : R} (hr : r ∉ ds) (s : Machine R) :
    (step env i s).regs r = s.regs r := by
  have hset : ∀ (d : R) (v : BitVec 64), decide (d ∈ ds) = true →
      Function.update s.regs d v r = s.regs r := by
    intro d v hd
    have hne : r ≠ d := fun he => hr (by rw [he]; exact of_decide_eq_true hd)
    rw [Function.update_of_ne hne]
  cases i with
  | mov d r' => exact hset d _ h
  | imm d n => exact hset d _ h
  | add d r' n => exact hset d _ h
  | ldr d b off => exact hset d _ h
  | str r' b off => rfl
  | havoc p => cases h

/-- Code keeps the registers that none of its instructions sets. -/
theorem exec_regs_of_setsOnly (env : R → BitVec 64) {ds : List R} {prog : List (Instr R)}
    (h : prog.all (Instr.setsOnly ds) = true) {r : R} (hr : r ∉ ds) (s : Machine R) :
    (exec env prog s).regs r = s.regs r := by
  induction prog generalizing s with
  | nil => rfl
  | cons i prog ih =>
    rw [List.all_cons, Bool.and_eq_true] at h
    have htail := ih h.2 (step env i s)
    rw [step_regs_of_setsOnly env h.1 hr s] at htail
    exact htail

/-! ## 2. Symbolic values and states -/

inductive Val (R : Type)
  | const (n : BitVec 64)
  /-- The initial value of a register, plus a constant. -/
  | reg (r : R) (n : BitVec 64)
  /-- The word of the initial memory at a register plus a constant. -/
  | cell (r : R) (n : BitVec 64)
  | env (r : R)
deriving DecidableEq

def Val.eval (s : Machine R) (env : R → BitVec 64) : Val R → BitVec 64
  | .const n => n
  | .reg r n => s.regs r + n
  | .cell r n => word s.mem (s.regs r + n)
  | .env r => env r

/-- A range of bytes, placed relative to a register. -/
structure Region where
  lo : BitVec 64
  len : Nat

/-- The offset of one of the words that the region is divided into. -/
def Region.hasWord (g : Region) (o : BitVec 64) : Bool :=
  (o - g.lo).toNat % 8 = 0 && (o - g.lo).toNat + 8 ≤ g.len

/-- The region as placed by the registers of `s`. -/
def InRegion (regions : R → Region) (s : Machine R) (r : R) (x : BitVec 64) : Prop :=
  Covers (s.regs r + (regions r).lo) (regions r).len x

/-- The regions of different registers have no byte in common. -/
def Apart (regions : R → Region) (s : Machine R) : Prop :=
  ∀ r r', r ≠ r' → ∀ x, InRegion regions s r x → ¬ InRegion regions s r' x

/-- The values of the registers, and the words written, latest first. -/
structure Sym (R : Type) where
  regs : R → Val R
  cells : List ((R × BitVec 64) × Val R)

def Sym.init : Sym R where
  regs := fun r => .reg r 0
  cells := []

/-- The value of a word: the last one written, or the initial one. -/
def lookup (cells : List ((R × BitVec 64) × Val R)) (r : R) (o : BitVec 64) : Val R :=
  match cells.find? fun c => c.1 = (r, o) with
  | some c => c.2
  | none => .cell r o

/-- The word that an access at `off` from `b` is to, if it is one of a region. -/
def Sym.addr (regions : R → Region) (σ : Sym R) (b : R) (off : BitVec 64) :
    Option (R × BitVec 64) :=
  match σ.regs b with
  | .reg r n => if (regions r).hasWord (n + off) then some (r, n + off) else none
  | _ => none

def Sym.set (σ : Sym R) (d : R) (v : Val R) : Sym R :=
  { σ with regs := Function.update σ.regs d v }

def symStep (regions : R → Region) (σ : Sym R) : Instr R → Option (Sym R)
  | .mov d r => some (σ.set d (σ.regs r))
  | .imm d n => some (σ.set d (.const n))
  | .add d r n =>
    match σ.regs r with
    | .reg r' k => some (σ.set d (.reg r' (k + n)))
    | _ => none
  | .ldr d b off => (σ.addr regions b off).map fun c => σ.set d (lookup σ.cells c.1 c.2)
  | .str r b off =>
    (σ.addr regions b off).map fun c => { σ with cells := (c, σ.regs r) :: σ.cells }
  | .havoc p => some { σ with regs := fun r => if p r then .env r else σ.regs r }

def symExec (regions : R → Region) (prog : List (Instr R)) (σ : Sym R) : Option (Sym R) :=
  prog.foldlM (symStep regions) σ

/-! ## 3. Words of regions -/

theorem word_store_self (m : Mem 64) (a v : BitVec 64) : word (store m a 8 v.toNat) a = v := by
  have hlt := v.isLt
  rw [word, load_store_self m a v.toNat (by omega)]
  refine BitVec.eq_of_toNat_eq ?_
  rw [BitVec.toNat_ofNat]
  omega

theorem word_store_sep {m : Mem 64} {a b v : BitVec 64} (h : Sep a 8 b 8) :
    word (store m b 8 v.toNat) a = word m a := by
  rw [word, load_store_sep (by omega) h, word]

/-- The bytes of a word of a region are bytes of the region. -/
theorem covers_of_hasWord {g : Region} {b o x : BitVec 64} (ho : g.hasWord o = true)
    (hx : Covers (b + o) 8 x) : Covers (b + g.lo) g.len x := by
  simp only [Region.hasWord, Bool.and_eq_true, decide_eq_true_eq] at ho
  unfold Covers at hx ⊢
  have hsplit : x - (b + g.lo) = (x - (b + o)) + (o - g.lo) := by
    simp only [BitVec.sub_eq_add_neg, BitVec.neg_add]
    ring
  rw [hsplit, BitVec.toNat_add]
  omega

/-- Different words of one region have no byte in common. -/
theorem sep_of_hasWord {g : Region} {b o o' : BitVec 64} (ho : g.hasWord o = true)
    (ho' : g.hasWord o' = true) (hne : o ≠ o') : Sep (b + o) 8 (b + o') 8 := by
  simp only [Region.hasWord, Bool.and_eq_true, decide_eq_true_eq] at ho ho'
  intro x hx hx'
  unfold Covers at hx hx'
  have hsame : (x - (b + o)) + (o - g.lo) = (x - (b + o')) + (o' - g.lo) := by
    simp only [BitVec.sub_eq_add_neg, BitVec.neg_add]
    ring
  have hnat := congrArg BitVec.toNat hsame
  rw [BitVec.toNat_add, BitVec.toNat_add] at hnat
  have hoff : (o - g.lo).toNat = (o' - g.lo).toNat := by omega
  refine hne ?_
  have hsub : o - g.lo = o' - g.lo := BitVec.eq_of_toNat_eq hoff
  calc o = o - g.lo + g.lo := (BitVec.sub_add_cancel o g.lo).symm
    _ = o' - g.lo + g.lo := by rw [hsub]
    _ = o' := BitVec.sub_add_cancel o' g.lo

/-! ## 4. Soundness -/

section Sound

variable {regions : R → Region} {env : R → BitVec 64} {s : Machine R} {σ σ' : Sym R}
  {m : Machine R}

/-- The machine `m`, started from `s`, is as `σ` says. -/
structure Sim (regions : R → Region) (env : R → BitVec 64) (s : Machine R) (σ : Sym R)
    (m : Machine R) : Prop where
  regs : ∀ r, m.regs r = (σ.regs r).eval s env
  cells : ∀ r o, (regions r).hasWord o = true →
    word m.mem (s.regs r + o) = (lookup σ.cells r o).eval s env
  frame : ∀ x, (∀ r, ¬ InRegion regions s r x) → m.mem x = s.mem x

theorem sim_init : Sim regions env s Sym.init s where
  regs := fun r => (BitVec.add_zero (s.regs r)).symm
  cells := fun _ _ _ => rfl
  frame := fun _ _ => rfl

theorem lookup_cons (c : R × BitVec 64) (v : Val R) (cells : List ((R × BitVec 64) × Val R)) (r : R)
    (o : BitVec 64) :
    lookup ((c, v) :: cells) r o = if c = (r, o) then v else lookup cells r o := by
  unfold lookup
  rw [List.find?_cons]
  by_cases h : c = (r, o)
  · simp only [h, decide_true, if_true]
  · simp only [h, decide_false, if_false]

/-- What a symbolic address stands for. -/
theorem Sim.addr (h : Sim regions env s σ m) {b : R} {off : BitVec 64} {c : R × BitVec 64}
    (ha : σ.addr regions b off = some c) :
    m.regs b + off = s.regs c.1 + c.2 ∧ (regions c.1).hasWord c.2 = true := by
  have hb := h.regs b
  unfold Sym.addr at ha
  split at ha
  case h_1 r n hreg =>
    split_ifs at ha with hw
    cases ha
    rw [hreg] at hb
    refine ⟨?_, hw⟩
    rw [hb, Val.eval, BitVec.add_assoc]
  case h_2 => cases ha

/-- A register that takes the value `v` on both sides. -/
theorem Sim.set (h : Sim regions env s σ m) {d : R} {v : Val R} {x : BitVec 64}
    (hx : x = v.eval s env) :
    Sim regions env s (σ.set d v) { m with regs := Function.update m.regs d x } where
  regs := by
    intro r
    by_cases hr : r = d
    · subst hr
      simp only [Sym.set, Function.update_self, hx]
    · simp only [Sym.set, Function.update_of_ne hr, h.regs r]
  cells := h.cells
  frame := h.frame

/-- A word that is written on both sides. -/
theorem Sim.store (hap : Apart regions s) (h : Sim regions env s σ m) {c : R × BitVec 64}
    (hc : (regions c.1).hasWord c.2 = true) {v : Val R} {x : BitVec 64} (hx : x = v.eval s env) :
    Sim regions env s { σ with cells := (c, v) :: σ.cells }
      { m with mem := ByteMem.store m.mem (s.regs c.1 + c.2) 8 x.toNat } where
  regs := h.regs
  cells := by
    intro r o ho
    rw [lookup_cons]
    by_cases hsame : c = (r, o)
    · subst hsame
      rw [if_pos rfl, word_store_self, hx]
    · -- the word written is another one: of the same region or of another
      have hsep : Sep (s.regs r + o) 8 (s.regs c.1 + c.2) 8 := by
        by_cases hr : c.1 = r
        · subst hr
          refine sep_of_hasWord ho hc fun he => hsame ?_
          rw [he]
        · exact fun y hy hy' => hap c.1 r hr y (covers_of_hasWord hc hy') (covers_of_hasWord ho hy)
      rw [if_neg hsame, word_store_sep hsep]
      exact h.cells r o ho
  frame := by
    intro y hy
    rw [← h.frame y hy]
    exact store_of_not_covers fun hc' => hy c.1 (covers_of_hasWord hc hc')

theorem sim_step (hap : Apart regions s) (h : Sim regions env s σ m) {i : Instr R}
    (hi : symStep regions σ i = some σ') : Sim regions env s σ' (step env i m) := by
  cases i with
  | mov d r =>
    cases hi
    exact h.set (h.regs r)
  | imm d n =>
    cases hi
    exact h.set rfl
  | add d r n =>
    have hr := h.regs r
    simp only [symStep] at hi
    split at hi
    case h_1 r' k hreg =>
      cases hi
      rw [hreg] at hr
      refine h.set ?_
      rw [hr, Val.eval, Val.eval, BitVec.add_assoc]
    case h_2 => cases hi
  | ldr d b off =>
    obtain ⟨c, hc, rfl⟩ := Option.map_eq_some_iff.mp hi
    obtain ⟨haddr, hw⟩ := h.addr hc
    refine h.set ?_
    rw [haddr]
    exact h.cells c.1 c.2 hw
  | str r b off =>
    obtain ⟨c, hc, rfl⟩ := Option.map_eq_some_iff.mp hi
    obtain ⟨haddr, hw⟩ := h.addr hc
    rw [step, haddr]
    exact h.store hap hw (h.regs r)
  | havoc p =>
    cases hi
    refine ⟨fun r => ?_, h.cells, h.frame⟩
    simp only [step]
    split_ifs
    · rfl
    · exact h.regs r

/-- The symbolic run is right about every machine whose regions are apart. -/
theorem sim_exec (hap : Apart regions s) {prog : List (Instr R)} (h : Sim regions env s σ m)
    (hp : symExec regions prog σ = some σ') : Sim regions env s σ' (exec env prog m) := by
  induction prog generalizing σ m with
  | nil =>
    cases hp
    exact h
  | cons i prog ih =>
    simp only [symExec, List.foldlM_cons] at hp
    obtain ⟨σ1, hi, hrest⟩ := Option.bind_eq_some_iff.mp hp
    exact ih (sim_step hap h hi) hrest

theorem symExec_sound (hap : Apart regions s) {prog : List (Instr R)}
    (hp : symExec regions prog Sym.init = some σ) : Sim regions env s σ (exec env prog s) :=
  sim_exec hap sim_init hp

end Sound

end SymExec
