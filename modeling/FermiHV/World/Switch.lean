import FermiHV.Vcpu
import FermiHV.World.Code

/-!
# Context preservation across world switches

One symbolic run of the code of `vcpu_run_once` for each of the four guest vectors
(`switch_checked`) gives what every concrete run does: the guest starts with the
words of its `vcpu_t`, the words are afterwards what the guest left in the
registers, `__guest_enter` returns with the callee-saved registers and the stack
pointer of its caller, and no byte outside the `vcpu_t` and 112 bytes of stack
changes.

`vcpuAt_after` connects this to the view of the run loops: on the `vcpu_t` in
memory the code is `vcpuRunOnce`. `context_preserved` is the result over schedules
of any number of vCPUs, with the hypervisor writing to memory in between.
-/

namespace FermiHV.World

open ByteMem (Mem Covers Sep)
open SymExec (Instr Region Machine Sym Val exec word symExec lookup)

/-! ## 1. The symbolic run -/

/-- The `vcpu_t`, and the stack below the caller: twelve callee-saved registers
and the slot of the stub. -/
def regions : Reg → Region
  | .v => ⟨0, vcpuSize⟩
  | .sp => ⟨-112, 112⟩
  | _ => ⟨0, 0⟩

/-- The registers that have a field. -/
def contextRegs : List Reg := List.flatten [
  (List.finRange 31).map Reg.x,
  [.spEl0, .elrEl2, .spsrEl2],
  (List.finRange 32).flatMap fun i => [Reg.q i false, Reg.q i true],
  [.fpsr, .fpcr, .sctlrEl1, .cpacrEl1, .ttbr0El1, .ttbr1El1, .tcrEl1, .mairEl1, .amairEl1,
    .vbarEl1, .contextidrEl1, .spEl1, .elrEl1, .spsrEl1, .esrEl1, .farEl1, .tpidrEl0,
    .tpidrroEl0, .tpidrEl1],
  (List.finRange 4).map Reg.ichLr,
  [.ichVmcr, .ichAp1r0]]

theorem mem_contextRegs {r : Reg} {f : Field} (h : r.field = some f) : r ∈ contextRegs := by
  cases r with
  | q i hi => cases hi <;> simp [contextRegs]
  | _ => simp [contextRegs, Reg.field] at h ⊢

/-- The fields other than those of the context, with their values after a run. -/
def otherFields (idx : U64) : List (Field × Val Reg) :=
  [(.hypSp, .reg .sp (-96)), (.exitReason, .const idx), (.exitEsr, .env .esrEl2),
    (.exitFar, .env .farEl2), (.exitHpfar, .env .hpfarEl2), (.vttbr, .cell .v Field.vttbr.off),
    (.vmpidr, .cell .v Field.vmpidr.off), (.idHalted, .cell .v Field.idHalted.off)]

/-- x19..x30 and SP. -/
def calleeSaved : List Reg :=
  [.x 19, .x 20, .x 21, .x 22, .x 23, .x 24, .x 25, .x 26, .x 27, .x 28, .x 29, .x 30, .sp]

/-- The guest is entered with the words of its fields. -/
def LoadsContext (σ : Sym Reg) : Prop :=
  ∀ r ∈ contextRegs, ∀ f ∈ r.field, σ.regs r = .cell .v f.off

/-- The words of the fields are what the guest left. -/
def SavesContext (idx : U64) (σ : Sym Reg) : Prop :=
  (∀ r ∈ contextRegs, ∀ f ∈ r.field, lookup σ.cells .v f.off = .env r) ∧
    ∀ p ∈ otherFields idx, lookup σ.cells .v p.1.off = p.2

instance (σ : Sym Reg) : Decidable (LoadsContext σ) :=
  inferInstanceAs (Decidable (∀ r ∈ contextRegs, ∀ f ∈ r.field, σ.regs r = .cell .v f.off))

instance (idx : U64) (σ : Sym Reg) : Decidable (SavesContext idx σ) :=
  inferInstanceAs (Decidable (_ ∧ _))

/-- The states at the call, at the entry of the guest, at the return and at the
end, and what is to hold of them. -/
def switchCheck (idx : U64) : Option Bool := do
  let atCall ← symExec regions toCall Sym.init
  let atGuest ← symExec regions guestEnter atCall
  let atReturn ← symExec regions (fromGuest idx) atGuest
  let after ← symExec regions afterCall atReturn
  pure (LoadsContext atGuest ∧ (∀ r ∈ calleeSaved, atReturn.regs r = atCall.regs r) ∧
    SavesContext idx after)

/-- The vector through which the guest exits: sync, irq, fiq or serror. -/
def vecIdx (vec : Fin 4) : U64 := BitVec.ofNat 64 (8 + vec.val)

theorem switch_checked (vec : Fin 4) : switchCheck (vecIdx vec) = some true := by
  revert vec
  decide +kernel

/-! ## 2. One run -/

/-- A call of `vcpu_run_once` and what comes of it: the physical registers at the
call, those the guest leaves, and the vector through which it exits. -/
structure Run where
  regs : Reg → U64
  guest : Reg → U64
  vec : Fin 4

namespace Run

/-- The machine at the call `vcpu_run_once(p)`. -/
def start (run : Run) (p : U64) (m : Mem 64) : Machine Reg where
  regs := Function.update run.regs .v p
  mem := m

def atCall (run : Run) (p : U64) (m : Mem 64) : Machine Reg :=
  exec run.guest toCall (run.start p m)

/-- The guest is about to run. -/
def atGuest (run : Run) (p : U64) (m : Mem 64) : Machine Reg :=
  exec run.guest guestEnter (run.atCall p m)

/-- The guest has run and the exception has been taken. -/
def atExit (run : Run) (p : U64) (m : Mem 64) : Machine Reg :=
  exec run.guest guestRun (run.atGuest p m)

/-- `__guest_enter` has returned. -/
def atReturn (run : Run) (p : U64) (m : Mem 64) : Machine Reg :=
  exec run.guest (vecGuest (vecIdx run.vec) ++ guestExit) (run.atExit p m)

def after (run : Run) (p : U64) (m : Mem 64) : Machine Reg :=
  exec run.guest afterCall (run.atReturn p m)

/-- The stack that the switch uses does not overlap the `vcpu_t` at `p`. -/
def StackApart (run : Run) (p : U64) : Prop := Sep p vcpuSize (run.regs .sp + -112) 112

theorem atReturn_eq (run : Run) (p : U64) (m : Mem 64) :
    run.atReturn p m = exec run.guest (fromGuest (vecIdx run.vec)) (run.atGuest p m) := by
  rw [atReturn, atExit, ← SymExec.exec_append, ← List.append_assoc]
  rfl

/-- The stations are on one execution of the code. -/
theorem after_eq (run : Run) (p : U64) (m : Mem 64) :
    run.after p m = exec run.guest (runOnceCode (vecIdx run.vec)) (run.start p m) := by
  rw [after, atReturn_eq, atGuest, atCall]
  simp only [runOnceCode, SymExec.exec_append]

/-- The guest leaves its context registers as it likes. -/
theorem atExit_regs (run : Run) (p : U64) (m : Mem 64) {r : Reg} {f : Field}
    (h : r.field = some f) : (run.atExit p m).regs r = run.guest r := by
  have hw : r.guestWrites = true := by simp [Reg.guestWrites, h]
  exact if_pos hw

end Run

theorem start_v (run : Run) (p : U64) (m : Mem 64) : (run.start p m).regs .v = p := by
  simp [Run.start]

theorem start_sp (run : Run) (p : U64) (m : Mem 64) :
    (run.start p m).regs .sp = run.regs .sp := by
  simp [Run.start]

/-- Only the `vcpu_t` and the stack are regions. -/
theorem inRegion_iff {run : Run} {p : U64} {m : Mem 64} {r : Reg} {x : U64} :
    SymExec.InRegion regions (run.start p m) r x ↔
      (r = .v ∧ Covers p vcpuSize x) ∨ (r = .sp ∧ Covers (run.regs .sp + -112) 112 x) := by
  by_cases hv : r = .v
  · subst hv
    have hlo : p + (regions .v).lo = p := BitVec.add_zero p
    rw [SymExec.InRegion, start_v, hlo]
    exact ⟨fun h => .inl ⟨rfl, h⟩, fun h => h.elim (fun h => h.2) fun h => by cases h.1⟩
  · by_cases hsp : r = .sp
    · subst hsp
      rw [SymExec.InRegion, start_sp]
      exact ⟨fun h => .inr ⟨rfl, h⟩, fun h => h.elim (fun h => by cases h.1) fun h => h.2⟩
    · have hnone : (regions r).len = 0 := by
        unfold regions
        split <;> first | rfl | contradiction
      rw [SymExec.InRegion, hnone]
      exact ⟨fun h => absurd h (Nat.not_lt_zero _),
        fun h => h.elim (fun h => absurd h.1 hv) fun h => absurd h.1 hsp⟩

theorem apart_start {run : Run} {p : U64} (m : Mem 64) (h : run.StackApart p) :
    SymExec.Apart regions (run.start p m) := by
  intro r r' hne x hx hx'
  rw [inRegion_iff] at hx hx'
  rcases hx with ⟨rfl, hx⟩ | ⟨rfl, hx⟩ <;> rcases hx' with ⟨rfl, hx'⟩ | ⟨rfl, hx'⟩
  · exact hne rfl
  · exact h x hx hx'
  · exact h x hx' hx
  · exact hne rfl

theorem hasWord_off (f : Field) : (regions .v).hasWord f.off = true := by
  cases f with
  | x i => revert i; decide
  | q i hi => revert i hi; decide
  | ichLr i => revert i; decide
  | _ => decide

/-- What one call of `vcpu_run_once` does. -/
structure SwitchSpec (run : Run) (p : U64) (m : Mem 64) : Prop where
  loads : ∀ r f, r.field = some f → (run.atGuest p m).regs r = word m (p + f.off)
  returns : ∀ r ∈ calleeSaved, (run.atReturn p m).regs r = (run.atCall p m).regs r
  saves : ∀ r f, r.field = some f → word (run.after p m).mem (p + f.off) = run.guest r
  others : ∀ q ∈ otherFields (vecIdx run.vec),
    word (run.after p m).mem (p + q.1.off) = q.2.eval (run.start p m) run.guest
  frame : ∀ x, ¬ Covers p vcpuSize x → ¬ Covers (run.regs .sp + -112) 112 x →
    (run.after p m).mem x = m x

theorem switch_spec {run : Run} {p : U64} (m : Mem 64) (h : run.StackApart p) :
    SwitchSpec run p m := by
  have hap := apart_start m h
  have hcheck := switch_checked run.vec
  simp only [switchCheck, Option.bind_eq_bind, Option.bind_eq_some_iff, Option.pure_def,
    Option.some.injEq, decide_eq_true_eq] at hcheck
  obtain ⟨σa, ha, σb, hb, σc, hc, σd, hd, hloads, hreturns, hsaves, hothers⟩ := hcheck
  have sa : SymExec.Sim regions run.guest (run.start p m) σa (run.atCall p m) :=
    SymExec.symExec_sound hap ha
  have sb : SymExec.Sim regions run.guest (run.start p m) σb (run.atGuest p m) :=
    SymExec.sim_exec hap sa hb
  have sc : SymExec.Sim regions run.guest (run.start p m) σc (run.atReturn p m) := by
    rw [Run.atReturn_eq]
    exact SymExec.sim_exec hap sb hc
  have sd : SymExec.Sim regions run.guest (run.start p m) σd (run.after p m) :=
    SymExec.sim_exec hap sc hd
  have hword : ∀ f : Field, word (run.after p m).mem (p + f.off) =
      (lookup σd.cells .v f.off).eval (run.start p m) run.guest := by
    intro f
    have hcell := sd.cells .v f.off (hasWord_off f)
    rwa [start_v] at hcell
  refine ⟨fun r f hf => ?_, fun r hr => ?_, fun r f hf => ?_, fun q hq => ?_, fun x hx hx' => ?_⟩
  · rw [sb.regs r, hloads r (mem_contextRegs hf) f hf, Val.eval, start_v]
    rfl
  · rw [sc.regs r, sa.regs r, hreturns r hr]
  · rw [hword f, hsaves r (mem_contextRegs hf) f hf, Val.eval]
  · rw [hword q.1, hothers q hq]
  · refine sd.frame x fun r hr => ?_
    rcases inRegion_iff.mp hr with ⟨_, hc⟩ | ⟨_, hc⟩
    · exact hx hc
    · exact hx' hc

/-! ## 3. The `vcpu_t` in memory -/

/-- The `vcpu_t` at `p`. -/
def vcpuAt (m : Mem 64) (p : U64) : Vcpu where
  x := fun i => word m (p + (Field.x i).off)
  spEl0 := word m (p + Field.spEl0.off)
  pc := word m (p + Field.pc.off)
  pstate := word m (p + Field.pstate.off)
  hypSp := word m (p + Field.hypSp.off)
  exitReason := word m (p + Field.exitReason.off)
  exitEsr := word m (p + Field.exitEsr.off)
  exitFar := word m (p + Field.exitFar.off)
  exitHpfar := word m (p + Field.exitHpfar.off)
  q := fun i => word m (p + (Field.q i true).off) ++ word m (p + (Field.q i false).off)
  fpsr := word m (p + Field.fpsr.off)
  fpcr := word m (p + Field.fpcr.off)
  sctlrEl1 := word m (p + Field.sctlrEl1.off)
  cpacrEl1 := word m (p + Field.cpacrEl1.off)
  ttbr0El1 := word m (p + Field.ttbr0El1.off)
  ttbr1El1 := word m (p + Field.ttbr1El1.off)
  tcrEl1 := word m (p + Field.tcrEl1.off)
  mairEl1 := word m (p + Field.mairEl1.off)
  amairEl1 := word m (p + Field.amairEl1.off)
  vbarEl1 := word m (p + Field.vbarEl1.off)
  contextidrEl1 := word m (p + Field.contextidrEl1.off)
  spEl1 := word m (p + Field.spEl1.off)
  elrEl1 := word m (p + Field.elrEl1.off)
  spsrEl1 := word m (p + Field.spsrEl1.off)
  esrEl1 := word m (p + Field.esrEl1.off)
  farEl1 := word m (p + Field.farEl1.off)
  tpidrEl0 := word m (p + Field.tpidrEl0.off)
  tpidrroEl0 := word m (p + Field.tpidrroEl0.off)
  tpidrEl1 := word m (p + Field.tpidrEl1.off)
  ichLr := fun i => word m (p + (Field.ichLr i).off)
  ichVmcr := word m (p + Field.ichVmcr.off)
  ichAp1r0 := word m (p + Field.ichAp1r0.off)
  vttbr := word m (p + Field.vttbr.off)
  vmpidr := word m (p + Field.vmpidr.off)
  -- two `int`s in one word, little-endian
  id := (word m (p + Field.idHalted.off)).toNat % 2 ^ 32
  halted := word m (p + Field.idHalted.off) >>> 32 ≠ 0

/-- The context that the guest leaves. -/
def Run.ctx (run : Run) : GuestCtx where
  x := fun i => run.guest (.x i)
  spEl0 := run.guest .spEl0
  pc := run.guest .elrEl2
  pstate := run.guest .spsrEl2
  hypSp := run.regs .sp + -96
  exitReason := vecIdx run.vec
  exitEsr := run.guest .esrEl2
  exitFar := run.guest .farEl2
  exitHpfar := run.guest .hpfarEl2
  q := fun i => run.guest (.q i true) ++ run.guest (.q i false)
  fpsr := run.guest .fpsr
  fpcr := run.guest .fpcr
  sctlrEl1 := run.guest .sctlrEl1
  cpacrEl1 := run.guest .cpacrEl1
  ttbr0El1 := run.guest .ttbr0El1
  ttbr1El1 := run.guest .ttbr1El1
  tcrEl1 := run.guest .tcrEl1
  mairEl1 := run.guest .mairEl1
  amairEl1 := run.guest .amairEl1
  vbarEl1 := run.guest .vbarEl1
  contextidrEl1 := run.guest .contextidrEl1
  spEl1 := run.guest .spEl1
  elrEl1 := run.guest .elrEl1
  spsrEl1 := run.guest .spsrEl1
  esrEl1 := run.guest .esrEl1
  farEl1 := run.guest .farEl1
  tpidrEl0 := run.guest .tpidrEl0
  tpidrroEl0 := run.guest .tpidrroEl0
  tpidrEl1 := run.guest .tpidrEl1
  ichLr := fun i => run.guest (.ichLr i)
  ichVmcr := run.guest .ichVmcr
  ichAp1r0 := run.guest .ichAp1r0

/-- On the `vcpu_t` in memory the code is the `vcpuRunOnce` of the run loops. -/
theorem vcpuAt_after {run : Run} {p : U64} (m : Mem 64) (h : run.StackApart p) :
    vcpuAt (run.after p m).mem p = vcpuRunOnce run.ctx (vcpuAt m p) := by
  have hspec := switch_spec m h
  have hs := hspec.saves
  have hx : ∀ i, word (run.after p m).mem (p + (Field.x i).off) = run.guest (.x i) :=
    fun i => hs (.x i) _ rfl
  have hq : ∀ i hi, word (run.after p m).mem (p + (Field.q i hi).off) = run.guest (.q i hi) :=
    fun i hi => hs (.q i hi) _ rfl
  have hlr : ∀ i, word (run.after p m).mem (p + (Field.ichLr i).off) = run.guest (.ichLr i) :=
    fun i => hs (.ichLr i) _ rfl
  have ho := hspec.others
  simp only [otherFields, List.forall_mem_cons, Val.eval, start_v, start_sp] at ho
  obtain ⟨hsp, hreason, hesr, hfar, hhpfar, hvttbr, hvmpidr, hid, _⟩ := ho
  simp only [vcpuAt, vcpuRunOnce, Run.ctx, hx, hq, hlr, hsp, hreason, hesr, hfar, hhpfar, hvttbr,
    hvmpidr, hid, hs .spEl0 .spEl0 rfl, hs .elrEl2 .pc rfl, hs .spsrEl2 .pstate rfl,
    hs .fpsr .fpsr rfl, hs .fpcr .fpcr rfl, hs .sctlrEl1 .sctlrEl1 rfl,
    hs .cpacrEl1 .cpacrEl1 rfl, hs .ttbr0El1 .ttbr0El1 rfl, hs .ttbr1El1 .ttbr1El1 rfl,
    hs .tcrEl1 .tcrEl1 rfl, hs .mairEl1 .mairEl1 rfl, hs .amairEl1 .amairEl1 rfl,
    hs .vbarEl1 .vbarEl1 rfl, hs .contextidrEl1 .contextidrEl1 rfl, hs .spEl1 .spEl1 rfl,
    hs .elrEl1 .elrEl1 rfl, hs .spsrEl1 .spsrEl1 rfl, hs .esrEl1 .esrEl1 rfl,
    hs .farEl1 .farEl1 rfl, hs .tpidrEl0 .tpidrEl0 rfl, hs .tpidrroEl0 .tpidrroEl0 rfl,
    hs .tpidrEl1 .tpidrEl1 rfl, hs .ichVmcr .ichVmcr rfl, hs .ichAp1r0 .ichAp1r0 rfl]
  rfl

/-! ## 4. Schedules -/

/-- Any number of `vcpu_t` objects that do not overlap. -/
structure Layout (ι : Type) where
  ptr : ι → U64
  apart : ∀ c d, c ≠ d → Sep (ptr c) vcpuSize (ptr d) vcpuSize

/-- A call made on a stack that overlaps no `vcpu_t`. -/
structure Call {ι : Type} (L : Layout ι) extends Run where
  stack_apart : ∀ c, toRun.StackApart (L.ptr c)

/-- A store of the hypervisor. -/
structure Write where
  addr : U64
  n : Nat
  val : Nat

/-- A schedule is made of calls of `vcpu_run_once`, with any values in the
hypervisor's registers, and of stores between them. -/
inductive Slot {ι : Type} (L : Layout ι)
  | run (c : ι) (call : Call L)
  | hyp (writes : List Write)

section Schedule

variable {ι : Type} {L : Layout ι}

def Slot.apply (e : Slot L) (m : Mem 64) : Mem 64 :=
  match e with
  | .run c call => (call.after (L.ptr c) m).mem
  | .hyp ws => ws.foldl (fun m w => ByteMem.store m w.addr w.n w.val) m

/-- Memory after a schedule. -/
def sched (es : List (Slot L)) (m : Mem 64) : Mem 64 := es.foldl (fun m e => e.apply m) m

/-- The slot runs vCPU `c`. -/
def Slot.Runs (c : ι) : Slot L → Prop
  | .run d _ => d = c
  | .hyp _ => False

/-- The hypervisor does not write the word at `a` in the slot. -/
def Slot.Leaves (a : U64) : Slot L → Prop
  | .run _ _ => True
  | .hyp ws => ∀ w ∈ ws, Sep a 8 w.addr w.n

theorem covers_field {p x : U64} {f : Field} (hx : Covers (p + f.off) 8 x) :
    Covers p vcpuSize x := by
  have hregion := SymExec.covers_of_hasWord (hasWord_off f) hx
  rwa [show p + (regions .v).lo = p from BitVec.add_zero p] at hregion

/-- A run of one vCPU changes no byte of another's `vcpu_t`. -/
theorem after_of_other {c d : ι} (hne : d ≠ c) (call : Call L) (m : Mem 64) {x : U64}
    (hx : Covers (L.ptr c) vcpuSize x) : (call.after (L.ptr d) m).mem x = m x :=
  (switch_spec m (call.stack_apart d)).frame x (fun hd => L.apart d c hne x hd hx)
    (call.stack_apart c x hx)

theorem writes_of_sep {a x : U64} {ws : List Write} (h : ∀ w ∈ ws, Sep a 8 w.addr w.n)
    (hx : Covers a 8 x) (m : Mem 64) :
    ws.foldl (fun m w => ByteMem.store m w.addr w.n w.val) m x = m x := by
  induction ws generalizing m with
  | nil => rfl
  | cons w ws ih =>
    rw [List.foldl_cons, ih fun w' hw' => h w' (List.mem_cons_of_mem _ hw')]
    exact ByteMem.store_of_not_covers (h w List.mem_cons_self x hx)

/-- A slot that neither runs `c` nor writes the field keeps the field. -/
theorem apply_field {c : ι} {f : Field} {e : Slot L} (hrun : ¬ e.Runs c)
    (hleaves : e.Leaves (L.ptr c + f.off)) (m : Mem 64) {x : U64}
    (hx : Covers (L.ptr c + f.off) 8 x) : e.apply m x = m x := by
  cases e with
  | run d call => exact after_of_other hrun call m (covers_field hx)
  | hyp ws => exact writes_of_sep hleaves hx m

theorem sched_field {c : ι} {f : Field} {es : List (Slot L)} (hrun : ∀ e ∈ es, ¬ e.Runs c)
    (hleaves : ∀ e ∈ es, e.Leaves (L.ptr c + f.off)) (m : Mem 64) :
    word (sched es m) (L.ptr c + f.off) = word m (L.ptr c + f.off) := by
  have hbytes : ∀ x, Covers (L.ptr c + f.off) 8 x → sched es m x = m x := by
    intro x hx
    induction es generalizing m with
    | nil => rfl
    | cons e es ih =>
      have htail := ih (fun e' he' => hrun e' (List.mem_cons_of_mem _ he'))
        (fun e' he' => hleaves e' (List.mem_cons_of_mem _ he')) (e.apply m)
      rw [sched, List.foldl_cons, ← apply_field (hrun e List.mem_cons_self)
        (hleaves e List.mem_cons_self) m hx]
      exact htail
  rw [word, word, ByteMem.load_congr fun i hi => hbytes _ (ByteMem.covers_ofNat _ hi (by omega))]

/-- Two consecutive runs of `c` in a schedule, with runs of other vCPUs and stores
of the hypervisor between them: each register of the context that the hypervisor
did not write has at the second entry the value of the first exit. No run of
another vCPU changes a byte of `c`'s `vcpu_t`, and `__guest_enter` returns with
x19..x30 and SP as they were at its call. -/
theorem context_preserved (L : Layout ι) (m : Mem 64) (before between : List (Slot L)) (c : ι)
    (first second : Call L) (hother : ∀ e ∈ between, ¬ e.Runs c) :
    let m1 := sched before m
    let m2 := sched between (first.after (L.ptr c) m1).mem
    (∀ r f, r.field = some f → (∀ e ∈ between, e.Leaves (L.ptr c + f.off)) →
      (second.atGuest (L.ptr c) m2).regs r = (first.atExit (L.ptr c) m1).regs r) ∧
    (∀ d, d ≠ c → ∀ (call : Call L) (m : Mem 64) (x : U64), Covers (L.ptr c) vcpuSize x →
      (call.after (L.ptr d) m).mem x = m x) ∧
    ∀ d (call : Call L) (m : Mem 64), ∀ r ∈ calleeSaved,
      (call.atReturn (L.ptr d) m).regs r = (call.atCall (L.ptr d) m).regs r := by
  intro m1 m2
  refine ⟨fun r f hf hleaves => ?_, fun d hd call m x hx => after_of_other hd call m hx,
    fun d call m => (switch_spec m (call.stack_apart d)).returns⟩
  have hfirst := switch_spec m1 (first.stack_apart c)
  have hsecond := switch_spec m2 (second.stack_apart c)
  calc (second.atGuest (L.ptr c) m2).regs r
      = word m2 (L.ptr c + f.off) := hsecond.loads r f hf
    _ = word (first.after (L.ptr c) m1).mem (L.ptr c + f.off) := sched_field hother hleaves _
    _ = first.guest r := hfirst.saves r f hf
    _ = (first.atExit (L.ptr c) m1).regs r := (first.atExit_regs _ _ hf).symm

end Schedule

/-- `vcpus[0]` and `vcpus[1]`, one behind the other. -/
def twoVcpus : Layout (Fin 2) where
  ptr := fun c => if c = 0 then 0x40100000 else 0x40100420
  apart := by
    intro c d hne
    have hsep : Sep (0x40100000 : U64) vcpuSize 0x40100420 vcpuSize :=
      ByteMem.sep_of_le (by decide) (by decide) (by decide)
    fin_cases c <;> fin_cases d
    · exact absurd rfl hne
    · exact hsep
    · exact ByteMem.sep_comm hsep
    · exact absurd rfl hne

/-- A guest that leaves 7 in every register, run on a stack at 0x40200000. -/
def sevens : Call twoVcpus where
  regs := fun r => if r = .sp then 0x40200000 else 0
  guest := fun _ => 7
  vec := 0
  stack_apart := by
    intro c
    fin_cases c <;> exact ByteMem.sep_of_le (by decide) (by decide) (by decide)

/-- vCPU 1 runs, then the hypervisor moves vCPU 0 to its next instruction. -/
def skipSlice : List (Slot twoVcpus) :=
  [.run 1 sevens, .hyp [{ addr := 0x40100000 + Field.pc.off, n := 8, val := 11 }]]

theorem context_preserved_two_vcpus :
    (∀ e ∈ skipSlice, ¬ e.Runs 0) ∧
    (sevens.atGuest (twoVcpus.ptr 0) (sched skipSlice
      (sevens.after (twoVcpus.ptr 0) (sched skipSlice fun _ => 0)).mem)).regs (.x 5) = 7 := by
  have hother : ∀ e ∈ skipSlice, ¬ e.Runs 0 := by
    intro e he
    simp only [skipSlice, List.mem_cons, List.not_mem_nil, or_false] at he
    rcases he with rfl | rfl <;> simp [Slot.Runs]
  have hleaves : ∀ e ∈ skipSlice, e.Leaves (twoVcpus.ptr 0 + (Field.x 5).off) := by
    intro e he
    simp only [skipSlice, List.mem_cons, List.not_mem_nil, or_false] at he
    rcases he with rfl | rfl
    · trivial
    · simp only [Slot.Leaves, List.mem_singleton, forall_eq]
      exact ByteMem.sep_of_le (by decide) (by decide) (by decide)
  refine ⟨hother, ?_⟩
  rw [(context_preserved twoVcpus (fun _ => 0) skipSlice skipSlice 0 sevens sevens hother).1
    (.x 5) (.x 5) rfl hleaves]
  exact sevens.atExit_regs _ _ rfl

end FermiHV.World
