import FermiHV.El2Exception
import FermiHV.World.Code

/-!
# The trap path of the hypervisor (`vectors.S`)

An exception that is taken while the hypervisor runs goes through a `VEC` stub to
`el2_common`, which saves the registers in a frame below the stack pointer, calls
`el2_exception_dispatch` with it and returns with what the frame then holds. The two
halves of `el2_common` are straight-line code; one symbolic run each (`save_checked`,
`restore_checked`) gives what they do on every machine.

`trap_same`: a trap that returns changes no register of the interrupted code but the
exception registers, and no memory outside the scratch area of the dispatcher.
`traps_transparent` is the result over whole runs: code that is interrupted at any
points, any number of times, and that executes `BRK`s, computes what it computes alone.
-/

namespace FermiHV.World

open ByteMem (AgreeOn Covers Mem Sep)
open SymExec (Instr Machine Region Sym Val exec lookup symExec word)

/-! ## 1. `el2_common` -/

/-- `VEC idx` and `el2_common`, up to the call. -/
def el2Save (idx : U64) : Code := List.flatten [
  [.add .sp .sp (-288)],
  stp (.x 0) (.x 1) .sp 0,
  [.imm (.x 0) idx],
  stp (.x 2) (.x 3) .sp 16,
  stp (.x 4) (.x 5) .sp 32,
  stp (.x 6) (.x 7) .sp 48,
  stp (.x 8) (.x 9) .sp 64,
  stp (.x 10) (.x 11) .sp 80,
  stp (.x 12) (.x 13) .sp 96,
  stp (.x 14) (.x 15) .sp 112,
  stp (.x 16) (.x 17) .sp 128,
  stp (.x 18) (.x 19) .sp 144,
  stp (.x 20) (.x 21) .sp 160,
  stp (.x 22) (.x 23) .sp 176,
  stp (.x 24) (.x 25) .sp 192,
  stp (.x 26) (.x 27) .sp 208,
  stp (.x 28) (.x 29) .sp 224,
  [.str (.x 30) .sp 240],
  [.mov (.x 1) .elrEl2],
  [.str (.x 1) .sp 248],
  [.mov (.x 1) .spsrEl2],
  [.str (.x 1) .sp 256],
  [.mov (.x 1) .esrEl2],
  [.str (.x 1) .sp 264],
  [.mov (.x 1) .farEl2],
  [.str (.x 1) .sp 272],
  [.mov (.x 1) .sp]]

/-- `el2_common` from the call to the `eret`. -/
def el2Restore : Code := List.flatten [
  [.ldr (.x 1) .sp 248],
  [.mov .elrEl2 (.x 1)],
  [.ldr (.x 1) .sp 256],
  [.mov .spsrEl2 (.x 1)],
  ldp (.x 2) (.x 3) .sp 16,
  ldp (.x 4) (.x 5) .sp 32,
  ldp (.x 6) (.x 7) .sp 48,
  ldp (.x 8) (.x 9) .sp 64,
  ldp (.x 10) (.x 11) .sp 80,
  ldp (.x 12) (.x 13) .sp 96,
  ldp (.x 14) (.x 15) .sp 112,
  ldp (.x 16) (.x 17) .sp 128,
  ldp (.x 18) (.x 19) .sp 144,
  ldp (.x 20) (.x 21) .sp 160,
  ldp (.x 22) (.x 23) .sp 176,
  ldp (.x 24) (.x 25) .sp 192,
  ldp (.x 26) (.x 27) .sp 208,
  ldp (.x 28) (.x 29) .sp 224,
  [.ldr (.x 30) .sp 240],
  ldp (.x 0) (.x 1) .sp 0,
  [.add .sp .sp 288]]

/-- The offset of `x[i]` in the frame. -/
def xOff (i : Fin 31) : U64 := BitVec.ofNat 64 (8 * i.val)

/-- The frame at `p`. -/
def frameAt (m : Mem 64) (p : U64) : El2Frame where
  x := fun i => word m (p + xOff i)
  elr := word m (p + 248)
  spsr := word m (p + 256)
  esr := word m (p + 264)
  far := word m (p + 272)

/-! ## 2. Traps -/

/-- A processor at EL2. -/
structure Cpu where
  pc : U64
  pstate : U64
  m : Machine Reg

/-- What is not fixed by the code when an exception is taken: its syndrome, the values
of the registers that the dispatcher reads, and what the compiled dispatcher leaves in
the registers it need not preserve and in its scratch memory. -/
structure Trap where
  esr : U64
  far : U64
  iar : U64
  hpfar : U64
  left : Reg → U64
  scratch : Mem 64

/-- The registers that a C function need not preserve. -/
def callerSaved (r : Reg) : Bool :=
  match r with
  | .x i => i.val ≤ 18 || i.val = 30
  | _ => false

/-- The exception is taken. -/
def Cpu.atVector (t : Trap) (c : Cpu) : Machine Reg :=
  { c.m with
    regs := fun r =>
      match r with
      | .elrEl2 => c.pc
      | .spsrEl2 => c.pstate
      | .esrEl2 => t.esr
      | .farEl2 => t.far
      | _ => c.m.regs r }

/-- At the call of the dispatcher. -/
def Cpu.saved (idx : U64) (t : Trap) (c : Cpu) : Machine Reg :=
  exec (fun _ => 0) (el2Save idx) (c.atVector t)

/-- The dispatcher has returned, with `elr` in the frame. Its scratch area is `W`. -/
def dispatched (W : U64 → Bool) (t : Trap) (elr : U64) (m : Machine Reg) : Machine Reg where
  regs := fun r => if callerSaved r then t.left r else m.regs r
  mem := ByteMem.store
    (fun x => if ¬ Covers (m.regs .sp) 288 x ∧ W x = true then t.scratch x else m.mem x)
    (m.regs .sp + 248) 8 elr.toNat

/-- At the `eret`. -/
def restored (m : Machine Reg) : Machine Reg := exec (fun _ => 0) el2Restore m

/-- After the `eret`. -/
def resumed (m : Machine Reg) : Cpu where
  pc := (restored m).regs .elrEl2
  pstate := (restored m).regs .spsrEl2
  m := restored m

/-- A trap through the vector `idx`. There is no result if the dispatcher stops the
machine. -/
def trap (W : U64 → Bool) (idx : U64) (t : Trap) (c : Cpu) (g : El2) : Option (Cpu × El2) :=
  let m := c.saved idx t
  match el2ExceptionDispatch t.iar t.hpfar (m.regs (.x 0)) (frameAt m.mem (m.regs (.x 1))) g with
  | some (.ret f g) => some (resumed (dispatched W t f.elr m), g)
  | _ => none

/-! ## 3. The two halves -/

/-- The 288 bytes at the register `sp` plus `lo`. -/
def frameRegion (lo : U64) : Reg → Region
  | .sp => ⟨lo, 288⟩
  | _ => ⟨0, 0⟩

theorem inRegion_frame {lo : U64} {s : Machine Reg} {r : Reg} {x : U64}
    (h : SymExec.InRegion (frameRegion lo) s r x) : r = .sp ∧ Covers (s.regs .sp + lo) 288 x := by
  cases r with
  | sp => exact ⟨rfl, h⟩
  | _ => exact absurd h (Nat.not_lt_zero _)

theorem apart_frame (lo : U64) (s : Machine Reg) : SymExec.Apart (frameRegion lo) s := by
  intro r r' hne x hx hx'
  exact hne ((inRegion_frame hx).1.trans (inRegion_frame hx').1.symm)

/-- What stands in the frame, and the arguments of the call. -/
def SavesFrame (idx : U64) (σ : Sym Reg) : Prop :=
  (∀ i : Fin 31, lookup σ.cells .sp (-288 + xOff i) = .reg (.x i) 0) ∧
    lookup σ.cells .sp (-288 + 248) = .reg .elrEl2 0 ∧
    lookup σ.cells .sp (-288 + 256) = .reg .spsrEl2 0 ∧
    lookup σ.cells .sp (-288 + 264) = .reg .esrEl2 0 ∧
    σ.regs .sp = .reg .sp (-288) ∧ σ.regs (.x 0) = .const idx ∧ σ.regs (.x 1) = .reg .sp (-288)

/-- The registers are loaded from the frame. -/
def LoadsFrame (σ : Sym Reg) : Prop :=
  (∀ i : Fin 31, σ.regs (.x i) = .cell .sp (xOff i)) ∧
    σ.regs .elrEl2 = .cell .sp 248 ∧ σ.regs .spsrEl2 = .cell .sp 256 ∧
    σ.regs .sp = .reg .sp 288

instance (idx : U64) (σ : Sym Reg) : Decidable (SavesFrame idx σ) :=
  inferInstanceAs (Decidable (_ ∧ _))

instance (σ : Sym Reg) : Decidable (LoadsFrame σ) := inferInstanceAs (Decidable (_ ∧ _))

/-- The vectors of the hypervisor's own exceptions, which runs with `SP_EL2`. -/
inductive Own
  | sync
  | irq

def Own.idx : Own → U64
  | .sync => 4
  | .irq => 5

theorem save_checked (k : Own) :
    (symExec (frameRegion (-288)) (el2Save k.idx) Sym.init).any
      (fun σ => SavesFrame k.idx σ) = true := by
  cases k <;> decide +kernel

theorem restore_checked :
    (symExec (frameRegion 0) el2Restore Sym.init).any (fun σ => LoadsFrame σ) = true := by
  decide +kernel

/-- The registers that taking an exception sets. -/
def excReg (r : Reg) : Bool := r = .elrEl2 || r = .spsrEl2 || r = .esrEl2 || r = .farEl2

theorem atVector_regs {t : Trap} {c : Cpu} {r : Reg} (hr : excReg r = false) :
    (c.atVector t).regs r = c.m.regs r := by
  cases r <;> first | rfl | cases hr

/-- What the dispatcher is called with. -/
structure SavedSpec (k : Own) (t : Trap) (c : Cpu) : Prop where
  sp : (c.saved k.idx t).regs .sp = c.m.regs .sp + -288
  x0 : (c.saved k.idx t).regs (.x 0) = k.idx
  x1 : (c.saved k.idx t).regs (.x 1) = c.m.regs .sp + -288
  others : ∀ r ∉ [Reg.sp, .x 0, .x 1], excReg r = false →
    (c.saved k.idx t).regs r = c.m.regs r
  x : ∀ i, word (c.saved k.idx t).mem (c.m.regs .sp + -288 + xOff i) = c.m.regs (.x i)
  elr : word (c.saved k.idx t).mem (c.m.regs .sp + -288 + 248) = c.pc
  spsr : word (c.saved k.idx t).mem (c.m.regs .sp + -288 + 256) = c.pstate
  esr : word (c.saved k.idx t).mem (c.m.regs .sp + -288 + 264) = t.esr
  frame : ∀ x, ¬ Covers (c.m.regs .sp + -288) 288 x → (c.saved k.idx t).mem x = c.m.mem x

theorem el2Save_sets (k : Own) :
    (el2Save k.idx).all (Instr.setsOnly [.sp, .x 0, .x 1]) = true := by
  cases k <;> decide

theorem saved_spec (k : Own) (t : Trap) (c : Cpu) : SavedSpec k t c := by
  have hchecked := save_checked k
  rw [Option.any_eq_true] at hchecked
  obtain ⟨σ, hσ, hsaves⟩ := hchecked
  obtain ⟨hx, helr, hspsr, hesr, hsp, h0, h1⟩ := of_decide_eq_true hsaves
  have hsim : SymExec.Sim (frameRegion (-288)) (fun _ => 0) (c.atVector t) σ (c.saved k.idx t) :=
    SymExec.symExec_sound (apart_frame _ _) hσ
  have hword : ∀ o : U64, (frameRegion (-288) .sp).hasWord (-288 + o) = true →
      word (c.saved k.idx t).mem (c.m.regs .sp + -288 + o) =
        (lookup σ.cells .sp (-288 + o)).eval (c.atVector t) (fun _ => 0) := by
    intro o ho
    rw [BitVec.add_assoc]
    exact hsim.cells .sp _ ho
  refine ⟨?_, ?_, ?_, fun r hne hr => ?_, fun i => ?_, ?_, ?_, ?_, fun x hx => ?_⟩
  · rw [hsim.regs, hsp]
    rfl
  · rw [hsim.regs, h0]
    rfl
  · rw [hsim.regs, h1]
    rfl
  · rw [Cpu.saved, SymExec.exec_regs_of_setsOnly _ (el2Save_sets k) hne, atVector_regs hr]
  · rw [hword _ (by revert i; decide), hx i]
    exact BitVec.add_zero _
  · rw [hword _ (by decide), helr]
    exact BitVec.add_zero _
  · rw [hword _ (by decide), hspsr]
    exact BitVec.add_zero _
  · rw [hword _ (by decide), hesr]
    exact BitVec.add_zero _
  · exact hsim.frame x fun r hr => hx (inRegion_frame hr).2

/-! ## 4. A trap that returns -/

/-- The bytes below the stack pointer are scratch memory. -/
def Cpu.FrameFree (W : U64 → Bool) (c : Cpu) : Prop :=
  ∀ x, Covers (c.m.regs .sp + -288) 288 x → W x = true

/-- The same processor, up to the exception registers and scratch memory. -/
structure Same (W : U64 → Bool) (c d : Cpu) : Prop where
  pc : c.pc = d.pc
  pstate : c.pstate = d.pstate
  regs : ∀ r, excReg r = false → c.m.regs r = d.m.regs r
  mem : AgreeOn (fun x => W x = false) c.m.mem d.m.mem

section Return

variable {W : U64 → Bool} {k : Own} {t : Trap} {c : Cpu} {elr : U64}

/-- The words of the frame when the dispatcher returns. -/
theorem dispatched_word {m : Machine Reg} {o : U64}
    (ho : (frameRegion 0 .sp).hasWord o = true) :
    word (dispatched W t elr m).mem (m.regs .sp + o) =
      if o = 248 then elr else word m.mem (m.regs .sp + o) := by
  by_cases hsame : o = 248
  · rw [if_pos hsame, hsame]
    exact SymExec.word_store_self _ _ _
  · rw [if_neg hsame, dispatched,
      SymExec.word_store_sep (SymExec.sep_of_hasWord ho (by decide) hsame), word, word]
    refine congrArg _ (ByteMem.load_congr fun i hi => if_neg fun hout => hout.1 ?_)
    have hin := SymExec.covers_of_hasWord ho
      (ByteMem.covers_ofNat (m.regs .sp + o) hi (by decide))
    rwa [show m.regs .sp + (frameRegion 0 .sp).lo = m.regs .sp from BitVec.add_zero _] at hin

theorem dispatched_regs {m : Machine Reg} {r : Reg} (hr : callerSaved r = false) :
    (dispatched W t elr m).regs r = m.regs r := by
  rw [dispatched]
  simp only [hr, Bool.false_eq_true, if_false]

theorem dispatched_mem {m : Machine Reg} {x : U64} (hx : ¬ Covers (m.regs .sp) 288 x)
    (hW : W x = false) : (dispatched W t elr m).mem x = m.mem x := by
  have hout : ¬ Covers (m.regs .sp + 248) 8 x := fun hc =>
    hx (ByteMem.covers_of_offset (by decide) (by decide) hc)
  have hkept : ¬ (¬ Covers (m.regs .sp) 288 x ∧ W x = true) := by
    simp only [hW, Bool.false_eq_true, and_false, not_false_eq_true]
  simp only [dispatched, ByteMem.store_of_not_covers hout, if_neg hkept]

/-- The registers that the second half sets. -/
def restoredRegs : List Reg :=
  (List.finRange 31).map Reg.x ++ [.sp, .elrEl2, .spsrEl2]

theorem el2Restore_sets : el2Restore.all (Instr.setsOnly restoredRegs) = true := by
  decide

/-- What the second half loads. -/
structure ResumedSpec (m : Machine Reg) : Prop where
  pc : (resumed m).pc = word m.mem (m.regs .sp + 248)
  pstate : (resumed m).pstate = word m.mem (m.regs .sp + 256)
  x : ∀ i, (resumed m).m.regs (.x i) = word m.mem (m.regs .sp + xOff i)
  sp : (resumed m).m.regs .sp = m.regs .sp + 288
  others : ∀ r ∉ restoredRegs, (resumed m).m.regs r = m.regs r
  mem : ∀ x, ¬ Covers (m.regs .sp) 288 x → (resumed m).m.mem x = m.mem x

theorem resumed_spec (m : Machine Reg) : ResumedSpec m := by
  have hchecked := restore_checked
  rw [Option.any_eq_true] at hchecked
  obtain ⟨σ, hσ, hloads⟩ := hchecked
  obtain ⟨hx, helr, hspsr, hsp⟩ := of_decide_eq_true hloads
  have hsim : SymExec.Sim (frameRegion 0) (fun _ => 0) m σ (restored m) :=
    SymExec.symExec_sound (apart_frame _ _) hσ
  refine ⟨?_, ?_, fun i => ?_, ?_, fun r hr => ?_, fun x hx => ?_⟩
  · refine (hsim.regs .elrEl2).trans ?_
    rw [helr, Val.eval]
  · refine (hsim.regs .spsrEl2).trans ?_
    rw [hspsr, Val.eval]
  · refine (hsim.regs (.x i)).trans ?_
    rw [hx i, Val.eval]
  · refine (hsim.regs .sp).trans ?_
    rw [hsp, Val.eval]
  · exact SymExec.exec_regs_of_setsOnly _ el2Restore_sets hr m
  · refine hsim.frame x fun r hr => hx ?_
    have hin := (inRegion_frame hr).2
    rwa [show m.regs .sp + (0 : U64) = m.regs .sp from BitVec.add_zero _] at hin

/-- After the trap the interrupted code finds its registers and its memory. -/
theorem trap_same (hfree : c.FrameFree W) :
    Same W (resumed (dispatched W t elr (c.saved k.idx t))) { c with pc := elr } := by
  have hsaved := saved_spec k t c
  have hback := resumed_spec (dispatched W t elr (c.saved k.idx t))
  have hsp : (dispatched W t elr (c.saved k.idx t)).regs .sp = c.m.regs .sp + -288 := by
    rw [dispatched_regs rfl, hsaved.sp]
  have hword : ∀ o : U64, (frameRegion 0 .sp).hasWord o = true →
      word (dispatched W t elr (c.saved k.idx t)).mem
        ((dispatched W t elr (c.saved k.idx t)).regs .sp + o) =
        if o = 248 then elr else word (c.saved k.idx t).mem (c.m.regs .sp + -288 + o) := by
    intro o ho
    have hw := @dispatched_word W t elr (c.saved k.idx t) o ho
    rw [hsaved.sp] at hw
    rw [hsp]
    exact hw
  refine ⟨?_, ?_, fun r hr => ?_, fun x hx => ?_⟩
  · rw [hback.pc, hword _ (by decide), if_pos rfl]
  · rw [hback.pstate, hword _ (by decide), if_neg (by decide)]
    exact hsaved.spsr
  · by_cases hset : r ∈ restoredRegs
    · simp only [restoredRegs, List.mem_append, List.mem_map, List.mem_finRange, true_and,
        List.mem_cons, List.not_mem_nil, or_false] at hset
      rcases hset with ⟨i, rfl⟩ | rfl | rfl | rfl
      · rw [hback.x, hword _ (by revert i; decide), if_neg (by revert i; decide)]
        exact hsaved.x i
      · rw [hback.sp, hsp, BitVec.add_assoc]
        exact BitVec.add_zero _
      · cases hr
      · cases hr
    · have hcall : callerSaved r = false := by
        cases r with
        | x i => exact absurd (by simp [restoredRegs]) hset
        | _ => rfl
      have hnot : r ∉ [Reg.sp, .x 0, .x 1] := by
        intro hmem
        refine hset ?_
        simp only [List.mem_cons, List.not_mem_nil, or_false] at hmem
        rcases hmem with rfl | rfl | rfl <;> decide
      rw [hback.others r hset, dispatched_regs hcall, hsaved.others r hnot hr]
  · have hout : ¬ Covers (c.m.regs .sp + -288) 288 x := fun hc => by
      have hscratch : W x = false := hx
      rw [hfree x hc] at hscratch
      cases hscratch
    have hdisp := @dispatched_mem W t elr (c.saved k.idx t) x
    rw [hsaved.sp] at hdisp
    have hmem := hback.mem x
    rw [hsp] at hmem
    rw [hmem hout, hdisp hout hx, hsaved.frame x hout]

theorem frameAt_saved_elr (k : Own) (t : Trap) (c : Cpu) :
    (frameAt (c.saved k.idx t).mem ((c.saved k.idx t).regs (.x 1))).elr = c.pc := by
  rw [(saved_spec k t c).x1]
  exact (saved_spec k t c).elr

theorem frameAt_saved_esr (k : Own) (t : Trap) (c : Cpu) :
    (frameAt (c.saved k.idx t).mem ((c.saved k.idx t).regs (.x 1))).esr = t.esr := by
  rw [(saved_spec k t c).x1]
  exact (saved_spec k t c).esr

/-- A trap whose dispatcher returns. -/
theorem trap_of_effect {k : Own} {t : Trap} {c : Cpu} {g g' : El2} {f : El2Frame}
    (heffect : el2Effect t.iar t.hpfar k.idx
      (frameAt (c.saved k.idx t).mem ((c.saved k.idx t).regs (.x 1))) g = .ret f g')
    (helr : f.elr = elr) : ∃ text, trap W k.idx t c g =
      some (resumed (dispatched W t elr (c.saved k.idx t)), g'.prints text) := by
  obtain ⟨text, hdispatch⟩ := dispatch_eq t.iar t.hpfar k.idx
    (frameAt (c.saved k.idx t).mem ((c.saved k.idx t).regs (.x 1))) g
  refine ⟨text, ?_⟩
  rw [heffect] at hdispatch
  rw [trap, (saved_spec k t c).x0, hdispatch, ← helr]
  rfl

theorem trap_irq (t : Trap) (c : Cpu) (g : El2) : ∃ text, trap W (Own.idx .irq) t c g =
    some (resumed (dispatched W t c.pc (c.saved (Own.idx .irq) t)),
      (g.irqEffect t.iar).prints text) :=
  trap_of_effect (el2Effect_irq (by decide) _ _ _ _) (frameAt_saved_elr .irq t c)

theorem trap_brk {t : Trap} (hesr : esrEc t.esr = ecBrk) (c : Cpu) (g : El2) :
    ∃ text, trap W (Own.idx .sync) t c g =
      some (resumed (dispatched W t (c.pc + 4) (c.saved (Own.idx .sync) t)), g.prints text) := by
  have hec := frameAt_saved_esr .sync t c
  have heffect := @el2Effect_brk (Own.idx .sync) _ (by decide) (hec ▸ hesr) t.iar t.hpfar g
  exact trap_of_effect heffect (congrArg (· + 4) (frameAt_saved_elr .sync t c))

end Return

/-! ## 5. Interrupted code -/

/-- An instruction of the hypervisor. -/
inductive HypInstr
  | data (i : Instr Reg)
  | cbz (r : Reg) (target : U64)
  | br (r : Reg)
  | brk (imm : U16)

/-- What the instruction does, if a `BRK` is stepped over. -/
def HypInstr.next (i : HypInstr) (c : Cpu) : Cpu :=
  match i with
  | .data i => { c with pc := c.pc + 4, m := SymExec.step (fun _ => 0) i c.m }
  | .cbz r target => { c with pc := if c.m.regs r = 0 then target else c.pc + 4 }
  | .br r => { c with pc := c.m.regs r }
  | .brk _ => { c with pc := c.pc + 4 }

/-- The code without exceptions. -/
def alone (prog : U64 → HypInstr) (c : Cpu) : Cpu := (prog c.pc).next c

/-- `ESR_EL2` after `BRK #imm`. -/
def brkEsr (imm : U16) : U64 := 0xF2000000 ||| imm.setWidth 64

/-- The next instruction, with the trap that it makes if it is a `BRK`, or an interrupt
before it. -/
inductive El2Slot
  | step (t : Trap)
  | irq (t : Trap)

def El2Slot.run (W : U64 → Bool) (prog : U64 → HypInstr) (s : Cpu × El2) :
    El2Slot → Option (Cpu × El2)
  | .step t =>
    match prog s.1.pc with
    | .brk imm => trap W (Own.idx .sync) { t with esr := brkEsr imm } s.1 s.2
    | i => some (i.next s.1, s.2)
  | .irq t => trap W (Own.idx .irq) t s.1 s.2

def El2Slot.isStep : El2Slot → Bool
  | .step _ => true
  | .irq _ => false

/-- The interrupt of the timer. -/
def El2Slot.ticks : El2Slot → Bool
  | .step _ => false
  | .irq t => (t.iar &&& 0xFFFFFF).setWidth 32 = (26 : U32)

/-- What is to be ended in the GIC. -/
def El2Slot.eois : El2Slot → List U64
  | .step _ => []
  | .irq t => if (t.iar &&& 0xFFFFFF).setWidth 32 < (1020 : U32) then [t.iar] else []

/-- The instruction reads no exception register, and no byte of scratch memory. -/
def HypInstr.Clear (W : U64 → Bool) (c : Cpu) : HypInstr → Prop
  | .data (.mov _ r) | .data (.add _ r _) | .cbz r _ | .br r => excReg r = false
  | .data (.ldr _ b off) =>
    excReg b = false ∧ ∀ x, Covers (c.m.regs b + off) 8 x → W x = false
  | .data (.str r b _) => excReg r = false ∧ excReg b = false
  | .data (.imm _ _) | .brk _ => True
  | .data (.havoc _) => False

section Code

variable {W : U64 → Bool} {prog : U64 → HypInstr} {c d : Cpu}

theorem Same.trans {e : Cpu} (h : Same W c d) (h' : Same W d e) : Same W c e where
  pc := h.pc.trans h'.pc
  pstate := h.pstate.trans h'.pstate
  regs := fun r hr => (h.regs r hr).trans (h'.regs r hr)
  mem := fun x hx => (h.mem x hx).trans (h'.mem x hx)

theorem Same.frameFree (h : Same W c d) (hd : d.FrameFree W) : c.FrameFree W := by
  intro x hx
  rw [h.regs .sp rfl] at hx
  exact hd x hx

theorem Same.setPc (h : Same W c d) {a b : U64} (hab : a = b) :
    Same W { c with pc := a } { d with pc := b } :=
  ⟨hab, h.pstate, h.regs, h.mem⟩

/-- Both set the register `dst` to the same value. -/
theorem Same.set (h : Same W c d) (dst : Reg) {v v' : U64} (hv : v = v') :
    Same W { c with pc := c.pc + 4, m := { c.m with regs := Function.update c.m.regs dst v } }
      { d with pc := d.pc + 4, m := { d.m with regs := Function.update d.m.regs dst v' } } where
  pc := congrArg (· + 4) h.pc
  pstate := h.pstate
  regs := by
    intro r hr
    by_cases hdst : r = dst
    · subst hdst
      simp only [Function.update_self, hv]
    · simp only [Function.update_of_ne hdst, h.regs r hr]
  mem := h.mem

/-- An instruction does the same in both. -/
theorem Same.next (h : Same W c d) {i : HypInstr} (hclear : i.Clear W d) :
    Same W (i.next c) (i.next d) := by
  have hpc := congrArg (· + 4) h.pc
  cases i with
  | cbz r target =>
    refine h.setPc ?_
    rw [h.regs r hclear, h.pc]
  | br r => exact h.setPc (h.regs r hclear)
  | brk imm => exact h.setPc hpc
  | data i =>
    cases i with
    | mov dst r => exact h.set dst (h.regs r hclear)
    | imm dst n => exact h.set dst rfl
    | add dst r n => exact h.set dst (congrArg (· + n) (h.regs r hclear))
    | ldr dst b off =>
      refine h.set dst ?_
      have hload := h.mem.load fun i (hi : i < 8) =>
        hclear.2 _ (ByteMem.covers_ofNat (d.m.regs b + off) hi (by decide))
      rw [h.regs b hclear.1, word, word, hload]
    | str r b off =>
      refine ⟨hpc, h.pstate, h.regs, ?_⟩
      simp only [HypInstr.next, SymExec.step, h.regs r hclear.1, h.regs b hclear.2]
      exact h.mem.store _ _ _
    | havoc p => exact hclear.elim

theorem esrEc_brkEsr (imm : U16) : esrEc (brkEsr imm) = ecBrk := by
  have himm := imm.isLt
  have hor : (brkEsr imm).toNat = 0xF2000000 + imm.toNat := by
    have hwide : (imm.setWidth 64).toNat = imm.toNat := by
      rw [BitVec.toNat_setWidth]
      omega
    rw [brkEsr, Bits.toNat_or_low (k := 16) (by decide) (by omega), hwide]
    rfl
  refine BitVec.eq_of_toNat_eq ?_
  have hmask : ((brkEsr imm >>> 26) &&& 0x3F).toNat = (brkEsr imm).toNat / 2 ^ 26 % 2 ^ 6 := by
    rw [← Bits.toNat_shiftRight]
    exact @Bits.toNat_and_mask 64 _ 6 (by decide)
  rw [esrEc, hmask, hor]
  change _ = 0x3C
  omega

/-- One slot: an interrupt leaves the code where it is, a step does what the instruction
does alone. -/
theorem slot_same (slot : El2Slot) {g : El2} (h : Same W c d) (hfree : d.FrameFree W)
    (hclear : slot.isStep = true → (prog d.pc).Clear W d) : ∃ c' g',
      slot.run W prog (c, g) = some (c', g') ∧
      Same W c' (if slot.isStep then alone prog d else d) ∧
      g'.timer = (if slot.ticks then hyptimerOnIrq g.timer else g.timer) ∧
      g'.eois = g.eois ++ slot.eois ∧ g'.s2 = g.s2 := by
  cases slot with
  | irq t =>
    obtain ⟨text, htrap⟩ := @trap_irq W t c g
    have hback : Same W _ { c with pc := c.pc } :=
      @trap_same W .irq t c c.pc (h.frameFree hfree)
    refine ⟨_, _, htrap, hback.trans h, ?_, ?_, rfl⟩
    · simp only [El2.prints, El2.irqEffect, El2Slot.ticks, decide_eq_true_eq]
    · simp only [El2.prints, El2.irqEffect, El2Slot.eois]
      split_ifs
      · rfl
      · rw [List.append_nil]
  | step t =>
    have hcl := hclear rfl
    have hnext := h.next hcl
    simp only [El2Slot.run, El2Slot.isStep, El2Slot.ticks, El2Slot.eois, if_true, alone,
      List.append_nil, Bool.false_eq_true, if_false, h.pc]
    cases hi : prog d.pc with
    | brk imm =>
      rw [hi] at hnext
      have hesr : esrEc ({ t with esr := brkEsr imm } : Trap).esr = ecBrk := esrEc_brkEsr imm
      obtain ⟨text, htrap⟩ := @trap_brk W _ hesr c g
      have hback : Same W _ { c with pc := c.pc + 4 } :=
        @trap_same W .sync { t with esr := brkEsr imm } c (c.pc + 4) (h.frameFree hfree)
      exact ⟨_, _, htrap, hback.trans hnext, rfl, rfl, rfl⟩
    | data i =>
      rw [hi] at hnext
      exact ⟨_, _, rfl, hnext, rfl, rfl, rfl⟩
    | cbz r target =>
      rw [hi] at hnext
      exact ⟨_, _, rfl, hnext, rfl, rfl, rfl⟩
    | br r =>
      rw [hi] at hnext
      exact ⟨_, _, rfl, hnext, rfl, rfl, rfl⟩

/-- The run, from a processor that is the same as `d`. -/
theorem run_same {slots : List El2Slot} {g : El2} (h : Same W c d)
    (hfree : ∀ n ≤ slots.countP El2Slot.isStep, ((alone prog)^[n] d).FrameFree W)
    (hclear : ∀ n < slots.countP El2Slot.isStep,
      (prog ((alone prog)^[n] d).pc).Clear W ((alone prog)^[n] d)) : ∃ c' g',
      slots.foldlM (El2Slot.run W prog) (c, g) = some (c', g') ∧
      Same W c' ((alone prog)^[slots.countP El2Slot.isStep] d) ∧
      g'.timer = hyptimerOnIrq^[slots.countP El2Slot.ticks] g.timer ∧
      g'.eois = g.eois ++ slots.flatMap El2Slot.eois ∧ g'.s2 = g.s2 := by
  induction slots generalizing c d g with
  | nil => exact ⟨c, g, rfl, h, rfl, (List.append_nil _).symm, rfl⟩
  | cons slot slots ih =>
    obtain ⟨c1, g1, hrun, hsame, htimer, heois, hs2⟩ := slot_same slot (g := g) h
      (hfree 0 (Nat.zero_le _)) (fun hstep => hclear 0 (by simp [hstep]))
    -- the instructions of the others begin where this slot leaves the code
    have hshift : ∀ n, (alone prog)^[n] (if slot.isStep then alone prog d else d) =
        (alone prog)^[n + if slot.isStep then 1 else 0] d := by
      intro n
      cases slot.isStep with
      | true => rfl
      | false => rfl
    have hcount : (slot :: slots).countP El2Slot.isStep =
        slots.countP El2Slot.isStep + if slot.isStep then 1 else 0 := List.countP_cons
    rw [hcount] at hfree hclear ⊢
    obtain ⟨c2, g2, hrun2, hsame2, htimer2, heois2, hs22⟩ := ih (g := g1) hsame
      (fun n hn => by
        rw [hshift]
        exact hfree _ (Nat.add_le_add_right hn _))
      (fun n hn => by
        rw [hshift]
        exact hclear _ (Nat.add_lt_add_right hn _))
    refine ⟨c2, g2, ?_, ?_, ?_, ?_, ?_⟩
    · rw [List.foldlM_cons, hrun]
      exact hrun2
    · rw [← hshift]
      exact hsame2
    · rw [htimer2, htimer, List.countP_cons]
      cases slot.ticks with
      | true => rfl
      | false => rfl
    · rw [heois2, heois, List.flatMap_cons, List.append_assoc]
    · rw [hs22, hs2]

end Code

/-- A megabyte of stack. -/
def stackArea (x : U64) : Bool := 0x40100000 ≤ x.toNat && x.toNat < 0x40200000

theorem stackArea_free {c : Cpu} (hsp : c.m.regs .sp = 0x40200000) : c.FrameFree stackArea := by
  intro x hx
  rw [hsp, ByteMem.covers_iff (by decide)] at hx
  have hbase : ((0x40200000 : U64) + -288).toNat = 0x401FFEE0 := by decide
  rw [hbase] at hx
  simp only [stackArea, Bool.and_eq_true, decide_eq_true_eq]
  omega

/-- `x2 += 5`, then the `BRK` of `hv_main`. -/
def brkDemo (pc : U64) : HypInstr :=
  if pc = 0x40080000 then .data (.add (.x 2) (.x 2) 5) else .brk 0xBEEF

def brkDemoCpu : Cpu where
  pc := 0x40080000
  pstate := 0x3C9
  m := { regs := fun r => if r = .sp then 0x40200000 else 7, mem := fun _ => 0 }

def brkDemoEl2 : El2 where
  timer := hyptimerStart 100 0 { freq := 62500000, interval := 0, ticks := 0, cval := 0, ctl := 0 }
  s2 := { s2L1 := fun _ => 0, s2Vm := fun _ _ => 0, vtcr := 0 }
  out := []
  eois := []

/-- An exception during which the dispatcher overwrites what it may. -/
def demoTrap (iar : U64) : Trap where
  esr := 0
  far := 0
  iar
  hpfar := 0
  left := fun _ => 0xDEAD
  scratch := fun _ => 0xFF

/-- Two instructions with a tick of the timer before each. -/
def brkDemoSlots : List El2Slot :=
  [.irq (demoTrap 26), .step (demoTrap 0), .irq (demoTrap 26), .step (demoTrap 0)]

end FermiHV.World
