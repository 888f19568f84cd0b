import FermiHV.HypTimer
import FermiHV.Stage2

/-!
# Exceptions taken by the hypervisor itself (`exception.c`)

`el2_exception_dispatch` gets the number of the vector and the trap frame that
`vectors.S` has built. It handles interrupts, hypercalls, stage-2 aborts and `BRK`, and
stops the machine at any other exception. Everything it does is reported on the console.

`dispatch_eq` separates the two: the reports always succeed, since every format gets the
arguments it takes, and what is left is `el2Effect`.
-/

namespace FermiHV

open Uart (Arg ArgKind CStr ascii kinds parse render uartPrintf uartPrintln)

/-! ## 1. The dispatcher -/

/-- `struct el2_frame`. -/
structure El2Frame where
  x : Fin 31 → U64
  elr : U64
  spsr : U64
  esr : U64
  far : U64

/-- What the dispatcher changes: the timer, the stage-2 tables, the console, and the
interrupts it has ended in the GIC. -/
structure El2 where
  timer : HypTimer
  s2 : Stage2
  out : List U8
  eois : List U64

inductive Outcome
  | ret (f : El2Frame) (s : El2)
  /-- `for (;;) wfi`. -/
  | halt (s : El2)

def El2.printf (fmt : CStr) (args : List Arg) (s : El2) : Option El2 :=
  (uartPrintf fmt args s.out).map fun r => { s with out := r.2 }

def El2.println (text : CStr) (s : El2) : Option El2 :=
  (uartPrintln text s.out).map fun r => { s with out := r.2 }

/-- A string constant. -/
def lit (s : String) (h : 0 ∉ ascii s) : CStr := ⟨ascii s, h⟩

/-- `vector_name`. -/
def vectorName (idx : U64) : CStr :=
  if idx < 4 then lit "CurEL/SP0" (by decide)
  else if idx < 8 then lit "CurEL/SPx" (by decide)
  else if idx < 12 then lit "LowerEL/A64" (by decide)
  else lit "LowerEL/A32" (by decide)

/-- `ec_name`. -/
def ecName (ec : U64) : CStr :=
  if ec = 0x00 then lit "UNKNOWN" (by decide)
  else if ec = 0x01 then lit "WFx" (by decide)
  else if ec = 0x07 then lit "FP/SIMD-trap" (by decide)
  else if ec = ecHvc64 then lit "HVC64" (by decide)
  else if ec = ecSmc64 then lit "SMC64" (by decide)
  else if ec = ecSysreg then lit "MSR/MRS-trap" (by decide)
  else if ec = ecIabtLow then lit "IABT-lower" (by decide)
  else if ec = 0x21 then lit "IABT-curEL" (by decide)
  else if ec = 0x22 then lit "PC-align" (by decide)
  else if ec = ecDabtLow then lit "DABT-lower" (by decide)
  else if ec = 0x25 then lit "DABT-curEL" (by decide)
  else if ec = 0x26 then lit "SP-align" (by decide)
  else if ec = 0x2F then lit "SError" (by decide)
  else if ec = ecBrk then lit "BRK" (by decide)
  else lit "?" (by decide)

def tickFmt : CStr := lit "[IRQ] EL2 timer tick #%u (intid=%u)\n" (by decide +kernel)
def unexpectedFmt : CStr := lit "[IRQ] unexpected intid=%u\n" (by decide +kernel)
def excFmt : CStr := lit "[EL2-EXC] %s idx=%u ec=%x (%s) iss=%x\n" (by decide +kernel)
def excRegsFmt : CStr := lit "          elr=%x spsr=%x far=%x\n" (by decide +kernel)
def hvcFmt : CStr :=
  lit "          HVC #%x from guest, x0=%x -> handled, resuming\n" (by decide +kernel)
def abortFmt : CStr := lit "          stage-2 %s: guest_va=%x ipa=%x\n" (by decide +kernel)
def faultInFmt : CStr :=
  lit "          faulting in 1GiB block @%x and retrying\n" (by decide +kernel)
def brkFmt : CStr := lit "          BRK #%x -> advancing ELR, recovering\n" (by decide +kernel)
def unhandledText : CStr := lit "[EL2-EXC] unhandled exception, halting" (by decide +kernel)

/-- The interrupt acknowledged with `iar`; 1020 and above are special. -/
def El2.irq (iar : U64) (s : El2) : Option El2 := do
  let intid : U32 := (iar &&& 0xFFFFFF).setWidth 32
  let s ←
    if intid = 26 then
      let s := { s with timer := hyptimerOnIrq s.timer }
      s.printf tickFmt [.word (hyptimerTicks s.timer), .word (intid.setWidth 64)]
    else if intid < 1020 then s.printf unexpectedFmt [.word (intid.setWidth 64)]
    else pure s
  pure (if intid < 1020 then { s with eois := s.eois ++ [iar] } else s)

/-- The 1 GiB block of the address in `HPFAR_EL2` is mapped; the guest retries. -/
def El2.abort (ec hpfar : U64) (f : El2Frame) (s : El2) : Option El2 := do
  let ipa := (hpfar >>> 4) <<< 12
  let s ← s.printf abortFmt
    [.str (some (if ec = ecDabtLow then lit "data-abort" (by decide)
      else lit "insn-abort" (by decide))), .word f.far, .word ipa]
  let s ← s.printf faultInFmt [.word (blockBase ipa)]
  pure { s with s2 := stage2Map1gb (blockBase ipa) s.s2 }

/-- `el2_exception_dispatch`; `gic_ack` would return `iar`, and `hpfar` is in `HPFAR_EL2`. -/
def el2ExceptionDispatch (iar hpfar idx : U64) (f : El2Frame) (s : El2) : Option Outcome :=
  if idx &&& 3 = 1 then do
    let s ← s.irq iar
    pure (.ret f s)
  else do
    let ec := esrEc f.esr
    let s ← s.printf excFmt [.str (some (vectorName idx)), .word idx, .word ec,
      .str (some (ecName ec)), .word (esrIss f.esr)]
    let s ← s.printf excRegsFmt [.word f.elr, .word f.spsr, .word f.far]
    if ec = ecHvc64 then
      let s ← s.printf hvcFmt [.word (esrIss f.esr &&& 0xFFFF), .word (f.x 0)]
      pure (.ret f s)
    else if ec = ecDabtLow ∨ ec = ecIabtLow then
      let s ← s.abort ec hpfar f
      pure (.ret f s)
    else if ec = ecBrk then
      let s ← s.printf brkFmt [.word (esrIss f.esr &&& 0xFFFF)]
      -- a `BRK` is four bytes long
      pure (.ret { f with elr := f.elr + 4 } s)
    else
      let s ← s.println unhandledText
      pure (.halt s)

/-! ## 2. What it does besides printing -/

def El2.irqEffect (iar : U64) (s : El2) : El2 :=
  let intid : U32 := (iar &&& 0xFFFFFF).setWidth 32
  { s with
    timer := if intid = 26 then hyptimerOnIrq s.timer else s.timer
    eois := if intid < 1020 then s.eois ++ [iar] else s.eois }

def el2Effect (iar hpfar idx : U64) (f : El2Frame) (s : El2) : Outcome :=
  let ec := esrEc f.esr
  if idx &&& 3 = 1 then .ret f (s.irqEffect iar)
  else if ec = ecHvc64 then .ret f s
  else if ec = ecDabtLow ∨ ec = ecIabtLow then
    .ret f { s with s2 := stage2Map1gb (blockBase ((hpfar >>> 4) <<< 12)) s.s2 }
  else if ec = ecBrk then .ret { f with elr := f.elr + 4 } s
  else .halt s

theorem el2Effect_irq {idx : U64} (hirq : idx &&& 3 = 1) (iar hpfar : U64) (f : El2Frame)
    (s : El2) : el2Effect iar hpfar idx f s = .ret f (s.irqEffect iar) := if_pos hirq

theorem el2Effect_brk {idx : U64} {f : El2Frame} (hirq : idx &&& 3 ≠ 1)
    (hec : esrEc f.esr = ecBrk) (iar hpfar : U64) (s : El2) :
    el2Effect iar hpfar idx f s = .ret { f with elr := f.elr + 4 } s := by
  rw [el2Effect, if_neg hirq, hec, if_neg (by decide), if_neg (by decide), if_pos rfl]

def El2.prints (text : List U8) (s : El2) : El2 := { s with out := s.out ++ text }

def Outcome.prints (text : List U8) : Outcome → Outcome
  | .ret f s => .ret f (s.prints text)
  | .halt s => .halt (s.prints text)

theorem prints_prints (t u : List U8) (s : El2) : (s.prints t).prints u = s.prints (t ++ u) := by
  simp only [El2.prints, List.append_assoc]

/-- A print whose format gets the arguments it takes. -/
theorem printf_prints_text {fmt : CStr} (args : List Arg)
    (hargs : kinds (parse fmt.bytes) = args.map Arg.kind) (s : El2) :
    ∃ text, s.printf fmt args = some (s.prints text) := by
  have hsome : (render (parse fmt.bytes) args).isSome = true := by
    rw [Uart.render_isSome_iff, hargs]
  obtain ⟨text, htext⟩ := Option.isSome_iff_exists.mp hsome
  refine ⟨text, ?_⟩
  rw [El2.printf, (Uart.printf_prints fmt args text).mpr htext]
  rfl

theorem println_prints_text (text : CStr) (s : El2) : ∃ t, s.println text = some (s.prints t) := by
  refine ⟨text.bytes.flatMap Uart.crlf ++ [Uart.chr '\r', Uart.chr '\n'], ?_⟩
  rw [El2.println, Uart.emits_uartPrintln text s.out]
  rfl

theorem irq_eq (iar : U64) (s : El2) :
    ∃ text, s.irq iar = some ((s.irqEffect iar).prints text) := by
  simp only [El2.irq, El2.irqEffect]
  by_cases htick : (iar &&& 0xFFFFFF).setWidth 32 = (26 : U32)
  · have hkinds : kinds (parse tickFmt.bytes) = [.word, .word] := by decide +kernel
    obtain ⟨text, hprint⟩ := printf_prints_text [.word _, .word _] hkinds
      { s with timer := hyptimerOnIrq s.timer }
    refine ⟨text, ?_⟩
    simp only [htick, if_true]
    rw [hprint]
    rfl
  · by_cases hspecial : (iar &&& 0xFFFFFF).setWidth 32 < (1020 : U32)
    · have hkinds : kinds (parse unexpectedFmt.bytes) = [.word] := by decide +kernel
      obtain ⟨text, hprint⟩ := printf_prints_text [.word _] hkinds s
      refine ⟨text, ?_⟩
      simp only [htick, hspecial, if_true, if_false]
      rw [hprint]
      rfl
    · refine ⟨[], ?_⟩
      simp only [htick, hspecial, if_false, El2.prints, List.append_nil]
      rfl

theorem abort_eq (ec hpfar : U64) (f : El2Frame) (s : El2) : ∃ text, s.abort ec hpfar f =
    some ({ s with s2 := stage2Map1gb (blockBase ((hpfar >>> 4) <<< 12)) s.s2 }.prints text) := by
  have habort : kinds (parse abortFmt.bytes) = [.str, .word, .word] := by decide +kernel
  have hfault : kinds (parse faultInFmt.bytes) = [.word] := by decide +kernel
  obtain ⟨t, ht⟩ := printf_prints_text [.str (some (if ec = ecDabtLow then
    lit "data-abort" (by decide) else lit "insn-abort" (by decide))), .word f.far,
    .word ((hpfar >>> 4) <<< 12)] habort s
  obtain ⟨u, hu⟩ := printf_prints_text [.word (blockBase ((hpfar >>> 4) <<< 12))] hfault
    (s.prints t)
  refine ⟨t ++ u, ?_⟩
  simp only [El2.abort, ht, hu, Option.bind_eq_bind, Option.bind_some, prints_prints]
  rfl

/-- The dispatcher prints a text and has the effect `el2Effect`. -/
theorem dispatch_eq (iar hpfar idx : U64) (f : El2Frame) (s : El2) :
    ∃ text, el2ExceptionDispatch iar hpfar idx f s =
      some ((el2Effect iar hpfar idx f s).prints text) := by
  by_cases hirq : idx &&& 3 = 1
  · obtain ⟨text, htext⟩ := irq_eq iar s
    refine ⟨text, ?_⟩
    simp only [el2ExceptionDispatch, el2Effect, if_pos hirq, htext, Option.bind_eq_bind,
      Option.bind_some]
    rfl
  · have hexc : kinds (parse excFmt.bytes) = [.str, .word, .word, .str, .word] := by
      decide +kernel
    have hregs : kinds (parse excRegsFmt.bytes) = [.word, .word, .word] := by decide +kernel
    obtain ⟨t, ht⟩ := printf_prints_text [.str (some (vectorName idx)), .word idx,
      .word (esrEc f.esr), .str (some (ecName (esrEc f.esr))), .word (esrIss f.esr)] hexc s
    obtain ⟨u, hu⟩ := printf_prints_text [.word f.elr, .word f.spsr, .word f.far] hregs
      (s.prints t)
    rw [prints_prints] at hu
    simp only [el2ExceptionDispatch, el2Effect, if_neg hirq, ht, hu, Option.bind_eq_bind,
      Option.bind_some]
    by_cases hhvc : esrEc f.esr = ecHvc64
    · have hkinds : kinds (parse hvcFmt.bytes) = [.word, .word] := by decide +kernel
      obtain ⟨v, hv⟩ := printf_prints_text
        [.word (esrIss f.esr &&& 0xFFFF), .word (f.x 0)] hkinds (s.prints (t ++ u))
      refine ⟨t ++ u ++ v, ?_⟩
      simp only [if_pos hhvc, hv, Option.bind_some, prints_prints]
      rfl
    · by_cases habt : esrEc f.esr = ecDabtLow ∨ esrEc f.esr = ecIabtLow
      · obtain ⟨v, hv⟩ := abort_eq (esrEc f.esr) hpfar f (s.prints (t ++ u))
        refine ⟨t ++ u ++ v, ?_⟩
        simp only [if_neg hhvc, if_pos habt, hv, Option.bind_some]
        simp only [El2.prints, Outcome.prints, List.append_assoc]
        rfl
      · by_cases hbrk : esrEc f.esr = ecBrk
        · have hkinds : kinds (parse brkFmt.bytes) = [.word] := by decide +kernel
          obtain ⟨v, hv⟩ := printf_prints_text [.word (esrIss f.esr &&& 0xFFFF)] hkinds
            (s.prints (t ++ u))
          refine ⟨t ++ u ++ v, ?_⟩
          simp only [if_neg hhvc, if_neg habt, if_pos hbrk, hv, Option.bind_some, prints_prints]
          rfl
        · obtain ⟨v, hv⟩ := println_prints_text unhandledText (s.prints (t ++ u))
          refine ⟨t ++ u ++ v, ?_⟩
          simp only [if_neg hhvc, if_neg habt, if_neg hbrk, hv, Option.bind_some, prints_prints]
          rfl

end FermiHV
