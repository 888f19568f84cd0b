import FermiHV.Exception
import FermiHV.Lib.Numeral

/-!
# Printing on the real UART (`uart.c`)

The hypervisor prints through `uart_putc`: strings, numbers in base ten and
sixteen, and formats. Here the console is the list of the bytes written so far,
and a print returns `none` where the C code has no defined behaviour: an access to
`buf` outside its 20 bytes or to a byte of it that was never written, or a format
that takes an argument which was not passed.

1. The model: `uartPutc`, `uartPuts`, `uartPrintln`, `uartPuthex`, `uartPutdec`,
   `uartPrintf`.
2. `Emits p text`: the print `p` returns and appends `text`.
3. `emits_uartPutdec`: the decimal digits fit into `buf` and come out in order.
4. `emits_uartPuthex`: the pass over the nibbles drops exactly the zeros in front.
5. `emits_putSigned`, `number_printing`: what is printed reads back as the number,
   and `%d` prints every `int64_t`.
-/

namespace FermiHV.Uart

open Numeral

/-! ## 1. The model -/

/-- A character constant. -/
def chr (c : Char) : U8 := BitVec.ofNat 8 c.toNat

/-- The bytes of a string constant. -/
def ascii (s : String) : List U8 := s.toList.map chr

/-- A C string: the bytes before the terminating NUL. -/
structure CStr where
  bytes : List U8
  noNul : 0 ∉ bytes

/-- A print: from the console so far to the console after it. -/
abbrev PrintM := StateT (List U8) Option

/-- `uart_putc`, once the transmit FIFO has room. -/
def uartPutc (c : U8) : PrintM Unit := modify fun out => out ++ [c]

/-- A character of a string or of the text of a format: `uart_puts` and
`uart_printf` send a carriage return before a line feed. -/
def putText (c : U8) : PrintM Unit :=
  if c = chr '\n' then do
    uartPutc (chr '\r')
    uartPutc c
  else uartPutc c

/-- The loop of `uart_puts`. -/
def putsLoop : List U8 → PrintM Unit
  | [] => pure ()
  | c :: s => do
    putText c
    putsLoop s

/-- `uart_puts`. -/
def uartPuts (s : CStr) : PrintM Unit := putsLoop s.bytes

/-- `uart_println`. -/
def uartPrintln (s : CStr) : PrintM Unit := do
  uartPuts s
  uartPutc (chr '\r')
  uartPutc (chr '\n')

/-- The string in front of a hexadecimal number. -/
def hexMark : CStr := ⟨ascii "0x", by decide⟩

/-- The character of a nibble. -/
def nibChar (nib : U8) : U8 := if nib < 10 then chr '0' + nib else chr 'a' + nib - 10

/-- The last `k` passes of the loop of `uart_puthex`: the next one has `i = 4 * (k - 1)`. -/
def puthexLoop (v : U64) : Nat → Bool → PrintM Unit
  | 0, _ => pure ()
  | k + 1, started => do
    let i := 4 * k
    let nib : U8 := ((v >>> i) &&& 0xF).setWidth 8
    if nib ≠ 0 ∨ started = true ∨ i = 0 then
      uartPutc (nibChar nib)
      puthexLoop v k true
    else
      puthexLoop v k started

/-- `uart_puthex`: `i` goes from 60 down to 0 in steps of 4. -/
def uartPuthex (v : U64) : PrintM Unit := do
  uartPuts hexMark
  puthexLoop v 16 false

/-- `char buf[20]`, with `none` for a byte that was never written. -/
abbrev DecBuf := Vector (Option U8) 20

/-- `buf[i] = c`. -/
def DecBuf.store (buf : DecBuf) (i : Nat) (c : U8) : Option DecBuf :=
  if h : i < 20 then some (buf.set i (some c) h) else none

/-- The value of `buf[i]`. -/
def DecBuf.load (buf : DecBuf) (i : Nat) : Option U8 :=
  if h : i < 20 then buf.get ⟨i, h⟩ else none

theorem toNat_pos {v : U64} (h : v ≠ 0) : 0 < v.toNat :=
  Nat.pos_of_ne_zero fun hzero => h (BitVec.eq_of_toNat_eq hzero)

theorem div_ten_lt {v : U64} (h : v ≠ 0) : (v / 10).toNat < v.toNat := by
  rw [BitVec.toNat_udiv]
  exact Nat.div_lt_self (toNat_pos h) (by decide)

/-- The first loop of `uart_putdec`: it leaves `i` and `buf`. -/
def putdecDigits (v : U64) (i : Nat) (buf : DecBuf) : Option (Nat × DecBuf) :=
  if _h : v = 0 then some (i, buf)
  else do
    let buf ← buf.store i (((chr '0').setWidth 64 + v % 10).setWidth 8)
    putdecDigits (v / 10) (i + 1) buf
termination_by v.toNat
decreasing_by exact div_ten_lt _h

/-- The second loop of `uart_putdec`, `while (i--)`. -/
def putdecOut (buf : DecBuf) : Nat → PrintM Unit
  | 0 => pure ()
  | i + 1 => do
    uartPutc (← buf.load i)
    putdecOut buf i

/-- `uart_putdec`. -/
def uartPutdec (v : U64) : PrintM Unit :=
  if v = 0 then uartPutc (chr '0')
  else do
    let (i, buf) ← putdecDigits v 0 (Vector.replicate 20 none)
    putdecOut buf i

/-- An argument of `uart_printf`: a string or a null pointer for one, a 64-bit
integer of either sign, another pointer, an `int`. -/
inductive Arg
  | str (s : Option CStr)
  | word (v : U64)
  | ptr (p : U64)
  | int (n : U32)

def Arg.str? : Arg → Option (Option CStr)
  | .str s => some s
  | _ => none

def Arg.word? : Arg → Option U64
  | .word v => some v
  | _ => none

def Arg.ptr? : Arg → Option U64
  | .ptr p => some p
  | _ => none

def Arg.int? : Arg → Option U32
  | .int n => some n
  | _ => none

/-- A case of `uart_printf` that takes an argument with `va_arg` and prints it. It
leaves the arguments behind. -/
def vaArg {α : Type} (kind : Arg → Option α) (print : α → PrintM Unit) :
    List Arg → PrintM (List Arg)
  | [] => failure
  | arg :: args =>
    match kind arg with
    | none => failure
    | some x => do
      print x
      pure args

/-- The case `'d'` of `uart_printf`. -/
def putSigned (val : U64) : PrintM Unit :=
  if val.slt 0 then do
    uartPutc (chr '-')
    uartPutdec (-val)
  else uartPutdec val

/-- What `%s` prints for a null pointer. -/
def nullText : CStr := ⟨ascii "(null)", by decide⟩

/-- The `switch` of `uart_printf` on the character behind `%`. -/
def printfSpec (spec : U8) (args : List Arg) : PrintM (List Arg) :=
  if spec = chr 's' then vaArg Arg.str? (fun s => uartPuts (s.getD nullText)) args
  else if spec = chr 'd' then vaArg Arg.word? putSigned args
  else if spec = chr 'u' then vaArg Arg.word? uartPutdec args
  else if spec = chr 'x' then vaArg Arg.word? uartPuthex args
  else if spec = chr 'p' then vaArg Arg.ptr? uartPuthex args
  else if spec = chr 'c' then vaArg Arg.int? (fun n => uartPutc (n.setWidth 8)) args
  else if spec = chr '%' then do
    uartPutc (chr '%')
    pure args
  else do
    uartPutc (chr '%')
    uartPutc spec
    pure args

/-- The loop of `uart_printf`. A `%` at the end of the format ends it. -/
def printfLoop : List U8 → List Arg → PrintM Unit
  | [], _ => pure ()
  | c :: fmt, args =>
    if c ≠ chr '%' then do
      putText c
      printfLoop fmt args
    else
      match fmt with
      | [] => pure ()
      | spec :: fmt => do
        let args ← printfSpec spec args
        printfLoop fmt args

/-- `uart_printf`. -/
def uartPrintf (fmt : CStr) (args : List Arg) : PrintM Unit := printfLoop fmt.bytes args

/-! ## 2. What a print appends -/

/-- `p` returns and appends `text` to the console. -/
def Emits (p : PrintM Unit) (text : List U8) : Prop :=
  ∀ out, p out = some ((), out ++ text)

theorem emits_pure : Emits (pure ()) [] := by
  intro out
  rw [List.append_nil]
  rfl

theorem emits_uartPutc (c : U8) : Emits (uartPutc c) [c] := fun _ => rfl

theorem Emits.run {p : PrintM Unit} {text : List U8} (h : Emits p text) {α : Type}
    (q : PrintM α) (out : List U8) : (p >>= fun _ => q) out = q (out ++ text) := by
  change (p out).bind (fun r => q r.2) = q (out ++ text)
  rw [h out]
  rfl

theorem Emits.bind {p q : PrintM Unit} {t u : List U8} (hp : Emits p t) (hq : Emits q u) :
    Emits (p >>= fun _ => q) (t ++ u) := by
  intro out
  rw [hp.run, hq, List.append_assoc]

/-- A byte of a string as it is sent: a line feed gets a carriage return in front. -/
def crlf (c : U8) : List U8 := if c = chr '\n' then [chr '\r', c] else [c]

theorem emits_putText (c : U8) : Emits (putText c) (crlf c) := by
  by_cases h : c = chr '\n'
  · rw [putText, crlf, if_pos h, if_pos h]
    exact (emits_uartPutc _).bind (emits_uartPutc _)
  · rw [putText, crlf, if_neg h, if_neg h]
    exact emits_uartPutc c

theorem emits_putsLoop (s : List U8) : Emits (putsLoop s) (s.flatMap crlf) := by
  induction s with
  | nil => exact emits_pure
  | cons c s ih =>
    rw [List.flatMap_cons]
    exact (emits_putText c).bind ih

theorem emits_uartPuts (s : CStr) : Emits (uartPuts s) (s.bytes.flatMap crlf) :=
  emits_putsLoop s.bytes

theorem emits_uartPrintln (s : CStr) :
    Emits (uartPrintln s) (s.bytes.flatMap crlf ++ [chr '\r', chr '\n']) :=
  (emits_uartPuts s).bind ((emits_uartPutc _).bind (emits_uartPutc _))

/-! ## 3. Decimal -/

/-- `buf` begins with the bytes `cs`. -/
def Filled (buf : DecBuf) (cs : List U8) : Prop :=
  ∀ j c, cs[j]? = some c → buf.load j = some c

theorem Filled.of_append {buf : DecBuf} {cs ds : List U8} (h : Filled buf (cs ++ ds)) :
    Filled buf cs := by
  intro j c hc
  have hj : j < cs.length := (List.getElem?_eq_some_iff.mp hc).1
  exact h j c (by rw [List.getElem?_append_left hj, hc])

theorem DecBuf.load_set_self (buf : DecBuf) {i : Nat} (hi : i < 20) (c : U8) :
    DecBuf.load (buf.set i (some c) hi) i = some c := by
  simp [DecBuf.load, hi, Vector.get_eq_getElem]

theorem DecBuf.load_set_ne (buf : DecBuf) {i j : Nat} (hi : i < 20) (c : U8) (hij : i ≠ j) :
    DecBuf.load (buf.set i (some c) hi) j = buf.load j := by
  by_cases hj : j < 20
  · simp [DecBuf.load, hj, hij, Vector.get_eq_getElem]
  · simp [DecBuf.load, hj]

/-- A store behind the bytes written so far. -/
theorem Filled.store {buf : DecBuf} {cs : List U8} (h : Filled buf cs) (hroom : cs.length < 20)
    (c : U8) : ∃ buf', buf.store cs.length c = some buf' ∧ Filled buf' (cs ++ [c]) := by
  refine ⟨buf.set cs.length (some c) hroom, dif_pos hroom, fun j d hd => ?_⟩
  by_cases hj : j < cs.length
  · rw [List.getElem?_append_left hj] at hd
    rw [DecBuf.load_set_ne buf hroom c (by omega)]
    exact h j d hd
  · obtain ⟨hlen, hget⟩ := List.getElem?_eq_some_iff.mp hd
    rw [List.length_append, List.length_singleton] at hlen
    have hjeq : j = cs.length := by omega
    subst hjeq
    rw [List.getElem_concat_length rfl] at hget
    rw [DecBuf.load_set_self, hget]

/-- The character that the digit loop stores is that of the last digit. -/
theorem stored_digit (v : U64) :
    ((chr '0').setWidth 64 + v % 10).setWidth 8 = digitChar (v.toNat % 10) := by
  have hlt : v.toNat % 10 < 10 := Nat.mod_lt _ (by decide)
  have hmod : (v % 10).toNat = v.toNat % 10 := BitVec.toNat_umod
  have hzero : ((chr '0').setWidth 64 : U64).toNat = 0x30 := by decide
  apply BitVec.eq_of_toNat_eq
  rw [digitChar, if_pos hlt, BitVec.toNat_setWidth, BitVec.toNat_add, hmod, hzero,
    BitVec.toNat_ofNat]
  omega

/-- One pass of the digit loop. -/
theorem putdecDigits_step {v : U64} (hv : v ≠ 0) (i : Nat) (buf : DecBuf) :
    putdecDigits v i buf =
      (buf.store i (digitChar (v.toNat % 10))).bind (putdecDigits (v / 10) (i + 1)) := by
  rw [putdecDigits, dif_neg hv, stored_digit]
  rfl

theorem digits_step {v : U64} (hv : v ≠ 0) :
    Nat.digits 10 v.toNat = v.toNat % 10 :: Nat.digits 10 (v / 10).toNat := by
  rw [Nat.digits_def' (by decide) (toNat_pos hv)]
  rfl

/-- The digit loop stores the digits, the last one first, if there is room. -/
theorem putdecDigits_filled {v : U64} {buf : DecBuf} {cs : List U8} (h : Filled buf cs)
    (hroom : cs.length + (Nat.digits 10 v.toNat).length ≤ 20) :
    ∃ buf', putdecDigits v cs.length buf =
        some (cs.length + (Nat.digits 10 v.toNat).length, buf') ∧
      Filled buf' (cs ++ (Nat.digits 10 v.toNat).map digitChar) := by
  -- by induction on `v`, which each pass divides by ten
  induction hn : v.toNat using Nat.strong_induction_on generalizing v buf cs with
  | h n ih =>
    subst hn
    by_cases hv : v = 0
    · subst hv
      exact ⟨buf, by simp [putdecDigits], by simpa using h⟩
    · rw [digits_step hv] at hroom ⊢
      rw [List.length_cons] at hroom ⊢
      obtain ⟨buf1, hstore, hfill1⟩ := h.store (by omega) (digitChar (v.toNat % 10))
      have hlen : (cs ++ [digitChar (v.toNat % 10)]).length = cs.length + 1 := by
        rw [List.length_append, List.length_singleton]
      obtain ⟨buf2, hrest, hfill2⟩ :=
        ih (v / 10).toNat (div_ten_lt hv) hfill1 (by rw [hlen]; omega) rfl
      refine ⟨buf2, ?_, ?_⟩
      · rw [hlen] at hrest
        rw [putdecDigits_step hv, hstore, Option.bind_some, hrest, Nat.add_right_comm]
        rfl
      · rwa [List.append_assoc, List.singleton_append, ← List.map_cons] at hfill2

theorem putdecOut_step {buf : DecBuf} {i : Nat} {c : U8} (h : buf.load i = some c) :
    putdecOut buf (i + 1) = (do uartPutc c; putdecOut buf i) := by
  rw [putdecOut, h]
  rfl

/-- The output loop sends the bytes in front of `i`, the last one first. -/
theorem emits_putdecOut {buf : DecBuf} {cs : List U8} (h : Filled buf cs) :
    Emits (putdecOut buf cs.length) cs.reverse := by
  induction cs using List.reverseRecOn with
  | nil => exact emits_pure
  | append_singleton cs c ih =>
    have hlast : buf.load cs.length = some c := h cs.length c List.getElem?_concat_length
    rw [List.length_append, List.length_singleton, List.reverse_append, putdecOut_step hlast]
    exact (emits_uartPutc c).bind (ih h.of_append)

/-- A 64-bit number has at most 20 decimal digits. -/
theorem digits_length_le (v : U64) : (Nat.digits 10 v.toNat).length ≤ 20 := by
  rw [Nat.digits_length_le_iff (by decide)]
  exact lt_trans v.isLt (by decide)

/-- All 20 bytes of `buf` are needed. -/
example : (Nat.digits 10 (2 ^ 64 - 1)).length = 20 := by decide

/-- `uart_putdec` stays inside `buf` and prints the numeral. -/
theorem emits_uartPutdec (v : U64) : Emits (uartPutdec v) (numeral 10 v.toNat) := by
  by_cases hv : v = 0
  · subst hv
    exact emits_uartPutc (chr '0')
  · have hempty : Filled (Vector.replicate 20 none) [] := fun j c hc => by simp at hc
    have hroom := digits_length_le v
    obtain ⟨buf, hloop, hfill⟩ := putdecDigits_filled hempty (by simpa using hroom)
    rw [List.length_nil, Nat.zero_add] at hloop
    rw [List.nil_append] at hfill
    have hout := emits_putdecOut hfill
    rw [List.length_map, ← numeral_of_pos (toNat_pos hv).ne'] at hout
    rw [uartPutdec, if_neg hv, hloop]
    exact hout

/-! ## 4. Hexadecimal -/

/-- The nibble of the pass with `i = 4 * k` is the digit at position `k`. -/
theorem nib_eq (v : U64) (k : Nat) :
    ((v >>> (4 * k)) &&& 0xF).setWidth 8 = BitVec.ofNat 8 (v.toNat / 16 ^ k % 16) := by
  have hshift : v.toNat >>> (4 * k) = v.toNat / 16 ^ k := by
    rw [Nat.shiftRight_eq_div_pow, pow_mul, show 2 ^ 4 = 16 from rfl]
  have hmask : v.toNat / 16 ^ k &&& 0xF = v.toNat / 16 ^ k % 16 :=
    Nat.and_two_pow_sub_one_eq_mod _ 4
  apply BitVec.eq_of_toNat_eq
  rw [BitVec.toNat_setWidth, BitVec.toNat_and, BitVec.toNat_ushiftRight, hshift,
    BitVec.toNat_ofNat]
  exact congrArg (· % 2 ^ 8) hmask

theorem nibChar_eq : ∀ d < 16, nibChar (BitVec.ofNat 8 d) = digitChar d := by
  decide

theorem nib_ne_zero_iff : ∀ d < 16, BitVec.ofNat 8 d ≠ 0 ↔ d ≠ 0 := by
  decide

/-- A pass that prints: the digit is not zero, an earlier one was printed, or it is the last. -/
theorem puthexLoop_print {v : U64} {k : Nat} {started : Bool}
    (h : v.toNat / 16 ^ k % 16 ≠ 0 ∨ started = true ∨ k = 0) :
    puthexLoop v (k + 1) started =
      (do uartPutc (digitChar (v.toNat / 16 ^ k % 16)); puthexLoop v k true) := by
  have hlt : v.toNat / 16 ^ k % 16 < 16 := Nat.mod_lt _ (by decide)
  have hcond : BitVec.ofNat 8 (v.toNat / 16 ^ k % 16) ≠ 0 ∨ started = true ∨ 4 * k = 0 := by
    rw [nib_ne_zero_iff _ hlt, Nat.mul_eq_zero]
    simpa using h
  simp only [puthexLoop, nib_eq]
  rw [if_pos hcond, nibChar_eq _ hlt]

/-- A pass over a zero in front. -/
theorem puthexLoop_skip {v : U64} {k : Nat} (hzero : v.toNat / 16 ^ k % 16 = 0) (hk : k ≠ 0) :
    puthexLoop v (k + 1) false = puthexLoop v k false := by
  simp only [puthexLoop, nib_eq, hzero]
  rw [if_neg (by simpa using hk)]

/-- Once a digit is printed, all that follow are. -/
theorem emits_puthexLoop_started (v : U64) (k : Nat) :
    Emits (puthexLoop v k true) (padded 16 k v.toNat) := by
  induction k with
  | zero => exact emits_pure
  | succ k ih =>
    rw [puthexLoop_print (.inr (.inl rfl)), padded]
    exact (emits_uartPutc _).bind ih

/-- Before that, the loop skips the zeros in front; the last pass always prints. -/
theorem emits_puthexLoop {v : U64} {k : Nat} (hv : v.toNat < 16 ^ (k + 1)) :
    Emits (puthexLoop v (k + 1) false) (numeral 16 v.toNat) := by
  induction k with
  | zero =>
    have hlt : v.toNat < 16 := by simpa using hv
    have hdigit : v.toNat / 16 ^ 0 % 16 = v.toNat := by
      rw [pow_zero, Nat.div_one, Nat.mod_eq_of_lt hlt]
    rw [puthexLoop_print (.inr (.inr rfl)), hdigit, numeral_of_lt hlt]
    exact (emits_uartPutc _).bind emits_pure
  | succ k ih =>
    by_cases hzero : v.toNat / 16 ^ (k + 1) % 16 = 0
    · rw [puthexLoop_skip hzero (Nat.succ_ne_zero k)]
      exact ih ((digit_eq_zero_iff hv).mp hzero)
    · have hlo : 16 ^ (k + 1) ≤ v.toNat := by
        rw [digit_eq_zero_iff hv] at hzero
        omega
      rw [puthexLoop_print (.inl hzero), numeral_eq_padded (by decide) hlo hv]
      exact (emits_uartPutc _).bind (emits_puthexLoop_started v (k + 1))

/-- `uart_puthex` prints `0x` and the numeral. -/
theorem emits_uartPuthex (v : U64) :
    Emits (uartPuthex v) (ascii "0x" ++ numeral 16 v.toNat) := by
  have hmark : Emits (uartPuts hexMark) (ascii "0x") := emits_uartPuts hexMark
  exact hmark.bind (emits_puthexLoop v.isLt)

example : uartPuthex 0x1a0 [] = some ((), ascii "0x1a0") := by decide

/-! ## 5. Formats -/

/-- The text of a signed number. -/
def signedText (val : U64) : List U8 :=
  if val.slt 0 then chr '-' :: numeral 10 (-val).toNat else numeral 10 val.toNat

theorem emits_putSigned (val : U64) : Emits (putSigned val) (signedText val) := by
  by_cases h : val.slt 0
  · rw [putSigned, signedText, if_pos h, if_pos h]
    exact (emits_uartPutc _).bind (emits_uartPutdec (-val))
  · rw [putSigned, signedText, if_neg h, if_neg h]
    exact emits_uartPutdec val

theorem slt_zero_iff (val : U64) : val.slt 0 ↔ 2 ^ 63 ≤ val.toNat := by
  change val.slt 0#64 = true ↔ _
  rw [BitVec.slt_zero_eq_msb, BitVec.msb_eq_decide, decide_eq_true_iff]

/-- The negation of a negative number modulo `2 ^ 64` is its absolute value, also
for `INT64_MIN`. -/
theorem neg_toNat_of_slt {val : U64} (h : val.slt 0) : -((-val).toNat : Int) = val.toInt := by
  rw [slt_zero_iff] at h
  have hlt := val.isLt
  rw [BitVec.toNat_neg, BitVec.toInt_eq_toNat_cond, if_neg (by omega)]
  omega

theorem toNat_of_not_slt {val : U64} (h : ¬ val.slt 0) : (val.toNat : Int) = val.toInt := by
  rw [slt_zero_iff] at h
  rw [BitVec.toInt_eq_toNat_cond, if_pos (by omega)]

theorem readSigned_signedText (val : U64) : readSigned 10 (signedText val) = some val.toInt := by
  by_cases h : val.slt 0
  · rw [signedText, if_pos h, ← neg_toNat_of_slt h]
    exact readSigned_minus_numeral (by decide) (by decide) _
  · rw [signedText, if_neg h, ← toNat_of_not_slt h]
    exact readSigned_numeral (by decide) (by decide) _

example : signedText 0x8000000000000000 = ascii "-9223372036854775808" := by decide

/-- At a `%d` the format loop prints its argument and goes on. -/
theorem printfLoop_signed (val : U64) (fmt : List U8) (args : List Arg) (out : List U8) :
    printfLoop (chr '%' :: chr 'd' :: fmt) (.word val :: args) out =
      printfLoop fmt args (out ++ signedText val) := by
  have hspec : printfSpec (chr 'd') (.word val :: args) = (do putSigned val; pure args) := by
    rw [printfSpec, if_neg (by decide), if_pos rfl]
    rfl
  rw [printfLoop, if_neg (not_not_intro rfl)]
  change (printfSpec (chr 'd') (.word val :: args) >>= printfLoop fmt) out = _
  rw [hspec, bind_assoc, (emits_putSigned val).run, pure_bind]

/-- The format `"%d"`. -/
def fmtSigned : CStr := ⟨ascii "%d", by decide⟩

/-- What `uart_putdec`, `uart_puthex` and `%d` make of one number: `v` printed in
base ten, with `buf` never indexed outside its 20 bytes, and in base sixteen, as the
canonical numeral, which reads back as `v`; as an `int64_t` it is printed by `%d`,
wherever that stands in a format, as a text that reads back as its signed value. -/
structure PrintLaw (v : U64) : Prop where
  dec : Emits (uartPutdec v) (numeral 10 v.toNat)
  dec_canonical : Canonical 10 (numeral 10 v.toNat)
  dec_reads : readNat 10 (numeral 10 v.toNat) = some v.toNat
  hex : Emits (uartPuthex v) (ascii "0x" ++ numeral 16 v.toNat)
  hex_canonical : Canonical 16 (numeral 16 v.toNat)
  hex_reads : readHex (ascii "0x" ++ numeral 16 v.toNat) = some v.toNat
  signed : Emits (uartPrintf fmtSigned [.word v]) (signedText v)
  signed_inside : ∀ fmt args out, printfLoop (chr '%' :: chr 'd' :: fmt) (.word v :: args) out =
    printfLoop fmt args (out ++ signedText v)
  signed_reads : readSigned 10 (signedText v) = some v.toInt

theorem number_printing (v : U64) : PrintLaw v where
  dec := emits_uartPutdec v
  dec_canonical := canonical_numeral (by decide) (by decide) _
  dec_reads := readNat_numeral (by decide) (by decide) _
  hex := emits_uartPuthex v
  hex_canonical := canonical_numeral (by decide) (by decide) _
  hex_reads := readHex_numeral _
  signed := fun out => printfLoop_signed v [] [] out
  signed_inside := printfLoop_signed v
  signed_reads := readSigned_signedText v

end FermiHV.Uart
