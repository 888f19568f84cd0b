import FermiHV.Uart

/-!
# The formats of `uart_printf`

A format is made of pieces: characters and conversions. `parse` cuts a format into its
pieces, and `render` says what they print for given arguments, or that an argument is
missing or of another type than the conversion takes with `va_arg`.

1. `parse_bytes`: a format spelled from pieces is cut into these.
2. `render_isSome_iff`: which arguments a format needs.
3. `render_append`: a format may be cut anywhere between two pieces; the second part
   goes on with the arguments that the first leaves.
4. `printf_law`: `uart_printf` prints what `render` says.
-/

namespace FermiHV.Uart

open Numeral

/-! ## 1. Formats -/

/-- The types of the arguments that the conversions take. -/
inductive ArgKind
  | str
  | word
  | ptr
  | int
deriving DecidableEq

def Arg.kind : Arg → ArgKind
  | .str _ => .str
  | .word _ => .word
  | .ptr _ => .ptr
  | .int _ => .int

/-- What stands behind a `%`. -/
inductive Conv
  | str
  | signed
  | unsigned
  | hex
  | ptr
  | char
  | percent
  /-- No conversion: the two characters are printed as they are. -/
  | other (c : U8)
deriving DecidableEq

def Conv.ofByte (c : U8) : Conv :=
  if c = chr 's' then .str
  else if c = chr 'd' then .signed
  else if c = chr 'u' then .unsigned
  else if c = chr 'x' then .hex
  else if c = chr 'p' then .ptr
  else if c = chr 'c' then .char
  else if c = chr '%' then .percent
  else .other c

def Conv.byte : Conv → U8
  | .str => chr 's'
  | .signed => chr 'd'
  | .unsigned => chr 'u'
  | .hex => chr 'x'
  | .ptr => chr 'p'
  | .char => chr 'c'
  | .percent => chr '%'
  | .other c => c

/-- The argument that the conversion takes. -/
def Conv.kind : Conv → Option ArgKind
  | .str => some .str
  | .signed | .unsigned | .hex => some .word
  | .ptr => some .ptr
  | .char => some .int
  | .percent | .other _ => none

inductive Piece
  | char (c : U8)
  | conv (k : Conv)
deriving DecidableEq

def Piece.kind : Piece → Option ArgKind
  | .char _ => none
  | .conv k => k.kind

/-- The arguments that the pieces take, in their order. -/
def kinds (ps : List Piece) : List ArgKind := ps.filterMap Piece.kind

/-- The pieces of a format; a `%` at its end is none. -/
def parse : List U8 → List Piece
  | [] => []
  | c :: fmt =>
    if c ≠ chr '%' then .char c :: parse fmt
    else
      match fmt with
      | [] => []
      | spec :: fmt => .conv (.ofByte spec) :: parse fmt

theorem parse_char {c : U8} (hc : c ≠ chr '%') (fmt : List U8) :
    parse (c :: fmt) = .char c :: parse fmt := by
  cases fmt <;> simp [parse, hc]

theorem parse_conv (spec : U8) (fmt : List U8) :
    parse (chr '%' :: spec :: fmt) = .conv (.ofByte spec) :: parse fmt := by
  simp [parse]

/-- How the piece is spelled. -/
def Piece.bytes : Piece → List U8
  | .char c => [c]
  | .conv k => [chr '%', k.byte]

/-- The spelling of the piece is that of no other piece. -/
def Piece.Ok : Piece → Prop
  | .char c => c ≠ chr '%'
  | .conv k => Conv.ofByte k.byte = k

/-- A format spelled from pieces, and how it goes on. -/
theorem parse_bytes {ps : List Piece} (hok : ∀ p ∈ ps, p.Ok) (fmt : List U8) :
    parse (ps.flatMap Piece.bytes ++ fmt) = ps ++ parse fmt := by
  induction ps with
  | nil => rfl
  | cons p ps ih =>
    have hp := hok p List.mem_cons_self
    have htail := ih fun q hq => hok q (List.mem_cons_of_mem _ hq)
    rw [List.flatMap_cons, List.append_assoc, List.cons_append, ← htail]
    cases p with
    | char c =>
      exact parse_char hp _
    | conv k =>
      have hk : Conv.ofByte k.byte = k := hp
      have hconv := parse_conv k.byte (ps.flatMap Piece.bytes ++ fmt)
      rw [hk] at hconv
      exact hconv

/-! ## 2. What they print -/

/-- The text of an argument; it is of the type that the conversion takes. -/
def Conv.text : Conv → Arg → List U8
  | .str, .str s => (s.getD nullText).bytes.flatMap crlf
  | .signed, .word v => signedText v
  | .unsigned, .word v => numeral 10 v.toNat
  | .hex, .word v => ascii "0x" ++ numeral 16 v.toNat
  | .ptr, .ptr p => ascii "0x" ++ numeral 16 p.toNat
  | .char, .int n => [n.setWidth 8]
  | _, _ => []

/-- The text of what takes no argument. -/
def Conv.fixed : Conv → List U8
  | .percent => [chr '%']
  | .other c => [chr '%', c]
  | _ => []

/-- The arguments behind the conversion, and its text. -/
def Conv.take (k : Conv) (args : List Arg) : Option (List Arg × List U8) :=
  match k.kind with
  | none => some (args, k.fixed)
  | some t =>
    match args with
    | [] => none
    | a :: args => if a.kind = t then some (args, k.text a) else none

def render : List Piece → List Arg → Option (List U8)
  | [], _ => some []
  | .char c :: ps, args => (render ps args).map (crlf c ++ ·)
  | .conv k :: ps, args =>
    (k.take args).bind fun r => (render ps r.1).map (r.2 ++ ·)

theorem take_of_fixed {k : Conv} (hk : k.kind = none) (args : List Arg) :
    k.take args = some (args, k.fixed) := by
  rw [Conv.take, hk]

theorem take_cons {k : Conv} {t : ArgKind} (hk : k.kind = some t) (a : Arg) (args : List Arg) :
    k.take (a :: args) = if a.kind = t then some (args, k.text a) else none := by
  rw [Conv.take, hk]

theorem take_nil {k : Conv} {t : ArgKind} (hk : k.kind = some t) : k.take [] = none := by
  rw [Conv.take, hk]

/-- A format prints when its arguments are passed first, each with its type. -/
theorem render_isSome_iff (ps : List Piece) (args : List Arg) :
    (render ps args).isSome = true ↔ kinds ps <+: args.map Arg.kind := by
  induction ps generalizing args with
  | nil => exact ⟨fun _ => List.nil_prefix, fun _ => rfl⟩
  | cons p ps ih =>
    cases p with
    | char c =>
      rw [render, Option.isSome_map, ih]
      rfl
    | conv k =>
      cases hk : k.kind with
      | none =>
        have hkinds : kinds (.conv k :: ps) = kinds ps := List.filterMap_cons_none hk
        rw [render, take_of_fixed hk, Option.bind_some, Option.isSome_map, ih, hkinds]
      | some t =>
        have hkinds : kinds (.conv k :: ps) = t :: kinds ps := List.filterMap_cons_some hk
        rw [hkinds]
        cases args with
        | nil => simp [render, take_nil hk]
        | cons a args =>
          rw [render, take_cons hk, List.map_cons, List.cons_prefix_cons]
          by_cases ha : a.kind = t
          · rw [if_pos ha, Option.bind_some, Option.isSome_map, ih]
            exact ⟨fun h => ⟨ha.symm, h⟩, fun h => h.2⟩
          · rw [if_neg ha]
            exact ⟨fun h => by simp at h, fun h => absurd h.1.symm ha⟩

/-- The arguments that a conversion leaves. -/
theorem take_rest {k : Conv} {args : List Arg} {r : List Arg × List U8}
    (h : k.take args = some r) : r.1 = args.drop (kinds [.conv k]).length := by
  cases hk : k.kind with
  | none =>
    rw [take_of_fixed hk, Option.some.injEq] at h
    have hkinds : kinds [.conv k] = [] := List.filterMap_cons_none hk
    rw [hkinds, ← h]
    rfl
  | some t =>
    have hkinds : kinds [.conv k] = [t] := List.filterMap_cons_some hk
    cases args with
    | nil => simp [take_nil hk] at h
    | cons a args =>
      rw [take_cons hk] at h
      split_ifs at h with ha
      rw [hkinds, ← Option.some.inj h]
      rfl

theorem kinds_append (ps qs : List Piece) : kinds (ps ++ qs) = kinds ps ++ kinds qs :=
  List.filterMap_append

/-- A format in two parts. -/
theorem render_append (ps qs : List Piece) (args : List Arg) :
    render (ps ++ qs) args = (render ps args).bind fun t =>
      (render qs (args.drop (kinds ps).length)).map (t ++ ·) := by
  induction ps generalizing args with
  | nil => simp [render, kinds]
  | cons p ps ih =>
    cases p with
    | char c =>
      have hkinds : kinds (.char c :: ps) = kinds ps := rfl
      rw [List.cons_append, render, render, ih, hkinds, Option.map_bind, Option.bind_map]
      refine congrArg _ (funext fun t => ?_)
      simp only [Function.comp_apply, Option.map_map, Function.comp_def, List.append_assoc]
    | conv k =>
      rw [List.cons_append, render, render]
      cases htake : k.take args with
      | none => rfl
      | some r =>
        have hkinds : kinds (.conv k :: ps) = kinds [.conv k] ++ kinds ps := kinds_append [_] ps
        have hdrop : r.1.drop (kinds ps).length = args.drop (kinds (.conv k :: ps)).length := by
          rw [take_rest htake, hkinds, List.length_append, List.drop_drop]
        simp only [Option.bind_some]
        rw [ih, hdrop, Option.map_bind, Option.bind_map]
        refine congrArg _ (funext fun t => ?_)
        simp only [Function.comp_apply, Option.map_map, Function.comp_def, List.append_assoc]

/-! ## 3. `uart_printf` -/

/-- What `p` returns and appends, or that it fails. -/
def Gives {α : Type} (p : PrintM α) (r : Option (α × List U8)) : Prop :=
  ∀ out, p out = r.map fun x => (x.1, out ++ x.2)

theorem Emits.gives {p : PrintM Unit} {text : List U8} (h : Emits p text) :
    Gives p (some ((), text)) := h

theorem gives_pure {α : Type} (a : α) : Gives (pure a : PrintM α) (some (a, [])) := by
  intro out
  rw [Option.map_some, List.append_nil]
  rfl

theorem Gives.bind {α β : Type} {p : PrintM α} {f : α → PrintM β} {r : Option (α × List U8)}
    {g : α → Option (β × List U8)} (hp : Gives p r) (hf : ∀ a, Gives (f a) (g a)) :
    Gives (p >>= f) (r.bind fun x => (g x.1).map fun y => (y.1, x.2 ++ y.2)) := by
  intro out
  have hrun : (p >>= f) out = (p out).bind fun x => f x.1 x.2 := rfl
  rw [hrun, hp]
  cases r with
  | none => rfl
  | some x =>
    simp only [Option.map_some, Option.bind_some, Option.map_map, hf x.1 (out ++ x.2)]
    refine congrArg (fun F => Option.map F (g x.1)) (funext fun y => ?_)
    simp only [Function.comp_apply, List.append_assoc]

/-- What `kind` and `print` of a conversion do with an argument: they print its text if
it is of the type `t`, and there is none for them otherwise. -/
def Prints {α : Type} (kind : Arg → Option α) (print : α → PrintM Unit) (k : Conv)
    (t : ArgKind) : Prop :=
  ∀ a, (a.kind = t ∧ ∃ x, kind a = some x ∧ Emits (print x) (k.text a)) ∨
    (a.kind ≠ t ∧ kind a = none)

theorem gives_vaArg {α : Type} {kind : Arg → Option α} {print : α → PrintM Unit} {k : Conv}
    {t : ArgKind} (hk : k.kind = some t) (hprints : Prints kind print k t) (args : List Arg) :
    Gives (vaArg kind print args) (k.take args) := by
  cases args with
  | nil =>
    rw [take_nil hk]
    exact fun _ => rfl
  | cons a args =>
    rw [take_cons hk, vaArg]
    rcases hprints a with ⟨ha, x, hx, hemits⟩ | ⟨ha, hnone⟩
    · rw [if_pos ha, hx]
      intro out
      change (print x >>= fun _ => pure args) out = _
      rw [hemits.run]
      rfl
    · rw [if_neg ha, hnone]
      exact fun _ => rfl

theorem prints_str : Prints Arg.str? (fun s => uartPuts (s.getD nullText)) .str .str
  | .str _ => .inl ⟨rfl, _, rfl, emits_uartPuts _⟩
  | .word _ | .ptr _ | .int _ => .inr ⟨by simp [Arg.kind], rfl⟩

/-- A conversion that takes a 64-bit integer. -/
theorem prints_word {print : U64 → PrintM Unit} {k : Conv}
    (h : ∀ v, Emits (print v) (k.text (.word v))) : Prints Arg.word? print k .word
  | .word v => .inl ⟨rfl, v, rfl, h v⟩
  | .str _ | .ptr _ | .int _ => .inr ⟨by simp [Arg.kind], rfl⟩

theorem prints_ptr : Prints Arg.ptr? uartPuthex .ptr .ptr
  | .ptr p => .inl ⟨rfl, p, rfl, emits_uartPuthex p⟩
  | .str _ | .word _ | .int _ => .inr ⟨by simp [Arg.kind], rfl⟩

theorem prints_char : Prints Arg.int? (fun n => uartPutc (n.setWidth 8)) .char .int
  | .int n => .inl ⟨rfl, n, rfl, emits_uartPutc _⟩
  | .str _ | .word _ | .ptr _ => .inr ⟨by simp [Arg.kind], rfl⟩

theorem gives_printfSpec (spec : U8) (args : List Arg) :
    Gives (printfSpec spec args) ((Conv.ofByte spec).take args) := by
  rw [printfSpec, Conv.ofByte]
  split_ifs
  · exact gives_vaArg rfl prints_str args
  · exact gives_vaArg rfl (prints_word emits_putSigned) args
  · exact gives_vaArg rfl (prints_word emits_uartPutdec) args
  · exact gives_vaArg rfl (prints_word emits_uartPuthex) args
  · exact gives_vaArg rfl prints_ptr args
  · exact gives_vaArg rfl prints_char args
  · exact fun _ => rfl
  · intro out
    change some (args, out ++ [chr '%'] ++ [spec]) = _
    rw [List.append_assoc]
    rfl

/-- The loop prints the pieces of its format. -/
theorem gives_printfLoop (fmt : List U8) (args : List Arg) :
    Gives (printfLoop fmt args) ((render (parse fmt) args).map fun t => ((), t)) := by
  fun_induction printfLoop fmt args with
  | case1 => exact gives_pure ()
  | case2 c fmt args hc ih =>
    have hboth := (emits_putText c).gives.bind fun _ => ih
    rw [parse_char hc, render, Option.map_map]
    simp only [Option.bind_some, Option.map_map] at hboth
    exact hboth
  | case3 c args hc =>
    rw [parse, if_neg hc]
    exact gives_pure ()
  | case4 c args hc spec fmt ih =>
    have hboth := (gives_printfSpec spec args).bind ih
    rw [not_not.mp hc, parse_conv, render, Option.map_bind]
    simp only [Option.map_map] at hboth
    simp only [Function.comp_def, Option.map_map]
    exact hboth

theorem printfLoop_run (fmt : List U8) (args : List Arg) (out : List U8) :
    printfLoop fmt args out = (render (parse fmt) args).map fun t => ((), out ++ t) := by
  rw [gives_printfLoop, Option.map_map]
  rfl

/-- What a call of `uart_printf` does. It prints exactly what `render` says; it is
without defined behaviour exactly when the arguments do not begin with those that the
conversions take, each of its type; further arguments are ignored. A format cut between
two pieces prints like its two parts, the second with the arguments left by the first. -/
structure PrintfLaw (fmt : CStr) (args : List Arg) : Prop where
  prints : ∀ text, Emits (uartPrintf fmt args) text ↔ render (parse fmt.bytes) args = some text
  fails : (∀ out, uartPrintf fmt args out = none) ↔
    ¬ kinds (parse fmt.bytes) <+: args.map Arg.kind
  parts : ∀ ps rest, (∀ p ∈ ps, Piece.Ok p) → fmt.bytes = ps.flatMap Piece.bytes ++ rest →
    uartPrintf fmt args = printfLoop (ps.flatMap Piece.bytes) args >>=
      fun _ => printfLoop rest (args.drop (kinds ps).length)

theorem printf_prints (fmt : CStr) (args : List Arg) (text : List U8) :
    Emits (uartPrintf fmt args) text ↔ render (parse fmt.bytes) args = some text := by
  constructor
  · intro hemits
    have hrun := hemits []
    rw [uartPrintf, printfLoop_run] at hrun
    simpa using hrun
  · intro hrender out
    rw [uartPrintf, printfLoop_run, hrender]
    rfl

theorem printf_fails (fmt : CStr) (args : List Arg) : (∀ out, uartPrintf fmt args out = none) ↔
    ¬ kinds (parse fmt.bytes) <+: args.map Arg.kind := by
  rw [← render_isSome_iff, Option.not_isSome_iff_eq_none]
  constructor
  · intro hnone
    have hrun := hnone []
    rwa [uartPrintf, printfLoop_run, Option.map_eq_none_iff] at hrun
  · intro hrender out
    rw [uartPrintf, printfLoop_run, hrender]
    rfl

theorem printf_parts {ps : List Piece} (hok : ∀ p ∈ ps, p.Ok) (rest : List U8)
    (args : List Arg) : printfLoop (ps.flatMap Piece.bytes ++ rest) args =
      printfLoop (ps.flatMap Piece.bytes) args >>=
        fun _ => printfLoop rest (args.drop (kinds ps).length) := by
  have hfirst : parse (ps.flatMap Piece.bytes) = ps := by
    have hparse := parse_bytes hok []
    rwa [List.append_nil, show parse [] = [] from rfl, List.append_nil] at hparse
  funext out
  have hrun : ∀ p q : PrintM Unit, (p >>= fun _ => q) out = (p out).bind fun x => q x.2 :=
    fun _ _ => rfl
  rw [hrun, printfLoop_run, printfLoop_run, parse_bytes hok, hfirst, render_append]
  cases render ps args with
  | none => rfl
  | some t =>
    simp only [Option.bind_some, Option.map_some, printfLoop_run, Option.map_map]
    refine congrArg (fun F => Option.map F _) (funext fun u => ?_)
    simp only [Function.comp_apply, List.append_assoc]

theorem printf_law (fmt : CStr) (args : List Arg) : PrintfLaw fmt args where
  prints := printf_prints fmt args
  fails := printf_fails fmt args
  parts := by
    intro ps rest hok hfmt
    rw [uartPrintf, hfmt]
    exact printf_parts hok rest args

end FermiHV.Uart
