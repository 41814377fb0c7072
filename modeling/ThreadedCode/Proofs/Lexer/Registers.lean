import ThreadedCode.Proofs.Lexer.Descent

/-!
The registers of a lexer: the mode that it is in, the parts of a token, an escape as far as it is
spelled, and whether a string awaits the line feed of the line that it has left. The lexer looks at
a code point and goes on to the next one, or looks again where that one has only shown that an
escape is over. Digits that are no number, or no number of a code point, would end it. Main
statement: a look keeps the shape of the registers and does not fail, and does what a step of the
lexer does.
-/

namespace ThreadedCode.Lexer

inductive Mode where
  | space
  | bare
  | string
  | escape
deriving DecidableEq

structure Registers where
  mode : Mode := .space
  buffer : List Text := []
  escape : Text := []
  newline : Bool := false
deriving DecidableEq

/-- What comes of looking at a code point: the next round looks at the next one, after a token or
without one, or at the same one; or the rest of the line is a comment; or a conversion has failed.
-/
inductive Turn where
  | advance (r : Registers)
  | token (t : Text) (r : Registers)
  | again (r : Registers)
  | comment
  | failed
deriving DecidableEq

def number? (base : Nat) (digit? : CodePoint → Option Nat) (limit : Nat) (ds : Text) : Option Nat :=
  if ds ≠ [] ∧ ds.length ≤ limit ∧ ∀ d ∈ ds, (digit? d).isSome then some (numberOf base digit? ds)
  else none

namespace Registers

def token (r : Registers) : Text := r.buffer.flatten

def put (r : Registers) (t : Text) : Registers := { r with buffer := r.buffer ++ [t] }

def emptied (r : Registers) : Registers := { r with mode := .space, buffer := [] }

def resume (r : Registers) (t : Text) : Registers :=
  { r with mode := .string, buffer := r.buffer ++ [t], escape := [] }

def flushEscape (r : Registers) : Registers := r.resume (.backslash :: r.escape)

def finishOctal (r : Registers) : Option Registers := do
  let n ← number? 8 octalDigit? octalLimit r.escape.tail
  let c ← CodePoint.ofNat? n
  some (r.resume [c])

def finishHex (r : Registers) (form : HexForm) : Option Registers := do
  let n ← number? 16 hexDigit? form.width r.escape.tail
  if 0x10FFFF < n then some r.flushEscape
  else
    let c ← CodePoint.ofNat? n
    some (r.resume [c])

def endEscape (r : Registers) : Option Registers :=
  if r.escape.head? = some 'o' then r.finishOctal else some r.flushEscape

def lookInEscape (r : Registers) (c : CodePoint) : Turn :=
  match r.escape with
  | [] =>
    match simpleEscape? c, octalDigit? c, HexForm.ofLetter? c with
    | some meaning, _, _ => .advance (r.resume [meaning])
    | none, some _, _ => .advance { r with escape := ['o', c] }
    | none, none, some _ => .advance { r with escape := [c] }
    | none, none, none => .advance (r.resume [.backslash, c])
  | mark :: digits =>
    if mark = 'o' then
      if (octalDigit? c).isSome then
        let longer := { r with escape := mark :: (digits ++ [c]) }
        if digits.length + 1 = octalLimit then longer.finishOctal.elim .failed .advance
        else .advance longer
      else r.finishOctal.elim .failed .again
    else if (hexDigit? c).isSome then
      let longer := { r with escape := mark :: (digits ++ [c]) }
      match HexForm.ofLetter? mark with
      | none => .failed
      | some form =>
        if digits.length + 1 = form.width then (longer.finishHex form).elim .failed .advance
        else .advance longer
    else .again r.flushEscape

def look (r : Registers) (c : CodePoint) : Turn :=
  match r.mode with
  | .space =>
    if c.isBlank then .advance r
    else if c = .numberSign then .comment
    else .advance { r with mode := if c = .doubleQuote then .string else .bare, buffer := [[c]] }
  | .bare => if c.isBlank then .token r.token.lower r.emptied else .advance (r.put [c])
  | .string =>
    if c = .backslash then .advance { r with mode := .escape, escape := [] }
    else if c = .doubleQuote then .token (r.put [c]).token (r.put [c]).emptied
    else .advance (r.put [c])
  | .escape => r.lookInEscape c

def endOfLine (r : Registers) : Option (Option Text × Registers) :=
  match r.mode with
  | .space => some (none, r)
  | .bare => some (some r.token.lower, r.emptied)
  | .string => some (none, { r with newline := true })
  | .escape =>
    if r.escape = [] then some (none, { r with mode := .string })
    else r.endEscape.map fun r => (none, { r with newline := true })

def startOfLine (r : Registers) : Registers :=
  { (if r.mode = .string && r.newline then r.put [.lineFeed] else r) with newline := false }

def partialToken (r : Registers) : Option Text := if r.mode = .string then some r.token else none

end Registers

def Pending.spelled : Pending → Text
  | .start => []
  | .octal digits => 'o' :: digits
  | .hex form digits => form.letter :: digits

/-- What may wait for a code point: nothing yet, an octal escape of one or two digits, or a
hexadecimal one of fewer digits than its form has. -/
def Pending.Unfinished : Pending → Prop
  | .start => True
  | .octal digits =>
    digits ≠ [] ∧ digits.length < octalLimit ∧ ∀ d ∈ digits, (octalDigit? d).isSome
  | .hex form digits => digits.length < form.width ∧ ∀ d ∈ digits, (hexDigit? d).isSome

inductive Holds : Registers → State → Prop
  | space : Holds {} .space
  | word {buffer : List Text} (filled : buffer ≠ []) :
      Holds { mode := .bare, buffer } (.word buffer.flatten)
  | string {buffer : List Text} (quoted : buffer.head? = some [.doubleQuote]) :
      Holds { mode := .string, buffer } (.string buffer.flatten)
  | escape {buffer : List Text} {pending : Pending} (quoted : buffer.head? = some [.doubleQuote])
      (unfinished : pending.Unfinished) :
      Holds { mode := .escape, buffer, escape := pending.spelled } (.escape buffer.flatten pending)

inductive Carries : Registers → Carry → Prop
  | outside : Carries {} .outside
  | inString {buffer : List Text} (newline : Bool) (quoted : buffer.head? = some [.doubleQuote]) :
      Carries { mode := .string, buffer, newline } (.inString buffer.flatten newline)

/-- A look that does what a step of the lexer does. Where it leaves the code point for another look,
the string that it goes on with takes the same step. -/
inductive Mirrors (s : State) (c : CodePoint) : Turn → Prop
  | advance {r : Registers} {s' : State} (steps : step s c = .advance s') (holds : Holds r s') :
      Mirrors s c (.advance r)
  | token {t : Text} (steps : step s c = .token t) : Mirrors s c (.token t {})
  | again {r : Registers} {s' : State} (steps : step s c = step s' c) (holds : Holds r s') :
      Mirrors s c (.again r)
  | comment (outside : s = .space) (steps : step s c = .comment) : Mirrors s c .comment

section Escapes

variable {buffer : List Text} {digits : Text}

theorem number?_eq {base limit : Nat} {digit? : CodePoint → Option Nat} (some_ : digits ≠ [])
    (few : digits.length ≤ limit) (all : ∀ d ∈ digits, (digit? d).isSome) :
    number? base digit? limit digits = some (numberOf base digit? digits) :=
  if_pos ⟨some_, few, all⟩

theorem finishOctal_eq (some_ : digits ≠ []) (few : digits.length ≤ octalLimit)
    (all : ∀ d ∈ digits, (octalDigit? d).isSome) :
    Registers.finishOctal { mode := .escape, buffer, escape := 'o' :: digits } =
      some { mode := .string, buffer := buffer ++ [Pending.resolve (.octal digits)] } := by
  have small : numberOf 8 octalDigit? digits < 0x110000 :=
    Nat.lt_of_lt_of_le (numberOf_octal_lt digits few) (by decide)
  have point : CodePoint.ofNat? (numberOf 8 octalDigit? digits) = some ⟨_, small⟩ := dif_pos small
  simp only [Registers.finishOctal, List.tail_cons, number?_eq some_ few all, Pending.resolve,
    point, Option.bind_eq_bind, Option.bind_some, Registers.resume, Option.toList_some]

theorem finishHex_eq {form : HexForm} (full : digits.length = form.width)
    (all : ∀ d ∈ digits, (hexDigit? d).isSome) :
    Registers.finishHex { mode := .escape, buffer, escape := form.letter :: digits } form =
      some { mode := .string, buffer := buffer ++ [Pending.resolve (.hex form digits)] } := by
  have some_ : digits ≠ [] := by
    rintro rfl
    cases form <;> cases full
  have done : ¬ digits.length < form.width := by omega
  simp only [Registers.finishHex, List.tail_cons, number?_eq some_ (Nat.le_of_eq full) all,
    Pending.resolve, if_neg done, Option.bind_eq_bind, Option.bind_some]
  by_cases small : numberOf 16 hexDigit? digits < 0x110000
  · have point : CodePoint.ofNat? (numberOf 16 hexDigit? digits) = some ⟨_, small⟩ := dif_pos small
    rw [if_neg (by omega), point]
    rfl
  · have none_ : CodePoint.ofNat? (numberOf 16 hexDigit? digits) = none := dif_neg small
    rw [if_pos (by omega), none_]
    rfl

end Escapes

section Looks

variable {buffer : List Text} {r : Registers} {s : State}

theorem Holds.string_append (quoted : buffer.head? = some [.doubleQuote]) (t : Text) :
    Holds { mode := .string, buffer := buffer ++ [t] } (.string (buffer.flatten ++ t)) := by
  have still : (buffer ++ [t]).head? = some [.doubleQuote] := by
    rw [List.head?_append, quoted]
    rfl
  have holds := Holds.string still
  rwa [List.flatten_concat] at holds

theorem look_space (c : CodePoint) : Mirrors .space c (Registers.look {} c) := by
  by_cases blank : c.isBlank
  · have looks : Registers.look {} c = .advance {} := if_pos blank
    rw [looks]
    exact .advance (if_pos blank) .space
  · by_cases sign : c = .numberSign
    · have looks : Registers.look {} c = .comment := (if_neg blank).trans (if_pos sign)
      rw [looks]
      exact .comment rfl ((if_neg blank).trans (if_pos sign))
    · have steps : step .space c =
          if c = .doubleQuote then .advance (.string [c]) else .advance (.word [c]) :=
        (if_neg blank).trans (if_neg sign)
      have looks : Registers.look {} c =
          .advance { mode := if c = .doubleQuote then .string else .bare, buffer := [[c]] } :=
        (if_neg blank).trans (if_neg sign)
      rw [looks]
      by_cases quote : c = .doubleQuote
      · rw [if_pos quote] at steps ⊢
        have quoted : ([[c]] : List Text).head? = some [.doubleQuote] := by
          rw [quote]
          rfl
        exact .advance steps (.string quoted)
      · rw [if_neg quote] at steps ⊢
        exact .advance steps (.word (List.cons_ne_nil [c] []))

theorem look_bare (filled : buffer ≠ []) (c : CodePoint) :
    Mirrors (.word buffer.flatten) c (Registers.look { mode := .bare, buffer } c) := by
  by_cases blank : c.isBlank
  · have looks : Registers.look { mode := .bare, buffer } c =
        .token (Text.lower buffer.flatten) {} := if_pos blank
    rw [looks]
    exact .token (if_pos blank)
  · have looks : Registers.look { mode := .bare, buffer } c =
        .advance { mode := .bare, buffer := buffer ++ [[c]] } := if_neg blank
    have holds := Holds.word (List.append_ne_nil_of_left_ne_nil filled [[c]])
    rw [List.flatten_concat] at holds
    rw [looks]
    exact .advance (if_neg blank) holds

theorem look_string (quoted : buffer.head? = some [.doubleQuote]) (c : CodePoint) :
    Mirrors (.string buffer.flatten) c (Registers.look { mode := .string, buffer } c) := by
  by_cases escapes : c = .backslash
  · have looks : Registers.look { mode := .string, buffer } c =
        .advance { mode := .escape, buffer, escape := [] } := if_pos escapes
    rw [looks]
    have start : Pending.start.Unfinished := trivial
    exact .advance (if_pos escapes) (.escape quoted start)
  · by_cases closes : c = .doubleQuote
    · have looks : Registers.look { mode := .string, buffer } c =
          .token (buffer ++ [[c]]).flatten {} := (if_neg escapes).trans (if_pos closes)
      rw [looks, List.flatten_concat]
      exact .token ((if_neg escapes).trans (if_pos closes))
    · have looks : Registers.look { mode := .string, buffer } c =
          .advance { mode := .string, buffer := buffer ++ [[c]] } :=
        (if_neg escapes).trans (if_neg closes)
      rw [looks]
      exact .advance ((if_neg escapes).trans (if_neg closes)) (.string_append quoted [c])

theorem look_start (quoted : buffer.head? = some [.doubleQuote]) (c : CodePoint) :
    Mirrors (.escape buffer.flatten .start) c
      (Registers.look { mode := .escape, buffer, escape := [] } c) := by
  have looks : Registers.look { mode := .escape, buffer, escape := [] } c =
      Registers.lookInEscape { mode := .escape, buffer, escape := [] } c := rfl
  have steps : step (.escape buffer.flatten .start) c = stepEscape buffer.flatten c .start := rfl
  rw [looks, Registers.lookInEscape]
  rw [stepEscape] at steps
  cases simple : simpleEscape? c with
  | some meaning =>
    rw [simple] at steps
    exact .advance steps (.string_append quoted [meaning])
  | none =>
    cases octal : octalDigit? c with
    | some n =>
      rw [simple, octal] at steps
      have digit : ∀ d ∈ [c], (octalDigit? d).isSome :=
        List.forall_mem_singleton.mpr (Option.isSome_of_mem octal)
      have few : 1 < octalLimit := by decide
      have one : (Pending.octal [c]).Unfinished := ⟨List.cons_ne_nil c [], few, digit⟩
      exact .advance steps (.escape quoted one)
    | none =>
      cases hex : HexForm.ofLetter? c with
      | some form =>
        rw [simple, octal, hex] at steps
        obtain rfl := letter_of_ofLetter? hex
        have none_ : (Pending.hex form []).Unfinished := ⟨by cases form <;> decide, by simp⟩
        exact .advance steps (.escape quoted none_)
      | none =>
        rw [simple, octal, hex] at steps
        exact .advance steps (.string_append quoted [.backslash, c])

theorem look_octal {digits : Text} (quoted : buffer.head? = some [.doubleQuote])
    (unfinished : (Pending.octal digits).Unfinished) (c : CodePoint) :
    Mirrors (.escape buffer.flatten (.octal digits)) c
      (Registers.look { mode := .escape, buffer, escape := 'o' :: digits } c) := by
  obtain ⟨some_, few, all⟩ := unfinished
  by_cases digit : (octalDigit? c).isSome
  · have more : ∀ d ∈ digits ++ [c], (octalDigit? d).isSome :=
      List.forall_mem_append.mpr ⟨all, List.forall_mem_singleton.mpr digit⟩
    have filled : digits ++ [c] ≠ [] := List.append_ne_nil_of_left_ne_nil some_ [c]
    have looks : Registers.look { mode := .escape, buffer, escape := 'o' :: digits } c =
        if digits.length + 1 = octalLimit then
          (Registers.finishOctal
            { mode := .escape, buffer, escape := 'o' :: (digits ++ [c]) }).elim .failed .advance
        else .advance { mode := .escape, buffer, escape := 'o' :: (digits ++ [c]) } :=
      if_pos digit
    have steps : step (.escape buffer.flatten (.octal digits)) c =
        if digits.length + 1 = octalLimit then
          .advance (.string (buffer.flatten ++ Pending.resolve (.octal (digits ++ [c]))))
        else .advance (.escape buffer.flatten (.octal (digits ++ [c]))) := if_pos digit
    rw [looks]
    by_cases full : digits.length + 1 = octalLimit
    · rw [if_pos full] at steps ⊢
      have few : (digits ++ [c]).length ≤ octalLimit := by simp [full]
      rw [finishOctal_eq filled few more]
      exact .advance steps (.string_append quoted _)
    · rw [if_neg full] at steps ⊢
      have few : (digits ++ [c]).length < octalLimit := by
        rw [List.length_append, List.length_singleton]
        omega
      have longer : (Pending.octal (digits ++ [c])).Unfinished := ⟨filled, few, more⟩
      exact .advance steps (.escape quoted longer)
  · have looks : Registers.look { mode := .escape, buffer, escape := 'o' :: digits } c =
        (Registers.finishOctal
          { mode := .escape, buffer, escape := 'o' :: digits }).elim .failed .again := if_neg digit
    rw [looks, finishOctal_eq some_ (Nat.le_of_lt few) all]
    have steps : step (.escape buffer.flatten (.octal digits)) c =
        step (.string (buffer.flatten ++ Pending.resolve (.octal digits))) c := if_neg digit
    exact .again steps (.string_append quoted _)

theorem look_hex {form : HexForm} {digits : Text} (quoted : buffer.head? = some [.doubleQuote])
    (unfinished : (Pending.hex form digits).Unfinished) (c : CodePoint) :
    Mirrors (.escape buffer.flatten (.hex form digits)) c
      (Registers.look { mode := .escape, buffer, escape := form.letter :: digits } c) := by
  obtain ⟨few, all⟩ := unfinished
  have apart : form.letter ≠ 'o' := by cases form <;> decide
  have known : HexForm.ofLetter? form.letter = some form := by cases form <;> decide
  have looks : Registers.look { mode := .escape, buffer, escape := form.letter :: digits } c =
      if (hexDigit? c).isSome then
        if digits.length + 1 = form.width then
          (Registers.finishHex { mode := .escape, buffer, escape := form.letter :: (digits ++ [c]) }
            form).elim .failed .advance
        else .advance { mode := .escape, buffer, escape := form.letter :: (digits ++ [c]) }
      else
        .again { mode := .string, buffer := buffer ++ [.backslash :: form.letter :: digits] } := by
    rw [Registers.look]
    dsimp only [Registers.lookInEscape]
    rw [if_neg apart, known]
    rfl
  have steps : step (.escape buffer.flatten (.hex form digits)) c =
      if (hexDigit? c).isSome then
        if digits.length + 1 = form.width then
          .advance (.string (buffer.flatten ++ Pending.resolve (.hex form (digits ++ [c]))))
        else .advance (.escape buffer.flatten (.hex form (digits ++ [c])))
      else step (.string (buffer.flatten ++ Pending.resolve (.hex form digits))) c := rfl
  rw [looks]
  by_cases digit : (hexDigit? c).isSome
  · have more : ∀ d ∈ digits ++ [c], (hexDigit? d).isSome :=
      List.forall_mem_append.mpr ⟨all, List.forall_mem_singleton.mpr digit⟩
    rw [if_pos digit] at steps ⊢
    by_cases full : digits.length + 1 = form.width
    · rw [if_pos full] at steps ⊢
      have whole : (digits ++ [c]).length = form.width := by simp [full]
      rw [finishHex_eq whole more]
      exact .advance steps (.string_append quoted _)
    · rw [if_neg full] at steps ⊢
      have few : (digits ++ [c]).length < form.width := by
        rw [List.length_append, List.length_singleton]
        omega
      have longer : (Pending.hex form (digits ++ [c])).Unfinished := ⟨few, more⟩
      exact .advance steps (.escape quoted longer)
  · rw [if_neg digit] at steps ⊢
    have literal : Pending.resolve (.hex form digits) = .backslash :: form.letter :: digits :=
      if_pos few
    rw [literal] at steps
    exact .again steps (.string_append quoted _)

/-- A look keeps the shape of the registers and does what the lexer does. -/
theorem Holds.look (holds : Holds r s) (c : CodePoint) : Mirrors s c (r.look c) := by
  cases holds with
  | space => exact look_space c
  | word filled => exact look_bare filled c
  | string quoted => exact look_string quoted c
  | @escape buffer pending quoted unfinished =>
    cases pending with
    | start => exact look_start quoted c
    | octal digits => exact look_octal quoted unfinished c
    | hex form digits => exact look_hex quoted unfinished c

theorem Holds.endOfLine (holds : Holds r s) :
    ∃ r', r.endOfLine = some ((endLine s).1, r') ∧ Carries r' (endLine s).2 := by
  cases holds with
  | space => exact ⟨{}, rfl, .outside⟩
  | word filled => exact ⟨{}, rfl, .outside⟩
  | string quoted => exact ⟨_, rfl, .inString true quoted⟩
  | @escape buffer pending quoted unfinished =>
    have carries (t : Text) : Carries { mode := .string, buffer := buffer ++ [t], newline := true }
        (.inString (buffer.flatten ++ t) true) := by
      have still : (buffer ++ [t]).head? = some [.doubleQuote] := by
        rw [List.head?_append, quoted]
        rfl
      have carried := Carries.inString true still
      rwa [List.flatten_concat] at carried
    cases pending with
    | start => exact ⟨_, rfl, .inString false quoted⟩
    | octal digits =>
      obtain ⟨some_, few, all⟩ := unfinished
      have ends : Registers.endOfLine { mode := .escape, buffer, escape := 'o' :: digits } =
          (Registers.finishOctal { mode := .escape, buffer, escape := 'o' :: digits }).map
            fun r => (none, { r with newline := true }) := rfl
      refine ⟨_, ?_, carries _⟩
      rw [Pending.spelled, ends, finishOctal_eq some_ (Nat.le_of_lt few) all]
      rfl
    | hex form digits =>
      have literal : Pending.resolve (.hex form digits) = .backslash :: form.letter :: digits :=
        if_pos unfinished.1
      have cut : (endLine (.escape buffer.flatten (.hex form digits))).2 =
          .inString (buffer.flatten ++ (.backslash :: form.letter :: digits)) true := by
        rw [← literal]
        rfl
      rw [cut]
      have apart : form.letter ≠ 'o' := by cases form <;> decide
      have flushes : Registers.endEscape
          { mode := .escape, buffer, escape := form.letter :: digits } =
            some (Registers.flushEscape
              { mode := .escape, buffer, escape := form.letter :: digits }) :=
        if_neg fun same => apart (Option.some.inj same)
      have ends : Registers.endOfLine { mode := .escape, buffer, escape := form.letter :: digits } =
          (Registers.endEscape { mode := .escape, buffer, escape := form.letter :: digits }).map
            fun r => (none, { r with newline := true }) := rfl
      refine ⟨_, ?_, carries _⟩
      rw [Pending.spelled, ends, flushes]
      rfl

theorem Carries.startOfLine {carry : Carry} (carries : Carries r carry) :
    Holds r.startOfLine (startLine carry) := by
  cases carries with
  | outside => exact .space
  | inString newline quoted =>
    cases newline with
    | false => exact .string quoted
    | true => exact .string_append quoted [.lineFeed]

end Looks

/-- The shape of the registers at the head of each round. -/
structure Registers.AtHead (r : Registers) : Prop where
  buffer : r.buffer = [] ↔ r.mode = .space
  quoted : r.mode = .string ∨ r.mode = .escape → r.buffer.head? = some [.doubleQuote]
  escape : r.escape ≠ [] → r.mode = .escape
  spelled : r.mode = .escape → ∃ pending : Pending, pending.Unfinished ∧ r.escape = pending.spelled

/-- The shape of the registers between two lines. -/
structure Registers.BetweenLines (r : Registers) : Prop where
  mode : r.mode = .space ∨ r.mode = .string
  buffer : r.buffer = [] ↔ r.mode = .space
  quoted : r.mode = .string → r.buffer.head? = some [.doubleQuote]
  escape : r.escape = []
  newline : r.newline → r.mode = .string

section Shape

variable {r : Registers}

theorem ne_nil_of_quoted {buffer : List Text} (quoted : buffer.head? = some [.doubleQuote]) :
    buffer ≠ [] := by
  rintro rfl
  cases quoted

theorem Holds.atHead {s : State} (holds : Holds r s) : r.AtHead := by
  cases holds with
  | space => exact ⟨by simp, by simp, by simp, by simp⟩
  | word filled => exact ⟨by simp [filled], by simp, by simp, by simp⟩
  | string quoted => exact ⟨by simp [ne_nil_of_quoted quoted], fun _ => quoted, by simp, by simp⟩
  | escape quoted unfinished =>
    exact ⟨by simp [ne_nil_of_quoted quoted], fun _ => quoted, fun _ => rfl,
      fun _ => ⟨_, unfinished, rfl⟩⟩

theorem Carries.betweenLines {carry : Carry} (carries : Carries r carry) : r.BetweenLines := by
  cases carries with
  | outside => exact ⟨.inl rfl, by simp, by simp, rfl, by simp⟩
  | inString newline quoted =>
    exact ⟨.inr rfl, by simp [ne_nil_of_quoted quoted], fun _ => quoted, rfl, fun _ => rfl⟩

theorem Carries.partialToken_eq {carry : Carry} (carries : Carries r carry) :
    r.partialToken = carry.partialToken := by
  cases carries <;> rfl

end Shape

end ThreadedCode.Lexer
