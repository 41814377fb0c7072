import ThreadedCode.Text.Blank
import ThreadedCode.Text.Lines
import ThreadedCode.Text.LowerCase

/-!
The lexer, one code point at a time. White space separates tokens; a number sign where a token would
begin makes the rest of the line a comment; a double quote there opens a string, which may run over
several lines; everything else is a bare word, given in lower case. A string keeps its quotes and
has its escapes resolved. An escape that turns out to be none stays as it was written, and the code
point that showed it is read again as string content.
-/

namespace ThreadedCode

namespace Lexer

inductive HexForm where
  | two
  | four
  | eight
deriving DecidableEq

namespace HexForm

def letter : HexForm → CodePoint
  | two => 'x'
  | four => 'u'
  | eight => 'U'

def width : HexForm → Nat
  | two => 2
  | four => 4
  | eight => 8

def ofLetter? (c : CodePoint) : Option HexForm :=
  [two, four, eight].find? fun form => form.letter = c

end HexForm

def simpleEscapes : List (CodePoint × CodePoint) :=
  [('n', '\n'), ('t', '\t'), ('r', '\r'), ('a', 0x07), ('b', 0x08), ('f', 0x0C), ('v', 0x0B),
    (.backslash, .backslash), (.doubleQuote, .doubleQuote), (.singleQuote, .singleQuote)]

def simpleEscape? (c : CodePoint) : Option CodePoint :=
  (simpleEscapes.find? fun e => e.1 = c).map (·.2)

def octalDigit? (c : CodePoint) : Option Nat :=
  if 0x30 ≤ c.val && c.val ≤ 0x37 then some (c.val - 0x30) else none

def hexDigit? (c : CodePoint) : Option Nat :=
  if 0x30 ≤ c.val && c.val ≤ 0x39 then some (c.val - 0x30)
  else if 0x41 ≤ c.val && c.val ≤ 0x46 then some (c.val - 0x37)
  else if 0x61 ≤ c.val && c.val ≤ 0x66 then some (c.val - 0x57)
  else none

/-- The number that digits of some base denote; what is no digit counts as zero. -/
def numberOf (base : Nat) (digit? : CodePoint → Option Nat) (digits : Text) : Nat :=
  digits.foldl (fun n c => base * n + (digit? c).getD 0) 0

def octalLimit : Nat := 3

/-- What has been read of an escape after its backslash. -/
inductive Pending where
  | start
  | octal (digits : Text)
  | hex (form : HexForm) (digits : Text)
deriving DecidableEq

def Pending.resolve : Pending → Text
  | .start => [.backslash]
  | .octal digits => ((CodePoint.ofNat? (numberOf 8 octalDigit? digits)).toList)
  | .hex form digits =>
    let literal := .backslash :: form.letter :: digits
    if digits.length < form.width then literal
    else
      match CodePoint.ofNat? (numberOf 16 hexDigit? digits) with
      | some c => [c]
      | none => literal

/-- Where the lexer stands inside a line: between tokens, in a bare word, in a string, or in an
escape of a string. The text taken so far of a string begins with its opening quote. -/
inductive State where
  | space
  | word (taken : Text)
  | string (taken : Text)
  | escape (taken : Text) (pending : Pending)
deriving DecidableEq

inductive Step where
  | advance (s : State)
  | token (t : Text)
  | comment
deriving DecidableEq

def stepString (taken : Text) (c : CodePoint) : Step :=
  if c = .backslash then .advance (.escape taken .start)
  else if c = .doubleQuote then .token (taken ++ [c])
  else .advance (.string (taken ++ [c]))

def stepEscape (taken : Text) (c : CodePoint) : Pending → Step
  | .start =>
    match simpleEscape? c, octalDigit? c, HexForm.ofLetter? c with
    | some meaning, _, _ => .advance (.string (taken ++ [meaning]))
    | none, some _, _ => .advance (.escape taken (.octal [c]))
    | none, none, some form => .advance (.escape taken (.hex form []))
    | none, none, none => .advance (.string (taken ++ [.backslash, c]))
  | .octal digits =>
    if (octalDigit? c).isSome then
      let pending := .octal (digits ++ [c])
      if digits.length + 1 = octalLimit then .advance (.string (taken ++ pending.resolve))
      else .advance (.escape taken pending)
    else stepString (taken ++ Pending.resolve (.octal digits)) c
  | .hex form digits =>
    if (hexDigit? c).isSome then
      let pending := .hex form (digits ++ [c])
      if digits.length + 1 = form.width then .advance (.string (taken ++ pending.resolve))
      else .advance (.escape taken pending)
    else stepString (taken ++ Pending.resolve (.hex form digits)) c

def step : State → CodePoint → Step
  | .space, c =>
    if c.isBlank then .advance .space
    else if c = .numberSign then .comment
    else if c = .doubleQuote then .advance (.string [c])
    else .advance (.word [c])
  | .word taken, c => if c.isBlank then .token taken.lower else .advance (.word (taken ++ [c]))
  | .string taken, c => stepString taken c
  | .escape taken pending, c => stepEscape taken c pending

/-- Where the lexer stands between two lines: outside tokens, or in a string, which the next line
continues after a line feed or without one. -/
inductive Carry where
  | outside
  | inString (taken : Text) (newline : Bool)
deriving DecidableEq

/-- The end of a line: the bare word that it ends, and where it leaves the lexer. A backslash there
joins the lines of a string without a line feed. -/
def endLine : State → Option Text × Carry
  | .space => (none, .outside)
  | .word taken => (some taken.lower, .outside)
  | .string taken => (none, .inString taken true)
  | .escape taken .start => (none, .inString taken false)
  | .escape taken pending => (none, .inString (taken ++ pending.resolve) true)

def startLine : Carry → State
  | .outside => .space
  | .inString taken newline => .string (if newline then taken ++ [.lineFeed] else taken)

def lexRest : State → Text → List Text × Carry
  | s, [] => ((endLine s).1.toList, (endLine s).2)
  | s, c :: rest =>
    match step s c with
    | .advance s => lexRest s rest
    | .token t =>
      let (tokens, carry) := lexRest .space rest
      (t :: tokens, carry)
    | .comment => ([], .outside)

/-- The tokens of a line; line feeds and carriage returns at its end do not count. -/
def lexLine (carry : Carry) (line : Text) : List Text × Carry :=
  lexRest (startLine carry) line.chomp

def lexLines : Carry → List Text → List Text × Carry
  | carry, [] => ([], carry)
  | carry, line :: lines =>
    let (first, carry) := lexLine carry line
    let (rest, carry) := lexLines carry lines
    (first ++ rest, carry)

theorem lexLines_append (carry : Carry) (first more : List Text) :
    lexLines carry (first ++ more) =
      ((lexLines carry first).1 ++ (lexLines (lexLines carry first).2 more).1,
        (lexLines (lexLines carry first).2 more).2) := by
  induction first generalizing carry with
  | nil => rfl
  | cons line first ih => simp only [List.cons_append, lexLines, ih, List.append_assoc]

/-- The token of a string that the end of the source leaves open: what there is of it. -/
def Carry.partialToken : Carry → Option Text
  | .outside => none
  | .inString taken _ => some taken

def tokens (lines : List Text) : List Text :=
  let (complete, carry) := lexLines .outside lines
  complete ++ carry.partialToken.toList

def lineTokens (line : Text) : List Text := tokens [line]

end Lexer

end ThreadedCode
