import ThreadedCode.Lexer.Basic

/-!
Tokens on demand. A reader stops right after a token, inside its line, and takes a line from its
source only when the one before is used up. It is one lexer that reads source after source: a new
source does not touch it before the first request, and the end of a source is noticed only by the
request after the last token.
-/

namespace ThreadedCode

namespace Lexer

inductive Scan where
  | token (t rest : Text)
  | lineEnd (carry : Carry)
deriving DecidableEq

def scan : State → Text → Scan
  | s, [] =>
    match endLine s with
    | (some t, _) => .token t []
    | (none, carry) => .lineEnd carry
  | s, c :: rest =>
    match step s c with
    | .advance s => scan s rest
    | .token t => .token t rest
    | .comment => .lineEnd .outside

/-- How far a reader is: before its source, inside a line, after the token of a string that the end
of the source left open, or at the end for good. -/
inductive Place where
  | unread (lines : List Text)
  | inLine (rest : Text) (lines : List Text)
  | afterPartial
  | ended
deriving DecidableEq

structure Reader where
  carry : Carry := .outside
  place : Place := .ended
  pulled : Nat := 0
deriving DecidableEq

namespace Reader

def load (r : Reader) (lines : List Text) : Reader :=
  { r with place := .unread lines, pulled := 0 }

/-- Puts the lexer outside tokens; the place in the source stays. -/
def reset (r : Reader) : Reader := { r with carry := .outside }

def pull : Carry → List Text → Nat → Option Text × Reader
  | .outside, [], pulled => (none, ⟨.outside, .ended, pulled⟩)
  | .inString taken newline, [], pulled =>
    (some taken, ⟨.inString taken newline, .afterPartial, pulled⟩)
  | carry, line :: lines, pulled =>
    match scan (startLine carry) line.chomp with
    | .token t rest => (some t, ⟨.outside, .inLine rest lines, pulled + 1⟩)
    | .lineEnd carry => pull carry lines (pulled + 1)

def next (r : Reader) : Option Text × Reader :=
  match r.place with
  | .unread lines => pull .outside lines r.pulled
  | .inLine rest lines =>
    match scan .space rest with
    | .token t rest => (some t, { r with place := .inLine rest lines })
    | .lineEnd carry => pull carry lines r.pulled
  | .afterPartial => (none, { r with carry := .outside, place := .ended })
  | .ended => (none, r)

def take : Nat → Reader → List (Option Text) × Reader
  | 0, r => ([], r)
  | n + 1, r =>
    let (t, r) := r.next
    let (ts, r) := take n r
    (t :: ts, r)

end Reader

end Lexer

end ThreadedCode
