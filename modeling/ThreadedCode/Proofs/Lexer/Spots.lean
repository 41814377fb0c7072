import ThreadedCode.Proofs.Lexer.Descent
import ThreadedCode.Proofs.Text.Lines

/-!
The lexer on a text that is not cut into lines yet. It goes from code point to code point through
the breaks, and which code points are breaks is left open: a text block and a file differ in nothing
else. Main statement: the tokens are those of the lines.
-/

namespace ThreadedCode.Lexer

open Text

/-- Where the lexer stands in a text: between two lines, inside a line, or in a comment. -/
inductive Spot where
  | between (carry : Carry)
  | inside (s : State)
  | comment
deriving DecidableEq

namespace Spot

def state? : Spot → Option State
  | between carry => some (startLine carry)
  | inside s => some s
  | comment => none

def next (breaks : CodePoint → Bool) (p : Spot) (c : CodePoint) : Option Text × Spot :=
  match p.state? with
  | none => (none, if breaks c then .between .outside else .comment)
  | some s =>
    if breaks c then ((endLine s).1, .between (endLine s).2)
    else
      match step s c with
      | .advance s => (none, .inside s)
      | .token t => (some t, .inside .space)
      | .comment => (none, .comment)

def atEnd : Spot → List Text
  | between carry => carry.partialToken.toList
  | inside s => (endLine s).1.toList ++ (endLine s).2.partialToken.toList
  | comment => []

end Spot

def spotTokens (breaks : CodePoint → Bool) : Spot → Text → List Text
  | p, [] => p.atEnd
  | p, c :: rest => (p.next breaks c).1.toList ++ spotTokens breaks (p.next breaks c).2 rest

def spots (breaks : CodePoint → Bool) : Spot → Text → List (Spot × CodePoint)
  | _, [] => []
  | p, c :: rest => (p, c) :: spots breaks (p.next breaks c).2 rest

def Spot.resumed : Spot → List Text → List Text
  | between carry, lines => runLines carry lines
  | inside s, [] => resume s [] []
  | inside s, line :: lines => resume s line lines
  | comment, [] => []
  | comment, _ :: lines => runLines .outside lines

variable {breaks : CodePoint → Bool}

theorem resumed_inside {c : CodePoint} (plain : ¬ breaks c) (s : State) (lines : List Text) :
    (Spot.inside s).resumed (consFirst c lines) =
      ((Spot.inside s).next breaks c).1.toList ++
        ((Spot.inside s).next breaks c).2.resumed lines := by
  simp only [Spot.next, Spot.state?, if_neg plain]
  cases lines with
  | nil =>
    rw [consFirst, Spot.resumed, resume_cons]
    cases step s c <;> rfl
  | cons line lines =>
    rw [consFirst, Spot.resumed, resume_cons]
    cases step s c <;> rfl

theorem spotTokens_eq_resumed (p : Spot) (t : Text) :
    spotTokens breaks p t = p.resumed (linesAt breaks t) := by
  induction t generalizing p with
  | nil => cases p <;> rfl
  | cons c rest ih =>
    rw [spotTokens, ih, linesAt]
    by_cases breaking : breaks c
    · rw [if_pos breaking]
      cases p <;> simp only [Spot.next, Spot.state?, if_pos breaking] <;> rfl
    · rw [if_neg breaking]
      have inside := fun s => (resumed_inside breaking s (linesAt breaks rest)).symm
      cases p with
      | between carry =>
        refine (inside (startLine carry)).trans ?_
        cases linesAt breaks rest <;> rfl
      | inside s => exact inside s
      | comment =>
        simp only [Spot.next, Spot.state?, if_neg breaking]
        cases linesAt breaks rest <;> rfl

theorem tokens_lines (t : Text) :
    tokens (lines t) =
      spotTokens CodePoint.isLineBreak (.between .outside) (unifyBreaks t) := by
  rw [tokens_eq_resume, map_chomp_lines, spotTokens_eq_resumed]
  rfl

theorem tokens_fileLines (t : Text) :
    tokens (fileLines t) =
      spotTokens (· = .lineFeed) (.between .outside) (unifyBreaks t) := by
  rw [tokens_eq_resume, map_chomp_fileLines, spotTokens_eq_resumed]
  rfl

end ThreadedCode.Lexer
