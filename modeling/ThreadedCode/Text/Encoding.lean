import ThreadedCode.Text.Numeral
import ThreadedCode.Text.Quoted

/-!
Encodings, as far as text can fail in them: an encoding has no bytes for some code points, and a text
with such code points is refused as a whole. The first run of them is what the failure names.
-/

namespace ThreadedCode

/-- The code points in the ranges of `lacking`, which stand in ascending order, have no bytes. All of
ASCII has. Name and reason are single lines. -/
structure Encoding where
  name : Text
  lacking : List (Nat × Nat)
  reason : Text
  ascii : ∀ r ∈ lacking, 0x80 ≤ r.1 := by decide
  name_line : CodePoint.lineFeed ∉ name := by decide
  reason_line : CodePoint.lineFeed ∉ reason := by decide
deriving DecidableEq

/-- A run of code points without bytes: the first of them, where it stands, and how many there are. -/
structure EncodeFailure where
  encoding : Encoding
  first : CodePoint
  position : Nat
  length : Nat
deriving DecidableEq

namespace Encoding

variable {e : Encoding} {c : CodePoint} {t : Text}

def lacks (e : Encoding) (c : CodePoint) : Bool := c.inRanges e.lacking

def refusalFrom (e : Encoding) (position : Nat) : Text → Option EncodeFailure
  | [] => none
  | c :: rest =>
    if e.lacks c then some ⟨e, c, position, 1 + (rest.takeWhile e.lacks).length⟩
    else e.refusalFrom (position + 1) rest

def refusal? (e : Encoding) (t : Text) : Option EncodeFailure := e.refusalFrom 0 t

theorem refusalFrom_eq_none_iff {position : Nat} :
    e.refusalFrom position t = none ↔ ∀ c ∈ t, ¬ e.lacks c := by
  induction t generalizing position with
  | nil => exact iff_of_true rfl fun c member => absurd member List.not_mem_nil
  | cons c t ih =>
    rw [refusalFrom, List.forall_mem_cons]
    split
    next lacking => exact iff_of_false (fun none_ => by cases none_) fun all => all.1 lacking
    next there => rw [ih, and_iff_right there]

theorem lacks_ascii (small : c.val < 0x80) : ¬ e.lacks c := by
  have none_ : ∀ ranges : List (Nat × Nat), (∀ r ∈ ranges, 0x80 ≤ r.1) →
      ¬ c.inRanges ranges := by
    intro ranges
    induction ranges with
    | nil => exact fun _ => Bool.false_ne_true
    | cons r ranges ih =>
      intro above
      rw [List.forall_mem_cons] at above
      rw [CodePoint.inRanges]
      split
      next => rw [decide_eq_true_eq]; omega
      next => exact ih above.2
  exact none_ e.lacking e.ascii

end Encoding

def placeText (kind single : Text) (position length : Nat) : Text :=
  if length = 1 then Text.concat [kind, " ", single, " in position ", Text.ofNat position]
  else
    Text.concat [kind, "s in position ", Text.ofNat position, "-",
      Text.ofNat (position + length - 1)]

def EncodeFailure.message (failure : EncodeFailure) : Text :=
  Text.concat ["'", failure.encoding.name, "' codec can't encode ",
    placeText "character" (Text.concat ["'", failure.first.escaped, "'"])
      failure.position failure.length,
    ": ", failure.encoding.reason]

end ThreadedCode
