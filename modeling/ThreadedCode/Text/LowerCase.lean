import ThreadedCode.Text.LowerCase.Tables

/-!
Full lower-casing. A code point has one lower-case form wherever it stands, save the capital sigma:
at the end of a word it becomes the final sigma. One capital, the dotted I, has a form of two code
points.
-/

namespace ThreadedCode

namespace CodePoint

def capitalSigma : CodePoint := 0x3A3

def finalSigma : CodePoint := 0x3C2

def smallSigma : CodePoint := 0x3C3

def dottedCapitalI : CodePoint := 0x130

def simpleLower (c : CodePoint) : CodePoint :=
  match LowerCaseRun.table.find? (·.covers c) with
  | none => c
  | some run => (ofNat? (c.val + run.shift).toNat).getD c

end CodePoint

namespace Text

open CodePoint

/-- Whether the first code point that the sigma rule does not look past is a cased letter. -/
def startsCased (t : Text) : Bool :=
  match t.dropWhile isCaseIgnorable with
  | [] => false
  | c :: _ => c.isCased

/-- The lower-case form of a code point between the text before it, nearest first, and the text
after it. -/
def lowerAt (before : Text) (c : CodePoint) (after : Text) : Text :=
  if c = capitalSigma then
    if startsCased before && !startsCased after then [finalSigma] else [smallSigma]
  else if c = dottedCapitalI then [0x69, 0x307]
  else [c.simpleLower]

def lowerAfter (before : Text) : Text → Text
  | [] => []
  | c :: rest => lowerAt before c rest ++ lowerAfter (c :: before) rest

def lower (t : Text) : Text := lowerAfter [] t

end Text

end ThreadedCode
