import ThreadedCode.Text.CodePoint

/-!
White space, as the lexer, the console and the completer know it, and the cuts that use it.
-/

namespace ThreadedCode

namespace CodePoint

/-- The white space code points: the ASCII ones, the four ASCII separators, and those of Unicode. -/
def isBlank (c : CodePoint) : Bool :=
  c.inRanges [(0x09, 0x0D), (0x1C, 0x20), (0x85, 0x85), (0xA0, 0xA0), (0x1680, 0x1680),
    (0x2000, 0x200A), (0x2028, 0x2029), (0x202F, 0x202F), (0x205F, 0x205F), (0x3000, 0x3000)]

end CodePoint

namespace Text

def trimLeft (t : Text) : Text := t.dropWhile CodePoint.isBlank

/-- Nothing but white space. -/
def isBlank (t : Text) : Bool := t.all CodePoint.isBlank

def firstWord? (t : Text) : Option Text :=
  match t.trimLeft with
  | [] => none
  | t => some (t.takeWhile fun c => !c.isBlank)

def lastRun (t : Text) : Text :=
  (t.reverse.takeWhile fun c => !c.isBlank).reverse

end Text

end ThreadedCode
