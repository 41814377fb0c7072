import ThreadedCode.Text.CodePoint

/-!
Two ways to cut a text into lines. A text block breaks at every line boundary of Unicode and its
lines lose the break. A file breaks at a line feed, a carriage return or the two together, and its
lines keep the break as one line feed. In both a break at the end begins no further line.
-/

namespace ThreadedCode

namespace CodePoint

def isLineBreak (c : CodePoint) : Bool :=
  c.inRanges [(0x0A, 0x0D), (0x1C, 0x1E), (0x85, 0x85), (0x2028, 0x2029)]

end CodePoint

namespace Text

open CodePoint

def consFirst (c : CodePoint) : List Text → List Text
  | [] => [[c]]
  | line :: lines => (c :: line) :: lines

def lines : Text → List Text
  | [] => []
  | 0x0D :: 0x0A :: rest => [] :: lines rest
  | c :: rest => if c.isLineBreak then [] :: lines rest else consFirst c (lines rest)

/-- The text with every carriage return, alone or before a line feed, made a line feed. -/
def unifyBreaks : Text → Text
  | [] => []
  | 0x0D :: 0x0A :: rest => lineFeed :: unifyBreaks rest
  | c :: rest => (if c = carriageReturn then lineFeed else c) :: unifyBreaks rest

def linesKept : Text → List Text
  | [] => []
  | c :: rest => if c = lineFeed then [lineFeed] :: linesKept rest else consFirst c (linesKept rest)

/-- The lines of a file, each with a line feed for its break. -/
def fileLines (t : Text) : List Text := linesKept (unifyBreaks t)

def chomp (t : Text) : Text :=
  (t.reverse.dropWhile fun c => c = lineFeed || c = carriageReturn).reverse

end Text

end ThreadedCode
