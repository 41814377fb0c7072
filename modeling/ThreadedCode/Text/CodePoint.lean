/-!
Text is a list of code points. Every number below 0x110000 is a code point, the surrogates
included: a lone surrogate can be written in a string literal of the language, so the characters of
the standard library, which leave the surrogates out, are not enough. Two surrogates in a row are
never joined.
-/

namespace ThreadedCode

abbrev CodePoint := Fin 0x110000

abbrev Text := List CodePoint

instance neZero_count : @NeZero Nat Zero.ofOfNat0 0x110000 := Nat.instNeZeroSucc

namespace CodePoint

def ofChar (c : Char) : CodePoint :=
  ⟨c.toNat, by
    have h := c.valid
    simp only [UInt32.isValidChar, Nat.isValidChar] at h
    show c.val.toNat < 0x110000
    omega⟩

instance : Coe Char CodePoint := ⟨ofChar⟩

def space : CodePoint := 0x20

def doubleQuote : CodePoint := 0x22

def numberSign : CodePoint := 0x23

def singleQuote : CodePoint := 0x27

def backslash : CodePoint := 0x5C

def lineFeed : CodePoint := 0x0A

def carriageReturn : CodePoint := 0x0D

def isSurrogate (c : CodePoint) : Bool :=
  0xD800 ≤ c.val && c.val ≤ 0xDFFF

def ofNat? (n : Nat) : Option CodePoint :=
  if h : n < 0x110000 then some ⟨n, h⟩ else none

def toChar? (c : CodePoint) : Option Char :=
  if h : c.val.isValidChar then some (Char.ofNatAux c.val h) else none

def inRanges (c : CodePoint) : List (Nat × Nat) → Bool
  | [] => false
  | (first, last) :: ranges => if c.val ≤ last then first ≤ c.val else inRanges c ranges

end CodePoint

namespace Text

def ofString (s : String) : Text := s.toList.map CodePoint.ofChar

instance : Coe String Text := ⟨ofString⟩

/-- The standard string of a text, with a replacement character for each surrogate. -/
def toString (t : Text) : String :=
  String.ofList (t.map fun c => c.toChar?.getD '\uFFFD')

def concat (parts : List Text) : Text := parts.flatten

def join (separator : Text) (parts : List Text) : Text := (parts.intersperse separator).flatten

def padRight (width : Nat) (t : Text) : Text :=
  t ++ List.replicate (width - t.length) CodePoint.space

/-- The order by code points, in which a proper start comes first. -/
def before : Text → Text → Bool
  | _, [] => false
  | [], _ :: _ => true
  | a :: s, b :: t => a < b || (a = b && before s t)

/-- A list in ascending order of the texts that `key` gives; equal keys keep their order. -/
def sortOn {α : Type} (key : α → Text) (items : List α) : List α :=
  items.mergeSort fun a b => !before (key b) (key a)

end Text

end ThreadedCode
