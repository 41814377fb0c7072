import ThreadedCode.Text.Blank
import ThreadedCode.Text.DecimalDigit

/-!
Decimal numerals of integers. An integer is written with ASCII digits and a minus sign. A numeral is
read with white space around it, one sign, digits of any scripts and single underscores between
digits. Both ways an integer has at most 4300 digits.
-/

namespace ThreadedCode

namespace Text

/-- The most digits that a numeral may have, written or read. -/
def digitLimit : Nat := 4300

def ofNat (n : Nat) : Text := (Nat.toDigits 10 n).map CodePoint.ofChar

def ofInt : Int → Text
  | .ofNat n => ofNat n
  | .negSucc n => '-' :: ofNat (n + 1)

def hasNumeral (i : Int) : Bool := (ofNat i.natAbs).length ≤ digitLimit

/-- White space around a numeral: all of it but the four ASCII separators. -/
def isNumeralBlank (c : CodePoint) : Bool := c.isBlank && !(0x1C ≤ c.val && c.val ≤ 0x1F)

def trimNumeral (t : Text) : Text :=
  ((t.dropWhile isNumeralBlank).reverse.dropWhile isNumeralBlank).reverse

/-- The values of one or more digits with at most one underscore between each two. -/
def digits? : Text → Option (List Nat)
  | [] => none
  | [c] => c.decimalDigit?.map ([·])
  | c :: 0x5F :: rest => do return (← c.decimalDigit?) :: (← digits? rest)
  | c :: rest => do return (← c.decimalDigit?) :: (← digits? rest)

def ofDigits (digits : List Nat) : Nat := digits.foldl (fun n d => 10 * n + d) 0

def natural? (t : Text) : Option Nat := do
  let digits ← digits? t
  if digits.length ≤ digitLimit then some (ofDigits digits) else none

def integer? (t : Text) : Option Int :=
  match trimNumeral t with
  | 0x2D :: rest => (natural? rest).map fun n => -(n : Int)
  | 0x2B :: rest => (natural? rest).map fun n => (n : Int)
  | rest => (natural? rest).map fun n => (n : Int)

end Text

end ThreadedCode
