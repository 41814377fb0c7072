import ThreadedCode.Text.Printable

/-!
A text between quotes, as messages and listings show it. The quotes are single, unless the text
holds a single quote and no double one. The quote, the backslash and whatever cannot be shown are
escaped.
-/

namespace ThreadedCode

def hexDigit (n : Nat) : CodePoint := CodePoint.ofChar (Nat.digitChar n)

def hexText : Nat → Nat → Text
  | 0, _ => []
  | width + 1, n => hexText width (n / 16) ++ [hexDigit (n % 16)]

namespace CodePoint

/-- The number of a code point, with as many digits as it needs: two, four or eight. -/
def escaped (c : CodePoint) : Text :=
  if c.val ≤ 0xFF then backslash :: 'x' :: hexText 2 c.val
  else if c.val ≤ 0xFFFF then backslash :: 'u' :: hexText 4 c.val
  else backslash :: 'U' :: hexText 8 c.val

def quoted (quote c : CodePoint) : Text :=
  if c = quote || c = backslash then [backslash, c]
  else if c = '\t' then [backslash, 't']
  else if c = lineFeed then [backslash, 'n']
  else if c = carriageReturn then [backslash, 'r']
  else if c.isPrintable then [c]
  else c.escaped

end CodePoint

namespace Text

def quoteFor (t : Text) : CodePoint :=
  if t.contains CodePoint.singleQuote && !t.contains CodePoint.doubleQuote then
    CodePoint.doubleQuote
  else CodePoint.singleQuote

def quoted (t : Text) : Text :=
  let quote := quoteFor t
  quote :: t.flatMap (CodePoint.quoted quote) ++ [quote]

end Text

end ThreadedCode
