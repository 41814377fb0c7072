import ThreadedCode.Text.Numeral

/-!
What a token is taken for: a string, an integer, or a word.
-/

namespace ThreadedCode

namespace Text

def isString (token : Text) : Bool :=
  2 ≤ token.length && token.head? = some .doubleQuote && token.getLast? = some .doubleQuote

def unquote (token : Text) : Text := (token.drop 1).dropLast

end Text

end ThreadedCode
