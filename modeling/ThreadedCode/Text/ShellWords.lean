import ThreadedCode.Text.CodePoint

/-!
Splitting a command line into words as a shell does. Blanks are the space, the tab, the line feed
and the carriage return. Inside single quotes everything stands for itself; inside double quotes a
backslash takes the quote or another backslash literally; outside quotes it takes any code point
literally. Quotes may be empty and may stand anywhere in a word.
-/

namespace ThreadedCode

namespace ShellWords

inductive Defect where
  | noClosingQuote
  | noEscapedCharacter
deriving DecidableEq

def Defect.message : Defect → Text
  | .noClosingQuote => "No closing quotation"
  | .noEscapedCharacter => "No escaped character"

/-- Where the splitter stands: between words, in a word, inside quotes, or after a backslash that
stands outside quotes or inside double ones. -/
inductive State where
  | between
  | word (taken : Text)
  | quotes (quote : CodePoint) (taken : Text)
  | escape (taken : Text)
  | escapeInQuotes (taken : Text)
deriving DecidableEq

def isBlank (c : CodePoint) : Bool := c = ' ' || c = '\t' || c = '\n' || c = '\r'

def inWord (taken : Text) (c : CodePoint) : State :=
  if c = .backslash then .escape taken
  else if c = .singleQuote || c = .doubleQuote then .quotes c taken
  else .word (taken ++ [c])

def splitFrom : State → Text → Except Defect (List Text)
  | .between, [] => .ok []
  | .word taken, [] => .ok [taken]
  | .quotes _ _, [] => .error .noClosingQuote
  | .escape _, [] => .error .noEscapedCharacter
  | .escapeInQuotes _, [] => .error .noEscapedCharacter
  | .between, c :: rest =>
    if isBlank c then splitFrom .between rest else splitFrom (inWord [] c) rest
  | .word taken, c :: rest =>
    if isBlank c then (splitFrom .between rest).map (taken :: ·)
    else splitFrom (inWord taken c) rest
  | .quotes quote taken, c :: rest =>
    if c = quote then splitFrom (.word taken) rest
    else if c = .backslash && quote = .doubleQuote then splitFrom (.escapeInQuotes taken) rest
    else splitFrom (.quotes quote (taken ++ [c])) rest
  | .escape taken, c :: rest => splitFrom (.word (taken ++ [c])) rest
  | .escapeInQuotes taken, c :: rest =>
    let literal : Text := if c = .doubleQuote || c = .backslash then [c] else [.backslash, c]
    splitFrom (.quotes .doubleQuote (taken ++ literal)) rest

def split (line : Text) : Except Defect (List Text) := splitFrom .between line

end ShellWords

end ThreadedCode
