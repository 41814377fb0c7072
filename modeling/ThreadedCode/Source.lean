import ThreadedCode.Disk
import ThreadedCode.Lexer.Basic

/-!
Where lines come from: a list of them, a text block, or a file. A source gives the lines it has and
then perhaps fails. A file is read and decoded a chunk at a time, so that before it fails it gives the
lines of the chunks before.
-/

namespace ThreadedCode

structure Source where
  lines : List Text
  failure : Option Fault := none
deriving DecidableEq

namespace Source

def ofText (t : Text) : Source := { lines := Text.lines t }

/-- The lines of a text that goes on in an unknown way: a carriage return at its end may be half of
a break, and a line without a break may not be whole. -/
def wholeLines (t : Text) : List Text :=
  let settled := if t.getLast? = some .carriageReturn then t.dropLast else t
  (Text.fileLines settled).filter fun line => line.getLast? = some .lineFeed

def chunkSize : Nat := 8192

def chunks (bytes : Bytes) : List Bytes :=
  (List.range ((bytes.length + chunkSize - 1) / chunkSize)).map fun k =>
    (bytes.drop (k * chunkSize)).take chunkSize

/-- The source that a file goes on as, after a text and after bytes that are not a character yet. A
failure has its position counted from these. -/
def ofChunks (before : Text) (left : Bytes) : List Bytes → Source
  | [] =>
    match Utf8.decode left with
    | (t, none) => { lines := Text.fileLines (before ++ t) }
    | (_, some failure) => { lines := wholeLines before, failure := some (.undecodable failure) }
  | chunk :: rest =>
    match Utf8.decodePart (left ++ chunk) with
    | .ok (t, left) => ofChunks (before ++ t) left rest
    | .error failure => { lines := wholeLines before, failure := some (.undecodable failure) }

def ofBytes (bytes : Bytes) : Source := ofChunks [] [] (chunks bytes)

def ofFile (disk : Disk) (path : Text) : Source :=
  match disk.read path with
  | .ok bytes => ofBytes bytes
  | .error fault => { lines := [], failure := some fault }

end Source

namespace Lexer

/-- The tokens of a source up to its failure. A string that a failure leaves open gives no token. -/
def sourceTokens (source : Source) : List Text × Option Fault :=
  match source.failure with
  | none => (tokens source.lines, none)
  | some fault => ((lexLines .outside source.lines).1, some fault)

/-- The tokens of sources one after the other, up to the first failure. A string does not run on
from one source into the next. -/
def tokensOfAll : List Source → List Text × Option Fault
  | [] => ([], none)
  | source :: sources =>
    match sourceTokens source with
    | (ts, some fault) => (ts, some fault)
    | (ts, none) =>
      let (rest, failure) := tokensOfAll sources
      (ts ++ rest, failure)

end Lexer

end ThreadedCode
