import ThreadedCode.Text.Utf8
import ThreadedCode.Value

/-!
What can go wrong, by cause. A fault stops an instruction, a command or a request; its kind and its
message are what the diagnostics show of it. A malformed word is no fault: no instruction boundary
holds it back.
-/

namespace ThreadedCode

inductive OpenFailure where
  | missing
  | notDirectory
  | isDirectory
  | nameTooLong
deriving DecidableEq

namespace OpenFailure

def kind : OpenFailure → Text
  | missing => "FileNotFoundError"
  | notDirectory => "NotADirectoryError"
  | isDirectory => "IsADirectoryError"
  | nameTooLong => "OSError"

def message : OpenFailure → Text
  | missing => "[Errno 2] No such file or directory"
  | notDirectory => "[Errno 20] Not a directory"
  | isDirectory => "[Errno 21] Is a directory"
  | nameTooLong => "[Errno 36] File name too long"

end OpenFailure

inductive Fault where
  | stackUnderflow
  | returnStackUnderflow
  | notAVariableName (v : Value)
  | undefinedVariable (name : Text)
  | undefinedWord (name : Text)
  | danglingToken (token : Int)
  | duplicateVocabulary (name : Text)
  | unknownVocabulary (name : Text)
  | noSearchVocabulary
  | noCurrentVocabulary
  | noActiveTask
  | jumpOutsideComposite
  | badOffset (offset : Operand)
  | jumpBeforeStart (offset : Int)
  | missingPosition (level : Int)
  | missingInstruction
  | missingWord (token : Int)
  | tooManyDigits
  | unencodable (failure : EncodeFailure)
  | undecodable (failure : Utf8.DecodeFailure)
  | embeddedNull
  | cannotOpen (failure : OpenFailure) (path : Text)
  | emptyCommand
  | foreign (kind message : Text)
deriving DecidableEq

namespace Fault

def kind : Fault → Text
  | stackUnderflow | returnStackUnderflow => "StackUnderflow"
  | notAVariableName _ => "NotAVariableName"
  | undefinedVariable _ => "UndefinedVariable"
  | undefinedWord _ | danglingToken _ => "UndefinedWord"
  | duplicateVocabulary _ => "DuplicateVocabulary"
  | unknownVocabulary _ => "UnknownVocabulary"
  | noSearchVocabulary | noCurrentVocabulary => "DictError"
  | noActiveTask | jumpOutsideComposite | badOffset _ | jumpBeforeStart _ => "ForthError"
  | missingPosition _ | missingWord _ => "KeyError"
  | tooManyDigits | embeddedNull => "ValueError"
  | unencodable _ => "UnicodeEncodeError"
  | undecodable _ => "UnicodeDecodeError"
  | cannotOpen failure _ => failure.kind
  | emptyCommand | missingInstruction => "IndexError"
  | foreign kind _ => kind

def message : Fault → Text
  | stackUnderflow => "stack underflow"
  | returnStackUnderflow => "return stack underflow"
  | notAVariableName v => "not a variable name: " ++ v.quoted
  | undefinedVariable name | undefinedWord name => name
  | danglingToken token => "token " ++ Text.ofInt token
  | duplicateVocabulary name | unknownVocabulary name => name
  | noSearchVocabulary => "no search vocabulary"
  | noCurrentVocabulary => "no current vocabulary"
  | noActiveTask => "no active context"
  | jumpOutsideComposite => "branch outside of a composite word"
  | badOffset offset => "bad branch offset: " ++ offset.quoted
  | jumpBeforeStart offset => "branch before start of body: " ++ Text.ofInt offset
  | missingPosition level => Text.ofInt level
  | missingWord token => Text.ofInt token
  | tooManyDigits =>
    "Exceeds the limit (4300 digits) for integer string conversion; " ++
      "use sys.set_int_max_str_digits() to increase the limit"
  | unencodable failure => failure.message
  | undecodable failure => failure.message
  | embeddedNull => "embedded null byte"
  | cannotOpen failure path => Text.concat [failure.message, ": ", path.quoted]
  | emptyCommand | missingInstruction => "list index out of range"
  | foreign _ message => message

/-- The faults of the dictionary, which a console command reports instead of failing. -/
def ofDictionary : Fault → Bool
  | undefinedWord _ | danglingToken _ | duplicateVocabulary _ | unknownVocabulary _
  | noSearchVocabulary | noCurrentVocabulary => true
  | _ => false

/-- The fault of a value with no place for it, or of its having no written form to report. -/
def ifWritable (writable : Bool) (fault : Fault) : Fault :=
  if writable then fault else tooManyDigits

end Fault

/-- A word that cannot be executed at all. -/
inductive Malformed where
  | missingPrimitive (name : Text)
  | badClass (name label : Text)
deriving DecidableEq

def Malformed.message : Malformed → Text
  | missingPrimitive name => Text.concat ["Primitive ", name, " missing impl"]
  | badClass name label => Text.concat ["bad code class for ", name, ": ", label.quoted]

inductive Halt where
  | fault (fault : Fault)
  | malformed (word : Malformed)
  | quit
deriving DecidableEq

namespace Halt

def kind : Halt → Text
  | fault f => f.kind
  | malformed _ => "MalformedWord"
  | quit => "SystemExit"

def message : Halt → Text
  | fault f => f.message
  | malformed m => m.message
  | quit => "0"

end Halt

end ThreadedCode
