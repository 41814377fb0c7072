import ThreadedCode.Table
import ThreadedCode.Fault

/-!
Words and vocabularies. All words live in one table and are addressed by their tokens. A vocabulary
begins at its newest word; from there each word names the next older one. Beside that chain a
vocabulary keeps an index from names to the newest word of each name, and each word names the older
word of its own name that it shadows. A vocabulary has a parent for life, the one that was current
when it was made.
-/

namespace ThreadedCode

abbrev Token := Int

/-- How a word is executed. A word with any other class is malformed. -/
inductive WordKind where
  | primitive
  | atomic
  | composite
  | other (label : Text)
deriving DecidableEq

structure Instruction where
  token : Token
  arg : Operand := .absent
deriving DecidableEq

def Instruction.display (i : Instruction) : Text :=
  if i.arg = .absent then Text.concat ["<", Text.ofInt i.token, ">"]
  else Text.concat ["<", Text.ofInt i.token, " ", i.arg.quoted, ">"]

inductive Builtin where
  | print
  | newline
  | fetch
  | store
  | branch
  | zeroBranch
  | toReturn
  | fromReturn
deriving DecidableEq

/-- The code of a primitive word: a primitive of the machine, or one that the embedding program
supplies under a name. -/
inductive Primitive where
  | builtin (b : Builtin)
  | foreign (name : Text)
deriving DecidableEq

structure Word where
  name : Text
  kind : WordKind
  token : Token
  vocabulary : Text
  primitive : Option Primitive
  body : List Instruction
  /-- The next older word of the vocabulary. -/
  older : Option Token
  /-- The next older word of the vocabulary with the same name. -/
  shadowed : Option Token
  doc : Text
deriving DecidableEq

namespace Word

def isPrimary (w : Word) : Bool := w.kind = .primitive

def isSecondary (w : Word) : Bool := !w.isPrimary

end Word

structure Vocabulary where
  name : Text
  parent : Option Text := none
  newest : Option Token := none
  /-- The newest word of each name. -/
  index : Table Text Token := ∅
deriving DecidableEq

structure Dictionary where
  words : Table Token Word
  vocabularies : Table Text Vocabulary
  /-- The vocabulary where a search begins. -/
  context : Option Text
  /-- The vocabulary that takes new words. -/
  current : Option Text
  nextToken : Token
deriving DecidableEq

namespace Dictionary

def rootVocabulary : Text := "forth"

def userVocabulary : Text := "user"

def compilerVocabulary : Text := "compiler"

/-- The dictionary without words: a root, a vocabulary on it for the user, and one apart for the
compiler. -/
def empty (firstToken : Token) : Dictionary where
  words := ∅
  vocabularies := Table.ofList
    [(rootVocabulary, { name := rootVocabulary }),
      (userVocabulary, { name := userVocabulary, parent := some rootVocabulary }),
      (compilerVocabulary, { name := compilerVocabulary })]
  context := some rootVocabulary
  current := some rootVocabulary
  nextToken := firstToken

def contextVocabulary (d : Dictionary) : Except Fault Text :=
  match d.context with
  | some name => .ok name
  | none => .error .noSearchVocabulary

def currentVocabulary (d : Dictionary) : Except Fault Text :=
  match d.current with
  | some name => .ok name
  | none => .error .noCurrentVocabulary

def vocabulary (d : Dictionary) (name : Text) : Except Fault Vocabulary :=
  match d.vocabularies.get? name with
  | some v => .ok v
  | none => .error (.unknownVocabulary name)

def addVocabulary (d : Dictionary) (name : Text) : Except Fault Dictionary := do
  let parent ← d.currentVocabulary
  if d.vocabularies.contains name then .error (.duplicateVocabulary name)
  else
    .ok { d with vocabularies := d.vocabularies.insert name { name, parent := some parent } }

def searchIn (d : Dictionary) (name : Text) : Except Fault Dictionary := do
  let _ ← d.vocabulary name
  .ok { d with context := some name }

def defineIn (d : Dictionary) (name : Text) : Except Fault Dictionary := do
  let _ ← d.vocabulary name
  .ok { d with current := some name }

def use (d : Dictionary) (name : Text) : Except Fault Dictionary := do
  (← d.searchIn name).defineIn name

end Dictionary

namespace Word

/-- A primitive of the machine that stands alone in the root vocabulary. -/
def ofBuiltin (name : Text) (token : Token) (b : Builtin) : Word where
  name
  kind := .primitive
  token
  vocabulary := Dictionary.rootVocabulary
  primitive := some (.builtin b)
  body := []
  older := none
  shadowed := none
  doc := ""

/-- A word with a body that stands alone in the root vocabulary. -/
def secondary (name : Text) (token : Token) (kind : WordKind) (body : List Instruction) : Word where
  name
  kind
  token
  vocabulary := Dictionary.rootVocabulary
  primitive := none
  body
  older := none
  shadowed := none
  doc := ""

end Word

end ThreadedCode
