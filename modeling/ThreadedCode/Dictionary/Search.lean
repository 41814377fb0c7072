import ThreadedCode.Dictionary.Basic

/-!
Chains and look-ups. A parent is older than its child, and an older word came into the table before
a newer one; so one pass over the vocabularies, or over the words, latest first, meets a whole chain
in order. A link or an index entry whose word is not in the table is a fault.
-/

namespace ThreadedCode

namespace Dictionary

/-- The chain of vocabularies from `name` on, itself first, in a list of vocabularies that gives the
latest first. -/
def ancestry : List Vocabulary → Option Text → List Text
  | _, none => []
  | [], some _ => []
  | v :: earlier, some name =>
    if v.name = name then name :: ancestry earlier v.parent else ancestry earlier (some name)

def chainOf (d : Dictionary) (name : Text) : List Text :=
  ancestry d.vocabularies.values.reverse (some name)

def searchOrder (d : Dictionary) : Except Fault (List Text) := do
  .ok (d.chainOf (← d.contextVocabulary))

def findToken? (d : Dictionary) (token : Token) : Option Word := d.words.get? token

def wordAt (d : Dictionary) (token : Token) : Except Fault Word :=
  match d.words.get? token with
  | some w => .ok w
  | none => .error (.missingWord token)

def indexed? (d : Dictionary) (vocabulary name : Text) : Option Token :=
  (d.vocabularies.get? vocabulary).bind (·.index.get? name)

def find? (d : Dictionary) (name : Text) : Except Fault (Option Word) := do
  let chain ← d.searchOrder
  match chain.findSome? fun vocabulary => d.indexed? vocabulary name with
  | some token => (d.wordAt token).map some
  | none => .ok none

def find (d : Dictionary) (name : Text) : Except Fault Word := do
  match ← d.find? name with
  | some w => .ok w
  | none => .error (.undefinedWord name)

/-- The chain of words from `token` on, each followed by the next older one, in a list of words that
gives the latest first. -/
def wordsFrom : List Word → Option Token → Except Fault (List Word)
  | _, none => .ok []
  | [], some token => .error (.missingWord token)
  | w :: earlier, some token =>
    if w.token = token then (wordsFrom earlier w.older).map (w :: ·)
    else wordsFrom earlier (some token)

def chainWords (d : Dictionary) (v : Vocabulary) : Except Fault (List Word) :=
  wordsFrom d.words.values.reverse v.newest

/-- The words of a vocabulary, newest first. The empty name stands for the vocabulary where a search
begins. -/
def wordsOf (d : Dictionary) (name : Text) : Except Fault (List Word) := do
  let name ← if name = [] then d.contextVocabulary else .ok name
  d.chainWords (← d.vocabulary name)

def firstOfEachName (seen : List Text) : List Word → List Word
  | [] => []
  | w :: rest =>
    if w.name ∈ seen then firstOfEachName seen rest
    else w :: firstOfEachName (w.name :: seen) rest

def wordsInScope (d : Dictionary) : Except Fault (List Word) := do
  let chains ← (← d.searchOrder).mapM d.wordsOf
  .ok (firstOfEachName [] chains.flatten)

def tokenName (d : Dictionary) (token : Token) : Text :=
  match d.findToken? token with
  | some w => w.name
  | none => "<unk>"

def showInstruction (d : Dictionary) (i : Instruction) : Text :=
  if i.arg = .absent then d.tokenName i.token
  else Text.concat [d.tokenName i.token, "(", i.arg.quoted, ")"]

def listing (d : Dictionary) (w : Word) : Text :=
  if w.isPrimary then "primitive " ++ w.name
  else
    Text.concat [": ", w.name, "  ", Text.join " " (w.body.map d.showInstruction), " ;  \\ ",
      if w.kind = .atomic then "atomic" else "composite"]

end Dictionary

end ThreadedCode
