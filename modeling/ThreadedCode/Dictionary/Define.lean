import ThreadedCode.Dictionary.Search

/-!
Making and forgetting words. A new word goes on top of the current vocabulary and shadows the word
of its name that was there. Forgetting a word cuts the current vocabulary back to what was there
before that word: the word goes, and with it all that came into the vocabulary after it.
-/

namespace ThreadedCode

namespace Dictionary

/-- The first token from `t` on that is not taken. As many tries as tokens are taken suffice. -/
def firstFree : Nat → List Token → Token → Token
  | 0, _, t => t
  | bound + 1, taken, t => if t ∈ taken then firstFree bound (taken.erase t) (t + 1) else t

def freshToken (d : Dictionary) : Token :=
  firstFree d.words.keys.length d.words.keys d.nextToken

structure Definition where
  name : Text
  kind : WordKind
  body : List Instruction := []
  primitive : Option Primitive := none
  doc : Text := []

def addWord (d : Dictionary) (v : Vocabulary) (definition : Definition) : Word × Dictionary :=
  let token := d.freshToken
  let w : Word :=
    { name := definition.name
      kind := definition.kind
      token
      vocabulary := v.name
      primitive := definition.primitive
      body := definition.body
      older := v.newest
      shadowed := v.index.get? definition.name
      doc := definition.doc }
  let v := { v with newest := some token, index := v.index.insert w.name token }
  (w, { d with
    words := d.words.insert token w
    vocabularies := d.vocabularies.insert v.name v
    nextToken := token + 1 })

def define (d : Dictionary) (definition : Definition) : Except Fault (Word × Dictionary) := do
  let v ← d.vocabulary (← d.currentVocabulary)
  .ok (d.addWord v definition)

def definePrimitive (d : Dictionary) (name : Text) (p : Primitive) (doc : Text) :
    Except Fault (Word × Dictionary) :=
  d.define { name, kind := .primitive, primitive := some p, doc }

def removeTop (d : Dictionary) (v : Vocabulary) (token : Token) (w : Word) :
    Dictionary × Vocabulary :=
  ({ d with words := d.words.erase token },
    { v with newest := w.older, index := v.index.set w.name w.shadowed })

/-- Takes words off the top of a vocabulary down to the one with the token `target`, and that one.
Every round takes one word out of the table. -/
def cutDown (target : Token) :
    Nat → Dictionary → Vocabulary → Except Fault (Dictionary × Vocabulary)
  | 0, d, v => .ok (d, v)
  | rounds + 1, d, v =>
    match v.newest with
    | none => .ok (d, v)
    | some token => do
      let w ← d.wordAt token
      let (d, v) := d.removeTop v token w
      if w.token = target then .ok (d, v) else cutDown target rounds d v

/-- Forgets the newest word of a name in the current vocabulary, and all words above it. Without
such a word there, nothing changes. -/
def forget (d : Dictionary) (name : Text) : Except Fault Dictionary := do
  let v ← d.vocabulary (← d.currentVocabulary)
  match v.index.get? name with
  | none => .ok d
  | some target =>
    let (d, v) ← cutDown target (d.words.keys.length + 1) d v
    .ok { d with vocabularies := d.vocabularies.insert v.name v }

end Dictionary

end ThreadedCode
