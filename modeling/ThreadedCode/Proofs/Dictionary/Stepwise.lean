import ThreadedCode.Action
import ThreadedCode.Proofs.Dictionary.Compilation

/-!
The operations on a dictionary one check and one write after another. What a write has done stays
done if a later check fails, so a fault could leave half of an operation behind. It never does: every
check that can fail comes before the first write, or repeats one that has not.
-/

namespace ThreadedCode

/-- An operation that leaves a new state or, with a fault, the old one. -/
def Action.atOnce {σ α : Type} (f : σ → Except Fault (α × σ)) : Action σ α := fun s =>
  match f s with
  | .ok (a, s) => .ok a s
  | .error fault => .halt (.fault fault) s

namespace Dictionary

def changing (f : Dictionary → Except Fault Dictionary) (d : Dictionary) :
    Except Fault (Unit × Dictionary) :=
  (f d).map fun d => ((), d)

namespace Stepwise

def searchIn (name : Text) : Action Dictionary Unit := do
  let d ← Action.get
  let _ ← Action.ofExcept (d.vocabulary name)
  Action.modify fun d => { d with context := some name }

def defineIn (name : Text) : Action Dictionary Unit := do
  let d ← Action.get
  let _ ← Action.ofExcept (d.vocabulary name)
  Action.modify fun d => { d with current := some name }

def use (name : Text) : Action Dictionary Unit := do
  searchIn name
  defineIn name

def register (v : Vocabulary) : Action Dictionary Unit := do
  let d ← Action.get
  if d.vocabularies.contains v.name then Action.fail (.duplicateVocabulary v.name)
  else Action.modify fun d => { d with vocabularies := d.vocabularies.insert v.name v }

def addVocabulary (name : Text) : Action Dictionary Unit := do
  let d ← Action.get
  let parent ← Action.ofExcept d.currentVocabulary
  register { name, parent := some parent }

def find (name : Text) : Action Dictionary Word := do
  let d ← Action.get
  Action.ofExcept (d.find name)

def resolve : List (Text × Operand) → Action Dictionary (List (Word × Operand))
  | [] => pure []
  | (name, arg) :: items => do
    let w ← find name
    let rest ← resolve items
    pure ((w, arg) :: rest)

def allocate : Action Dictionary Token := do
  let d ← Action.get
  Action.modify fun d => { d with nextToken := d.freshToken + 1 }
  pure d.freshToken

def putVocabulary (v : Vocabulary) : Action Dictionary Unit :=
  Action.modify fun d => { d with vocabularies := d.vocabularies.insert v.name v }

def define (definition : Definition) : Action Dictionary Word := do
  let d ← Action.get
  let n ← Action.ofExcept d.currentVocabulary
  let v ← Action.ofExcept (d.vocabulary n)
  let token ← allocate
  let w : Word :=
    { name := definition.name
      kind := definition.kind
      token
      vocabulary := v.name
      primitive := definition.primitive
      body := definition.body
      older := v.newest
      shadowed := v.index.get? definition.name
      doc := definition.doc }
  Action.modify fun d => { d with words := d.words.insert token w }
  putVocabulary { v with newest := some token }
  putVocabulary { v with newest := some token, index := v.index.insert w.name token }
  pure w

def compile (name : Text) (items : List (Text × Operand)) (composite : Option Bool) :
    Action Dictionary Word := do
  let parts ← resolve items
  define (definitionOf name composite parts)

theorem searchIn_eq (name : Text) :
    searchIn name = Action.atOnce (changing (·.searchIn name)) := by
  funext d
  simp only [searchIn, Action.atOnce, changing, Dictionary.searchIn, Action.bind_apply, Action.get]
  cases d.vocabulary name <;> rfl

theorem defineIn_eq (name : Text) :
    defineIn name = Action.atOnce (changing (·.defineIn name)) := by
  funext d
  simp only [defineIn, Action.atOnce, changing, Dictionary.defineIn, Action.bind_apply, Action.get]
  cases d.vocabulary name <;> rfl

theorem use_eq (name : Text) : use name = Action.atOnce (changing (·.use name)) := by
  funext d
  rw [use, searchIn_eq, defineIn_eq, Action.bind_apply]
  cases searched : d.searchIn name with
  | error fault =>
    have failed : d.use name = .error fault := by
      rw [Dictionary.use, searched]
      rfl
    simp only [Action.atOnce, changing, searched, failed, Except.map]
  | ok d' =>
    obtain ⟨there, rfl⟩ := searchIn_eq_ok.mp searched
    have done : { d with context := some name }.defineIn name =
        .ok { d with context := some name, current := some name } :=
      defineIn_eq_ok.mpr ⟨there, rfl⟩
    have used := use_eq_ok.mpr ⟨there, rfl⟩
    simp only [Action.atOnce, changing, searched, done, used, Except.map]

theorem addVocabulary_eq (name : Text) :
    addVocabulary name = Action.atOnce (changing (·.addVocabulary name)) := by
  funext d
  simp only [addVocabulary, register, Action.atOnce, changing, Dictionary.addVocabulary,
    Action.bind_apply, Action.get]
  cases d.currentVocabulary with
  | error fault => rfl
  | ok parent =>
    cases known : d.vocabularies.contains name <;>
      simp [Action.ofExcept, Action.pure_apply, known, bind, Except.bind, Except.map, Action.fail,
        Action.halt, Action.modify]

theorem find_eq (name : Text) :
    find name = Action.atOnce fun d => (d.find name).map fun w => (w, d) := by
  funext d
  simp only [find, Action.atOnce, Action.bind_apply, Action.get]
  cases d.find name <;> rfl

theorem resolve_eq (items : List (Text × Operand)) :
    resolve items = Action.atOnce fun d => (d.resolve items).map fun parts => (parts, d) := by
  induction items with
  | nil => rfl
  | cons item items ih =>
    funext d
    rw [resolve, ih, find_eq]
    simp only [Action.atOnce, Action.bind_apply, resolve_cons]
    cases d.find item.1 with
    | error fault => rfl
    | ok w =>
      simp only [Except.map, Except.bind]
      cases d.resolve items <;> rfl

theorem define_eq (definition : Definition) :
    define definition = Action.atOnce (·.define definition) := by
  funext d
  simp only [define, Action.atOnce, Dictionary.define, Action.bind_apply, Action.get]
  cases d.currentVocabulary with
  | error fault => rfl
  | ok n =>
    simp only [Action.ofExcept, Action.pure_apply, bind, Except.bind]
    cases d.vocabulary n with
    | error fault => rfl
    | ok v =>
      simp only [Action.pure_apply, allocate, putVocabulary, Action.modify, Action.bind_apply,
        Action.get, Table.insert_insert]
      rfl

theorem compile_eq (name : Text) (items : List (Text × Operand)) (composite : Option Bool) :
    compile name items composite = Action.atOnce (·.compile name items composite) := by
  funext d
  rw [compile, resolve_eq]
  simp only [Action.bind_apply, Action.atOnce, Dictionary.compile_eq, define_eq]
  cases d.resolve items <;> rfl

end Stepwise

end Dictionary

end ThreadedCode
