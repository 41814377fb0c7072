import ThreadedCode.Dictionary.Define

/-!
Histories of a dictionary: requests one after another, of which any may fail. For each request, the
one condition under which it succeeds and what it then leaves.
-/

namespace ThreadedCode.Dictionary

inductive Request where
  | addVocabulary (name : Text)
  | use (name : Text)
  | searchIn (name : Text)
  | defineIn (name : Text)
  | define (definition : Definition)
  | definePrimitive (name : Text) (p : Primitive) (doc : Text)
  | forget (name : Text)
  | setNextToken (token : Token)

def Request.apply (d : Dictionary) : Request → Except Fault Dictionary
  | addVocabulary name => d.addVocabulary name
  | use name => d.use name
  | searchIn name => d.searchIn name
  | defineIn name => d.defineIn name
  | define definition => (d.define definition).map (·.2)
  | definePrimitive name p doc => (d.definePrimitive name p doc).map (·.2)
  | forget name => d.forget name
  | setNextToken token => .ok { d with nextToken := token }

/-- A request that fails leaves the dictionary as it was. -/
def perform (d : Dictionary) (r : Request) : Dictionary := (r.apply d).toOption.getD d

def performAll (d : Dictionary) (rs : List Request) : Dictionary := rs.foldl perform d

theorem perform_of_apply {P : Dictionary → Prop} {d : Dictionary} {r : Request} (before : P d)
    (after : ∀ d', r.apply d = .ok d' → P d') : P (d.perform r) := by
  unfold perform
  cases he : r.apply d with
  | ok d' => exact after d' he
  | error fault => exact before

/-- What holds at first and is kept by every step that succeeds holds after all steps, of which any
may fail. -/
theorem foldl_induction {ρ : Type} {step : Dictionary → ρ → Except Fault Dictionary}
    {P : Dictionary → Prop} {d : Dictionary} (first : P d)
    (kept : ∀ d r d', P d → step d r = .ok d' → P d') (rs : List ρ) :
    P (rs.foldl (fun d r => (step d r).toOption.getD d) d) := by
  induction rs generalizing d with
  | nil => exact first
  | cons r rs ih =>
    refine ih ?_
    change P ((step d r).toOption.getD d)
    cases he : step d r with
    | ok d' => exact kept d r d' first he
    | error fault => exact first

theorem performAll_induction {P : Dictionary → Prop} {d : Dictionary} (first : P d)
    (kept : ∀ d r d', P d → Request.apply d r = .ok d' → P d') (rs : List Request) :
    P (d.performAll rs) :=
  foldl_induction first kept rs

theorem map_eq_ok {α β : Type} {x : Except Fault α} {f : α → β} {b : β} :
    x.map f = .ok b ↔ ∃ a, x = .ok a ∧ f a = b := by
  cases x <;> simp [Except.map]

section Inversion

variable {d d' : Dictionary} {name : Text}

theorem vocabulary_eq_ok {v : Vocabulary} :
    d.vocabulary name = .ok v ↔ d.vocabularies.get? name = some v := by
  unfold vocabulary
  cases d.vocabularies.get? name <;> simp

theorem currentVocabulary_eq_ok : d.currentVocabulary = .ok name ↔ d.current = some name := by
  unfold currentVocabulary
  cases d.current <;> simp

theorem contextVocabulary_eq_ok : d.contextVocabulary = .ok name ↔ d.context = some name := by
  unfold contextVocabulary
  cases d.context <;> simp

theorem searchIn_eq_ok :
    d.searchIn name = .ok d' ↔
      (∃ v, d.vocabularies.get? name = some v) ∧ d' = { d with context := some name } := by
  unfold searchIn vocabulary
  cases d.vocabularies.get? name <;> simp [bind, Except.bind, eq_comm]

theorem defineIn_eq_ok :
    d.defineIn name = .ok d' ↔
      (∃ v, d.vocabularies.get? name = some v) ∧ d' = { d with current := some name } := by
  unfold defineIn vocabulary
  cases d.vocabularies.get? name <;> simp [bind, Except.bind, eq_comm]

theorem use_eq_ok :
    d.use name = .ok d' ↔
      (∃ v, d.vocabularies.get? name = some v) ∧
        d' = { d with context := some name, current := some name } := by
  unfold use searchIn defineIn vocabulary
  cases h : d.vocabularies.get? name <;> simp [bind, Except.bind, h, eq_comm]

theorem addVocabulary_eq_ok :
    d.addVocabulary name = .ok d' ↔
      ∃ parent, d.current = some parent ∧ d.vocabularies.get? name = none ∧
        d' = { d with
          vocabularies := d.vocabularies.insert name { name, parent := some parent } } := by
  unfold addVocabulary currentVocabulary Table.contains
  cases d.current <;> cases d.vocabularies.get? name <;>
    simp [bind, Except.bind, eq_comm]

theorem define_eq_ok {definition : Definition} {w : Word} :
    d.define definition = .ok (w, d') ↔
      ∃ n v, d.current = some n ∧ d.vocabularies.get? n = some v ∧
        (w, d') = d.addWord v definition := by
  unfold define currentVocabulary
  cases d.current with
  | none => simp [bind, Except.bind]
  | some n =>
    unfold vocabulary
    cases h : d.vocabularies.get? n <;> simp [bind, Except.bind, h, eq_comm]

end Inversion

end ThreadedCode.Dictionary
