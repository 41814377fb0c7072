import ThreadedCode.Proofs.Dictionary.Authored
import ThreadedCode.Proofs.Dictionary.Coherence

/-!
What a definition by names makes of a dictionary. Either each name denotes a word, and then there is
one word more, whose body has the tokens of these words in their order; or some name denotes none, and
the first such name is the fault.
-/

namespace ThreadedCode.Dictionary

variable {d d' : Dictionary} {name : Text} {items : List (Text × Operand)}
  {composite : Option Bool} {w : Word}

def definitionOf (name : Text) (composite : Option Bool) (parts : List (Word × Operand)) :
    Definition where
  name
  kind :=
    if composite.getD (parts.any fun part => needsPosition part.1) then .composite else .atomic
  body := parts.map fun part => { token := part.1.token, arg := part.2 }

theorem compile_eq (d : Dictionary) (name : Text) (items : List (Text × Operand))
    (composite : Option Bool) :
    d.compile name items composite =
      (d.resolve items).bind fun parts => d.define (definitionOf name composite parts) := rfl

theorem compile_eq_ok_iff :
    d.compile name items composite = .ok (w, d') ↔
      ∃ parts, d.resolve items = .ok parts ∧
        d.define (definitionOf name composite parts) = .ok (w, d') := by
  rw [compile_eq]
  cases d.resolve items <;> simp [Except.bind]

theorem find_eq_ok : d.find name = .ok w ↔ d.find? name = .ok (some w) := by
  unfold find
  cases d.find? name with
  | error fault => simp [bind, Except.bind]
  | ok found => cases found <;> simp [bind, Except.bind]

theorem find_of_find?_none (none : d.find? name = .ok none) :
    d.find name = .error (.undefinedWord name) := by
  rw [find, none]
  rfl

theorem resolve_cons (d : Dictionary) (item : Text × Operand) (items : List (Text × Operand)) :
    d.resolve (item :: items) =
      (d.find item.1).bind fun w => (d.resolve items).map ((w, item.2) :: ·) := by
  simp only [resolve, bind]
  cases d.find item.1 <;> cases d.resolve items <;> rfl

def Binds (d : Dictionary) (item : Text × Operand) (i : Instruction) : Prop :=
  ∃ u, d.find? item.1 = .ok (some u) ∧ i = { token := u.token, arg := item.2 }

def FirstUnknown (d : Dictionary) (items : List (Text × Operand)) (name : Text) : Prop :=
  ∃ known arg rest, items = known ++ (name, arg) :: rest ∧ d.find? name = .ok none ∧
    ∀ item ∈ known, ∃ u, d.find? item.1 = .ok (some u)

theorem FirstUnknown.cons {item : Text × Operand} {u : Word} (h : d.FirstUnknown items name)
    (denoted : d.find? item.1 = .ok (some u)) : d.FirstUnknown (item :: items) name := by
  obtain ⟨known, arg, rest, rfl, unknown, before⟩ := h
  exact ⟨item :: known, arg, rest, rfl, unknown,
    List.forall_mem_cons.mpr ⟨⟨u, denoted⟩, before⟩⟩

theorem Ordered.resolve_cases (h : Ordered d) (items : List (Text × Operand)) :
    (∃ name, d.FirstUnknown items name ∧ d.resolve items = .error (.undefinedWord name)) ∨
      ∃ parts, d.resolve items = .ok parts ∧
        List.Forall₂ (fun item part => d.Binds item { token := part.1.token, arg := part.2 })
          items parts := by
  induction items with
  | nil => exact .inr ⟨[], rfl, .nil⟩
  | cons item items ih =>
    rw [resolve_cons]
    obtain ⟨found, denotes⟩ := h.find?_ok item.1
    cases found with
    | none =>
      rw [find_of_find?_none denotes]
      exact .inl ⟨item.1, ⟨[], item.2, items, rfl, denotes, by simp⟩, rfl⟩
    | some u =>
      rw [find_eq_ok.mpr denotes]
      rcases ih with ⟨name, first, failed⟩ | ⟨parts, resolved, bound⟩
      · rw [failed]
        exact .inl ⟨name, first.cons denotes, rfl⟩
      · rw [resolved]
        exact .inr ⟨(u, item.2) :: parts, rfl, .cons ⟨u, denotes, rfl⟩ bound⟩

/-- A dictionary with one word more, on top of the vocabulary that takes new words. -/
structure Gains (d d' : Dictionary) (w : Word) : Prop where
  current : d.current = some w.vocabulary
  entries : d'.words.entries = d.words.entries ++ [(w.token, w)]
  fresh : d.findToken? w.token = none
  later : d.nextToken ≤ w.token
  onTop : ∃ v, d.vocabularies.get? w.vocabulary = some v ∧ w.older = v.newest ∧
    w.shadowed = v.index.get? w.name ∧
    d' = { d with
      words := d'.words
      vocabularies := d.vocabularies.insert w.vocabulary
        { v with newest := some w.token, index := v.index.insert w.name w.token }
      nextToken := w.token + 1 }

theorem Ordered.gains {definition : Definition} (h : Ordered d)
    (defined : d.define definition = .ok (w, d')) : d.Gains d' w := by
  obtain ⟨n, v, current, there, added⟩ := define_eq_ok.mp defined
  obtain rfl : w = (d.addWord v definition).1 := congrArg Prod.fst added
  obtain rfl : d' = (d.addWord v definition).2 := congrArg Prod.snd added
  have named : v.name = n := h.name_eq there
  refine ⟨current.trans (congrArg some named.symm), Ordered.entries_addWord d v definition,
    (Table.get?_eq_none_iff ..).mpr d.freshToken_not_mem, le_freshToken d,
    ⟨v, by rw [← there, ← named]; rfl, rfl, rfl, rfl⟩⟩

theorem Ordered.define_ok (h : Ordered d) (definition : Definition) :
    ∃ w d', d.define definition = .ok (w, d') ∧ w.name = definition.name ∧
      w.kind = definition.kind ∧ w.body = definition.body := by
  obtain ⟨n, v, current, there⟩ := h.current
  exact ⟨_, _, define_eq_ok.mpr ⟨n, v, current, there, rfl⟩, rfl, rfl, rfl⟩

theorem Ordered.token_ne (h : Ordered d) {own token : Token} {u : Word}
    (live : d.words.get? own = some u) (free : d.findToken? token = none) : u.token ≠ token := by
  rintro rfl
  rw [findToken?, (h.get?_eq_some.mp live).2, live] at free
  cases free

theorem Ordered.compile_cases (h : Ordered d) (name : Text) (items : List (Text × Operand))
    (composite : Option Bool) :
    (∃ unknown, d.FirstUnknown items unknown ∧
        d.compile name items composite = .error (.undefinedWord unknown)) ∨
      ∃ w d', d.compile name items composite = .ok (w, d') ∧ d.Gains d' w ∧ w.name = name ∧
        List.Forall₂ d.Binds items w.body ∧ ∀ i ∈ w.body, i.token ≠ w.token := by
  rcases h.resolve_cases items with ⟨unknown, first, failed⟩ | ⟨parts, resolved, bound⟩
  · refine .inl ⟨unknown, first, ?_⟩
    rw [compile_eq, failed]
    rfl
  · obtain ⟨w, d', defined, named, -, body⟩ := h.define_ok (definitionOf name composite parts)
    have gains := h.gains defined
    have bound : List.Forall₂ d.Binds items w.body := by
      rw [body]
      exact List.forall₂_map_right_iff.mpr bound
    refine .inr ⟨w, d', compile_eq_ok_iff.mpr ⟨parts, resolved, defined⟩, gains, named, bound,
      fun i member => ?_⟩
    rw [body] at member
    obtain ⟨part, listed, rfl⟩ := List.mem_map.mp member
    obtain ⟨own, live⟩ := resolve_live resolved part listed
    exact h.token_ne live gains.fresh

end ThreadedCode.Dictionary
