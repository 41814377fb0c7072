import ThreadedCode.Proofs.Dictionary.Expansion
import ThreadedCode.Proofs.Dictionary.Ordered

/-!
Dictionaries whose words are defined by names. A name denotes a word that is there when the
definition is made, and tokens only grow. So every word has a greater token than the words in its
body, whatever is redefined or forgotten, and no word calls itself, neither at once nor through
others.
-/

namespace ThreadedCode.Dictionary

inductive Authoring where
  | compile (name : Text) (items : List (Text × Operand)) (composite : Option Bool)
  | forget (name : Text)
  | addVocabulary (name : Text)
  | use (name : Text)
  | searchIn (name : Text)
  | defineIn (name : Text)

def Authoring.apply (d : Dictionary) : Authoring → Except Fault Dictionary
  | compile name items composite => (d.compile name items composite).map (·.2)
  | forget name => d.forget name
  | addVocabulary name => d.addVocabulary name
  | use name => d.use name
  | searchIn name => d.searchIn name
  | defineIn name => d.defineIn name

def authorAll (d : Dictionary) (rs : List Authoring) : Dictionary :=
  rs.foldl (fun d r => (r.apply d).toOption.getD d) d

section Names

variable {d d' : Dictionary} {name : Text} {w : Word}

theorem find?_live (h : d.find? name = .ok (some w)) : ∃ token, d.words.get? token = some w := by
  unfold find? at h
  cases order : d.searchOrder with
  | error fault => simp [order, bind, Except.bind] at h
  | ok chain =>
    simp only [order, bind, Except.bind] at h
    cases first : chain.findSome? fun vocabulary => d.indexed? vocabulary name with
    | none => simp [first] at h
    | some token =>
      rw [first] at h
      obtain ⟨u, found, same⟩ := map_eq_ok.mp h
      obtain rfl := Option.some.inj same
      exact ⟨token, wordAt_eq_ok.mp found⟩

theorem find_live (h : d.find name = .ok w) : ∃ token, d.words.get? token = some w := by
  unfold find at h
  cases found : d.find? name with
  | error fault => simp [found, bind, Except.bind] at h
  | ok denoted =>
    cases denoted with
    | none => simp [found, bind, Except.bind] at h
    | some u =>
      obtain rfl : u = w := by simpa [found, bind, Except.bind] using h
      exact find?_live found

theorem resolve_live {items : List (Text × Operand)} {parts : List (Word × Operand)}
    (h : d.resolve items = .ok parts) :
    ∀ part ∈ parts, ∃ token, d.words.get? token = some part.1 := by
  induction items generalizing parts with
  | nil =>
    cases h
    intro part member
    cases member
  | cons item items ih =>
    rw [resolve] at h
    cases found : d.find item.1 with
    | error fault => simp [found, bind, Except.bind] at h
    | ok w =>
      cases rest : d.resolve items with
      | error fault => simp [found, rest, bind, Except.bind] at h
      | ok others =>
        obtain rfl : (w, item.2) :: others = parts := by
          simpa [found, rest, bind, Except.bind] using h
        intro part member
        rcases List.mem_cons.mp member with rfl | later
        · exact find_live found
        · exact ih rest part later

theorem compile_eq_ok {items : List (Text × Operand)} {composite : Option Bool}
    (h : d.compile name items composite = .ok (w, d')) :
    ∃ parts definition, d.resolve items = .ok parts ∧ d.define definition = .ok (w, d') ∧
      (definition.kind = .atomic ∨ definition.kind = .composite) ∧
      definition.body = parts.map fun part => { token := part.1.token, arg := part.2 } := by
  unfold compile at h
  cases resolved : d.resolve items with
  | error fault => simp [resolved, bind, Except.bind] at h
  | ok parts =>
    simp only [resolved, bind, Except.bind] at h
    refine ⟨parts, _, rfl, h, ?_, rfl⟩
    split
    · exact Or.inr rfl
    · exact Or.inl rfl

end Names

/-- What words defined by names make of a dictionary: tokens are positive and below the next one, and
those in a body are below that of the word. -/
structure Layered (d : Dictionary) : Prop where
  ordered : Ordered d
  start : 1 ≤ d.nextToken
  token : ∀ w ∈ d.words.values, 1 ≤ w.token ∧ w.token < d.nextToken
  below : ∀ w ∈ d.words.values, ∀ i ∈ w.body, i.token < w.token
  own : ∀ w ∈ d.words.values, w.isForeign = false

namespace Layered

variable {d d' : Dictionary} {name : Text} {v : Vocabulary} {w u : Word}

theorem live (h : Layered d) {token : Token} (found : d.words.get? token = some w) :
    w ∈ d.words.values ∧ w.token = token :=
  h.ordered.get?_eq_some.mp found

theorem of_words (h : Layered d) (ordered : Ordered d') (next : d'.nextToken = d.nextToken)
    (words : ∀ w ∈ d'.words.values, w ∈ d.words.values) : Layered d' where
  ordered := ordered
  start := next ▸ h.start
  token w member := next ▸ h.token w (words w member)
  below w member := h.below w (words w member)
  own w member := h.own w (words w member)

theorem addWord (h : Layered d) (hv : d.vocabularies.get? name = some v) {definition : Definition}
    (below : ∀ i ∈ definition.body, i.token < d.nextToken)
    (runs : definition.kind = .atomic ∨ definition.kind = .composite) :
    Layered (d.addWord v definition).2 := by
  have fresh := le_freshToken d
  have onward : d.nextToken < d.freshToken + 1 := Int.lt_add_one_of_le fresh
  have split : ∀ w ∈ (d.addWord v definition).2.words.values,
      w ∈ d.words.values ∨ w = (d.addWord v definition).1 := by
    intro w member
    rw [Table.values, Ordered.entries_addWord, List.map_append, List.mem_append] at member
    exact member.imp_right fun last => by simpa using last
  refine ⟨h.ordered.addWord hv definition, Int.le_of_lt (Int.lt_of_le_of_lt h.start onward),
    fun w member => ?_, fun w member => ?_, fun w member => ?_⟩
  · rcases split w member with old | rfl
    · exact ⟨(h.token w old).1, Int.lt_trans (h.token w old).2 onward⟩
    · exact ⟨Int.le_trans h.start fresh, Int.lt_succ d.freshToken⟩
  · rcases split w member with old | rfl
    · exact h.below w old
    · exact fun i inside => Int.lt_of_lt_of_le (below i inside) fresh
  · rcases split w member with old | rfl
    · exact h.own w old
    · have kind : (d.addWord v definition).1.kind = definition.kind := rfl
      rcases runs with atomic | composite
      · simp [Word.isForeign, kind, atomic]
      · simp [Word.isForeign, kind, composite]

theorem compile (h : Layered d) {items : List (Text × Operand)} {composite : Option Bool}
    (he : d.compile name items composite = .ok (w, d')) : Layered d' := by
  obtain ⟨parts, definition, resolved, defined, runs, body⟩ := compile_eq_ok he
  obtain ⟨n, v, _, hv, added⟩ := define_eq_ok.mp defined
  have result : d' = (d.addWord v definition).2 := congrArg Prod.snd added
  rw [result]
  refine h.addWord hv (fun i inside => ?_) runs
  rw [body] at inside
  obtain ⟨part, member, rfl⟩ := List.mem_map.mp inside
  obtain ⟨token, found⟩ := resolve_live resolved part member
  exact (h.token part.1 (h.live found).1).2

theorem forget (h : Layered d) (he : d.forget name = .ok d') : Layered d' := by
  obtain ⟨n, v, hn, hv⟩ := h.ordered.current
  have ordered := h.ordered.forget he
  rcases h.ordered.forget_eq hn hv name with ⟨_, same⟩ | ⟨newer, w, older, v', _, _, _, _, _, _, cut⟩
  · cases same.symm.trans he
    exact h
  · cases cut.symm.trans he
    refine h.of_words ordered rfl fun x member => ?_
    rw [h.ordered.values_without] at member
    exact (List.mem_filter.mp member).1

theorem apply (h : Layered d) (r : Authoring) (he : r.apply d = .ok d') : Layered d' := by
  cases r with
  | compile name items composite =>
    obtain ⟨⟨w, d''⟩, compiled, rfl⟩ := map_eq_ok.mp he
    exact h.compile compiled
  | forget name => exact h.forget he
  | addVocabulary name =>
    have ordered := h.ordered.addVocabulary he
    obtain ⟨_, _, _, rfl⟩ := addVocabulary_eq_ok.mp he
    exact h.of_words ordered rfl fun _ member => member
  | use name =>
    have ordered := h.ordered.use he
    obtain ⟨_, rfl⟩ := use_eq_ok.mp he
    exact h.of_words ordered rfl fun _ member => member
  | searchIn name =>
    have ordered := h.ordered.searchIn he
    obtain ⟨_, rfl⟩ := searchIn_eq_ok.mp he
    exact h.of_words ordered rfl fun _ member => member
  | defineIn name =>
    have ordered := h.ordered.defineIn he
    obtain ⟨_, rfl⟩ := defineIn_eq_ok.mp he
    exact h.of_words ordered rfl fun _ member => member

theorem initial_eq :
    Dictionary.initial = (empty 1).performAll
      (builtins.map fun (name, b, doc) => .definePrimitive name (.builtin b) doc) := by
  rw [performAll, List.foldl_map, Dictionary.initial]
  congr 1
  funext d ⟨name, b, doc⟩
  simp only [perform, Request.apply]
  cases d.definePrimitive name (.builtin b) doc <;> rfl

theorem initial : Layered Dictionary.initial where
  ordered := initial_eq ▸ Ordered.performAll 1 _
  start := by decide
  token := by decide
  below := by decide
  own := by decide

theorem authorAll (rs : List Authoring) : Layered (Dictionary.initial.authorAll rs) :=
  foldl_induction initial (fun _ r _ h => h.apply r) rs

theorem token_lt (h : Layered d) (member : w ∈ d.words.values) (call : d.Calls w u) :
    u ∈ d.words.values ∧ u.token < w.token := by
  obtain ⟨_, i, inside, found⟩ := call
  obtain ⟨listed, same⟩ := h.live found
  exact ⟨listed, same ▸ h.below w member i inside⟩

theorem acyclic (h : Layered d) (u : Word) : ¬ Relation.TransGen d.Calls u u := by
  intro cycle
  obtain ⟨_, _, ⟨_, i, _, found⟩⟩ := Relation.TransGen.tail'_iff.mp cycle
  exact Int.lt_irrefl _ (token_lt_of_calls h.token_lt (h.live found).1 cycle).2

end Layered

end ThreadedCode.Dictionary
