import ThreadedCode.Proofs.Dictionary.Lineage

/-!
Where parents come from. A vocabulary is for life the child of the one that was current when it was
made. At first the compiler's vocabulary has no child, so it comes on the chain of another one
exactly through a vocabulary that is made while it is current; nothing forbids that. Where no such
vocabulary is on the chain, the words that only the compiler's vocabulary has are not found.
-/

namespace ThreadedCode.Dictionary

variable {d : Dictionary} {rs : List Request} {n c name : Text}

/-- In the course of a history the vocabulary `name` is made while `parent` is the current one. -/
def Makes (d : Dictionary) (rs : List Request) (name parent : Text) : Prop :=
  ∃ past later, rs = past ++ .addVocabulary name :: later ∧
    (d.performAll past).current = some parent ∧ (d.performAll past).vocabularies.get? name = none

theorem Makes.later {r : Request} {parent : Text} (h : (d.perform r).Makes rs name parent) :
    d.Makes (r :: rs) name parent := by
  obtain ⟨past, later, rfl, current, fresh⟩ := h
  exact ⟨r :: past, later, rfl, current, fresh⟩

theorem Makes.at_once (rs : List Request) {parent : Text} (current : d.current = some parent)
    (fresh : d.parent? name = none) : d.Makes (.addVocabulary name :: rs) name parent :=
  ⟨[], rs, rfl, current, parent?_eq_none.mp fresh⟩

theorem parent?_perform {r : Request} {parent : Option Text} (h : Ordered d)
    (known : (d.perform r).parent? n = some parent) (rs : List Request) :
    d.parent? n = some parent ∨ ∃ p, parent = some p ∧ d.Makes (r :: rs) n p := by
  revert known
  refine perform_of_apply (P := fun d' => d'.parent? n = some parent → _) .inl fun d' he known => ?_
  cases r.apply_branched h he with
  | same parents => exact .inl ((parents n).symm.trans known)
  | child current fresh parents =>
    rw [parents] at known
    split at known
    next new =>
      exact .inr ⟨_, (Option.some.inj known).symm, new ▸ .at_once rs current (new ▸ fresh)⟩
    next => exact .inl known

theorem parent?_performAll {parent : Option Text} (h : Ordered d)
    (known : (d.performAll rs).parent? n = some parent) :
    d.parent? n = some parent ∨ ∃ p, parent = some p ∧ d.Makes rs n p := by
  induction rs generalizing d with
  | nil => exact .inl known
  | cons r rs ih =>
    have step : Ordered (d.perform r) := perform_of_apply h fun _ he => h.apply r he
    rcases ih step known with before | ⟨p, given, made⟩
    · exact parent?_perform h before rs
    · exact .inr ⟨p, given, made.later⟩

theorem parent?_of_makes {parent : Text} (h : d.Makes rs name parent) (start : Descended d) :
    (d.performAll rs).parent? name = some (some parent) := by
  obtain ⟨past, later, rfl, current, fresh⟩ := h
  have made := addVocabulary_eq_ok.mpr ⟨parent, current, fresh, rfl⟩
  have step : ((d.performAll past).perform (.addVocabulary name)).parent? name =
      some (some parent) := by
    simp only [perform, Request.apply, made, Except.toOption, Option.getD_some, parent?_eq_some,
      Table.get?_insert, if_pos]
    exact ⟨_, rfl, rfl⟩
  have stands := (start.performAll (past ++ [.addVocabulary name])).1
  rw [performAll, List.foldl_append] at stands ⊢
  exact (stands.performAll later).2.parent name _ step

def OnlyIn (d : Dictionary) (vocabulary name : Text) : Prop :=
  (∃ w ∈ d.words.values, w.name = name) ∧
    ∀ w ∈ d.words.values, w.name = name → w.vocabulary = vocabulary

instance (d : Dictionary) (vocabulary name : Text) : Decidable (d.OnlyIn vocabulary name) :=
  inferInstanceAs (Decidable (_ ∧ _))

theorem Ordered.find?_onlyIn {vocabulary : Text} (h : Ordered d) (hc : d.context = some c)
    (only : d.OnlyIn vocabulary name) :
    ∃ found, d.find? name = .ok found ∧ (found.isSome ↔ vocabulary ∈ d.chainOf c) := by
  refine ⟨_, h.find?_eq hc name, ?_⟩
  obtain ⟨⟨w, member, named⟩, all⟩ := only
  rw [List.find?_isSome]
  constructor
  · rintro ⟨u, onChain, same⟩
    obtain ⟨_, chain, inside⟩ := List.mem_flatten.mp onChain
    obtain ⟨n, hn, rfl⟩ := List.mem_map.mp chain
    obtain ⟨live, home⟩ := mem_held.mp inside
    rwa [← all u live (of_decide_eq_true same), home]
  · intro hv
    have inside : w ∈ d.held vocabulary := mem_held.mpr ⟨member, all w member named⟩
    exact ⟨w, List.mem_flatten.mpr ⟨_, List.mem_map_of_mem hv, inside⟩, decide_eq_true named⟩

/-- The compiler's vocabulary is on the chain of another one exactly if some vocabulary on that chain
is made while it is current. So in a history that makes none then, no search finds a word that only
the compiler's vocabulary has, unless it begins there. -/
theorem compiler_reached_iff (firstToken : Token) (rs : List Request) (n : Text)
    (d' : Dictionary) :
    let start := empty firstToken
    let d := start.performAll rs
    n ≠ compilerVocabulary → d.searchIn n = .ok d' →
      ∃ chain, d'.searchOrder = .ok chain ∧
        (compilerVocabulary ∈ chain ↔ ∃ m ∈ chain, start.Makes rs m compilerVocabulary) ∧
        ∀ name, d.OnlyIn compilerVocabulary name → ∃ found, d'.find? name = .ok found ∧
          (found.isSome ↔ ∃ m ∈ chain, start.Makes rs m compilerVocabulary) := by
  intro start d other searched
  have begun : Descended start := .empty firstToken
  have h : Descended d := (begun.performAll rs).1
  have ordered := h.ordered.searchIn searched
  obtain ⟨⟨v, there⟩, rfl⟩ := searchIn_eq_ok.mp searched
  have way := h.lineage n v.parent (parent?_eq_some.mpr ⟨v, there, rfl⟩)
  have child : ∀ m, d.parent? m = some (some compilerVocabulary) ↔
      start.Makes rs m compilerVocabulary := by
    refine fun m => ⟨fun known => ?_, fun made => parent?_of_makes made begun⟩
    rcases parent?_performAll begun.ordered known with first | ⟨p, same, made⟩
    · rw [Descended.parent?_empty] at first
      have root : rootVocabulary ≠ compilerVocabulary := by decide
      split at first
      · cases first
      split at first
      · exact absurd (Option.some.inj (Option.some.inj first)) root
      split at first <;> cases first
    · exact Option.some.inj same ▸ made
  have reached : compilerVocabulary ∈ d.chainOf n ↔
      ∃ m ∈ d.chainOf n, start.Makes rs m compilerVocabulary := by
    rw [way.mem_iff]
    simp only [child, Option.some.injEq, other, false_or]
  refine ⟨d.chainOf n, Ordered.searchOrder_eq rfl, reached, fun name only => ?_⟩
  obtain ⟨found, result, iff⟩ := ordered.find?_onlyIn rfl only
  exact ⟨found, result, iff.trans reached⟩

theorem compiler_reached_iff_apart :
    let rs : List Request :=
      [.use "compiler", .define { name := "postpone", kind := .atomic }, .addVocabulary "macros",
        .use "user", .addVocabulary "app"]
    let d := (empty 1).performAll rs
    let d' : Dictionary := { d with context := some "app" }
    ("app" : Text) ≠ compilerVocabulary ∧ d.searchIn "app" = .ok d' ∧
      d.OnlyIn compilerVocabulary "postpone" ∧
      d'.searchOrder = .ok ["app", "user", "forth"] ∧ d'.find? "postpone" = .ok none := by
  intro rs d d'
  have other : ("app" : Text) ≠ compilerVocabulary := by decide
  have searched : d.searchIn "app" = .ok d' := rfl
  have only : d.OnlyIn compilerVocabulary "postpone" := by decide
  have order : d'.searchOrder = .ok ["app", "user", "forth"] := rfl
  obtain ⟨chain, order', reached, finds⟩ := compiler_reached_iff 1 rs "app" d' other searched
  obtain rfl := Except.ok.inj (order.symm.trans order')
  obtain ⟨found, result, iff⟩ := finds "postpone" only
  have apart : compilerVocabulary ∉ [("app" : Text), "user", "forth"] := by decide
  have none : found = none := by
    simpa using mt (iff.trans reached.symm).mp apart
  exact ⟨other, searched, only, order, none ▸ result⟩

/-- A vocabulary made while the compiler's is current has that on its chain and finds its words. -/
theorem compiler_chained :
    let rs : List Request :=
      [.use "compiler", .define { name := "postpone", kind := .atomic }, .addVocabulary "app",
        .searchIn "app"]
    let d := (empty 1).performAll rs
    d.searchOrder = .ok ["app", "compiler"] ∧
      (d.find? "postpone").map (·.map (·.token)) = .ok (some 1) := by
  intro rs d
  exact ⟨rfl, rfl⟩

end ThreadedCode.Dictionary
