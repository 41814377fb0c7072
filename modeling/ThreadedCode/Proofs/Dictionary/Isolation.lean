import ThreadedCode.Proofs.Dictionary.Lineage

/-!
Vocabularies apart. All words are in one table and get their tokens from one counter, but a
definition and a cut go to the current vocabulary alone. So whoever searches from some vocabulary
sees nothing of what goes on in the vocabularies that are not on its chain, though the same names be
made and forgotten there.
-/

namespace ThreadedCode.Dictionary

variable {d d' : Dictionary} {chain : List Text} {c n name : Text}

/-- A request that leaves the vocabularies of a chain alone: it moves neither the search nor words
of theirs. -/
def Request.Aside (chain : List Text) (d : Dictionary) : Request → Prop
  | define _ | definePrimitive _ _ _ | forget _ => ∀ n ∈ d.current, n ∉ chain
  | addVocabulary _ | defineIn _ | setNextToken _ => True
  | use _ | searchIn _ => False

instance decidableAside (chain : List Text) (d : Dictionary) :
    (r : Request) → Decidable (r.Aside chain d)
  | .define _ | .definePrimitive _ _ _ | .forget _ =>
    inferInstanceAs (Decidable (∀ n ∈ d.current, n ∉ chain))
  | .addVocabulary _ | .defineIn _ | .setNextToken _ => inferInstanceAs (Decidable True)
  | .use _ | .searchIn _ => inferInstanceAs (Decidable False)

def AllAside (chain : List Text) : Dictionary → List Request → Prop
  | _, [] => True
  | d, r :: rs => r.Aside chain d ∧ AllAside chain (d.perform r) rs

instance decidableAllAside (chain : List Text) :
    (d : Dictionary) → (rs : List Request) → Decidable (AllAside chain d rs)
  | _, [] => inferInstanceAs (Decidable True)
  | d, r :: rs =>
    have := decidableAllAside chain (d.perform r) rs
    inferInstanceAs (Decidable (r.Aside chain d ∧ AllAside chain (d.perform r) rs))

structure AgreesOn (chain : List Text) (d d' : Dictionary) : Prop where
  context : d'.context = d.context
  held : ∀ n ∈ chain, d'.held n = d.held n

namespace AgreesOn

theorem refl (chain : List Text) (d : Dictionary) : AgreesOn chain d d := ⟨rfl, fun _ _ => rfl⟩

theorem trans {d'' : Dictionary} (h : AgreesOn chain d d') (h' : AgreesOn chain d' d'') :
    AgreesOn chain d d'' where
  context := h'.context.trans h.context
  held n hn := (h'.held n hn).trans (h.held n hn)

theorem of_words (context : d'.context = d.context) (words : d'.words = d.words) :
    AgreesOn chain d d' where
  context := context
  held n _ := by rw [Dictionary.held, words, Dictionary.held]

theorem define {definition : Definition} {w : Word} (h : Ordered d)
    (off : ∀ n ∈ d.current, n ∉ chain) (he : d.define definition = .ok (w, d')) :
    AgreesOn chain d d' := by
  obtain ⟨m, v, current, there, added⟩ := define_eq_ok.mp he
  obtain rfl : d' = (d.addWord v definition).2 := congrArg Prod.snd added
  refine ⟨rfl, fun n onChain => ?_⟩
  have other : v.name ≠ n := by
    rintro rfl
    exact off m current (h.name_eq there ▸ onChain)
  rw [Ordered.held_addWord, if_neg other]

theorem forget (h : Ordered d) (off : ∀ n ∈ d.current, n ∉ chain)
    (he : d.forget name = .ok d') : AgreesOn chain d d' := by
  obtain ⟨m, v, current, there⟩ := h.current
  rcases h.forget_eq current there name with ⟨-, same⟩ |
    ⟨newer, w, older, v', stack, -, -, -, -, -, cut⟩
  · cases same.symm.trans he
    exact .refl chain d
  · cases cut.symm.trans he
    refine ⟨rfl, fun n onChain => ?_⟩
    have other : n ≠ m := by
      rintro rfl
      exact off n current onChain
    rw [h.held_cut stack, if_neg other]

theorem apply {r : Request} (h : Ordered d) (aside : r.Aside chain d) (he : r.apply d = .ok d') :
    AgreesOn chain d d' := by
  cases r with
  | addVocabulary name =>
    obtain ⟨_, -, -, rfl⟩ := addVocabulary_eq_ok.mp he
    exact .of_words rfl rfl
  | use name => cases aside
  | searchIn name => cases aside
  | defineIn name =>
    obtain ⟨-, rfl⟩ := defineIn_eq_ok.mp he
    exact .of_words rfl rfl
  | define definition =>
    obtain ⟨_, defined, rfl⟩ := map_eq_ok.mp he
    exact define h aside defined
  | definePrimitive name p doc =>
    obtain ⟨_, defined, rfl⟩ := map_eq_ok.mp he
    exact define h aside defined
  | forget name => exact forget h aside he
  | setNextToken token =>
    obtain rfl := Except.ok.inj he
    exact .of_words rfl rfl

theorem performAll {rs : List Request} (h : Ordered d) (aside : AllAside chain d rs) :
    AgreesOn chain d (d.performAll rs) := by
  induction rs generalizing d with
  | nil => exact .refl chain d
  | cons r rs ih =>
    have step : Ordered (d.perform r) ∧ AgreesOn chain d (d.perform r) :=
      perform_of_apply (P := fun d' => Ordered d' ∧ AgreesOn chain d d') ⟨h, .refl chain d⟩
        fun d' he => ⟨h.apply r he, apply h aside.1 he⟩
    exact step.2.trans (ih step.1 aside.2)

end AgreesOn

theorem Ordered.sees_same (h : Ordered d) (h' : Ordered d') (hc : d.context = some c)
    (first : c ∈ d.chainOf c) (chains : d'.chainOf c = d.chainOf c)
    (agrees : AgreesOn (d.chainOf c) d d') :
    d'.searchOrder = d.searchOrder ∧ (∀ name, d'.find? name = d.find? name) ∧
      d'.wordsInScope = d.wordsInScope := by
  have hc' : d'.context = some c := agrees.context.trans hc
  refine ⟨?_, fun name => ?_, ?_⟩
  · rw [searchOrder_eq hc, searchOrder_eq hc', chains]
  · rw [h.find?_eq hc, h'.find?_eq hc', chains, List.map_congr_left agrees.held]
  · -- A listing goes to the first vocabulary also for a parent with an empty name.
    have listed : ∀ n ∈ d.chainOf c,
        d'.held (if n = [] then c else n) = d.held (if n = [] then c else n) := by
      intro n onChain
      by_cases unnamed : n = []
      · rw [if_pos unnamed]
        exact agrees.held c first
      · rw [if_neg unnamed]
        exact agrees.held n onChain
    rw [h.wordsInScope_eq hc, h'.wordsInScope_eq hc', chains, List.map_congr_left listed]

/-- Vocabularies isolate each other. In every history, what is defined and forgotten while the
current vocabulary is not on the chain of the search, and any new vocabularies and changes of the
current one, leave the chain, the word that each name denotes, and the words in scope as they were. -/
theorem search_isolated (firstToken : Token) (past rs : List Request) (chain : List Text) :
    let d := (empty firstToken).performAll past
    let d' := d.performAll rs
    d.searchOrder = .ok chain → AllAside chain d rs →
      d'.searchOrder = .ok chain ∧
        (∀ name, ∃ found, d.find? name = .ok found ∧ d'.find? name = .ok found) ∧
        ∃ listed, d.wordsInScope = .ok listed ∧ d'.wordsInScope = .ok listed := by
  intro d d' order aside
  have h : Descended d := ((Descended.empty firstToken).performAll past).1
  have later := h.performAll rs
  obtain ⟨c, v, hc, there⟩ := h.ordered.context
  obtain rfl : d.chainOf c = chain :=
    Except.ok.inj ((Ordered.searchOrder_eq hc).symm.trans order)
  -- New vocabularies do not lengthen the chain, so the words on it are all that is left to compare.
  have known : d.parent? c = some v.parent := parent?_eq_some.mpr ⟨v, there, rfl⟩
  have way := h.lineage c v.parent known
  have first : c ∈ d.chainOf c := way.mem_iff.mpr (.inl rfl)
  obtain ⟨order', find, scope⟩ := h.ordered.sees_same later.1.ordered hc first
    (later.2.chain c v.parent known) (.performAll h.ordered aside)
  refine ⟨order'.trans order, fun name => ?_, ?_⟩
  · obtain ⟨found, result⟩ := h.ordered.find?_ok name
    exact ⟨found, result, (find name).trans result⟩
  · obtain ⟨listed, result⟩ := h.ordered.wordsInScope_ok
    exact ⟨listed, result, scope.trans result⟩

theorem search_isolated_homonyms :
    let word (name : Text) : Definition := { name, kind := .atomic }
    let past : List Request :=
      [.define (word "x"), .use "user", .addVocabulary "app", .addVocabulary "other",
        .define (word "y"), .use "app", .define (word "x")]
    let rs : List Request :=
      [.defineIn "other", .define (word "x"), .define (word "z"), .define (word "y"), .forget "z",
        .defineIn "compiler", .define (word "y"), .define (word "x"), .defineIn "app",
        .addVocabulary "sub", .defineIn "sub", .define (word "x"), .forget "y"]
    let d := (empty 1).performAll past
    let d' := d.performAll rs
    d.searchOrder = .ok ["app", "user", "forth"] ∧ AllAside ["app", "user", "forth"] d rs ∧
      d'.nextToken = 10 ∧
      (∀ name, ∃ found, d.find? name = .ok found ∧ d'.find? name = .ok found) ∧
      ∃ listed, d'.wordsInScope = .ok listed ∧ listed.map (·.token) = [3, 2] := by
  intro word past rs d d'
  have order : d.searchOrder = .ok ["app", "user", "forth"] := by
    rw [Ordered.searchOrder_eq (c := "app") (by decide)]
    exact congrArg Except.ok (by decide)
  have aside : AllAside ["app", "user", "forth"] d rs := by decide
  obtain ⟨-, find, listed, scope, same⟩ := search_isolated 1 past rs _ order aside
  have tokens : d.wordsInScope.toOption.map (·.map (·.token)) = some [3, 2] := by decide
  rw [scope] at tokens
  exact ⟨order, aside, by decide, find, listed, same, Option.some.inj tokens⟩

end ThreadedCode.Dictionary
