import ThreadedCode.Proofs.Dictionary.Ordered

/-!
Tokens are given out once. As long as nobody sets the counter, a new word gets a greater token than
all words before it, the forgotten ones included. So a token denotes its word until that is forgotten,
and from then on nothing.
-/

namespace ThreadedCode.Dictionary

/-- What a request does to the words and the counter: it takes words away, or it puts one in, with a
body, under a token that was never given out. -/
inductive Amended (d d' : Dictionary) (body : List Instruction) : Prop
  | fewer (next : d'.nextToken = d.nextToken)
      (kept : ∀ token, d'.findToken? token = d.findToken? token ∨ d'.findToken? token = none)
  | more (w : Word) (made : w.body = body) (fresh : d.nextToken ≤ w.token)
      (next : d'.nextToken = w.token + 1)
      (words : ∀ token, d'.findToken? token = if token = w.token then some w else d.findToken? token)

theorem Amended.body_eq {d d' : Dictionary} {body : List Instruction} (h : d.Amended d' body)
    {token : Token} {u : Word} (found : d'.findToken? token = some u)
    (new : d.findToken? token = none) : u.body = body := by
  cases h with
  | fewer next kept =>
    rcases kept token with same | gone
    · rw [same, new] at found
      cases found
    · rw [gone] at found
      cases found
  | more w made fresh next words =>
    rw [words, new] at found
    split at found
    · exact Option.some.inj found ▸ made
    · cases found

/-- A dictionary at a later time: a token that had been given out denotes what it denoted, or nothing
any more. -/
structure Later (d d' : Dictionary) : Prop where
  next : d.nextToken ≤ d'.nextToken
  kept : ∀ token < d.nextToken, d'.findToken? token = d.findToken? token ∨
    d'.findToken? token = none

namespace Later

variable {d d' d'' : Dictionary} {token : Token}

theorem refl (d : Dictionary) : d.Later d := ⟨Int.le_refl _, fun _ _ => .inl rfl⟩

theorem trans (h : d.Later d') (h' : d'.Later d'') : d.Later d'' where
  next := Int.le_trans h.next h'.next
  kept token given := by
    rcases h'.kept token (Int.lt_of_lt_of_le given h.next) with same | gone
    · rw [same]
      exact h.kept token given
    · exact .inr gone

theorem gone (h : d.Later d') (given : token < d.nextToken) (gone : d.findToken? token = none) :
    d'.findToken? token = none := by
  rcases h.kept token given with same | gone'
  · rw [same, gone]
  · exact gone'

theorem same (h : d.Later d') (given : token < d.nextToken) {w u : Word}
    (there : d.findToken? token = some w) (there' : d'.findToken? token = some u) : u = w := by
  rcases h.kept token given with same | gone
  · rw [same, there] at there'
    exact (Option.some.inj there').symm
  · rw [gone] at there'
    exact absurd there' (by simp)

theorem findToken?_eq (h : d.Later d') (given : token < d.nextToken)
    (kept : ∀ w, d.findToken? token = some w → d'.findToken? token ≠ none) :
    d'.findToken? token = d.findToken? token := by
  rcases h.kept token given with same | gone
  · exact same
  · cases found : d.findToken? token with
    | none => exact gone
    | some w => exact absurd gone (kept w found)

theorem of_amended {body : List Instruction} (h : d.Amended d' body) : d.Later d' := by
  cases h with
  | fewer next kept => exact ⟨Int.le_of_eq next.symm, fun token _ => kept token⟩
  | more w made fresh next words =>
    refine ⟨next ▸ Int.le_trans fresh (Int.le_of_lt (Int.lt_succ _)), fun token given => .inl ?_⟩
    rw [words, if_neg (Int.ne_of_lt (Int.lt_of_lt_of_le given fresh))]

end Later

structure Numbered (d : Dictionary) : Prop where
  ordered : Ordered d
  given : ∀ token w, d.findToken? token = some w → token < d.nextToken

def Request.counts : Request → Bool
  | setNextToken _ => false
  | _ => true

def Request.body : Request → List Instruction
  | define definition => definition.body
  | _ => []

def Request.made? (d : Dictionary) : Request → Option Token
  | define definition => (d.define definition).toOption.map (·.1.token)
  | definePrimitive name p doc => (d.definePrimitive name p doc).toOption.map (·.1.token)
  | _ => none

def made : Dictionary → List Request → List Token
  | _, [] => []
  | d, r :: rs => (r.made? d).toList ++ made (d.perform r) rs

section Requests

variable {d d' : Dictionary} {definition : Definition} {name : Text} {w : Word}
  {body : List Instruction}

theorem define_amended (he : d.define definition = .ok (w, d')) :
    d.Amended d' definition.body := by
  obtain ⟨n, v, -, -, added⟩ := define_eq_ok.mp he
  obtain rfl : w = (d.addWord v definition).1 := congrArg Prod.fst added
  obtain rfl : d' = (d.addWord v definition).2 := congrArg Prod.snd added
  refine .more (d.addWord v definition).1 rfl (le_freshToken d) rfl fun token => ?_
  exact Table.get?_insert d.words d.freshToken token _

theorem forget_amended (h : Ordered d) (he : d.forget name = .ok d') : d.Amended d' body := by
  obtain ⟨n, v, hn, hv⟩ := h.current
  obtain ⟨-, same⟩ | ⟨newer, w, older, v', -, -, -, -, -, -, cut⟩ := h.forget_eq hn hv name
  · obtain rfl : d = d' := Except.ok.inj (same.symm.trans he)
    exact .fewer rfl fun _ => .inl rfl
  · obtain rfl := Except.ok.inj (cut.symm.trans he)
    refine .fewer rfl fun token => ?_
    rw [findToken?, findToken?, get?_without]
    by_cases taken : token ∈ (newer ++ [w]).map (·.token)
    · exact .inr (if_pos taken)
    · exact .inl (if_neg taken)

theorem amended_of_words (words : d'.words = d.words) (next : d'.nextToken = d.nextToken) :
    d.Amended d' body :=
  .fewer next fun token => .inl (by rw [findToken?, findToken?, words])

theorem Request.apply_amended {r : Request} (h : Ordered d) (counts : r.counts)
    (he : r.apply d = .ok d') : d.Amended d' r.body := by
  cases r with
  | addVocabulary name =>
    obtain ⟨_, _, _, rfl⟩ := addVocabulary_eq_ok.mp he
    exact amended_of_words rfl rfl
  | use name =>
    obtain ⟨_, rfl⟩ := use_eq_ok.mp he
    exact amended_of_words rfl rfl
  | searchIn name =>
    obtain ⟨_, rfl⟩ := searchIn_eq_ok.mp he
    exact amended_of_words rfl rfl
  | defineIn name =>
    obtain ⟨_, rfl⟩ := defineIn_eq_ok.mp he
    exact amended_of_words rfl rfl
  | define definition =>
    obtain ⟨⟨w, d''⟩, defined, rfl⟩ := map_eq_ok.mp he
    exact define_amended defined
  | definePrimitive name p doc =>
    obtain ⟨⟨w, d''⟩, defined, rfl⟩ := map_eq_ok.mp he
    exact define_amended defined
  | forget name => exact forget_amended h he
  | setNextToken token => cases counts

end Requests

namespace Numbered

variable {d d' : Dictionary} {token : Token}

theorem of_amended {body : List Instruction} (h : Numbered d) (ordered : Ordered d')
    (amended : d.Amended d' body) : Numbered d' where
  ordered := ordered
  given token u found := by
    cases amended with
    | fewer next kept =>
      rw [next]
      rcases kept token with same | gone
      · exact h.given token u (same ▸ found)
      · rw [gone] at found
        exact absurd found (by simp)
    | more w made fresh next words =>
      rw [words] at found
      rw [next]
      by_cases new : token = w.token
      · exact new ▸ Int.lt_succ token
      · rw [if_neg new] at found
        exact Int.lt_trans (Int.lt_of_lt_of_le (h.given token u found) fresh) (Int.lt_succ _)

theorem empty (firstToken : Token) : Numbered (Dictionary.empty firstToken) where
  ordered := .empty firstToken
  given _ _ found := absurd found (by simp [findToken?, Dictionary.empty])

theorem perform {r : Request} (h : Numbered d) (counts : r.counts) :
    Numbered (d.perform r) ∧ d.Later (d.perform r) := by
  refine perform_of_apply (P := fun d' => Numbered d' ∧ d.Later d') ⟨h, .refl d⟩ fun d' he => ?_
  have amended := r.apply_amended h.ordered counts he
  exact ⟨h.of_amended (h.ordered.apply r he) amended, .of_amended amended⟩

theorem performAll (h : Numbered d) (rs : List Request) (counts : ∀ r ∈ rs, r.counts) :
    Numbered (d.performAll rs) ∧ d.Later (d.performAll rs) := by
  induction rs generalizing d with
  | nil => exact ⟨h, .refl d⟩
  | cons r rs ih =>
    have first := h.perform (counts r List.mem_cons_self)
    have rest := ih first.1 fun x hx => counts x (List.mem_cons_of_mem r hx)
    exact ⟨rest.1, first.2.trans rest.2⟩

theorem made?_bounds {r : Request} (made : r.made? d = some token) :
    d.nextToken ≤ token ∧ token < (d.perform r).nextToken := by
  have defined : ∀ definition, (d.define definition).toOption.map (·.1.token) = some token →
      d.nextToken ≤ token ∧
        token < (((d.define definition).map (·.2)).toOption.getD d).nextToken := by
    intro definition made
    cases he : d.define definition with
    | error fault => simp [he, Except.toOption] at made
    | ok result =>
      obtain ⟨w, d'⟩ := result
      obtain ⟨n, v, -, -, added⟩ := define_eq_ok.mp he
      obtain rfl : w = (d.addWord v definition).1 := congrArg Prod.fst added
      obtain rfl : d' = (d.addWord v definition).2 := congrArg Prod.snd added
      obtain rfl : (d.addWord v definition).1.token = token := by
        simpa [he, Except.toOption] using made
      exact ⟨le_freshToken d, Int.lt_succ d.freshToken⟩
  cases r with
  | define definition => exact defined definition made
  | definePrimitive name p doc => exact defined _ made
  | addVocabulary | use | searchIn | defineIn | forget | setNextToken => cases made

theorem le_of_mem_made {rs : List Request} (h : Numbered d) (counts : ∀ r ∈ rs, r.counts)
    (member : token ∈ made d rs) : d.nextToken ≤ token := by
  induction rs generalizing d with
  | nil => cases member
  | cons r rs ih =>
    rcases List.mem_append.mp member with first | later
    · exact (made?_bounds (Option.mem_toList.mp first)).1
    · have step := h.perform (counts r List.mem_cons_self)
      have bound := ih step.1 (fun x hx => counts x (List.mem_cons_of_mem r hx)) later
      exact Int.le_trans step.2.next bound

theorem made_pairwise {rs : List Request} (h : Numbered d) (counts : ∀ r ∈ rs, r.counts) :
    (made d rs).Pairwise (· < ·) := by
  induction rs generalizing d with
  | nil => exact .nil
  | cons r rs ih =>
    have step := h.perform (counts r List.mem_cons_self)
    have counts' : ∀ x ∈ rs, x.counts := fun x hx => counts x (List.mem_cons_of_mem r hx)
    refine List.pairwise_append.mpr ⟨?_, ih step.1 counts', fun first hf later hl => ?_⟩
    · cases r.made? d <;> simp
    · have bounds := made?_bounds (Option.mem_toList.mp hf)
      exact Int.lt_of_lt_of_le bounds.2 (le_of_mem_made step.1 counts' hl)

end Numbered

/-- Tokens are never recycled. Whatever the first token, and whatever is forgotten in between, the
tokens of the words that a history makes increase. A token that denotes a word at some time denotes
the same word or nothing at any later time, and nothing once the word has been forgotten; so an
instruction that refers to a word, in whatever body, never comes to refer to another one. -/
theorem tokens_never_recycled (firstToken : Token) (rs : List Request)
    (counts : ∀ r ∈ rs, r.counts) :
    (made (empty firstToken) rs).Pairwise (· < ·) ∧
      ∀ past since later, rs = past ++ since ++ later →
        let d := (empty firstToken).performAll past
        let d' := d.performAll since
        ∀ token w, d.findToken? token = some w →
          (∀ u, d'.findToken? token = some u → u = w) ∧
            (d'.findToken? token = none → (d'.performAll later).findToken? token = none) := by
  have start := Numbered.empty firstToken
  refine ⟨start.made_pairwise counts, ?_⟩
  rintro past since later rfl d d' token w found
  have inPast := start.performAll past fun r hr => counts r (by simp [hr])
  have inBetween := inPast.1.performAll since fun r hr => counts r (by simp [hr])
  have afterwards := inBetween.1.performAll later fun r hr => counts r (by simp [hr])
  have given : token < d.nextToken := inPast.1.given token w found
  refine ⟨fun u found' => inBetween.2.same given found found', fun gone => ?_⟩
  exact afterwards.2.gone (Int.lt_of_lt_of_le given inBetween.2.next) gone

theorem tokens_never_recycled_redefined :
    let past : List Request :=
      [.define { name := "a", kind := .atomic }, .use "user",
        .define { name := "b", kind := .composite, body := [{ token := -3 }] }]
    let since : List Request := [.use "forth", .forget "a"]
    let later : List Request := [.use "nowhere", .define { name := "a", kind := .atomic }]
    let rs := past ++ since ++ later
    let a := Word.secondary "a" (-3) .atomic []
    let d := (empty (-3)).performAll past
    (∀ r ∈ rs, r.counts) ∧ made (empty (-3)) rs = [-3, -2, -1] ∧
      (made (empty (-3)) rs).Pairwise (· < ·) ∧ d.findToken? (-3) = some a ∧
      (d.performAll since).findToken? (-3) = none ∧
      ((d.performAll since).performAll later).findToken? (-3) = none := by
  intro past since later rs a d
  have counts : ∀ r ∈ rs, r.counts := by decide
  have found : d.findToken? (-3) = some a := by decide
  have gone : (d.performAll since).findToken? (-3) = none := by decide
  have never := tokens_never_recycled (-3) rs counts
  exact ⟨counts, by decide, never.1, found, gone, (never.2 past since later rfl (-3) a found).2 gone⟩

end ThreadedCode.Dictionary
