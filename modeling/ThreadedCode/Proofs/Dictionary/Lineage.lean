import ThreadedCode.Proofs.Dictionary.Coherence

/-!
Chains of vocabularies. A vocabulary is made under a name that is not taken, as a child of one that
is there, and it never gets another parent. So the way from a vocabulary to its parent and on comes
to an end, in the root or in the vocabulary of the compiler, and it stays the same whatever is made
or forgotten later. A search takes this way.
-/

namespace ThreadedCode

namespace Table

variable {κ α β : Type} [DecidableEq κ]

theorem map_insertEntry (f : α → β) (k : κ) {a b : α} (entries : List (κ × α))
    (there : (entries.find? fun e => e.1 = k).map (·.2) = some b) (same : f a = f b) :
    (insertEntry k a entries).map (fun e => f e.2) = entries.map fun e => f e.2 := by
  induction entries with
  | nil => cases there
  | cons e rest ih =>
    by_cases hk : e.1 = k
    · have hb : e.2 = b := by simpa [hk] using there
      simp [insertEntry, hk, hb, same]
    · have hr := ih (by simpa [hk] using there)
      simp [insertEntry, hk, hr]

theorem map_values_insert {t : Table κ α} {k : κ} {a b : α} (f : α → β)
    (there : t.get? k = some b) (same : f a = f b) :
    (t.insert k a).values.map f = t.values.map f := by
  simpa [values, insert, Function.comp_def] using map_insertEntry f k t.entries there same

end Table

def Vocabulary.link (v : Vocabulary) : Text × Option Text := (v.name, v.parent)

namespace Dictionary

variable {d d' d'' : Dictionary} {n m name : Text} {parent start : Option Text} {ns : List Text}

def parent? (d : Dictionary) (n : Text) : Option (Option Text) :=
  (d.vocabularies.get? n).map (·.parent)

theorem parent?_eq_some :
    d.parent? n = some parent ↔ ∃ v, d.vocabularies.get? n = some v ∧ v.parent = parent :=
  Option.map_eq_some_iff

theorem parent?_eq_none : d.parent? n = none ↔ d.vocabularies.get? n = none :=
  Option.map_eq_none_iff

/-- The way from a vocabulary to its parent and on, to the end. -/
inductive Lineage (d : Dictionary) : Option Text → List Text → Prop
  | done : Lineage d none []
  | step {n : Text} {parent : Option Text} {ns : List Text} :
      d.parent? n = some parent → Lineage d parent ns → Lineage d (some n) (n :: ns)

namespace Lineage

theorem unique {ns' : List Text} (h : Lineage d start ns) (h' : Lineage d start ns') :
    ns = ns' := by
  induction h generalizing ns' with
  | done =>
    cases h'
    rfl
  | step known _ ih =>
    cases h' with
    | step known' h' =>
      obtain rfl := Option.some.inj (known.symm.trans known')
      rw [ih h']

theorem known (h : Lineage d start ns) : ∀ m ∈ ns, ∃ parent, d.parent? m = some parent := by
  induction h with
  | done =>
    intro m member
    cases member
  | step known _ ih =>
    intro m member
    rcases List.mem_cons.mp member with rfl | further
    · exact ⟨_, known⟩
    · exact ih m further

theorem suffix (h : Lineage d start ns) (member : m ∈ ns) :
    ∃ rest, Lineage d (some m) rest ∧ rest.length ≤ ns.length := by
  induction h with
  | done => cases member
  | step known way ih =>
    rcases List.mem_cons.mp member with rfl | further
    · exact ⟨_, .step known way, Nat.le_refl _⟩
    · obtain ⟨rest, own, short⟩ := ih further
      exact ⟨rest, own, Nat.le_succ_of_le short⟩

theorem nodup (h : Lineage d start ns) : ns.Nodup := by
  induction h with
  | done => exact List.nodup_nil
  | step known way ih =>
    -- met again, the vocabulary would have a shorter way to the end than it has
    refine List.nodup_cons.mpr ⟨fun again => ?_, ih⟩
    obtain ⟨rest, own, short⟩ := way.suffix again
    obtain rfl := own.unique (.step known way)
    exact Nat.not_succ_le_self _ short

theorem founder (h : Lineage d start ns) (begun : start ≠ none) :
    ∃ m, ns.getLast? = some m ∧ d.parent? m = some none := by
  induction h with
  | done => exact absurd rfl begun
  | @step n parent ns known way ih =>
    cases parent with
    | none =>
      cases way
      exact ⟨n, rfl, known⟩
    | some p =>
      obtain ⟨m, last, founder⟩ := ih (by simp)
      refine ⟨m, ?_, founder⟩
      rw [List.getLast?_cons, last, Option.getD_some]

theorem mem_iff (h : Lineage d start ns) :
    m ∈ ns ↔ start = some m ∨ ∃ child ∈ ns, d.parent? child = some (some m) := by
  induction h with
  | done => simp
  | @step n parent ns known way ih =>
    rw [List.mem_cons, ih]
    constructor
    · rintro (rfl | rfl | ⟨child, member, below⟩)
      · exact .inl rfl
      · exact .inr ⟨n, List.mem_cons_self, known⟩
      · exact .inr ⟨child, List.mem_cons_of_mem n member, below⟩
    · rintro (first | ⟨child, member, below⟩)
      · exact .inl (Option.some.inj first).symm
      · rcases List.mem_cons.mp member with rfl | further
        · exact .inr (.inl (Option.some.inj (known.symm.trans below)))
        · exact .inr (.inr ⟨child, further, below⟩)

end Lineage

theorem ancestry_congr {vs vs' : List Vocabulary}
    (same : vs.map Vocabulary.link = vs'.map Vocabulary.link) (start : Option Text) :
    ancestry vs start = ancestry vs' start := by
  induction vs generalizing vs' start with
  | nil =>
    obtain rfl : vs' = [] := by simpa using same.symm
    rfl
  | cons v vs ih =>
    cases vs' with
    | nil => cases same
    | cons v' vs' =>
      obtain ⟨link, rest⟩ := List.cons.inj same
      obtain ⟨named, born⟩ := Prod.mk.inj link
      cases start with
      | none => rfl
      | some n => rw [ancestry, ancestry, named, born, ih rest, ih rest]

/-- What a request does to the vocabularies: parents and chains stay, or there is one more child. -/
inductive Branched (d d' : Dictionary) : Request → Prop
  | same {r : Request} (parents : ∀ m, d'.parent? m = d.parent? m)
      (chains : ∀ m, d'.chainOf m = d.chainOf m) : Branched d d' r
  | child {name parent : Text} (current : d.current = some parent)
      (fresh : d.parent? name = none)
      (parents : ∀ m, d'.parent? m = if m = name then some (some parent) else d.parent? m)
      (chains : ∀ m, d'.chainOf m = if m = name then name :: d.chainOf parent else d.chainOf m) :
      Branched d d' (.addVocabulary name)

section Requests

variable {r : Request} {v v' : Vocabulary}

theorem branched_of_vocabularies (h : d'.vocabularies = d.vocabularies) : Branched d d' r :=
  .same (fun m => by rw [parent?, h, parent?]) fun m => by rw [chainOf, h, chainOf]

theorem branched_of_insert (there : d.vocabularies.get? n = some v)
    (h : d'.vocabularies = d.vocabularies.insert n v') (link : v'.link = v.link) :
    Branched d d' r := by
  refine .same (fun m => ?_) fun m => ancestry_congr ?_ (some m)
  · rw [parent?, h, Table.get?_insert, parent?]
    split
    next same =>
      rw [same, there]
      exact congrArg some (congrArg Prod.snd link)
    next => rfl
  · rw [h, List.map_reverse, Table.map_values_insert Vocabulary.link there link, List.map_reverse]

theorem define_branched {definition : Definition} {w : Word} (h : Ordered d)
    (he : d.define definition = .ok (w, d')) : Branched d d' r := by
  obtain ⟨n, v, -, there, added⟩ := define_eq_ok.mp he
  obtain rfl : d' = (d.addWord v definition).2 := congrArg Prod.snd added
  rw [← h.name_eq there] at there
  exact branched_of_insert there rfl rfl

theorem forget_branched (h : Ordered d) (he : d.forget name = .ok d') : Branched d d' r := by
  obtain ⟨n, v, hn, there⟩ := h.current
  rcases h.forget_eq hn there name with ⟨-, same⟩ |
    ⟨_, _, _, v', -, -, -, named, parent, -, cut⟩
  · cases same.symm.trans he
    exact branched_of_vocabularies rfl
  · cases cut.symm.trans he
    have link : v'.link = v.link := Prod.ext (named.trans (h.name_eq there).symm) parent
    exact branched_of_insert there rfl link

theorem addVocabulary_branched (he : d.addVocabulary name = .ok d') :
    Branched d d' (.addVocabulary name) := by
  obtain ⟨parent, current, fresh, rfl⟩ := addVocabulary_eq_ok.mp he
  refine .child current (parent?_eq_none.mpr fresh) (fun m => ?_) fun m => ?_
  · rw [parent?, Table.get?_insert, parent?]
    split <;> rfl
  · have entries := Table.entries_insert_of_fresh { name, parent := some parent }
      ((Table.get?_eq_none_iff _ _).mp fresh)
    rw [chainOf, Table.values, entries, List.map_append, List.reverse_append]
    by_cases same : m = name
    · subst same
      rw [if_pos rfl]
      exact if_pos rfl
    · rw [if_neg same]
      exact if_neg (Ne.symm same)

theorem Request.apply_branched (h : Ordered d) (he : r.apply d = .ok d') : Branched d d' r := by
  cases r with
  | addVocabulary name => exact addVocabulary_branched he
  | use name =>
    obtain ⟨-, rfl⟩ := use_eq_ok.mp he
    exact branched_of_vocabularies rfl
  | searchIn name =>
    obtain ⟨-, rfl⟩ := searchIn_eq_ok.mp he
    exact branched_of_vocabularies rfl
  | defineIn name =>
    obtain ⟨-, rfl⟩ := defineIn_eq_ok.mp he
    exact branched_of_vocabularies rfl
  | define definition =>
    obtain ⟨_, defined, rfl⟩ := map_eq_ok.mp he
    exact define_branched h defined
  | definePrimitive name p doc =>
    obtain ⟨_, defined, rfl⟩ := map_eq_ok.mp he
    exact define_branched h defined
  | forget name => exact forget_branched h he
  | setNextToken token =>
    obtain rfl := Except.ok.inj he
    exact branched_of_vocabularies rfl

end Requests

structure Outgrown (d d' : Dictionary) : Prop where
  parent : ∀ n parent, d.parent? n = some parent → d'.parent? n = some parent
  chain : ∀ n parent, d.parent? n = some parent → d'.chainOf n = d.chainOf n

namespace Outgrown

theorem refl (d : Dictionary) : d.Outgrown d := ⟨fun _ _ known => known, fun _ _ _ => rfl⟩

theorem trans (h : d.Outgrown d') (h' : d'.Outgrown d'') : d.Outgrown d'' where
  parent n p known := h'.parent n p (h.parent n p known)
  chain n p known := (h'.chain n p (h.parent n p known)).trans (h.chain n p known)

theorem of_branched {r : Request} (h : Branched d d' r) : d.Outgrown d' := by
  cases h with
  | same parents chains => exact ⟨fun n p known => (parents n).trans known, fun n _ _ => chains n⟩
  | @child name _ _ fresh parents chains =>
    have older : ∀ n parent, d.parent? n = some parent → n ≠ name := by
      rintro n parent known rfl
      rw [fresh] at known
      cases known
    refine ⟨fun n p known => ?_, fun n p known => ?_⟩
    · rw [parents, if_neg (older n p known), known]
    · rw [chains, if_neg (older n p known)]

theorem lineage (h : d.Outgrown d') (way : Lineage d start ns) : Lineage d' start ns := by
  induction way with
  | done => exact .done
  | step known _ ih => exact .step (h.parent _ _ known) ih

end Outgrown

/-- A dictionary whose chains are the ways along the parents and end where the first vocabularies
are that have none. -/
structure Descended (d : Dictionary) : Prop where
  ordered : Ordered d
  lineage : ∀ n parent, d.parent? n = some parent → Lineage d (some n) (d.chainOf n)
  founders : ∀ n, d.parent? n = some none → n = rootVocabulary ∨ n = compilerVocabulary

namespace Descended

theorem apply {r : Request} (h : Descended d) (he : r.apply d = .ok d') :
    Descended d' ∧ d.Outgrown d' := by
  have branched := r.apply_branched h.ordered he
  have outgrown := Outgrown.of_branched branched
  refine ⟨⟨h.ordered.apply r he, fun n p known => ?_, fun n founder => ?_⟩, outgrown⟩
  · cases branched with
    | same parents chains =>
      rw [chains]
      rw [parents] at known
      exact outgrown.lineage (h.lineage n p known)
    | @child name parent current fresh parents chains =>
      by_cases new : n = name
      · -- The parent is the current vocabulary, so it is there and has its own way already.
        obtain ⟨_, v, hn, there⟩ := h.ordered.current
        obtain rfl := Option.some.inj (current.symm.trans hn)
        have above := h.lineage parent v.parent (parent?_eq_some.mpr ⟨v, there, rfl⟩)
        rw [chains, if_pos new, new]
        exact .step ((parents name).trans (if_pos rfl)) (outgrown.lineage above)
      · rw [chains, if_neg new]
        rw [parents, if_neg new] at known
        exact outgrown.lineage (h.lineage n p known)
  · cases branched with
    | same parents chains => exact h.founders n ((parents n).symm.trans founder)
    | child current fresh parents chains =>
      rw [parents] at founder
      split at founder
      · cases founder
      · exact h.founders n founder

theorem parent?_empty (firstToken : Token) (n : Text) :
    (empty firstToken).parent? n =
      if n = compilerVocabulary then some none
      else if n = userVocabulary then some (some rootVocabulary)
      else if n = rootVocabulary then some none else none := by
  simp only [parent?, empty, Table.ofList, List.foldl_cons, List.foldl_nil, Table.get?_insert,
    Table.get?_empty]
  split
  · rfl
  split
  · rfl
  split <;> rfl

theorem empty (firstToken : Token) : Descended (Dictionary.empty firstToken) where
  ordered := .empty firstToken
  lineage n p known := by
    have root : Lineage (Dictionary.empty firstToken) (some rootVocabulary) [rootVocabulary] :=
      .step rfl .done
    rw [parent?_empty] at known
    split at known
    next compiler => exact compiler ▸ .step rfl .done
    next =>
    split at known
    next user => exact user ▸ .step rfl root
    next =>
    split at known
    next first => exact first ▸ root
    next => cases known
  founders n founder := by
    rw [parent?_empty] at founder
    split at founder
    next compiler => exact .inr compiler
    next =>
    split at founder
    next => cases founder
    next =>
    split at founder
    next root => exact .inl root
    next => cases founder

theorem performAll (h : Descended d) (rs : List Request) :
    Descended (d.performAll rs) ∧ d.Outgrown (d.performAll rs) := by
  refine performAll_induction (P := fun d' => Descended d' ∧ d.Outgrown d') ⟨h, .refl d⟩ ?_ rs
  intro d' r d'' before he
  have step := before.1.apply he
  exact ⟨step.1, before.2.trans step.2⟩

end Descended

/-- Chains of vocabularies are well founded and fixed. In every history the way from a vocabulary
along the parents ends, in the root or in the compiler's vocabulary, with no vocabulary on it twice;
it is the same way after every continuation of the history; and a search that begins there takes it
and has a result. -/
theorem lineage_fixed (firstToken : Token) (past later : List Request) (n : Text) (v : Vocabulary) :
    let d := (empty firstToken).performAll past
    let d' := d.performAll later
    d.vocabularies.get? n = some v →
      ∃ ns, Lineage d (some n) ns ∧ ns.Nodup ∧ (∀ m ∈ ns, ∃ u, d.vocabularies.get? m = some u) ∧
        (ns.getLast? = some rootVocabulary ∨ ns.getLast? = some compilerVocabulary) ∧
        Lineage d' (some n) ns ∧
        ∃ e, d'.searchIn n = .ok e ∧ e.searchOrder = .ok ns ∧
          ∀ name, ∃ found, e.find? name = .ok found := by
  intro d d' there
  have before := ((Descended.empty firstToken).performAll past).1
  have after := before.performAll later
  have known : d.parent? n = some v.parent := parent?_eq_some.mpr ⟨v, there, rfl⟩
  have way := before.lineage n v.parent known
  obtain ⟨last, ends, founder⟩ := way.founder (by simp)
  obtain ⟨v', there', -⟩ := parent?_eq_some.mp (after.2.parent n v.parent known)
  have searched : d'.searchIn n = .ok { d' with context := some n } :=
    searchIn_eq_ok.mpr ⟨⟨v', there'⟩, rfl⟩
  refine ⟨d.chainOf n, way, way.nodup, fun m member => ?_, ?_, after.2.lineage way, _, searched, ?_,
    (after.1.ordered.searchIn searched).find?_ok⟩
  · obtain ⟨_, parent⟩ := way.known m member
    obtain ⟨u, hu, -⟩ := parent?_eq_some.mp parent
    exact ⟨u, hu⟩
  · rw [ends]
    exact (before.founders last founder).imp (congrArg some) (congrArg some)
  · rw [Ordered.searchOrder_eq rfl]
    exact congrArg Except.ok (after.2.chain n v.parent known)

theorem lineage_fixed_crowded :
    let past : List Request :=
      [.use "user", .addVocabulary "", .defineIn "", .addVocabulary "app"]
    let later : List Request :=
      [.use "compiler", .addVocabulary "app", .addVocabulary "user", .addVocabulary "tools",
        .use "app", .define { name := "x", kind := .atomic }, .forget "x"]
    let d := (empty 1).performAll past
    let v : Vocabulary := { name := "app", parent := some "" }
    d.vocabularies.get? "app" = some v ∧ Lineage d (some "app") ["app", "", "user", "forth"] ∧
      Lineage (d.performAll later) (some "app") ["app", "", "user", "forth"] := by
  intro past later d v
  have there : d.vocabularies.get? "app" = some v := by decide
  have way : Lineage d (some "app") ["app", "", "user", "forth"] :=
    .step rfl (.step rfl (.step rfl (.step rfl .done)))
  obtain ⟨ns, first, -, -, -, same, -⟩ := lineage_fixed 1 past later "app" v there
  obtain rfl := first.unique way
  exact ⟨there, way, same⟩

end Dictionary

end ThreadedCode
