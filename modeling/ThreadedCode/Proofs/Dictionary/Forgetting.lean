import ThreadedCode.Proofs.Dictionary.Coherence

/-!
Forgetting as a cut. It takes the newest word of a name off the chain of the current vocabulary, and
all newer words with it, whatever their names; and it takes them out of the table and the index. The
older words are found again by the names that the newer ones had taken. Nothing else changes, so
forgetting a word undoes the definition of that word and all definitions since.
-/

namespace ThreadedCode

namespace Table

variable {κ α : Type} [DecidableEq κ]

theorem erase_insert_of_fresh {t : Table κ α} {k : κ} (a : α) (fresh : k ∉ t.keys) :
    (t.insert k a).erase k = t := by
  have others : ∀ e ∈ t.entries, decide (e.1 ≠ k) = true := by
    intro e he
    exact decide_eq_true fun hk => fresh (hk ▸ List.mem_map_of_mem he)
  rw [erase, entries_insert_of_fresh a fresh, List.filter_append, List.filter_eq_self.mpr others]
  simp

theorem set_insert (t : Table κ α) (k : κ) (a : α) : (t.insert k a).set k (t.get? k) = t := by
  cases h : t.get? k with
  | none => exact erase_insert_of_fresh a ((get?_eq_none_iff t k).mp h)
  | some b => rw [set, insert_insert, insert_of_get? h]

end Table

namespace Dictionary

variable {d e : Dictionary} {n name : Text} {v x : Vocabulary} {w : Word} {target : Token}

theorem Holds.newest_eq {ws : List Word} (h : Holds v ws) :
    v.newest = ws.head?.map (·.token) := by
  cases ws with
  | nil => exact h.linked
  | cons w ws => exact h.linked.1

/-- The words `gone` were cut off the chain of the vocabulary `n`, down to the words `older`. -/
structure Cut (d d' : Dictionary) (n : Text) (gone older : List Word) : Prop where
  words : d'.words.entries = d.words.entries.filter fun e => e.1 ∉ gone.map (·.token)
  chain : ∃ v v', d.vocabularies.get? n = some v ∧ d'.vocabularies.get? n = some v' ∧
    v'.parent = v.parent ∧ v'.newest = older.head?.map (·.token) ∧ Chained d' n v' older
  others : ∀ m, m ≠ n → d'.vocabularies.get? m = d.vocabularies.get? m
  context : d'.context = d.context
  current : d'.current = d.current
  nextToken : d'.nextToken = d.nextToken

theorem firstNamed_eq_none_iff {ws : List Word} :
    firstNamed name ws = none ↔ ∀ w ∈ ws, w.name ≠ name := by
  simp [firstNamed]

theorem Ordered.forget_cut (h : Ordered d) (hn : d.current = some n)
    (hv : d.vocabularies.get? n = some v) (name : Text) :
    (∀ x ∈ d.held n, x.name ≠ name) ∧ d.forget name = .ok d ∨
      ∃ newer w older d', d.held n = newer ++ w :: older ∧ w.name = name ∧
        (∀ x ∈ newer, x.name ≠ name) ∧ d.forget name = .ok d' ∧
        Cut d d' n (newer ++ [w]) older := by
  rcases h.forget_eq hn hv name with ⟨none, same⟩ |
    ⟨newer, w, older, v', chain, named, first, vname, parent, holds, done⟩
  · exact .inl ⟨firstNamed_eq_none_iff.mp none, same⟩
  · refine .inr ⟨newer, w, older, _, chain, named, first, done, ?_⟩
    have ordered := h.cut chain vname holds
    have there : (d.vocabularies.insert n v').get? n = some v' := by
      rw [Table.get?_insert, if_pos rfl]
    have rest := ordered.chained there
    rw [h.held_cut chain, if_pos rfl] at rest
    exact
      { words := entries_without d.words (newer ++ [w])
        chain := ⟨v, v', hv, there, parent, holds.newest_eq, rest⟩
        others := fun m hm => by rw [Table.get?_insert, if_neg hm]
        context := rfl
        current := rfl
        nextToken := rfl }

def topped (v : Vocabulary) (w : Word) : Vocabulary :=
  { v with newest := some w.token, index := v.index.insert w.name w.token }

theorem removeTop_addWord (d : Dictionary) (v : Vocabulary) (definition : Definition)
    (words : e.words = (d.addWord v definition).2.words) :
    e.removeTop (topped v (d.addWord v definition).1) (d.addWord v definition).1.token
      (d.addWord v definition).1 = ({ e with words := d.words }, v) := by
  have table : e.words.erase (d.addWord v definition).1.token = d.words := by
    rw [words]
    exact Table.erase_insert_of_fresh _ (freshToken_not_mem d)
  have index : (topped v (d.addWord v definition).1).index.set (d.addWord v definition).1.name
      (d.addWord v definition).1.shadowed = v.index :=
    Table.set_insert v.index definition.name d.freshToken
  rw [removeTop, table, index]
  rfl

theorem wordAt_addWord (d : Dictionary) (v : Vocabulary) (definition : Definition)
    (words : e.words = (d.addWord v definition).2.words) :
    e.wordAt (d.addWord v definition).1.token = .ok (d.addWord v definition).1 := by
  refine wordAt_eq_ok.mpr ?_
  rw [words]
  exact (Table.get?_insert _ _ _ _).trans (if_pos rfl)

theorem cutDown_addWord (d : Dictionary) (v : Vocabulary) (definition : Definition) (rounds : Nat)
    (words : e.words = (d.addWord v definition).2.words) :
    cutDown target (rounds + 1) e (topped v (d.addWord v definition).1) =
      if (d.addWord v definition).1.token = target then .ok ({ e with words := d.words }, v)
      else cutDown target rounds { e with words := d.words } v := by
  have found := wordAt_addWord d v definition words
  have removed := removeTop_addWord d v definition words
  simp only [cutDown, topped] at removed ⊢
  simp only [found, bind, Except.bind, removed]

/-- The words put on a vocabulary since the dictionary was `d`, the first of them named `name`: they
are cut off again in as many rounds. -/
structure Stacked (d : Dictionary) (v : Vocabulary) (name : Text) (target : Token) (count : Nat)
    (e : Dictionary) (x : Vocabulary) : Prop where
  vocabularies : e.vocabularies = d.vocabularies.insert v.name x
  context : e.context = d.context
  current : e.current = d.current
  named : x.name = v.name
  indexed : x.index.get? name = some target
  taken : target ∈ e.words.keys
  count_le : count ≤ e.words.keys.length
  cut : ∀ (rounds : Nat) (e' : Dictionary), count ≤ rounds → e'.words = e.words →
    cutDown target rounds e' x = .ok ({ e' with words := d.words }, v)

theorem keys_addWord (d : Dictionary) (v : Vocabulary) (definition : Definition) :
    (d.addWord v definition).2.words.keys =
      d.words.keys ++ [(d.addWord v definition).1.token] := by
  rw [Table.keys, Ordered.entries_addWord, List.map_append]
  rfl

theorem Stacked.first (d : Dictionary) (v : Vocabulary) (definition : Definition) :
    Stacked d v definition.name (d.addWord v definition).1.token 1 (d.addWord v definition).2
      (topped v (d.addWord v definition).1) where
  vocabularies := rfl
  context := rfl
  current := rfl
  named := rfl
  indexed := (Table.get?_insert _ _ _ _).trans (if_pos rfl)
  taken := by simp [keys_addWord]
  count_le := by simp [keys_addWord]
  cut rounds e' enough words := by
    obtain ⟨rounds, rfl⟩ := Nat.exists_eq_add_of_le' enough
    rw [cutDown_addWord d v definition rounds words, if_pos rfl]

theorem Stacked.next {count : Nat} (h : Stacked d v name target count e x)
    {definition : Definition} (other : definition.name ≠ name) :
    Stacked d v name target (count + 1) (e.addWord x definition).2
      (topped x (e.addWord x definition).1) where
  vocabularies := by
    have written : (e.addWord x definition).2.vocabularies =
        e.vocabularies.insert x.name (topped x (e.addWord x definition).1) := rfl
    rw [written, h.vocabularies, h.named, Table.insert_insert]
  context := h.context
  current := h.current
  named := h.named
  indexed := (Table.get?_insert _ _ _ _).trans ((if_neg (Ne.symm other)).trans h.indexed)
  taken := by simp [keys_addWord, h.taken]
  count_le := by simpa [keys_addWord] using h.count_le
  cut rounds e' enough words := by
    obtain ⟨rounds, rfl⟩ := Nat.exists_eq_add_of_le' (Nat.le_of_add_left_le enough)
    have apart : (e.addWord x definition).1.token ≠ target := by
      rintro rfl
      exact freshToken_not_mem e h.taken
    rw [cutDown_addWord e x definition rounds words, if_neg apart]
    exact h.cut rounds { e' with words := e.words } (Nat.le_of_add_le_add_right enough) rfl

theorem perform_define (hn : d.current = some n) (hv : d.vocabularies.get? n = some v)
    (definition : Definition) : d.perform (.define definition) = (d.addWord v definition).2 := by
  have defined : d.define definition = .ok (d.addWord v definition) :=
    define_eq_ok.mpr ⟨n, v, hn, hv, rfl⟩
  simp only [perform, Request.apply, defined, Except.map, Except.toOption, Option.getD_some]

theorem Stacked.performAll {count : Nat} (h : Stacked d v name target count e x)
    (hn : d.current = some v.name) (definitions : List Definition)
    (others : ∀ definition ∈ definitions, definition.name ≠ name) :
    ∃ count x, Stacked d v name target count (e.performAll (definitions.map .define)) x := by
  induction definitions generalizing count e x with
  | nil => exact ⟨count, x, h⟩
  | cons definition definitions ih =>
    have there : e.vocabularies.get? v.name = some x := by
      rw [h.vocabularies, Table.get?_insert, if_pos rfl]
    have step := h.next (others definition List.mem_cons_self)
    rw [← perform_define (h.current.trans hn) there] at step
    exact ih step fun y hy => others y (List.mem_cons_of_mem definition hy)

/-- Forgetting undoes all definitions since the word was not yet there. -/
theorem Stacked.forget {count : Nat} (h : Stacked d v name target count e x)
    (hn : d.current = some v.name) (hv : d.vocabularies.get? v.name = some v) :
    e.forget name = .ok { d with nextToken := e.nextToken } := by
  have there : e.vocabularies.get? v.name = some x := by
    rw [h.vocabularies, Table.get?_insert, if_pos rfl]
  have cut := h.cut (e.words.keys.length + 1) e (Nat.le_succ_of_le h.count_le) rfl
  have before : e.vocabularies.insert v.name v = d.vocabularies := by
    rw [h.vocabularies, Table.insert_insert, Table.insert_of_get? hv]
  rw [Ordered.forget_of_indexed (h.current.trans hn) there h.indexed, cut, Except.bind]
  simp only [before, h.context, h.current]

/-- Forgetting cuts off exactly the newest part of a chain. In every history, where the current
vocabulary has no word of the name, nothing changes, whatever other vocabularies have. Otherwise the
newest word of that name goes and all newer words of the vocabulary go; the older ones are its whole
chain then, and its index has the newest of each name among them. So a word that is defined and
forgotten again, with words of other names defined on top of it in between, leaves the dictionary as
it was but for the counter. -/
theorem forget_cuts (firstToken : Token) (rs : List Request) (name : Text) :
    let d := (empty firstToken).performAll rs
    ∃ n v ws, d.current = some n ∧ d.vocabularies.get? n = some v ∧ Chained d n v ws ∧
      ((∀ x ∈ ws, x.name ≠ name) ∧ d.forget name = .ok d ∨
        ∃ newer w older d', ws = newer ++ w :: older ∧ w.name = name ∧
          (∀ x ∈ newer, x.name ≠ name) ∧ d.forget name = .ok d' ∧
          Cut d d' n (newer ++ [w]) older) ∧
      ∀ (definition : Definition) (definitions : List Definition), definition.name = name →
        (∀ other ∈ definitions, other.name ≠ name) →
        let e := d.performAll ((definition :: definitions).map .define)
        e.forget name = .ok { d with nextToken := e.nextToken } := by
  intro d
  have h : Ordered d := .performAll firstToken rs
  obtain ⟨n, v, hn, hv⟩ := h.current
  refine ⟨n, v, d.held n, hn, hv, h.chained hv, h.forget_cut hn hv name, ?_⟩
  rintro definition definitions rfl others
  obtain rfl := h.name_eq hv
  have first := Stacked.first d v definition
  rw [← perform_define hn hv definition] at first
  obtain ⟨count, x, stacked⟩ := first.performAll hn definitions others
  exact stacked.forget hn hv

/-- Words of one name in two vocabularies; above them a word is defined and then others, of that name
among them, and all that is forgotten. -/
theorem forget_cuts_homonyms :
    let word (name : Text) : Definition := { name, kind := .atomic }
    let rs : List Request :=
      [.define (word "x"), .use "user", .define (word "y"), .define (word "x"), .setNextToken 1]
    let d := (empty 1).performAll rs
    let e := d.performAll ((word "a" :: [word "x", word "b", word "x"]).map .define)
    (∀ other ∈ [word "x", word "b", word "x"], other.name ≠ "a") ∧ e.nextToken = 8 ∧
      e.indexed? "user" "x" = some 7 ∧ e.forget "a" = .ok { d with nextToken := e.nextToken } ∧
      d.indexed? "user" "x" = some 3 := by
  intro word rs d e
  have others : ∀ other ∈ [word "x", word "b", word "x"], other.name ≠ "a" := by decide
  obtain ⟨_, _, _, _, _, _, _, undone⟩ := forget_cuts 1 rs "a"
  exact ⟨others, by decide, by decide, undone (word "a") _ rfl others, by decide⟩

end Dictionary

end ThreadedCode
