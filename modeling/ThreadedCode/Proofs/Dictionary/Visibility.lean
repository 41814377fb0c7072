import ThreadedCode.Proofs.Dictionary.Coherence

/-!
Words in scope. A search goes by the indexes of the vocabularies and a listing by their chains, and
they agree: a name denotes the word of that name in the listing, which has one word for each name
found on the chains. The listing asks for each vocabulary by name, though, and takes the name without
letters for the vocabulary where the search begins; a vocabulary of that name is left out of it if it
is a parent.
-/

namespace ThreadedCode.Dictionary

section Listing

variable {seen : List Text} {ws : List Word} {w x : Word}

theorem mem_firstOfEachName :
    w ∈ firstOfEachName seen ws ↔
      w.name ∉ seen ∧ (ws.find? fun x => x.name = w.name) = some w := by
  induction ws generalizing seen with
  | nil => simp [firstOfEachName]
  | cons x rest ih =>
    by_cases named : x.name = w.name
    · by_cases known : x.name ∈ seen
      · simp [firstOfEachName, known, ih, ← named]
      · simp [firstOfEachName, known, ih, ← named, eq_comm]
    · have other : w ≠ x := fun same => named (same ▸ rfl)
      by_cases known : x.name ∈ seen
      · simp [firstOfEachName, known, ih, named]
      · simp [firstOfEachName, known, ih, named, other, Ne.symm named]

theorem nodup_firstOfEachName (seen : List Text) (ws : List Word) :
    ((firstOfEachName seen ws).map (·.name)).Nodup := by
  induction ws generalizing seen with
  | nil => exact List.nodup_nil
  | cons x rest ih =>
    rw [firstOfEachName]
    split
    · exact ih seen
    · refine List.nodup_cons.mpr ⟨fun again => ?_, ih _⟩
      obtain ⟨w, listed, same⟩ := List.mem_map.mp again
      exact (mem_firstOfEachName.mp listed).1 (same ▸ List.mem_cons_self)

theorem exists_mem_firstOfEachName (member : x ∈ ws) :
    ∃ w ∈ firstOfEachName [] ws, w.name = x.name := by
  cases found : ws.find? fun w => w.name = x.name with
  | none =>
    have unnamed := List.find?_eq_none.mp found x member
    exact absurd rfl (of_decide_eq_false (Bool.eq_false_iff.mpr unnamed))
  | some w =>
    have named : w.name = x.name := by simpa using List.find?_some found
    exact ⟨w, mem_firstOfEachName.mpr ⟨List.not_mem_nil, named ▸ found⟩, named⟩

end Listing

theorem ancestry_of_mem {n : Text} {v : Vocabulary} {vs : List Vocabulary} (member : v ∈ vs)
    (named : v.name = n) : ∃ parents, ancestry vs (some n) = n :: parents := by
  induction vs with
  | nil => cases member
  | cons x vs ih =>
    rw [ancestry]
    by_cases hx : x.name = n
    · exact ⟨_, if_pos hx⟩
    · rw [if_neg hx]
      rcases List.mem_cons.mp member with rfl | later
      · exact absurd named hx
      · exact ih later

theorem Ordered.chainOf_eq_cons {d : Dictionary} {c : Text} {v : Vocabulary} (h : Ordered d)
    (hv : d.vocabularies.get? c = some v) : ∃ parents, d.chainOf c = c :: parents := by
  have entry : (c, v) ∈ d.vocabularies.entries := Table.mem_entries_of_get? hv
  exact ancestry_of_mem (List.mem_reverse.mpr (List.mem_map_of_mem entry)) (h.name_eq hv)

/-- Searching and listing agree. In every history the words in scope have different names. If no
vocabulary with an empty name lies beyond the first on the way of a search, then a name denotes
exactly the word of that name among them, and every word on the chain of a vocabulary on that way has
the name of one of them. -/
theorem find?_iff_in_scope (firstToken : Token) (rs : List Request) :
    let d := (empty firstToken).performAll rs
    ∃ chain listed, d.searchOrder = .ok chain ∧ d.wordsInScope = .ok listed ∧
      (listed.map (·.name)).Nodup ∧
      ([] ∉ chain.tail →
        (∀ name, ∃ found, d.find? name = .ok found ∧
          ∀ w, found = some w ↔ w ∈ listed ∧ w.name = name) ∧
        ∀ n ∈ chain, ∃ v ws, d.vocabularies.get? n = some v ∧ Chained d n v ws ∧
          ∀ x ∈ ws, ∃ w ∈ listed, w.name = x.name) := by
  intro d
  have h : Ordered d := .performAll firstToken rs
  obtain ⟨c, v, hc, hv⟩ := h.context
  refine ⟨_, _, Ordered.searchOrder_eq hc, h.wordsInScope_eq hc, nodup_firstOfEachName _ _, ?_⟩
  intro named
  obtain ⟨parents, chain⟩ := h.chainOf_eq_cons hv
  have all : ((d.chainOf c).map fun n => d.held (if n = [] then c else n)) =
      (d.chainOf c).map d.held := by
    refine List.map_congr_left fun n hn => ?_
    by_cases unnamed : n = []
    · rw [chain] at hn named
      rcases List.mem_cons.mp hn with rfl | parent
      · rw [ite_self]
      · exact absurd (unnamed ▸ parent) named
    · rw [if_neg unnamed]
  rw [all]
  refine ⟨fun name => ⟨_, h.find?_eq hc name, fun w => ⟨fun found => ?_, ?_⟩⟩, fun n hn => ?_⟩
  · have hw : w.name = name := by simpa using List.find?_some found
    exact ⟨mem_firstOfEachName.mpr ⟨List.not_mem_nil, hw ▸ found⟩, hw⟩
  · rintro ⟨listed, rfl⟩
    exact (mem_firstOfEachName.mp listed).2
  · obtain ⟨x, hx⟩ := h.get?_of_mem_ancestry hn
    refine ⟨x, d.held n, hx, h.chained hx, fun u hu => ?_⟩
    exact exists_mem_firstOfEachName
      (List.mem_flatten.mpr ⟨d.held n, List.mem_map_of_mem hn, hu⟩)

theorem find?_iff_in_scope_shadowed :
    let word (name : Text) : Definition := { name, kind := .atomic }
    let rs : List Request :=
      [.define (word "x"), .define (word "y"), .use "user", .define (word "x"), .addVocabulary "",
        .use "", .define (word "y"), .define (word "z"), .define (word "x"), .forget "z"]
    let d := (empty 1).performAll rs
    d.searchOrder = .ok ["", "user", "forth"] ∧ ([] : Text) ∉ [("user" : Text), "forth"] ∧
      ∃ listed, d.wordsInScope = .ok listed ∧ listed.map (·.token) = [4, 3] ∧
        ∀ name, ∃ found, d.find? name = .ok found ∧
          ∀ w, found = some w ↔ w ∈ listed ∧ w.name = name := by
  intro word rs d
  have order : d.searchOrder = .ok ["", "user", "forth"] := by
    rw [Ordered.searchOrder_eq (c := "") (by decide)]
    exact congrArg Except.ok (by decide)
  have named : ([] : Text) ∉ [("user" : Text), "forth"] := by decide
  obtain ⟨chain, listed, order', scope, -, agree⟩ := find?_iff_in_scope 1 rs
  obtain rfl := Except.ok.inj (order.symm.trans order')
  have tokens : d.wordsInScope.toOption.map (·.map (·.token)) = some [4, 3] := by decide
  rw [scope] at tokens
  exact ⟨order, named, listed, scope, Option.some.inj tokens, (agree named).1⟩

/-- A word of a parent with an empty name is found, but the listing has no word at all. -/
theorem find?_unlisted :
    let rs : List Request :=
      [.addVocabulary "", .use "", .define { name := "x", kind := .atomic }, .addVocabulary "app",
        .searchIn "app"]
    let d := (empty 1).performAll rs
    d.searchOrder = .ok ["app", "", "forth"] ∧ d.wordsInScope = .ok [] ∧
      (d.find? "x").map (·.map (·.token)) = .ok (some 1) := by
  intro rs d
  exact ⟨rfl, rfl, rfl⟩

end ThreadedCode.Dictionary
