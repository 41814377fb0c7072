import Mathlib.Logic.ExistsUnique
import ThreadedCode.Proofs.Dictionary.Ordered

/-!
The three structures of a dictionary agree after every history: the table of words, the chains from
the tops of the vocabularies along the links to older words, and the indexes with the links to
shadowed words. So no link and no index entry ever leads to a word that is not in the table, the
operations that follow them always have a result, and a search or a listing gives what is on the
chains.
-/

namespace ThreadedCode.Dictionary

/-- The chain of the vocabulary `v` with the name `n`, and what is stored about it. -/
structure Chained (d : Dictionary) (n : Text) (v : Vocabulary) (ws : List Word) : Prop where
  walk : Walk d.words v.newest ws
  chainWords : d.chainWords v = .ok ws
  nodup : (ws.map (·.token)).Nodup
  vocabulary : ∀ w ∈ ws, w.vocabulary = n
  index : ∀ name, v.index.get? name = firstNamed name ws
  shadowed : ∀ newer w older, ws = newer ++ w :: older → w.shadowed = firstNamed w.name older

structure Coherent (d : Dictionary) : Prop where
  token_eq : ∀ token w, d.words.get? token = some w → w.token = token
  chained : ∀ n v, d.vocabularies.get? n = some v → ∃ ws, Chained d n v ws
  onOneChain : ∀ token w, d.words.get? token = some w →
    ∃! n, ∃ v ws, d.vocabularies.get? n = some v ∧ Walk d.words v.newest ws ∧ w ∈ ws

theorem Walk.unique {words : Table Token Word} {start : Option Token} {ws ws' : List Word}
    (h : Walk words start ws) (h' : Walk words start ws') : ws = ws' := by
  induction h generalizing ws' with
  | done =>
    cases h'
    rfl
  | step hw _ ih =>
    cases h' with
    | step hw' h' =>
      obtain rfl := Option.some.inj (hw.symm.trans hw')
      rw [ih h']

theorem mapM_eq_ok {α β : Type} {f : α → Except Fault β} {g : α → β} {xs : List α}
    (h : ∀ x ∈ xs, f x = .ok (g x)) : xs.mapM f = .ok (xs.map g) := by
  induction xs with
  | nil => rfl
  | cons x xs ih =>
    rw [List.mapM_cons, h x List.mem_cons_self, ih fun z hz => h z (List.mem_cons_of_mem x hz)]
    rfl

theorem mem_of_mem_ancestry {n : Text} {vs : List Vocabulary} {start : Option Text}
    (h : n ∈ ancestry vs start) : ∃ v ∈ vs, v.name = n := by
  induction vs generalizing start with
  | nil => cases start <;> exact absurd h List.not_mem_nil
  | cons v vs ih =>
    cases start with
    | none => exact absurd h List.not_mem_nil
    | some name =>
      rw [ancestry] at h
      split at h
      next hv =>
        rcases List.mem_cons.mp h with rfl | h
        · exact ⟨v, List.mem_cons_self, hv⟩
        · obtain ⟨x, hx, hn⟩ := ih h
          exact ⟨x, List.mem_cons_of_mem v hx, hn⟩
      next =>
        obtain ⟨x, hx, hn⟩ := ih h
        exact ⟨x, List.mem_cons_of_mem v hx, hn⟩

namespace Ordered

variable {d : Dictionary} {n c : Text} {v : Vocabulary}

theorem chained (h : Ordered d) (hv : d.vocabularies.get? n = some v) :
    Chained d n v (d.held n) where
  walk := (h.holds hv).linked.walk fun _ hw => h.live hw
  chainWords := wordsFrom_filter _ h.nodup_reverse (h.holds hv).linked
  nodup := h.nodup_held n
  vocabulary _ hw := (mem_held.mp hw).2
  index := (h.holds hv).index
  shadowed _ _ _ hs := Linked.shadowed_eq (hs ▸ (h.holds hv).linked)

theorem coherent (h : Ordered d) : Coherent d where
  token_eq _ _ hw := (h.get?_eq_some.mp hw).2
  chained n _ hv := ⟨d.held n, h.chained hv⟩
  onOneChain token w hw := by
    have hm := (h.get?_eq_some.mp hw).1
    obtain ⟨v, hv⟩ := h.home w hm
    refine ⟨w.vocabulary, ⟨v, _, hv, (h.chained hv).walk, mem_held.mpr ⟨hm, rfl⟩⟩, ?_⟩
    rintro n ⟨x, ws, hx, walk, hws⟩
    obtain rfl := (h.chained hx).walk.unique walk
    exact (mem_held.mp hws).2.symm

theorem get?_of_mem_ancestry (h : Ordered d) {start : Option Text}
    (hn : n ∈ ancestry d.vocabularies.values.reverse start) :
    ∃ v, d.vocabularies.get? n = some v := by
  obtain ⟨v, hv, rfl⟩ := mem_of_mem_ancestry hn
  obtain ⟨e, he, rfl⟩ := List.mem_map.mp (List.mem_reverse.mp hv)
  have hk := (Table.get?_eq_some_iff h.names_nodup e.1 e.2).mpr he
  exact ⟨e.2, by rw [h.name_eq hk, hk]⟩

theorem searchOrder_eq (hc : d.context = some c) : d.searchOrder = .ok (d.chainOf c) := by
  rw [searchOrder, contextVocabulary_eq_ok.mpr hc]
  rfl

theorem wordsOf_eq (h : Ordered d) (hc : d.context = some c)
    (known : n = [] ∨ ∃ v, d.vocabularies.get? n = some v) :
    d.wordsOf n = .ok (d.held (if n = [] then c else n)) := by
  have named : ∀ m v, d.vocabularies.get? m = some v →
      (d.vocabulary m >>= d.chainWords) = .ok (d.held m) := by
    intro m v hv
    rw [vocabulary_eq_ok.mpr hv]
    exact (h.chained hv).chainWords
  rw [wordsOf]
  by_cases unnamed : n = []
  · obtain ⟨c', v, hc', hv⟩ := h.context
    obtain rfl := Option.some.inj (hc.symm.trans hc')
    rw [if_pos unnamed, if_pos unnamed, contextVocabulary_eq_ok.mpr hc]
    exact named c v hv
  · obtain ⟨v, hv⟩ := known.resolve_left unnamed
    rw [if_neg unnamed, if_neg unnamed]
    exact named n v hv

theorem wordsInScope_eq (h : Ordered d) (hc : d.context = some c) :
    d.wordsInScope =
      .ok (firstOfEachName []
        ((d.chainOf c).map fun n => d.held (if n = [] then c else n)).flatten) := by
  have chains : (d.chainOf c).mapM d.wordsOf =
      .ok ((d.chainOf c).map fun n => d.held (if n = [] then c else n)) :=
    mapM_eq_ok fun n hn => h.wordsOf_eq hc (.inr (h.get?_of_mem_ancestry hn))
  rw [wordsInScope, searchOrder_eq hc]
  simp only [bind, Except.bind, chains]

theorem findSome?_indexed (h : Ordered d) (name : Text) {ns : List Text}
    (known : ∀ n ∈ ns, ∃ v, d.vocabularies.get? n = some v) :
    (ns.findSome? fun n => d.indexed? n name) = firstNamed name (ns.map d.held).flatten := by
  induction ns with
  | nil => rfl
  | cons n ns ih =>
    obtain ⟨v, hv⟩ := known n List.mem_cons_self
    have index : d.indexed? n name = firstNamed name (d.held n) := by
      rw [indexed?, hv, Option.bind_some, (h.holds hv).index]
    have rest := ih fun m hm => known m (List.mem_cons_of_mem n hm)
    simp only [List.findSome?_cons, index, rest, List.map_cons, List.flatten_cons, firstNamed,
      List.find?_append]
    cases (d.held n).find? fun w => w.name = name <;> rfl

theorem find?_eq (h : Ordered d) (hc : d.context = some c) (name : Text) :
    d.find? name = .ok (((d.chainOf c).map d.held).flatten.find? fun w => w.name = name) := by
  have known : ∀ n ∈ d.chainOf c, ∃ v, d.vocabularies.get? n = some v :=
    fun n hn => h.get?_of_mem_ancestry hn
  rw [find?, searchOrder_eq hc]
  simp only [bind, Except.bind, h.findSome?_indexed name known, firstNamed]
  cases found : ((d.chainOf c).map d.held).flatten.find? fun w => w.name = name with
  | none => rfl
  | some w =>
    obtain ⟨ws, hws, member⟩ := List.mem_flatten.mp (List.mem_of_find?_eq_some found)
    obtain ⟨n, -, rfl⟩ := List.mem_map.mp hws
    simp only [Option.map_some, wordAt_eq_ok.mpr (h.live member), Except.map]

theorem find?_ok (h : Ordered d) (name : Text) : ∃ found, d.find? name = .ok found := by
  obtain ⟨c, _, hc, -⟩ := h.context
  exact ⟨_, h.find?_eq hc name⟩

theorem wordsOf_ok (h : Ordered d) (known : n = [] ∨ ∃ v, d.vocabularies.get? n = some v) :
    ∃ ws, d.wordsOf n = .ok ws := by
  obtain ⟨c, _, hc, -⟩ := h.context
  exact ⟨_, h.wordsOf_eq hc known⟩

theorem wordsInScope_ok (h : Ordered d) : ∃ ws, d.wordsInScope = .ok ws := by
  obtain ⟨c, _, hc, -⟩ := h.context
  exact ⟨_, h.wordsInScope_eq hc⟩

theorem forget_ok (h : Ordered d) (name : Text) : ∃ d', d.forget name = .ok d' := by
  obtain ⟨n, v, hn, hv⟩ := h.current
  obtain ⟨-, he⟩ | ⟨_, _, _, _, _, _, _, _, _, _, he⟩ := h.forget_eq hn hv name
  · exact ⟨_, he⟩
  · exact ⟨_, he⟩

end Ordered

theorem performAll_coherent (firstToken : Token) (rs : List Request) :
    let d := (empty firstToken).performAll rs
    d.Coherent ∧
      (∀ name, ∃ found, d.find? name = .ok found) ∧
      (∀ n, n = [] ∨ (∃ v, d.vocabularies.get? n = some v) → ∃ ws, d.wordsOf n = .ok ws) ∧
      (∃ ws, d.wordsInScope = .ok ws) ∧
      ∀ name, ∃ d', d.forget name = .ok d' := by
  have h := Ordered.performAll firstToken rs
  exact ⟨h.coherent, h.find?_ok, fun _ => h.wordsOf_ok, h.wordsInScope_ok, h.forget_ok⟩

end ThreadedCode.Dictionary
