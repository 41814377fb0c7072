import ThreadedCode.Proofs.Dictionary.History
import ThreadedCode.Proofs.Dictionary.Stack

/-!
What every history of a dictionary keeps. The table of words holds the stacks of all vocabularies,
one through the other but each in its order, the latest word first. A definition puts a word on one
of these stacks, and forgetting cuts one of them; the others keep their words.
-/

namespace ThreadedCode.Dictionary

theorem firstFree_spec (bound : Nat) (taken : List Int) (t : Int)
    (enough : taken.length ≤ bound) :
    firstFree bound taken t ∉ taken ∧ t ≤ firstFree bound taken t := by
  -- each try that fails takes a token out of the list
  induction bound generalizing taken t with
  | zero =>
    obtain rfl : taken = [] := List.eq_nil_of_length_eq_zero (by omega)
    simp [firstFree]
  | succ bound ih =>
    rw [firstFree]
    by_cases ht : t ∈ taken
    · have hlen := List.length_erase_of_mem ht
      obtain ⟨free, le⟩ := ih (taken.erase t) (t + 1) (by omega)
      rw [if_pos ht]
      have hne : firstFree bound (taken.erase t) (t + 1) ≠ t := by
        intro heq
        rw [heq] at le
        omega
      exact ⟨fun hm => free ((List.mem_erase_of_ne hne).mpr hm), by omega⟩
    · rw [if_neg ht]
      exact ⟨ht, Int.le_refl t⟩

theorem freshToken_not_mem (d : Dictionary) : d.freshToken ∉ d.words.keys :=
  (firstFree_spec _ _ d.nextToken (Nat.le_refl _)).1

theorem le_freshToken (d : Dictionary) : d.nextToken ≤ d.freshToken :=
  (firstFree_spec _ _ d.nextToken (Nat.le_refl _)).2

def held (d : Dictionary) (name : Text) : List Word :=
  d.words.values.reverse.filter fun w => w.vocabulary = name

theorem mem_held {d : Dictionary} {name : Text} {w : Word} :
    w ∈ d.held name ↔ w ∈ d.words.values ∧ w.vocabulary = name := by
  simp [held]

/-- The table of words holds the stack of each vocabulary in order; names and tokens are keys of
their own, and both the search and the definitions have a vocabulary. -/
structure Ordered (d : Dictionary) : Prop where
  token_eq : ∀ e ∈ d.words.entries, e.2.token = e.1
  nodup : d.words.keys.Nodup
  names_nodup : d.vocabularies.keys.Nodup
  name_eq : ∀ {n v}, d.vocabularies.get? n = some v → v.name = n
  home : ∀ w ∈ d.words.values, ∃ v, d.vocabularies.get? w.vocabulary = some v
  holds : ∀ {n v}, d.vocabularies.get? n = some v → Holds v (d.held n)
  context : ∃ n v, d.context = some n ∧ d.vocabularies.get? n = some v
  current : ∃ n v, d.current = some n ∧ d.vocabularies.get? n = some v

namespace Ordered

variable {d d' : Dictionary} {name : Text} {v : Vocabulary} {w : Word}

theorem map_token (h : Ordered d) : d.words.values.map (·.token) = d.words.keys := by
  rw [Table.values, Table.keys, List.map_map]
  exact List.map_congr_left h.token_eq

theorem nodup_reverse (h : Ordered d) : (d.words.values.reverse.map (·.token)).Nodup := by
  rw [((List.reverse_perm _).map _).nodup_iff, h.map_token]
  exact h.nodup

theorem nodup_held (h : Ordered d) (name : Text) : ((d.held name).map (·.token)).Nodup :=
  h.nodup_reverse.sublist (List.filter_sublist.map _)

theorem get?_eq_some (h : Ordered d) {token : Token} :
    d.words.get? token = some w ↔ w ∈ d.words.values ∧ w.token = token := by
  rw [Table.get?_eq_some_iff h.nodup, Table.values, List.mem_map]
  constructor
  · intro he
    exact ⟨⟨_, he, rfl⟩, h.token_eq _ he⟩
  · rintro ⟨⟨e, he, rfl⟩, ht⟩
    rw [← ht, h.token_eq e he]
    exact he

theorem live (h : Ordered d) (hw : w ∈ d.held name) : d.words.get? w.token = some w :=
  h.get?_eq_some.mpr ⟨(mem_held.mp hw).1, rfl⟩

theorem of_pointers (h : Ordered d) (hw : d'.words = d.words)
    (hv : d'.vocabularies = d.vocabularies)
    (context : ∃ n v, d'.context = some n ∧ d.vocabularies.get? n = some v)
    (current : ∃ n v, d'.current = some n ∧ d.vocabularies.get? n = some v) : Ordered d' where
  token_eq := hw ▸ h.token_eq
  nodup := hw ▸ h.nodup
  names_nodup := hv ▸ h.names_nodup
  name_eq he := h.name_eq (hv ▸ he)
  home := by
    rw [hw, hv]
    exact h.home
  holds {n v} he := by
    have hn : d'.held n = d.held n := by rw [held, hw, held]
    rw [hn]
    exact h.holds (hv ▸ he)
  context := hv ▸ context
  current := hv ▸ current

theorem get?_insert_vocabulary {table : Table Text Vocabulary} {n m : Text} {v x : Vocabulary}
    (h : (table.insert n v).get? m = some x) :
    m = n ∧ x = v ∨ m ≠ n ∧ table.get? m = some x := by
  rw [Table.get?_insert] at h
  by_cases hm : m = n
  · rw [if_pos hm] at h
    exact .inl ⟨hm, (Option.some.inj h).symm⟩
  · rw [if_neg hm] at h
    exact .inr ⟨hm, h⟩

theorem get?_insert_of_some {table : Table Text Vocabulary} {n m : Text} {v x : Vocabulary}
    (h : table.get? m = some x) : ∃ x, (table.insert n v).get? m = some x := by
  rw [Table.get?_insert]
  by_cases hm : m = n
  · exact ⟨v, if_pos hm⟩
  · exact ⟨x, by rw [if_neg hm, h]⟩

theorem exists_get?_insert {table : Table Text Vocabulary} {pointer : Option Text} (n : Text)
    (v : Vocabulary) (h : ∃ m x, pointer = some m ∧ table.get? m = some x) :
    ∃ m x, pointer = some m ∧ (table.insert n v).get? m = some x := by
  obtain ⟨m, x, hm, hx⟩ := h
  obtain ⟨y, hy⟩ := get?_insert_of_some (n := n) (v := v) hx
  exact ⟨m, y, hm, hy⟩

theorem held_eq_nil (h : Ordered d) (unknown : d.vocabularies.get? name = none) :
    d.held name = [] := by
  refine List.eq_nil_iff_forall_not_mem.mpr fun w hw => ?_
  obtain ⟨hm, hn⟩ := mem_held.mp hw
  obtain ⟨v, hv⟩ := h.home w hm
  rw [hn, unknown] at hv
  exact absurd hv (by simp)

theorem addVocabulary (h : Ordered d) (he : d.addVocabulary name = .ok d') : Ordered d' := by
  obtain ⟨parent, -, fresh, rfl⟩ := addVocabulary_eq_ok.mp he
  refine
    { token_eq := h.token_eq
      nodup := h.nodup
      names_nodup := Table.nodup_keys_insert h.names_nodup _ _
      name_eq := fun hx => ?_
      home := fun w hw => get?_insert_of_some (h.home w hw).choose_spec
      holds := fun {n x} hx => ?_
      context := exists_get?_insert _ _ h.context
      current := exists_get?_insert _ _ h.current }
  · obtain ⟨rfl, rfl⟩ | ⟨-, hx⟩ := get?_insert_vocabulary hx
    · rfl
    · exact h.name_eq hx
  · obtain ⟨rfl, rfl⟩ | ⟨-, hx⟩ := get?_insert_vocabulary hx
    · have hnil := h.held_eq_nil fresh
      rw [held] at hnil
      rw [held, hnil]
      exact ⟨rfl, fun _ => rfl⟩
    · exact h.holds hx

theorem searchIn (h : Ordered d) (he : d.searchIn name = .ok d') : Ordered d' := by
  obtain ⟨⟨v, hv⟩, rfl⟩ := searchIn_eq_ok.mp he
  exact h.of_pointers rfl rfl ⟨name, v, rfl, hv⟩ h.current

theorem defineIn (h : Ordered d) (he : d.defineIn name = .ok d') : Ordered d' := by
  obtain ⟨⟨v, hv⟩, rfl⟩ := defineIn_eq_ok.mp he
  exact h.of_pointers rfl rfl h.context ⟨name, v, rfl, hv⟩

theorem use (h : Ordered d) (he : d.use name = .ok d') : Ordered d' := by
  obtain ⟨⟨v, hv⟩, rfl⟩ := use_eq_ok.mp he
  exact h.of_pointers rfl rfl ⟨name, v, rfl, hv⟩ ⟨name, v, rfl, hv⟩

theorem setNextToken (h : Ordered d) (token : Token) :
    Ordered { d with nextToken := token } :=
  h.of_pointers rfl rfl h.context h.current

theorem entries_addWord (d : Dictionary) (v : Vocabulary) (definition : Definition) :
    (d.addWord v definition).2.words.entries =
      d.words.entries ++ [(d.freshToken, (d.addWord v definition).1)] :=
  Table.entries_insert_of_fresh _ (freshToken_not_mem d)

theorem held_addWord (d : Dictionary) (v : Vocabulary) (definition : Definition) (n : Text) :
    (d.addWord v definition).2.held n =
      if v.name = n then (d.addWord v definition).1 :: d.held n else d.held n := by
  have values : (d.addWord v definition).2.words.values.reverse =
      (d.addWord v definition).1 :: d.words.values.reverse := by
    simp [Table.values, entries_addWord]
  rw [held, values, List.filter_cons]
  simp only [decide_eq_true_eq]
  rfl

theorem addWord (h : Ordered d) (hv : d.vocabularies.get? name = some v) (definition : Definition) :
    Ordered (d.addWord v definition).2 := by
  have vname := h.name_eq hv
  refine
    { token_eq := fun e he => ?_
      nodup := Table.nodup_keys_insert h.nodup _ _
      names_nodup := Table.nodup_keys_insert h.names_nodup _ _
      name_eq := fun hx => ?_
      home := fun w hw => ?_
      holds := fun {n x} hx => ?_
      context := exists_get?_insert _ _ h.context
      current := exists_get?_insert _ _ h.current }
  · rw [entries_addWord, List.mem_append, List.mem_singleton] at he
    rcases he with he | rfl
    · exact h.token_eq e he
    · rfl
  · obtain ⟨rfl, rfl⟩ | ⟨-, hx⟩ := get?_insert_vocabulary hx
    · rfl
    · exact h.name_eq hx
  · rw [Table.values, entries_addWord, List.map_append, List.mem_append] at hw
    rcases hw with hw | hw
    · exact get?_insert_of_some (h.home w hw).choose_spec
    · obtain rfl : w = (d.addWord v definition).1 := by simpa using hw
      exact ⟨_, (Table.get?_insert _ v.name v.name _).trans (if_pos rfl)⟩
  · rw [held_addWord]
    obtain ⟨rfl, rfl⟩ | ⟨hne, hx⟩ := get?_insert_vocabulary hx
    · rw [if_pos rfl]
      have holds := h.holds hv
      rw [← vname] at holds
      exact holds.push (w := (d.addWord v definition).1) rfl rfl
    · rw [if_neg (Ne.symm hne)]
      exact h.holds hx

theorem define {definition : Definition} {w : Word} (h : Ordered d)
    (he : d.define definition = .ok (w, d')) : Ordered d' := by
  obtain ⟨n, v, -, hv, hw⟩ := define_eq_ok.mp he
  have hd : d' = (d.addWord v definition).2 := congrArg Prod.snd hw
  exact hd ▸ h.addWord hv definition

theorem length_held_le (d : Dictionary) (n : Text) : (d.held n).length ≤ d.words.keys.length := by
  have le : (d.held n).length ≤ d.words.values.reverse.length := List.length_filter_le _ _
  simpa [Table.values, Table.keys] using le

theorem forget_of_unindexed {n : Text} {name : Text} (hn : d.current = some n)
    (hv : d.vocabularies.get? n = some v) (unindexed : v.index.get? name = none) :
    d.forget name = .ok d := by
  simp only [Dictionary.forget, currentVocabulary_eq_ok.mpr hn, vocabulary_eq_ok.mpr hv, unindexed,
    bind, Except.bind]

theorem forget_of_indexed {n : Text} {name : Text} {target : Token} (hn : d.current = some n)
    (hv : d.vocabularies.get? n = some v) (indexed : v.index.get? name = some target) :
    d.forget name = (cutDown target (d.words.keys.length + 1) d v).bind fun p =>
      .ok { p.1 with vocabularies := p.1.vocabularies.insert p.2.name p.2 } := by
  simp only [Dictionary.forget, currentVocabulary_eq_ok.mpr hn, vocabulary_eq_ok.mpr hv, indexed,
    bind, Except.bind]

/-- Forgetting cuts the stack of the current vocabulary below the newest word of the name. -/
theorem forget_eq (h : Ordered d) {n : Text} (hn : d.current = some n)
    (hv : d.vocabularies.get? n = some v) (name : Text) :
    firstNamed name (d.held n) = none ∧ d.forget name = .ok d ∨
      ∃ newer w older v', d.held n = newer ++ w :: older ∧ w.name = name ∧
        (∀ x ∈ newer, x.name ≠ name) ∧ v'.name = n ∧ v'.parent = v.parent ∧ Holds v' older ∧
        d.forget name = .ok { d with
          words := without d.words (newer ++ [w])
          vocabularies := d.vocabularies.insert n v' } := by
  have holds := h.holds hv
  have index := holds.index name
  rw [firstNamed] at index
  cases hf : (d.held n).find? fun w => w.name = name with
  | none =>
    rw [hf] at index
    exact .inl ⟨by rw [firstNamed, hf]; rfl, forget_of_unindexed hn hv index⟩
  | some w =>
    rw [hf] at index
    have forget := forget_of_indexed hn hv index
    obtain ⟨hw, newer, older, hs, first⟩ := List.find?_eq_some_iff_append.mp hf
    have nodup := h.nodup_held n
    rw [hs, ← List.singleton_append, ← List.append_assoc, List.map_append,
      List.nodup_append] at nodup
    have live : ∀ x ∈ newer ++ [w], d.words.get? x.token = some x := by
      intro x hx
      have hx : x ∈ d.held n := by
        rw [hs, ← List.singleton_append, ← List.append_assoc]
        exact List.mem_append_left older hx
      exact h.live hx
    have enough : newer.length < d.words.keys.length + 1 := by
      have le := length_held_le d n
      rw [hs, List.length_append, List.length_cons] at le
      omega
    rw [hs] at holds
    obtain ⟨v', cut, vname, vparent, hv'⟩ := cutDown_eq holds live nodup.1 enough
    rw [h.name_eq hv] at vname
    refine .inr ⟨newer, w, older, v', hs, by simpa using hw, by simpa using first, vname,
      vparent, hv', ?_⟩
    rw [forget, cut, Except.bind, vname]

theorem values_without (h : Ordered d) (ws : List Word) :
    (without d.words ws).values = d.words.values.filter fun x => x.token ∉ ws.map (·.token) := by
  rw [Table.values, entries_without, Table.values, List.filter_map]
  refine congrArg _ (List.filter_congr fun e he => ?_)
  rw [Function.comp, h.token_eq e he]

theorem held_without (h : Ordered d) (ws : List Word) (vs : Table Text Vocabulary) (m : Text) :
    held { d with words := without d.words ws, vocabularies := vs } m =
      (d.held m).filter fun x => x.token ∉ ws.map (·.token) := by
  simp only [held, h.values_without, ← List.filter_reverse, List.filter_filter]
  exact List.filter_congr fun x _ => Bool.and_comm _ _

theorem held_cut (h : Ordered d) {n : Text} {newer older : List Word}
    (hs : d.held n = newer ++ w :: older) (vs : Table Text Vocabulary) (m : Text) :
    held { d with words := without d.words (newer ++ [w]), vocabularies := vs } m =
      if m = n then older else d.held m := by
  have split : newer ++ w :: older = (newer ++ [w]) ++ older := by simp
  rw [h.held_without]
  by_cases hm : m = n
  · have nodup := h.nodup_held n
    rw [hs, split, List.map_append, List.nodup_append] at nodup
    rw [if_pos hm, hm, hs, split, List.filter_append, List.filter_eq_nil_iff.mpr,
      List.filter_eq_self.mpr, List.nil_append]
    · intro x hx
      refine decide_eq_true fun hmem => ?_
      exact nodup.2.2 _ hmem _ (List.mem_map_of_mem hx) rfl
    · intro x hx
      exact fun ht => of_decide_eq_true ht (List.mem_map_of_mem hx)
  · rw [if_neg hm]
    refine List.filter_eq_self.mpr fun x hx => decide_eq_true fun hmem => ?_
    obtain ⟨y, hy, hyx⟩ := List.mem_map.mp hmem
    have hyn : y ∈ d.held n := hs ▸ split ▸ List.mem_append_left older hy
    have hxy : some x = some y := by rw [← h.live hx, ← h.live hyn, hyx]
    exact hm ((mem_held.mp hx).2.symm.trans (Option.some.inj hxy ▸ (mem_held.mp hyn).2))

theorem cut (h : Ordered d) {n : Text} {newer older : List Word} {v' : Vocabulary}
    (hs : d.held n = newer ++ w :: older) (vname : v'.name = n) (hv' : Holds v' older) :
    Ordered { d with
      words := without d.words (newer ++ [w])
      vocabularies := d.vocabularies.insert n v' } where
  token_eq e he := by
    rw [entries_without] at he
    exact h.token_eq e (List.mem_filter.mp he).1
  nodup := by
    rw [Table.keys, entries_without]
    exact h.nodup.sublist (List.filter_sublist.map _)
  names_nodup := Table.nodup_keys_insert h.names_nodup _ _
  name_eq hx := by
    obtain ⟨rfl, rfl⟩ | ⟨-, hx⟩ := get?_insert_vocabulary hx
    · exact vname
    · exact h.name_eq hx
  home x hx := by
    rw [h.values_without] at hx
    exact get?_insert_of_some (h.home x (List.mem_filter.mp hx).1).choose_spec
  holds {m x} hx := by
    rw [h.held_cut hs]
    obtain ⟨rfl, rfl⟩ | ⟨hne, hx⟩ := get?_insert_vocabulary hx
    · rw [if_pos rfl]
      exact hv'
    · rw [if_neg hne]
      exact h.holds hx
  context := exists_get?_insert _ _ h.context
  current := exists_get?_insert _ _ h.current

theorem forget (h : Ordered d) (he : d.forget name = .ok d') : Ordered d' := by
  obtain ⟨n, v, hn, hv⟩ := h.current
  obtain ⟨-, hd⟩ | ⟨newer, w, older, v', hs, -, -, vname, -, hv', hd⟩ := h.forget_eq hn hv name
  · obtain rfl : d = d' := Except.ok.inj (hd.symm.trans he)
    exact h
  · obtain rfl := Except.ok.inj (hd.symm.trans he)
    exact h.cut hs vname hv'

theorem mem_of_forget (h : Ordered d) (forgotten : d.forget name = .ok d')
    (member : w ∈ d'.words.values) : w ∈ d.words.values := by
  obtain ⟨n, v, hn, hv⟩ := h.current
  obtain ⟨-, same⟩ | ⟨newer, u, older, v', -, -, -, -, -, -, cut⟩ := h.forget_eq hn hv name
  · cases same.symm.trans forgotten
    exact member
  · cases cut.symm.trans forgotten
    rw [h.values_without] at member
    exact (List.mem_filter.mp member).1

theorem apply (h : Ordered d) (r : Request) (he : r.apply d = .ok d') : Ordered d' := by
  cases r with
  | addVocabulary name => exact h.addVocabulary he
  | use name => exact h.use he
  | searchIn name => exact h.searchIn he
  | defineIn name => exact h.defineIn he
  | define definition =>
    obtain ⟨⟨w, d''⟩, hd, rfl⟩ := map_eq_ok.mp he
    exact h.define hd
  | definePrimitive name p doc =>
    obtain ⟨⟨w, d''⟩, hd, rfl⟩ := map_eq_ok.mp he
    exact h.define hd
  | forget name => exact h.forget he
  | setNextToken token =>
    obtain rfl := Except.ok.inj he
    exact h.setNextToken token

theorem of_get?_empty {firstToken : Token} {n : Text}
    (h : (Dictionary.empty firstToken).vocabularies.get? n = some v) :
    v.name = n ∧ v.newest = none ∧ v.index = ∅ := by
  simp only [Dictionary.empty, Table.ofList, List.foldl_cons, List.foldl_nil, Table.get?_insert,
    Table.get?_empty] at h
  split at h
  · obtain rfl := Option.some.inj h
    exact ⟨Eq.symm ‹_›, rfl, rfl⟩
  split at h
  · obtain rfl := Option.some.inj h
    exact ⟨Eq.symm ‹_›, rfl, rfl⟩
  split at h
  · obtain rfl := Option.some.inj h
    exact ⟨Eq.symm ‹_›, rfl, rfl⟩
  · exact absurd h (by simp)

theorem empty (firstToken : Token) : Ordered (Dictionary.empty firstToken) where
  token_eq e he := absurd he List.not_mem_nil
  nodup := List.nodup_nil
  names_nodup := by
    refine Table.nodup_keys_insert (Table.nodup_keys_insert (Table.nodup_keys_insert ?_ _ _) _ _) _ _
    exact List.nodup_nil
  name_eq hx := (of_get?_empty hx).1
  home w hw := absurd hw List.not_mem_nil
  holds hx := by
    obtain ⟨-, newest, index⟩ := of_get?_empty hx
    refine ⟨newest, fun name => ?_⟩
    rw [index]
    rfl
  context := ⟨rootVocabulary, _, rfl, rfl⟩
  current := ⟨rootVocabulary, _, rfl, rfl⟩

theorem performAll (firstToken : Token) (rs : List Request) :
    Ordered ((Dictionary.empty firstToken).performAll rs) :=
  performAll_induction (empty firstToken) (fun _ r _ h => h.apply r) rs

end Ordered

end ThreadedCode.Dictionary
