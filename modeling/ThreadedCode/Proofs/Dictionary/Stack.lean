import ThreadedCode.Dictionary.Define

/-!
A vocabulary as a stack of words, newest first. What is stored of the stack is the token of its top,
the two links of every word and the index by names. The lemmas say what pushing a word and cutting
the stack down do to it, and that a walk along the links gives the stack back.
-/

namespace ThreadedCode.Dictionary

def firstNamed (name : Text) (ws : List Word) : Option Token :=
  (ws.find? fun w => w.name = name).map (·.token)

theorem firstNamed_cons (name : Text) (w : Word) (ws : List Word) :
    firstNamed name (w :: ws) = if w.name = name then some w.token else firstNamed name ws := by
  by_cases h : w.name = name <;> simp [firstNamed, h]

def Linked : Option Token → List Word → Prop
  | start, [] => start = none
  | start, w :: below =>
    start = some w.token ∧ w.shadowed = firstNamed w.name below ∧ Linked w.older below

theorem Linked.eq_nil {ws : List Word} (h : Linked none ws) : ws = [] := by
  cases ws with
  | nil => rfl
  | cons w ws => exact absurd h.1 (by simp)

theorem Linked.start_mem {token : Token} {ws : List Word} (h : Linked (some token) ws) :
    ∃ w ∈ ws, w.token = token := by
  cases ws with
  | nil => exact absurd h (by simp [Linked])
  | cons w ws => exact ⟨w, List.mem_cons_self, (Option.some.inj h.1).symm⟩

theorem Linked.shadowed_eq {start : Option Token} {newer older : List Word} {w : Word}
    (h : Linked start (newer ++ w :: older)) : w.shadowed = firstNamed w.name older := by
  induction newer generalizing start with
  | nil => exact h.2.1
  | cons _ newer ih => exact ih h.2.2

/-- The walk along the links to older words, from a token through the table to the end. -/
inductive Walk (words : Table Token Word) : Option Token → List Word → Prop
  | done : Walk words none []
  | step {token : Token} {w : Word} {ws : List Word} :
      words.get? token = some w → Walk words w.older ws → Walk words (some token) (w :: ws)

theorem Linked.walk {words : Table Token Word} {start : Option Token} {ws : List Word}
    (h : Linked start ws) (live : ∀ w ∈ ws, words.get? w.token = some w) :
    Walk words start ws := by
  induction ws generalizing start with
  | nil =>
    rw [Linked] at h
    exact h ▸ .done
  | cons w ws ih =>
    obtain ⟨rfl, -, h⟩ := h
    exact .step (live w List.mem_cons_self) (ih h fun x hx => live x (List.mem_cons_of_mem w hx))

theorem wordsFrom_filter (p : Word → Bool) {start : Option Token} {ws : List Word}
    (nodup : (ws.map (·.token)).Nodup) (h : Linked start (ws.filter p)) :
    wordsFrom ws start = .ok (ws.filter p) := by
  induction ws generalizing start with
  | nil =>
    rw [List.filter_nil, Linked] at h
    rw [h, wordsFrom]
    rfl
  | cons w ws ih =>
    rw [List.map_cons, List.nodup_cons] at nodup
    by_cases hw : p w
    · rw [List.filter_cons_of_pos hw] at h ⊢
      obtain ⟨rfl, -, h⟩ := h
      rw [wordsFrom, if_pos rfl, ih nodup.2 h]
      rfl
    · rw [List.filter_cons_of_neg hw] at h ⊢
      cases start with
      | none => rw [wordsFrom, h.eq_nil]
      | some token =>
        obtain ⟨x, hx, rfl⟩ := h.start_mem
        have hxw : w.token ≠ x.token :=
          fun hxw => nodup.1 (hxw ▸ List.mem_map_of_mem (List.mem_filter.mp hx).1)
        rw [wordsFrom, if_neg hxw, ih nodup.2 h]

/-- What a vocabulary stores of its stack. -/
structure Holds (v : Vocabulary) (ws : List Word) : Prop where
  linked : Linked v.newest ws
  index : ∀ name, v.index.get? name = firstNamed name ws

namespace Holds

variable {v : Vocabulary} {w : Word} {ws : List Word}

theorem push (h : Holds v ws) (older : w.older = v.newest)
    (shadowed : w.shadowed = v.index.get? w.name) :
    Holds { v with newest := some w.token, index := v.index.insert w.name w.token } (w :: ws) where
  linked := ⟨rfl, shadowed.trans (h.index w.name), older ▸ h.linked⟩
  index name := by
    rw [Table.get?_insert, firstNamed_cons, h.index]
    by_cases hn : w.name = name
    · simp [hn]
    · simp [hn, Ne.symm hn]

theorem pop (h : Holds v (w :: ws)) (d : Dictionary) (token : Token) :
    Holds (d.removeTop v token w).2 ws where
  linked := h.linked.2.2
  index name := by
    have hi := h.index name
    rw [firstNamed_cons] at hi
    by_cases hn : w.name = name
    · subst hn
      simp [removeTop, Table.get?_set, h.linked.2.1]
    · simp [removeTop, Table.get?_set, Ne.symm hn, hi, hn]

end Holds

def without (words : Table Token Word) (ws : List Word) : Table Token Word :=
  ws.foldl (fun words w => words.erase w.token) words

theorem entries_without (words : Table Token Word) (ws : List Word) :
    (without words ws).entries =
      words.entries.filter fun e => e.1 ∉ ws.map (·.token) := by
  induction ws generalizing words with
  | nil => exact (List.filter_eq_self.mpr fun _ _ => by simp).symm
  | cons w ws ih =>
    rw [without, List.foldl_cons, ← without, ih, Table.erase, List.filter_filter]
    refine List.filter_congr fun e _ => ?_
    by_cases he : e.1 = w.token <;> simp [he]

theorem get?_without (words : Table Token Word) (ws : List Word) (token : Token) :
    (without words ws).get? token =
      if token ∈ ws.map (·.token) then none else words.get? token := by
  induction ws generalizing words with
  | nil => simp [without]
  | cons w ws ih =>
    rw [without, List.foldl_cons, ← without, ih, Table.get?_erase]
    by_cases first : token = w.token
    · simp [first]
    · by_cases later : token ∈ ws.map (·.token) <;> simp [first, later]

theorem wordAt_eq_ok {d : Dictionary} {token : Token} {w : Word} :
    d.wordAt token = .ok w ↔ d.words.get? token = some w := by
  unfold wordAt
  cases d.words.get? token <;> simp

/-- Cutting down to a word of the stack takes that word and the newer ones out of the table and
leaves the older ones as the stack. No round meets a token without a word. -/
theorem cutDown_eq {d : Dictionary} {v : Vocabulary} {newer older : List Word} {w : Word}
    {rounds : Nat} (h : Holds v (newer ++ w :: older))
    (live : ∀ x ∈ newer ++ [w], d.words.get? x.token = some x)
    (nodup : ((newer ++ [w]).map (·.token)).Nodup) (enough : newer.length < rounds) :
    ∃ v', cutDown w.token rounds d v =
        .ok ({ d with words := without d.words (newer ++ [w]) }, v') ∧
      v'.name = v.name ∧ v'.parent = v.parent ∧ Holds v' older := by
  -- on the newer words, of which each round takes off the top one
  induction newer generalizing d v rounds with
  | nil =>
    obtain ⟨rounds, rfl⟩ : ∃ k, rounds = k + 1 := ⟨rounds - 1, by simp at enough; omega⟩
    have hw := wordAt_eq_ok.mpr (live w (by simp))
    refine ⟨(d.removeTop v w.token w).2, ?_, rfl, rfl, Holds.pop h d w.token⟩
    rw [cutDown, h.linked.1]
    simp [hw, bind, Except.bind, removeTop, without]
  | cons x newer ih =>
    obtain ⟨rounds, rfl⟩ : ∃ k, rounds = k + 1 := ⟨rounds - 1, by simp at enough; omega⟩
    have hx := wordAt_eq_ok.mpr (live x (by simp))
    rw [List.cons_append, List.map_cons, List.nodup_cons] at nodup
    have hne : x.token ≠ w.token := fun hne => nodup.1 (hne ▸ List.mem_map_of_mem (by simp))
    have live' : ∀ y ∈ newer ++ [w],
        (d.removeTop v x.token x).1.words.get? y.token = some y := by
      intro y hy
      have hyx : y.token ≠ x.token := fun hyx => nodup.1 (hyx ▸ List.mem_map_of_mem hy)
      simp only [removeTop, Table.get?_erase, if_neg hyx]
      exact live y (List.mem_cons_of_mem x hy)
    have hpop : Holds (d.removeTop v x.token x).2 (newer ++ w :: older) := Holds.pop h d x.token
    obtain ⟨v', hcut, hname, hparent, hv'⟩ :=
      ih hpop live' nodup.2 (by simp at enough; omega)
    refine ⟨v', ?_, hname, hparent, hv'⟩
    rw [cutDown, h.linked.1]
    simp only [hx, bind, Except.bind, if_neg hne]
    rw [hcut]
    rfl

end ThreadedCode.Dictionary
