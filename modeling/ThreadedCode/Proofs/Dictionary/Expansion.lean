import Mathlib.Data.Set.Finite.Basic
import Mathlib.Logic.Relation
import ThreadedCode.Proofs.Dictionary.Builtins

/-!
The call tree of a body, written out. An instruction whose word has a body stands for the
instructions of that body, and these in turn for theirs, down to the leaves: the primitives and the
instructions whose word is not there. Where no word calls itself, every body can be written out.
-/

namespace ThreadedCode

def Word.RunsBody (w : Word) : Prop := w.kind = .atomic ∨ w.kind = .composite

def Word.WellFormed (w : Word) : Prop :=
  w.RunsBody ∨ w.kind = .primitive ∧ w.primitive ≠ none

instance (w : Word) : Decidable w.RunsBody :=
  inferInstanceAs (Decidable (w.kind = .atomic ∨ w.kind = .composite))

instance (w : Word) : Decidable w.WellFormed :=
  inferInstanceAs (Decidable (w.RunsBody ∨ w.kind = .primitive ∧ w.primitive ≠ none))

namespace Dictionary

variable {d : Dictionary} {w u : Word} {body leaves : List Instruction}

def Calls (d : Dictionary) (u v : Word) : Prop :=
  u.RunsBody ∧ ∃ i ∈ u.body, d.findToken? i.token = some v

def Reaches (d : Dictionary) : Word → Word → Prop := Relation.ReflTransGen d.Calls

def Closed (d : Dictionary) (ws : List Word) : Prop :=
  ∀ u ∈ ws, ∀ i ∈ u.body, ∀ v ∈ d.findToken? i.token, v ∈ ws

instance (d : Dictionary) (ws : List Word) : Decidable (d.Closed ws) :=
  inferInstanceAs (Decidable (∀ u ∈ ws, ∀ i ∈ u.body, ∀ v ∈ d.findToken? i.token, v ∈ ws))

theorem Closed.mem_of_reaches {ws : List Word} (closed : d.Closed ws) (member : w ∈ ws)
    (reached : d.Reaches w u) : u ∈ ws := by
  induction reached with
  | refl => exact member
  | tail _ call ih =>
    obtain ⟨-, i, inside, found⟩ := call
    exact closed _ ih i inside _ found

/-- A primitive of the machine, or an instruction whose word is not there. -/
def IsLeaf (d : Dictionary) (i : Instruction) : Prop :=
  d.findToken? i.token = none ∨ ∃ b, d.builtin? i = some b

/-- The leaves of a body, from left to right. -/
inductive Expands (d : Dictionary) : List Instruction → List Instruction → Prop
  | nil : Expands d [] []
  | leaf {i : Instruction} {rest leaves : List Instruction} (h : d.IsLeaf i)
      (tail : Expands d rest leaves) : Expands d (i :: rest) (i :: leaves)
  | nested {i : Instruction} {w : Word} {rest inner leaves : List Instruction}
      (found : d.findToken? i.token = some w) (runs : w.RunsBody) (head : Expands d w.body inner)
      (tail : Expands d rest leaves) : Expands d (i :: rest) (inner ++ leaves)

/-- What a word can be written out for: all that it reaches can be executed, no word that it reaches
calls itself, and no composite body among them jumps. -/
structure Plain (d : Dictionary) (w : Word) : Prop where
  wellFormed : ∀ u, d.Reaches w u → u.WellFormed
  acyclic : ∀ u, d.Reaches w u → ¬ Relation.TransGen d.Calls u u
  jumpFree : ∀ u, d.Reaches w u → u.kind = .composite → ∀ i ∈ u.body, ¬ d.Jumps i

theorem Plain.of_calls (h : d.Plain w) (call : d.Calls w u) : d.Plain u where
  wellFormed v reached := h.wellFormed v (.head call reached)
  acyclic v reached := h.acyclic v (.head call reached)
  jumpFree v reached := h.jumpFree v (.head call reached)

theorem token_lt_of_calls {P : Word → Prop}
    (step : ∀ {w u : Word}, P w → d.Calls w u → P u ∧ u.token < w.token) (start : P w)
    (calls : Relation.TransGen d.Calls w u) : P u ∧ u.token < w.token := by
  induction calls with
  | single call => exact step start call
  | tail _ call ih =>
    obtain ⟨there, smaller⟩ := step ih.1 call
    exact ⟨there, Int.lt_trans smaller ih.2⟩

def Allows (d : Dictionary) (w : Word) (i : Instruction) : Prop :=
  (i.token < w.token ∨ d.findToken? i.token = none) ∧ (w.kind = .composite → ¬ d.Jumps i)

instance (d : Dictionary) (w : Word) (i : Instruction) : Decidable (d.Allows w i) :=
  inferInstanceAs (Decidable ((i.token < w.token ∨ d.findToken? i.token = none) ∧
    (w.kind = .composite → ¬ d.Jumps i)))

def Descends (d : Dictionary) : Prop :=
  ∀ e ∈ d.words.entries, e.2.token = e.1 ∧ e.2.WellFormed ∧ ∀ i ∈ e.2.body, d.Allows e.2 i

instance (d : Dictionary) : Decidable d.Descends :=
  inferInstanceAs (Decidable (∀ e ∈ d.words.entries,
    e.2.token = e.1 ∧ e.2.WellFormed ∧ ∀ i ∈ e.2.body, d.Allows e.2 i))

namespace Descends

theorem entry (h : d.Descends) {token : Token} (found : d.findToken? token = some w) :
    w.token = token ∧ w.WellFormed ∧ ∀ i ∈ w.body, d.Allows w i :=
  h (token, w) (Table.mem_entries_of_get? found)

theorem token_lt (h : d.Descends) (live : d.findToken? w.token = some w) (call : d.Calls w u) :
    d.findToken? u.token = some u ∧ u.token < w.token := by
  obtain ⟨_, i, member, there⟩ := call
  obtain ⟨_, _, allowed⟩ := h.entry live
  obtain ⟨same, _⟩ := h.entry there
  have smaller : i.token < w.token := by
    refine (allowed i member).1.resolve_right fun missing => ?_
    rw [there] at missing
    cases missing
  rw [same]
  exact ⟨there, smaller⟩

theorem live_of_reaches (h : d.Descends) (live : d.findToken? w.token = some w)
    (reached : d.Reaches w u) : d.findToken? u.token = some u := by
  induction reached with
  | refl => exact live
  | tail _ call ih => exact (h.token_lt ih call).1

theorem plain (h : d.Descends) (live : d.findToken? w.token = some w) : d.Plain w where
  wellFormed _ reached := (h.entry (h.live_of_reaches live reached)).2.1
  acyclic _ reached cycle :=
    Int.lt_irrefl _ (token_lt_of_calls h.token_lt (h.live_of_reaches live reached) cycle).2
  jumpFree _ reached kind i member :=
    ((h.entry (h.live_of_reaches live reached)).2.2 i member).2 kind

end Descends

theorem not_runsBody_of_builtin {i : Instruction} {b : Builtin} (h : d.builtin? i = some b)
    (found : d.findToken? i.token = some w) : ¬ w.RunsBody := by
  obtain ⟨u, there, kind, _⟩ := builtin?_eq_some.mp h
  have same : u = w := Option.some.inj (there.symm.trans found)
  rw [Word.RunsBody, ← same, kind]
  rintro (atomic | composite)
  · cases atomic
  · cases composite

theorem isLeaf_of_wellFormed (own : d.OnlyBuiltins) {i : Instruction}
    (found : d.findToken? i.token = some w) (formed : w.WellFormed) (runs : ¬ w.RunsBody) :
    d.IsLeaf i := by
  obtain ⟨kind, supplied⟩ := formed.resolve_left runs
  have ours := own i.token w found
  obtain ⟨p, hp⟩ := Option.ne_none_iff_exists'.mp supplied
  cases p with
  | builtin b => exact Or.inr ⟨b, builtin?_eq_some.mpr ⟨w, found, kind, hp⟩⟩
  | foreign name => simp [Word.isForeign, kind, hp] at ours

theorem Expands.isLeaf (h : d.Expands body leaves) : ∀ i ∈ leaves, d.IsLeaf i := by
  induction h with
  | nil =>
    intro i member
    cases member
  | leaf leaf tail ih =>
    intro i member
    rcases List.mem_cons.mp member with rfl | later
    · exact leaf
    · exact ih i later
  | nested found runs head tail ihHead ihTail =>
    intro i member
    exact (List.mem_append.mp member).elim (ihHead i) (ihTail i)

theorem isLeaf_congr {d' : Dictionary} {i : Instruction}
    (same : d'.findToken? i.token = d.findToken? i.token) : d'.IsLeaf i ↔ d.IsLeaf i := by
  rw [IsLeaf, IsLeaf, builtin?, builtin?, same]

theorem exists_expands_of_forall
    (step : ∀ i ∈ body, d.IsLeaf i ∨ ∃ w inner,
      d.findToken? i.token = some w ∧ w.RunsBody ∧ d.Expands w.body inner) :
    ∃ leaves, d.Expands body leaves := by
  induction body with
  | nil => exact ⟨[], .nil⟩
  | cons i rest ih =>
    obtain ⟨leaves, tail⟩ := ih fun j member => step j (List.mem_cons_of_mem i member)
    rcases step i List.mem_cons_self with leaf | ⟨w, inner, found, runs, head⟩
    · exact ⟨i :: leaves, .leaf leaf tail⟩
    · exact ⟨inner ++ leaves, .nested found runs head tail⟩

theorem mem_values_of_findToken? {token : Token} (found : d.findToken? token = some w) :
    w ∈ d.words.values := by
  have entry : (token, w) ∈ d.words.entries := Table.mem_entries_of_get? found
  exact List.mem_map_of_mem entry

def totalLength (d : Dictionary) : Nat := (d.words.values.map (·.body)).flatten.length

theorem length_le_totalLength {token : Token} (found : d.findToken? token = some w) :
    w.body.length ≤ d.totalLength := by
  have listed : w.body ∈ d.words.values.map (·.body) :=
    List.mem_map_of_mem (mem_values_of_findToken? found)
  exact (List.sublist_flatten_of_mem listed).length_le

/-- There are finitely many words, so without a word that calls itself calls come to an end. -/
theorem Plain.calls_wellFounded (plain : d.Plain w) :
    WellFounded fun v u : { u // u ∈ d.words.values ∧ d.Reaches w u } => d.Calls u.1 v.1 := by
  let below (v u : { u // u ∈ d.words.values ∧ d.Reaches w u }) : Prop :=
    Relation.TransGen d.Calls u.1 v.1
  have listed : { u | u ∈ d.words.values ∧ d.Reaches w u }.Finite :=
    d.words.values.finite_toSet.subset fun u both => both.1
  have finite : Finite { u // u ∈ d.words.values ∧ d.Reaches w u } := listed.to_subtype
  have transitive : IsTrans _ below := ⟨fun a b c hab hbc => hbc.trans hab⟩
  have irreflexive : Std.Irrefl below := ⟨fun u cycle => plain.acyclic u.1 u.2.2 cycle⟩
  have wellFounded : WellFounded below := Finite.wellFounded_of_trans_of_irrefl below
  exact Subrelation.wf (fun call => Relation.TransGen.single call) wellFounded

theorem Plain.exists_expands (plain : d.Plain w) (own : d.OnlyBuiltins)
    (live : w ∈ d.words.values) (runs : w.RunsBody) : ∃ leaves, d.Expands w.body leaves := by
  have all : ∀ u : { u // u ∈ d.words.values ∧ d.Reaches w u }, u.1.RunsBody →
      ∃ leaves, d.Expands u.1.body leaves := by
    intro u
    -- on the calls: the words in a body can be written out before the body is
    induction u using plain.calls_wellFounded.induction with
    | _ u ih =>
      intro runs
      refine exists_expands_of_forall fun i member => ?_
      cases found : d.findToken? i.token with
      | none => exact Or.inl (Or.inl found)
      | some v =>
        have call : d.Calls u.1 v := ⟨runs, i, member, found⟩
        have reached : d.Reaches w v := u.2.2.tail call
        by_cases nested : v.RunsBody
        · obtain ⟨inner, head⟩ := ih ⟨v, mem_values_of_findToken? found, reached⟩ call nested
          exact Or.inr ⟨v, inner, rfl, nested, head⟩
        · exact Or.inl (isLeaf_of_wellFormed own found (plain.wellFormed v reached) nested)
  exact all ⟨w, live, .refl⟩ runs

end Dictionary

end ThreadedCode
