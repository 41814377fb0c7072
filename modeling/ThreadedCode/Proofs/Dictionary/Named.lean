import ThreadedCode.Proofs.Dictionary.Parentage
import ThreadedCode.Proofs.Dictionary.Visibility

/-!
Histories that never turn to the vocabulary with an empty name, whether or not there is one. It then
has no child, so no search goes through it, and every word in scope is the one that its name
denotes.
-/

namespace ThreadedCode.Dictionary

def Request.isNamed : Request → Bool
  | use name | searchIn name | defineIn name => name ≠ []
  | _ => true

/-- Neither a search nor the definitions begin in the vocabulary with an empty name. -/
structure Named (d : Dictionary) : Prop where
  context : d.context ≠ some []
  current : d.current ≠ some []

namespace Named

variable {d d' : Dictionary} {r : Request}

theorem of_pointers (h : Named d) (context : d'.context = d.context)
    (current : d'.current = d.current) : Named d' :=
  ⟨context ▸ h.context, current ▸ h.current⟩

theorem of_define {definition : Definition} {w : Word} (h : Named d)
    (he : d.define definition = .ok (w, d')) : Named d' := by
  obtain ⟨n, v, -, -, same⟩ := define_eq_ok.mp he
  obtain ⟨-, rfl⟩ := Prod.mk.inj same
  exact h.of_pointers rfl rfl

theorem of_forget {name : Text} (h : Named d) (ordered : Ordered d)
    (he : d.forget name = .ok d') : Named d' := by
  obtain ⟨n, v, hn, hv⟩ := ordered.current
  rcases ordered.forget_eq hn hv name with ⟨-, same⟩ | ⟨_, _, _, _, -, -, -, -, -, -, cut⟩
  · obtain rfl := Except.ok.inj (same.symm.trans he)
    exact h
  · obtain rfl := Except.ok.inj (cut.symm.trans he)
    exact h.of_pointers rfl rfl

theorem apply (h : Named d) (ordered : Ordered d) (named : r.isNamed)
    (he : r.apply d = .ok d') : Named d' := by
  have other {name : Text} (named : decide (name ≠ []) = true) : some name ≠ some [] :=
    fun same => of_decide_eq_true named (Option.some.inj same)
  cases r with
  | addVocabulary name =>
    obtain ⟨parent, -, -, rfl⟩ := addVocabulary_eq_ok.mp he
    exact h.of_pointers rfl rfl
  | use name =>
    obtain ⟨-, rfl⟩ := use_eq_ok.mp he
    exact ⟨other named, other named⟩
  | searchIn name =>
    obtain ⟨-, rfl⟩ := searchIn_eq_ok.mp he
    exact ⟨other named, h.current⟩
  | defineIn name =>
    obtain ⟨-, rfl⟩ := defineIn_eq_ok.mp he
    exact ⟨h.context, other named⟩
  | define definition =>
    obtain ⟨⟨w, d'⟩, made, rfl⟩ := map_eq_ok.mp he
    exact h.of_define made
  | definePrimitive name p doc =>
    obtain ⟨⟨w, d'⟩, made, rfl⟩ := map_eq_ok.mp he
    exact h.of_define made
  | forget name => exact h.of_forget ordered he
  | setNextToken token =>
    obtain rfl := Except.ok.inj he
    exact h.of_pointers rfl rfl

theorem performAll {rs : List Request} (h : Named d) (ordered : Ordered d)
    (named : ∀ r ∈ rs, r.isNamed) : Named (d.performAll rs) := by
  induction rs generalizing d with
  | nil => exact h
  | cons r rs ih =>
    rw [List.forall_mem_cons] at named
    have step : Named (d.perform r) :=
      perform_of_apply h fun _ he => h.apply ordered named.1 he
    exact ih step (perform_of_apply ordered fun _ he => ordered.apply r he) named.2

end Named

section Histories

variable {firstToken : Token} {rs : List Request}

theorem named_performAll (named : ∀ r ∈ rs, r.isNamed) :
    Named ((empty firstToken).performAll rs) := by
  have root : some rootVocabulary ≠ some [] := by decide
  exact Named.performAll ⟨root, root⟩ (.empty firstToken) named

theorem parent?_ne_unnamed (named : ∀ r ∈ rs, r.isNamed) (n : Text) :
    ((empty firstToken).performAll rs).parent? n ≠ some (some []) := by
  intro known
  have begun : Descended (empty firstToken) := .empty firstToken
  rcases parent?_performAll begun.ordered known with first | ⟨p, same, past, later, rfl, current, -⟩
  · have root : rootVocabulary ≠ [] := by decide
    rw [Descended.parent?_empty] at first
    split at first
    · cases first
    split at first
    · exact root (Option.some.inj (Option.some.inj first))
    split at first <;> cases first
  · obtain rfl := Option.some.inj same
    have before : ∀ r ∈ past, r.isNamed := fun r member =>
      named r (List.mem_append_left _ member)
    exact (named_performAll before).current current

theorem unnamed_not_mem_chainOf (named : ∀ r ∈ rs, r.isNamed) {c : Text}
    (hc : ((empty firstToken).performAll rs).context = some c) :
    [] ∉ ((empty firstToken).performAll rs).chainOf c := by
  have h := ((Descended.empty firstToken).performAll rs).1
  obtain ⟨c', v, hc', there⟩ := h.ordered.context
  obtain rfl := Option.some.inj (hc.symm.trans hc')
  have way := h.lineage c v.parent (parent?_eq_some.mpr ⟨v, there, rfl⟩)
  rw [way.mem_iff]
  rintro (first | ⟨child, -, below⟩)
  · exact (named_performAll named).context (hc.trans first)
  · exact parent?_ne_unnamed named child below

theorem find?_of_listed (firstToken : Token) (named : ∀ r ∈ rs, r.isNamed) :
    ∃ listed, ((empty firstToken).performAll rs).wordsInScope = .ok listed ∧
      ∀ w ∈ listed, ((empty firstToken).performAll rs).find? w.name = .ok (some w) := by
  have h : Ordered ((empty firstToken).performAll rs) := .performAll firstToken rs
  obtain ⟨c, v, hc, hv⟩ := h.context
  refine ⟨_, h.wordsInScope_eq hc, fun w listed => ?_⟩
  have all (n : Text) (onChain : n ∈ ((empty firstToken).performAll rs).chainOf c) :
      (if n = [] then c else n) = n := by
    refine if_neg ?_
    rintro rfl
    exact unnamed_not_mem_chainOf named hc onChain
  rw [List.map_congr_left fun n onChain => congrArg _ (all n onChain)] at listed
  rw [h.find?_eq hc, (mem_firstOfEachName.mp listed).2]

end Histories

end ThreadedCode.Dictionary
