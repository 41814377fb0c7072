import ThreadedCode.Proofs.Dictionary.Expansion

/-!
Dictionaries that differ in how bodies without jumps are run. A word is taken for another one with the
same body, everywhere that it is called, so that words which call each other are compared with words
which call each other, too.
-/

namespace ThreadedCode

theorem Word.RunsBody.isForeign {w : Word} (runs : w.RunsBody) : w.isForeign = false := by
  rcases runs with kind | kind <;> simp [Word.isForeign, kind]

namespace Dictionary

variable {d d' : Dictionary} {w w' : Word} {i : Instruction}

/-- Two words with one body that does not jump itself. They may differ in how it is run. -/
structure Recast (d : Dictionary) (w w' : Word) : Prop where
  runs : w.RunsBody
  runs' : w'.RunsBody
  body_eq : w'.body = w.body
  free : ∀ i ∈ w.body, ¬ d.Jumps i

/-- The same dictionary but for the classes of words with bodies that do not jump. -/
def Reclassified (d d' : Dictionary) : Prop :=
  ∀ token, d'.findToken? token = d.findToken? token ∨
    ∃ w w', d.findToken? token = some w ∧ d'.findToken? token = some w' ∧ w'.name = w.name ∧
      d.Recast w w'

theorem builtin?_eq_none_of_runsBody (found : d.findToken? i.token = some w) (runs : w.RunsBody) :
    d.builtin? i = none := by
  cases hb : d.builtin? i with
  | none => rfl
  | some b => exact absurd runs (not_runsBody_of_builtin hb found)

namespace Reclassified

theorem builtin?_eq (h : d.Reclassified d') (i : Instruction) : d'.builtin? i = d.builtin? i := by
  rcases h i.token with same | ⟨w, w', found, found', _, recast⟩
  · rw [builtin?, builtin?, same]
  · rw [builtin?_eq_none_of_runsBody found recast.runs,
      builtin?_eq_none_of_runsBody found' recast.runs']

theorem jumps_iff (h : d.Reclassified d') (i : Instruction) : d'.Jumps i ↔ d.Jumps i := by
  rw [Jumps, Jumps, h.builtin?_eq]

theorem recast_symm (h : d.Reclassified d') (recast : d.Recast w w') : d'.Recast w' w where
  runs := recast.runs'
  runs' := recast.runs
  body_eq := recast.body_eq.symm
  free i member := by
    rw [h.jumps_iff]
    exact recast.free i (recast.body_eq ▸ member)

theorem symm (h : d.Reclassified d') : d'.Reclassified d := by
  intro token
  rcases h token with same | ⟨w, w', found, found', name, recast⟩
  · exact Or.inl same.symm
  · exact Or.inr ⟨w', w, found', found, name.symm, h.recast_symm recast⟩

theorem onlyBuiltins (h : d.Reclassified d') (own : d.OnlyBuiltins) : d'.OnlyBuiltins := by
  intro token w' found'
  rcases h token with same | ⟨w, w'', _, there, _, recast⟩
  · exact own token w' (same ▸ found')
  · rw [found'] at there
    cases there
    exact recast.runs'.isForeign

end Reclassified

theorem Recast.reclassified (recast : d.Recast w w') (token : w'.token = w.token)
    (name : w'.name = w.name) {base : Dictionary} (words : d.words = base.words.insert w.token w)
    (words' : d'.words = base.words.insert w'.token w') : d.Reclassified d' := by
  intro key
  by_cases own : key = w.token
  · subst own
    refine Or.inr ⟨w, w', findToken?_inserted words, ?_, name, recast⟩
    rw [← token, findToken?_inserted words']
  · left
    rw [findToken?_of_ne words own, findToken?_of_ne words' (token ▸ own)]

end Dictionary

end ThreadedCode
