import ThreadedCode.Dictionary.Compile

/-!
Which primitive of the machine an instruction invokes, if it invokes one, and which of them jump.
-/

namespace ThreadedCode

def Builtin.isJump : Builtin → Bool
  | branch | zeroBranch => true
  | _ => false

def Word.isForeign (w : Word) : Bool :=
  match w.kind, w.primitive with
  | .primitive, some (.foreign _) => true
  | _, _ => false

namespace Dictionary

def OnlyBuiltins (d : Dictionary) : Prop :=
  ∀ token w, d.findToken? token = some w → w.isForeign = false

theorem onlyBuiltins_of_values {d : Dictionary}
    (h : ∀ w ∈ d.words.values, w.isForeign = false) : d.OnlyBuiltins := by
  intro token w found
  have entry : (token, w) ∈ d.words.entries := Table.mem_entries_of_get? found
  exact h w (List.mem_map_of_mem entry)

theorem onlyBuiltins_initial : initial.OnlyBuiltins :=
  onlyBuiltins_of_values (by decide)

section Insert

variable {d d' : Dictionary} {w : Word} (words : d'.words = d.words.insert w.token w)

include words

theorem findToken?_inserted : d'.findToken? w.token = some w := by
  rw [findToken?, words, Table.get?_insert, if_pos rfl]

theorem findToken?_of_ne {token : Token} (other : token ≠ w.token) :
    d'.findToken? token = d.findToken? token := by
  rw [findToken?, words, Table.get?_insert, if_neg other]
  rfl

theorem OnlyBuiltins.insert (own : d.OnlyBuiltins) (ours : w.isForeign = false) :
    d'.OnlyBuiltins := by
  intro token u found
  by_cases same : token = w.token
  · rw [same, findToken?_inserted words] at found
    cases found
    exact ours
  · rw [findToken?_of_ne words same] at found
    exact own token u found

end Insert

def builtin? (d : Dictionary) (i : Instruction) : Option Builtin :=
  match d.findToken? i.token with
  | some { kind := .primitive, primitive := some (.builtin b), .. } => some b
  | _ => none

/-- An instruction that jumps itself, rather than in the body of its word. -/
def Jumps (d : Dictionary) (i : Instruction) : Prop :=
  ∃ b, d.builtin? i = some b ∧ b.isJump

instance (d : Dictionary) (i : Instruction) : Decidable (d.Jumps i) :=
  decidable_of_iff (∃ b ∈ d.builtin? i, b.isJump) (by simp [Jumps])

theorem builtin?_eq_some {d : Dictionary} {i : Instruction} {b : Builtin} :
    d.builtin? i = some b ↔
      ∃ w, d.findToken? i.token = some w ∧ w.kind = .primitive ∧
        w.primitive = some (.builtin b) := by
  constructor
  · intro h
    unfold builtin? at h
    split at h
    next found =>
      cases h
      exact ⟨_, found, rfl, rfl⟩
    next => cases h
  · rintro ⟨⟨token, name⟩, found, kind, primitive⟩
    subst kind primitive
    rw [builtin?, found]

end Dictionary

end ThreadedCode
