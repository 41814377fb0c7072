import ThreadedCode.Proofs.Dictionary.Builtins
import ThreadedCode.Proofs.Dictionary.Compilation
import ThreadedCode.Proofs.Dictionary.Revision

/-!
Where jumps stand. A definition that is left to choose the class of its word makes the word composite
if a name in it denotes a jump. Bodies hold tokens, so whatever names come to denote later, and
whatever is forgotten, no instruction of an atomic body is for a jump.
-/

namespace ThreadedCode

def Primitive.isJump : Primitive → Bool
  | .builtin b => b.isJump
  | .foreign _ => false

def Word.isJump (w : Word) : Bool := w.isPrimary && w.primitive.any Primitive.isJump

namespace Dictionary

/-- A revision that leaves it to the definition which class a word has, and that brings in no primitive
that jumps. -/
def Revision.unforced : Revision → Bool
  | author (.compile _ _ composite) => composite.isNone
  | author _ => true
  | primitive _ p _ => !p.isJump

def Develops (d d' : Dictionary) : Prop :=
  ∃ rs : List Revision, (∀ r ∈ rs, r.unforced = true) ∧ d' = d.reviseAll rs

/-- Every jump has the name of one, and none stands in an atomic body. -/
structure Placed (d : Dictionary) : Prop where
  grounded : Grounded d
  named : ∀ token w, d.findToken? token = some w → w.isJump = true → needsPosition w = true
  still : ∀ token w, d.findToken? token = some w → w.kind = .atomic → ∀ i ∈ w.body, ¬ d.Jumps i

section

variable {d d' : Dictionary} {token : Token} {u w : Word} {i : Instruction}

theorem jumps_iff_isJump :
    d.Jumps i ↔ ∃ w, d.findToken? i.token = some w ∧ w.isJump = true := by
  constructor
  · rintro ⟨b, found, jumps⟩
    obtain ⟨w, found, kind, primitive⟩ := builtin?_eq_some.mp found
    refine ⟨w, found, ?_⟩
    simp [Word.isJump, Word.isPrimary, kind, primitive, Primitive.isJump, jumps]
  · rintro ⟨w, found, jumps⟩
    simp only [Word.isJump, Word.isPrimary, Bool.and_eq_true, decide_eq_true_eq,
      Option.any_eq_true] at jumps
    obtain ⟨kind, p, primitive, jumps⟩ := jumps
    cases p with
    | builtin b => exact ⟨b, builtin?_eq_some.mpr ⟨w, found, kind, primitive⟩, jumps⟩
    | foreign name => cases jumps

theorem define_new {definition : Definition} (defined : d.define definition = .ok (w, d'))
    (found : d'.findToken? token = some u) (new : d.findToken? token = none) :
    u.kind = definition.kind ∧ u.primitive = definition.primitive ∧ u.body = definition.body := by
  obtain ⟨n, v, -, -, added⟩ := define_eq_ok.mp defined
  obtain rfl : d' = (d.addWord v definition).2 := congrArg Prod.snd added
  have found : (d.words.insert d.freshToken (d.addWord v definition).1).get? token = some u := found
  rw [Table.get?_insert] at found
  split at found
  · cases found
    exact ⟨rfl, rfl, rfl⟩
  · cases new.symm.trans found

namespace Placed

theorem still_later (h : Placed d) (later : d.Later d') (found : d.findToken? token = some w)
    (atomic : w.kind = .atomic) (member : i ∈ w.body) : ¬ d'.Jumps i := by
  rw [jumps_iff_isJump]
  rintro ⟨u, denoted, jumps⟩
  rcases later.kept i.token (h.grounded.mentions token w found i member) with same | gone
  · rw [same] at denoted
    exact h.still token w found atomic i member (jumps_iff_isJump.mpr ⟨u, denoted, jumps⟩)
  · cases gone.symm.trans denoted

theorem of_new (h : Placed d) (grounded : Grounded d') (later : d.Later d')
    (new : ∀ token w, d'.findToken? token = some w → d.findToken? token = none →
      (w.isJump = true → needsPosition w = true) ∧
        (w.kind = .atomic → ∀ i ∈ w.body, ¬ d'.Jumps i)) : Placed d' where
  grounded := grounded
  named token w found jumps := by
    cases before : d.findToken? token with
    | none => exact (new token w found before).1 jumps
    | some u =>
      obtain rfl := later.same (h.grounded.numbered.given token u before) before found
      exact h.named token w before jumps
  still token w found atomic i member := by
    cases before : d.findToken? token with
    | none => exact (new token w found before).2 atomic i member
    | some u =>
      obtain rfl := later.same (h.grounded.numbered.given token u before) before found
      exact h.still_later later before atomic member

theorem of_fewer (h : Placed d) (grounded : Grounded d') (later : d.Later d')
    (fewer : ∀ w ∈ d'.words.values, w ∈ d.words.values) : Placed d' := by
  refine h.of_new grounded later fun token w found new => ?_
  obtain ⟨member, same⟩ := grounded.numbered.ordered.get?_eq_some.mp found
  cases new.symm.trans (h.grounded.numbered.ordered.get?_eq_some.mpr ⟨fewer w member, same⟩)

theorem primitive {p : Primitive} {name doc : Text} (h : Placed d) (grounded : Grounded d')
    (later : d.Later d') (still : p.isJump = false)
    (defined : d.definePrimitive name p doc = .ok (w, d')) : Placed d' := by
  refine h.of_new grounded later fun token u found new => ?_
  obtain ⟨kind, primitive, -⟩ := define_new defined found new
  refine ⟨fun jumps => ?_, fun atomic => ?_⟩
  · simp [Word.isJump, primitive, still] at jumps
  · cases kind.symm.trans atomic

theorem compile {name : Text} {items : List (Text × Operand)} (h : Placed d)
    (grounded : Grounded d') (later : d.Later d')
    (compiled : d.compile name items none = .ok (w, d')) : Placed d' := by
  refine h.of_new grounded later fun token u found new => ?_
  obtain ⟨parts, resolved, defined⟩ := compile_eq_ok_iff.mp compiled
  obtain ⟨kind, -, body⟩ := define_new defined found new
  have kind : u.kind = if parts.any fun part => needsPosition part.1 then .composite else .atomic :=
    kind
  refine ⟨fun jumps => ?_, fun atomic i member => ?_⟩
  · have primary : u.kind = .primitive := by
      simp only [Word.isJump, Word.isPrimary, Bool.and_eq_true, decide_eq_true_eq] at jumps
      exact jumps.1
    rw [primary] at kind
    split at kind <;> cases kind
  · have unneeded : ¬ (parts.any fun part => needsPosition part.1) = true := fun needed => by
      rw [if_pos needed, atomic] at kind
      cases kind
    rw [body] at member
    obtain ⟨part, listed, rfl⟩ := List.mem_map.mp member
    obtain ⟨own, live⟩ := resolve_live resolved part listed
    obtain rfl : part.1.token = own := h.grounded.live live
    rw [jumps_iff_isJump]
    rintro ⟨v, denoted, jumps⟩
    obtain rfl := later.same (h.grounded.numbered.given _ _ live) live denoted
    exact unneeded (List.any_eq_true.mpr ⟨part, listed, h.named _ _ live jumps⟩)

theorem apply {r : Revision} (h : Placed d) (unforced : r.unforced = true)
    (he : r.apply d = .ok d') : Placed d' ∧ d.Later d' := by
  obtain ⟨grounded, later⟩ := h.grounded.apply he
  refine ⟨?_, later⟩
  cases r with
  | primitive name p doc =>
    obtain ⟨⟨w, d''⟩, defined, rfl⟩ := map_eq_ok.mp he
    exact h.primitive grounded later (by simpa [Revision.unforced] using unforced) defined
  | author r =>
    cases r with
    | compile name items composite =>
      obtain ⟨⟨w, d''⟩, compiled, rfl⟩ := map_eq_ok.mp he
      obtain rfl : composite = none := by simpa [Revision.unforced] using unforced
      exact h.compile grounded later compiled
    | forget name =>
      exact h.of_fewer grounded later fun w => h.grounded.numbered.ordered.mem_of_forget he
    | addVocabulary name =>
      obtain ⟨_, _, _, rfl⟩ := addVocabulary_eq_ok.mp he
      exact h.of_fewer grounded later fun _ member => member
    | use name =>
      obtain ⟨_, rfl⟩ := use_eq_ok.mp he
      exact h.of_fewer grounded later fun _ member => member
    | searchIn name =>
      obtain ⟨_, rfl⟩ := searchIn_eq_ok.mp he
      exact h.of_fewer grounded later fun _ member => member
    | defineIn name =>
      obtain ⟨_, rfl⟩ := defineIn_eq_ok.mp he
      exact h.of_fewer grounded later fun _ member => member

theorem develops (h : Placed d) (develops : d.Develops d') : Placed d' ∧ d.Later d' := by
  obtain ⟨rs, unforced, rfl⟩ := develops
  induction rs generalizing d with
  | nil => exact ⟨h, .refl d⟩
  | cons r rs ih =>
    rw [List.forall_mem_cons] at unforced
    have step : Placed ((r.apply d).toOption.getD d) ∧ d.Later ((r.apply d).toOption.getD d) := by
      cases he : r.apply d with
      | ok d' => exact h.apply unforced.1 he
      | error fault => exact ⟨h, .refl d⟩
    obtain ⟨placed, later⟩ := ih step.1 unforced.2
    exact ⟨placed, step.2.trans later⟩

theorem initial : Placed Dictionary.initial where
  grounded := .initial
  named token w found jumps := by
    have all : ∀ w ∈ Dictionary.initial.words.values, w.isJump = true → needsPosition w = true := by
      decide
    exact all w (Layered.initial.live found).1 jumps
  still token w found atomic := by
    have none : ∀ w ∈ Dictionary.initial.words.values, w.kind ≠ .atomic := by decide
    exact absurd atomic (none w (Layered.initial.live found).1)

end Placed

theorem Develops.refl (d : Dictionary) : d.Develops d := ⟨[], by simp, rfl⟩

theorem Develops.trans {d'' : Dictionary} (h : d.Develops d') (k : d'.Develops d'') :
    d.Develops d'' := by
  obtain ⟨rs, unforced, rfl⟩ := h
  obtain ⟨rs', unforced', rfl⟩ := k
  refine ⟨rs ++ rs', fun r member => ?_, (reviseAll_append d rs rs').symm⟩
  exact (List.mem_append.mp member).elim (unforced r) (unforced' r)

end

end Dictionary

end ThreadedCode
