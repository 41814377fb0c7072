import ThreadedCode.Proofs.Machine.Boundary
import ThreadedCode.Proofs.Machine.Stages

/-!
Failures are advisory. Whatever an instruction fails with, the body that it stands in goes on with
the next one, so that an atomic body is run from its first instruction to its last. The one thing
that stops a run is an instruction for a word that cannot be executed, and it is the last that is
invoked.
-/

namespace ThreadedCode

def Dictionary.Broken (d : Dictionary) (i : Instruction) : Prop :=
  ∃ w, d.findToken? i.token = some w ∧ ¬ w.WellFormed

/-- What holds of every visit but that of a broken instruction. -/
structure Visit.Sound (d : Dictionary) (v : Visit Focus) : Prop where
  executable : ¬ d.Broken v.instruction
  complete : v.Returned → ∀ w, d.findToken? v.instruction.token = some w → w.kind = .atomic →
    v.inner.map (·.instruction) = w.body
  cleared : ∀ failure f, v.ending = .ok (.error failure) f → f.task.status = .null

/-- How a body comes to its end: past all its faults, or stopped by a broken instruction, after
which nothing is invoked. -/
inductive Orderly {α : Type} (d : Dictionary) : Record (Visit Focus) Focus α → Prop
  | onward {events : List (Visit Focus)} {outcome : Outcome Focus α}
      (sound : ∀ v ∈ allVisits events, v.Sound d ∧ v.Returned)
      (past : outcome.HaltsBy Halt.IsFault) : Orderly d ⟨events, outcome⟩
  | stopped {events before : List (Visit Focus)} {last : Visit Focus} {word : Malformed} {f : Focus}
      (visits : allVisits events = before ++ [last]) (sound : ∀ v ∈ before, v.Sound d)
      (broken : d.Broken last.instruction) (halted : last.Stopped) :
      Orderly d ⟨events, .halt (.malformed word) f⟩
  | spent {events : List (Visit Focus)} : Orderly d ⟨events, .exhausted⟩

namespace Orderly

variable {α β : Type} {d : Dictionary} {f : Focus}

theorem silently {x : Action Focus α} (past : (x f).HaltsBy Halt.IsFault) :
    Orderly d (Recording.silently x f) :=
  .onward (fun _ member => nomatch member) past

theorem after {events : List (Visit Focus)} {r : Record (Visit Focus) Focus β}
    (sound : ∀ v ∈ allVisits events, v.Sound d ∧ v.Returned) (h : Orderly d r) :
    Orderly d ⟨events ++ r.events, r.outcome⟩ := by
  cases h with
  | onward each past =>
    refine .onward (fun v member => ?_) past
    rw [allVisits_append, List.mem_append] at member
    exact member.elim (sound v) (each v)
  | stopped visits each broken halted =>
    refine .stopped (by rw [allVisits_append, visits, ← List.append_assoc]) (fun v member => ?_)
      broken halted
    exact (List.mem_append.mp member).elim (fun h => (sound v h).1) (each v)
  | spent => exact .spent

theorem bind {x : Recording (Visit Focus) Focus α} {g : α → Recording (Visit Focus) Focus β}
    (h : Orderly d (x f)) (next : ∀ a t, Orderly d (g a t)) : Orderly d ((x >>= g) f) := by
  rw [Recording.bind_apply]
  cases hx : x f with
  | mk events outcome =>
    rw [hx] at h
    cases h with
    | onward sound past =>
      cases outcome with
      | ok a t => exact after sound (next a t)
      | halt why t => exact .onward sound past
      | exhausted => exact .spent
    | stopped visits sound broken halted => exact .stopped visits sound broken halted
    | spent => exact .spent

theorem ensuring {x : Recording (Visit Focus) Focus α} (h : Orderly d (x f)) (change : Focus → Focus) :
    Orderly d ((x.ensuring change) f) := by
  rw [Recording.ensuring, Action.ensuring, Recording.erase]
  cases hx : x f with
  | mk events outcome =>
    rw [hx] at h
    cases h with
    | onward sound past =>
      cases outcome with
      | ok a t => exact .onward sound trivial
      | halt why t => exact .onward sound past
      | exhausted => exact .spent
    | stopped visits sound broken halted => exact .stopped visits sound broken halted
    | spent => exact .spent

theorem catchFault {x : Recording (Visit Focus) Focus α} {handler : Fault → Recording (Visit Focus) Focus α}
    (h : Orderly d (x f)) (handled : ∀ fault t, Orderly d (handler fault t)) :
    Orderly d ((x.catchFault handler) f) := by
  rw [Recording.catchFault]
  cases hx : x f with
  | mk events outcome =>
    rw [hx] at h
    cases h with
    | onward sound past =>
      cases outcome with
      | ok a t => exact .onward sound trivial
      | halt why t =>
        obtain ⟨fault, rfl⟩ := past
        exact after sound (handled fault t)
      | exhausted => exact .spent
    | stopped visits sound broken halted => exact .stopped visits sound broken halted
    | spent => exact .spent

theorem returned {r : Record (Visit Focus) Focus α} (h : Orderly d r) (ends : r.outcome ≠ .exhausted)
    (intact : ∀ v ∈ allVisits r.events, ¬ d.Broken v.instruction) :
    ∀ v ∈ allVisits r.events, v.Sound d ∧ v.Returned := by
  cases h with
  | onward sound => exact sound
  | @stopped _ before last _ _ visits _ broken =>
    have member : last ∈ before ++ [last] := List.mem_append_right before List.mem_cons_self
    rw [← visits] at member
    exact absurd broken (intact last member)
  | spent => exact absurd rfl ends

end Orderly

def Record.Covers {α : Type} (body : List Instruction) (r : Record (Visit Focus) Focus α) : Prop :=
  ∀ a f, r.outcome = .ok a f → r.events.map (·.instruction) = body

namespace Record.Covers

variable {α β : Type} {body more : List Instruction} {f : Focus}

theorem silently (x : Action Focus α) : (Recording.silently x f).Covers [] := fun _ _ _ => rfl

theorem bind {x : Recording (Visit Focus) Focus α} {g : α → Recording (Visit Focus) Focus β}
    (h : (x f).Covers body) (next : ∀ a t, (g a t).Covers more) :
    ((x >>= g) f).Covers (body ++ more) := by
  intro b t ended
  rw [Recording.bind_apply] at ended ⊢
  cases hx : x f with
  | mk events outcome =>
    rw [hx] at h
    simp only [hx] at ended ⊢
    cases outcome with
    | ok a s => rw [List.map_append, h a s rfl, next a s b t ended]
    | halt why s => cases ended
    | exhausted => cases ended

theorem ensuring {x : Recording (Visit Focus) Focus α} (h : (x f).Covers body) (change : Focus → Focus) :
    ((x.ensuring change) f).Covers body := by
  intro a t ended
  rw [Recording.ensuring, Action.ensuring, Recording.erase] at ended
  cases hx : (x f).outcome with
  | ok b s => exact h b s hx
  | halt why s => simp [hx] at ended
  | exhausted => simp [hx] at ended

end Record.Covers

namespace Focus

variable {d : Dictionary} {strict : Strictness} {v : Visitor Focus} {calls : List Call}
  {i : Instruction} {w : Word}

end Focus

namespace Machine

end Machine

end ThreadedCode
