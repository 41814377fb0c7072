import ThreadedCode.Proofs.Dictionary.Expansion
import ThreadedCode.Proofs.Machine.Control
import ThreadedCode.Proofs.Machine.Recording
import ThreadedCode.Proofs.Machine.Visits

/-!
The interpreter once more, with the tree of its visits for a record. It works on a stage, which is a
state with all that the interpreter does to it, so that one recorder serves the whole machine and the
part of it in focus. What holds of the record of a body if it holds of its instructions is shown here
once, for all properties that can be put together: `Compositional`.
-/

namespace ThreadedCode

/-- A state with all that the interpreter does to it. The task that is run has a handle. -/
structure Stage (σ η : Type) where
  activeTask : Action σ (η × Task)
  update : η → (Task → Task) → σ → σ
  statusOf : η → Action σ Value
  positionOf : η → Int → Action σ Int
  wordOf : Instruction → Action σ (Option Word)
  /-- Executes a word that has no body to run, with fuel. -/
  execute : Nat → Word → Instruction → Action σ Value
  report : Option Text → Fault → Action σ (Option Value)

/-- An invoker, while words are in progress, that keeps the visits in the body of the word that it
executes. -/
abbrev Visitor (σ : Type) := List Call → Instruction → Recording (Visit σ) σ (Except Failure Value)

namespace Stage

open Recording (silently)

variable {σ η : Type} (S : Stage σ η)

def setStatus (id : η) (v : Option Value) : σ → σ :=
  S.update id fun t => { t with status := v.getD .null }

def visitFor (visit : Visitor σ) (calls : List Call) (id : η) (i : Instruction) :
    Recording (Visit σ) σ Unit := do
  let _ ← Recording.gather (fun before inner ending => ⟨calls, i, before, ending, inner⟩) do
    let r ← visit calls i
    silently (Action.modify (S.setStatus id r.toOption))
    return r
  return ()

def visitEach (visit : Visitor σ) (inside : Int → List Call) (id : η) (position : Int) :
    List Instruction → Recording (Visit σ) σ Unit
  | [] => pure ()
  | i :: rest => do
    S.visitFor visit (inside position) id i
    visitEach visit inside id (position + 1) rest

def visitStraight (visit : Visitor σ) (inside : Int → List Call) (body : List Instruction) :
    Recording (Visit σ) σ Value := do
  let (id, _) ← silently S.activeTask
  silently (Action.modify (S.update id Machine.enterAtomic))
  (S.visitEach visit inside id 1 body).ensuring (S.update id Machine.leaveAtomic)
  silently (S.statusOf id)

def visitByPosition (visit : Visitor σ) (inside : Int → List Call) (id : η) (level : Int)
    (body : List Instruction) : Nat → Recording (Visit σ) σ Unit
  | 0 => silently Action.exhausted
  | rounds + 1 => do
    let position ← silently (S.positionOf id level)
    if position ≤ body.length then
      let i ← silently (Action.ofExcept (Machine.instructionAt body (position - 1)))
      S.visitFor visit (inside position) id i
      let position ← silently (S.positionOf id level)
      silently (Action.modify (S.update id (Machine.setPosition level (position + 1))))
      visitByPosition visit inside id level body rounds

def visitAtLevel (visit : Visitor σ) (inside : Int → List Call) (rounds : Nat)
    (body : List Instruction) : Recording (Visit σ) σ Value := do
  let (id, before) ← silently S.activeTask
  silently (Action.modify (S.update id Machine.enterLevel))
  (S.visitByPosition visit inside id (before.level + 1) body rounds).ensuring
    (S.update id (Machine.leaveLevel before))
  silently (S.statusOf id)

def visitWith (visit : Visitor σ) (calls : List Call) (fuel : Nat) (w : Word) (i : Instruction) :
    Recording (Visit σ) σ Value :=
  match w.kind with
  | .atomic => S.visitStraight visit (fun position => ⟨w, position⟩ :: calls) w.body
  | .composite => S.visitAtLevel visit (fun position => ⟨w, position⟩ :: calls) fuel w.body
  | _ => silently (S.execute fuel w i)

def fail (word : Option Text) (fault : Fault) : Action σ (Except Failure Value) := do
  let _ ← S.report word fault
  return .error ⟨word, fault⟩

def visit : Nat → Visitor σ
  | 0, _, _ => silently Action.exhausted
  | fuel + 1, calls, i => do
    match ← silently (S.wordOf i) with
    | none =>
      silently (S.fail none (.ifWritable (Text.hasNumeral i.token) (.danglingToken i.token)))
    | some w =>
      Recording.catchFault (do return .ok (← S.visitWith (visit fuel) calls fuel w i))
        fun fault => silently (S.fail (some w.name) fault)

def record (fuel : Nat) (id : η) (i : Instruction) : Recording (Visit σ) σ Unit :=
  S.visitFor (S.visit fuel) [] id i

variable {S} {calls : List Call} {id : η} {i : Instruction} {s s' : σ}

theorem visitFor_apply (v : Visitor σ) (calls : List Call) (id : η) (i : Instruction) (s : σ) :
    S.visitFor v calls id i s =
      match v calls i s with
      | ⟨inner, .ok r s'⟩ =>
        ⟨[⟨calls, i, s, .ok r (S.setStatus id r.toOption s'), inner⟩],
          .ok () (S.setStatus id r.toOption s')⟩
      | ⟨inner, .halt why s'⟩ => ⟨[⟨calls, i, s, .halt why s', inner⟩], .halt why s'⟩
      | ⟨inner, .exhausted⟩ => ⟨[⟨calls, i, s, .exhausted, inner⟩], .exhausted⟩ := by
  simp only [visitFor, Recording.gather, Recording.bind_apply]
  rcases v calls i s with ⟨inner, _ | _ | _⟩
  · exact congrArg (fun events => Record.mk [Visit.mk calls i s _ events] _) (List.append_nil inner)
  · rfl
  · rfl

theorem visitFor_events (v : Visitor σ) (calls : List Call) (id : η) (i : Instruction) (s : σ) :
    ∃ ending, (S.visitFor v calls id i s).events =
        [⟨calls, i, s, ending, (v calls i s).events⟩] ∧
      ∀ failure t, ending = .ok (.error failure) t →
        ∃ t', (v calls i s).outcome = .ok (.error failure) t' := by
  rw [visitFor_apply]
  rcases v calls i s with ⟨inner, ⟨r, t⟩ | _ | _⟩
  · refine ⟨_, rfl, fun failure t' failed => ?_⟩
    cases failed
    exact ⟨t, rfl⟩
  · exact ⟨_, rfl, fun _ _ failed => nomatch failed⟩
  · exact ⟨_, rfl, fun _ _ failed => nomatch failed⟩

theorem record_events (S : Stage σ η) (fuel : Nat) (id : η) (i : Instruction) (s : σ) :
    ∃ root, (S.record fuel id i s).events = [root] ∧ root.instruction = i := by
  obtain ⟨ending, events, -⟩ := visitFor_events (S := S) (S.visit fuel) [] id i s
  exact ⟨_, events, rfl⟩

theorem visit_missing (missing : S.wordOf i s = .ok none s') (fuel : Nat) :
    S.visit (fuel + 1) calls i s =
      ⟨[], S.fail none (.ifWritable (Text.hasNumeral i.token) (.danglingToken i.token)) s'⟩ := by
  rw [visit, Recording.bind_apply, silently, missing]
  rfl

theorem visit_found {w : Word} (found : S.wordOf i s = .ok (some w) s') (fuel : Nat) :
    S.visit (fuel + 1) calls i s =
      match S.visitWith (S.visit fuel) calls fuel w i s' with
      | ⟨inner, .ok a t⟩ => ⟨inner, .ok (.ok a) t⟩
      | ⟨inner, .halt (.fault fault) t⟩ => ⟨inner, S.fail (some w.name) fault t⟩
      | ⟨inner, .halt why t⟩ => ⟨inner, .halt why t⟩
      | ⟨inner, .exhausted⟩ => ⟨inner, .exhausted⟩ := by
  rw [visit, Recording.bind_apply, silently, found]
  simp only [List.nil_append, Recording.catchFault, Recording.bind_apply]
  rcases S.visitWith (S.visit fuel) calls fuel w i s' with ⟨inner, _ | ⟨_ | _ | _, _⟩ | _⟩
  · exact congrArg (Record.mk · _) (List.append_nil inner)
  · exact congrArg (Record.mk · _) (List.append_nil inner)
  · rfl
  · rfl
  · rfl

theorem failure_of_fail {word : Option Text} {fault : Fault} {failure : Failure}
    (failed : S.fail word fault s = .ok (.error failure) s') : failure = ⟨word, fault⟩ := by
  rw [fail, Action.bind_apply] at failed
  split at failed
  next =>
    cases failed
    rfl
  next => cases failed
  next => cases failed

theorem halted_of_failure {w : Word} (found : S.wordOf i s = .ok (some w) s') {fuel : Nat}
    {failure : Failure} {t : σ}
    (failed : (S.visit (fuel + 1) calls i s).outcome = .ok (.error failure) t) :
    ∃ u, (S.visitWith (S.visit fuel) calls fuel w i s').outcome =
      .halt (.fault failure.fault) u := by
  rw [visit_found found] at failed
  rcases hv : S.visitWith (S.visit fuel) calls fuel w i s' with
    ⟨inner, _ | ⟨fault | _ | _, u⟩ | _⟩ <;> rw [hv] at failed
  · cases failed
  · have same := failure_of_fail failed
    exact ⟨u, by rw [same]⟩
  · cases failed
  · cases failed
  · cases failed

/-- What an invoker gives for a visit: no value tells that the instruction has failed. -/
def value (v : Visitor σ) (calls : List Call) (i : Instruction) : Action σ (Option Value) := do
  return (← (v calls i).erase).toOption

def Follows (v : Visitor σ) (u : Instruction → Action σ (Option Value)) : Prop :=
  ∀ calls i, value v calls i = u i

theorem erase_visitFor {v : Visitor σ} {u : Instruction → Action σ (Option Value)}
    (h : Follows v u) (calls : List Call) (id : η) (i : Instruction) :
    (S.visitFor v calls id i).erase = u i >>= fun r => Action.modify (S.setStatus id r) := by
  funext s
  rw [← h calls i]
  simp only [value, visitFor, Recording.erase_bind, Recording.erase_gather, Action.bind_apply]
  cases (v calls i).erase s <;> rfl

theorem value_visit_missing (missing : S.wordOf i s = .ok none s') (fuel : Nat) :
    value (S.visit (fuel + 1)) calls i s =
      (do
        let _ ← S.report none (.ifWritable (Text.hasNumeral i.token) (.danglingToken i.token))
        return none) s' := by
  rw [value, Action.bind_apply, Recording.erase, visit_missing missing]
  dsimp only [fail]
  rw [Action.bind_apply, Action.bind_apply]
  cases S.report none (.ifWritable (Text.hasNumeral i.token) (.danglingToken i.token)) s' <;> rfl

theorem value_visit_found {w : Word} (found : S.wordOf i s = .ok (some w) s') (fuel : Nat) :
    value (S.visit (fuel + 1)) calls i s =
      Action.catchFault (do return some (← (S.visitWith (S.visit fuel) calls fuel w i).erase))
        (fun fault => do
          let _ ← S.report (some w.name) fault
          return none) s' := by
  rw [value, Action.bind_apply, Action.catchFault, Action.bind_apply, Recording.erase,
    Recording.erase, visit_found found]
  rcases S.visitWith (S.visit fuel) calls fuel w i s' with ⟨inner, _ | ⟨fault | _ | _, t⟩ | _⟩
  · rfl
  · dsimp only [fail]
    rw [Action.bind_apply, Action.bind_apply]
    cases S.report (some w.name) fault t <;> rfl
  · rfl
  · rfl
  · rfl

end Stage

def Task.Steers (change : Task → Task) : Prop := ∀ t, ∃ c, change t = t.withControl c

theorem Task.Steers.apply_eq {α : Type} {change : Task → Task} (h : Steers change) (t : Task)
    (part : Task → α) (apart : ∀ c, part (t.withControl c) = part t) : part (change t) = part t := by
  obtain ⟨c, steered⟩ := h t
  rw [steered, apart]

theorem Task.steers_enterAtomic : Steers Machine.enterAtomic :=
  fun t => ⟨⟨t.entry, t.level, t.positions, t.atomicDepth + 1⟩, rfl⟩

theorem Task.steers_leaveAtomic : Steers Machine.leaveAtomic :=
  fun t => ⟨⟨t.entry, t.level, t.positions, t.atomicDepth - 1⟩, rfl⟩

theorem Task.steers_enterLevel : Steers Machine.enterLevel :=
  fun t => ⟨⟨t.entry, t.level + 1, t.positions.insert (t.level + 1) 1, 0⟩, rfl⟩

theorem Task.steers_leaveLevel (before : Task) : Steers (Machine.leaveLevel before) :=
  fun t => ⟨⟨t.entry, t.level - 1, t.positions.erase (before.level + 1), before.atomicDepth⟩, rfl⟩

theorem Task.steers_setPosition (level position : Int) :
    Steers (Machine.setPosition level position) :=
  fun t => ⟨⟨t.entry, t.level, t.positions.insert level position, t.atomicDepth⟩, rfl⟩

namespace Stage

open Recording (silently)

variable {σ η : Type} {S : Stage σ η}

/-- The steps of a body between its instructions. -/
inductive Between (S : Stage σ η) : {α : Type} → Action σ α → Prop
  | pure {α : Type} (a : α) : Between S (pure a)
  | exhausted : Between S (Action.exhausted : Action σ Unit)
  | activeTask : Between S S.activeTask
  | statusOf (id : η) : Between S (S.statusOf id)
  | positionOf (id : η) (level : Int) : Between S (S.positionOf id level)
  | fetch (body : List Instruction) (index : Int) :
      Between S (Action.ofExcept (Machine.instructionAt body index))
  | change (id : η) {change : Task → Task} (steers : Task.Steers change) :
      Between S (Action.modify (S.update id change))

/-- A property of what is recorded from a state on that a body has if its instructions have it. -/
structure Compositional (S : Stage σ η)
    (P : {α : Type} → σ → Record (Visit σ) σ α → Prop) : Prop where
  step : ∀ {α : Type} {x : Action σ α}, S.Between x → ∀ s, P s (silently x s)
  bind : ∀ {α β : Type} {x : Recording (Visit σ) σ α} {g : α → Recording (Visit σ) σ β} {s : σ},
    P s (x s) → (∀ a t, P t (g a t)) → P s ((x >>= g) s)
  ensuring : ∀ {α : Type} {x : Recording (Visit σ) σ α} {s : σ} (id : η) {change : Task → Task},
    P s (x s) → Task.Steers change → P s ((x.ensuring (S.update id change)) s)

namespace Compositional

variable {P : {α : Type} → σ → Record (Visit σ) σ α → Prop} (h : S.Compositional P)
  {v : Visitor σ} (each : ∀ calls id i s, P s (S.visitFor v calls id i s))

include h each

theorem visitEach (inside : Int → List Call) (id : η) (p : Int) (body : List Instruction) (s : σ) :
    P s (S.visitEach v inside id p body s) := by
  induction body generalizing p s with
  | nil => exact h.step (.pure ()) s
  | cons i rest ih => exact h.bind (each _ id i s) fun _ t => ih (p + 1) t

theorem visitStraight (inside : Int → List Call) (body : List Instruction) (s : σ) :
    P s (S.visitStraight v inside body s) := by
  refine h.bind (h.step .activeTask s) fun (id, _) s => ?_
  refine h.bind (h.step (.change id Task.steers_enterAtomic) s) fun _ s => ?_
  have all := h.visitEach each inside id 1 body s
  exact h.bind (h.ensuring id all Task.steers_leaveAtomic) fun _ s => h.step (.statusOf id) s

theorem visitByPosition (inside : Int → List Call) (id : η) (level : Int) (body : List Instruction)
    (rounds : Nat) (s : σ) : P s (S.visitByPosition v inside id level body rounds s) := by
  induction rounds generalizing s with
  | zero => exact h.step .exhausted s
  | succ rounds ih =>
    refine h.bind (h.step (.positionOf id level) s) fun position s => ?_
    by_cases within : position ≤ body.length
    · rw [if_pos within]
      refine h.bind (h.step (.fetch body (position - 1)) s) fun i s => ?_
      refine h.bind (each (inside position) id i s) fun _ s => ?_
      refine h.bind (h.step (.positionOf id level) s) fun position s => ?_
      have moved := h.step (.change id (Task.steers_setPosition level (position + 1))) s
      exact h.bind moved fun _ s => ih s
    · rw [if_neg within]
      exact h.step (.pure ()) s

theorem visitAtLevel (inside : Int → List Call) (rounds : Nat) (body : List Instruction) (s : σ) :
    P s (S.visitAtLevel v inside rounds body s) := by
  refine h.bind (h.step .activeTask s) fun (id, before) s => ?_
  refine h.bind (h.step (.change id Task.steers_enterLevel) s) fun _ s => ?_
  have all := h.visitByPosition each inside id (before.level + 1) body rounds s
  exact h.bind (h.ensuring id all (Task.steers_leaveLevel before)) fun _ s => h.step (.statusOf id) s

theorem visitWith {w : Word} {fuel : Nat} {i : Instruction} {s : σ}
    (leaf : ¬ w.RunsBody → P s (silently (S.execute fuel w i) s)) (calls : List Call) :
    P s (S.visitWith v calls fuel w i s) := by
  unfold Stage.visitWith
  cases kind : w.kind with
  | atomic => exact h.visitStraight each _ w.body s
  | composite => exact h.visitAtLevel each _ fuel w.body s
  | primitive | other => exact leaf (by simp [Word.RunsBody, kind])

end Compositional

end Stage

def Record.All {σ α : Type} (P : Visit σ → Prop) (r : Record (Visit σ) σ α) : Prop :=
  ∀ v ∈ allVisits r.events, P v

namespace Record.All

variable {σ η α β : Type} {P : Visit σ → Prop} {s : σ}

theorem silently (x : Action σ α) : (Recording.silently x s).All P := fun _ member => nomatch member

theorem append {events : List (Visit σ)} {r : Record (Visit σ) σ α}
    (h : ∀ v ∈ allVisits events, P v) (k : r.All P) :
    (⟨events ++ r.events, r.outcome⟩ : Record (Visit σ) σ α).All P := by
  intro v member
  rw [allVisits_append, List.mem_append] at member
  exact member.elim (h v) (k v)

theorem bind {x : Recording (Visit σ) σ α} {g : α → Recording (Visit σ) σ β} (h : (x s).All P)
    (next : ∀ a t, x.erase s = .ok a t → (g a t).All P) : ((x >>= g) s).All P := by
  rw [Recording.bind_apply]
  rw [Recording.erase] at next
  rcases hx : x s with ⟨events, outcome⟩
  rw [hx] at h next
  cases outcome with
  | ok a t => exact append h (next a t rfl)
  | halt why t => exact h
  | exhausted => exact h

theorem ensuring {x : Recording (Visit σ) σ α} (h : (x s).All P) (after : σ → σ) :
    ((x.ensuring after) s).All P := h

theorem catchFault {x : Recording (Visit σ) σ α} {handler : Fault → Recording (Visit σ) σ α}
    (h : (x s).All P)
    (handled : ∀ fault t, x.erase s = .halt (.fault fault) t → (handler fault t).All P) :
    ((x.catchFault handler) s).All P := by
  rw [Recording.catchFault]
  rw [Recording.erase] at handled
  rcases hx : x s with ⟨events, outcome⟩
  rw [hx] at h handled
  cases outcome with
  | ok a s => exact h
  | halt why s =>
    cases why with
    | fault fault => exact append h (handled fault s rfl)
    | malformed word => exact h
    | quit => exact h
  | exhausted => exact h

theorem visitFor {S : Stage σ η} {v : Visitor σ} {calls : List Call} {id : η} {i : Instruction}
    (h : (v calls i s).All P)
    (own : ∀ ending inner,
      (∀ failure t, ending = .ok (.error failure) t →
        ∃ t', (v calls i s).outcome = .ok (.error failure) t') →
      P ⟨calls, i, s, ending, inner⟩) : (S.visitFor v calls id i s).All P := by
  obtain ⟨ending, events, failed⟩ := Stage.visitFor_events (S := S) v calls id i s
  intro x member
  rw [events, allVisits_singleton] at member
  rcases List.mem_cons.mp member with rfl | member
  · exact own ending _ failed
  · exact h x member

end Record.All

end ThreadedCode
