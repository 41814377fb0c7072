import ThreadedCode.Proofs.Dictionary.Revision
import ThreadedCode.Proofs.Machine.Boundary
import ThreadedCode.Proofs.Machine.Diagnostics
import ThreadedCode.Proofs.Machine.Steering

/-!
What stays behind in a task whose stack and variables are passed on: the second stack and the status.
Nothing but the two primitives of the second stack reads it, and nothing else is read differently
because of it. So two tasks that differ in it keep step with each other through every word that does
without these primitives, under all dictionaries that agree on what the word reaches. If the word
reaches no malformed word either, then neither of the two is ever halted.
-/

namespace ThreadedCode

namespace Outcome

/-- Computations that keep step: both come to a value, or both are halted, by the same and for a
reason of a kind, or both run out of fuel. The values may differ, but the states stay related. -/
def InStep {σ τ α β : Type} (P : Halt → Prop) (R : σ → τ → Prop) : Outcome σ α → Outcome τ β → Prop
  | ok _ s, ok _ t => R s t
  | halt why s, halt other t => why = other ∧ P why ∧ R s t
  | exhausted, exhausted => True
  | _, _ => False

namespace InStep

variable {σ τ α β α' β' : Type} {P Q : Halt → Prop} {R : σ → τ → Prop} {s : σ} {t : τ}

theorem mono {o : Outcome σ α} {o' : Outcome τ β} (h : o.InStep P R o')
    (weaken : ∀ why, P why → Q why) : o.InStep Q R o' := by
  cases o <;> cases o'
  case halt.halt => exact ⟨h.1, weaken _ h.2.1, h.2.2⟩
  all_goals exact h

theorem symm {o : Outcome σ α} {o' : Outcome τ β} (h : o.InStep P R o') :
    o'.InStep P (fun t s => R s t) o := by
  cases o <;> cases o'
  case halt.halt => exact ⟨h.1.symm, h.1 ▸ h.2.1, h.2.2⟩
  all_goals exact h

theorem halts {o : Outcome σ α} {o' : Outcome τ β} (h : o.InStep P R o') : o.HaltsBy P := by
  cases o <;> cases o'
  case halt.halt => exact h.2.1
  all_goals first | exact h.elim | trivial

theorem matched {o : Outcome σ Unit} {o' : Outcome τ Unit} (h : o.InStep P R o') :
    o.Matched R o' := by
  cases o <;> cases o'
  case ok.ok => exact ⟨rfl, h⟩
  case halt.halt => exact ⟨h.1, h.2.2⟩
  all_goals first | exact h.elim | trivial

theorem bind {x : Action σ α} {y : Action τ β} {g : α → Action σ α'} {k : β → Action τ β'}
    (h : (x s).InStep P R (y t)) (next : ∀ a b s t, R s t → (g a s).InStep P R (k b t)) :
    ((x >>= g) s).InStep P R ((y >>= k) t) := by
  rw [Action.bind_apply, Action.bind_apply]
  cases hx : x s <;> cases hy : y t <;> rw [hx, hy] at h
  case ok.ok => exact next _ _ _ _ h
  case halt.halt => exact h
  all_goals first | exact h.elim | trivial

theorem ensuring {x : Action σ α} {y : Action τ β} {after : σ → σ} {after' : τ → τ}
    (h : (x s).InStep P R (y t)) (afterwards : ∀ s t, R s t → R (after s) (after' t)) :
    ((x.ensuring after) s).InStep P R ((y.ensuring after') t) := by
  rw [Action.ensuring, Action.ensuring]
  cases hx : x s <;> cases hy : y t <;> rw [hx, hy] at h
  case ok.ok => exact afterwards _ _ h
  case halt.halt => exact ⟨h.1, h.2.1, afterwards _ _ h.2.2⟩
  all_goals first | exact h.elim | trivial

theorem catchFault {x : Action σ α} {y : Action τ β} {handler : Fault → Action σ α}
    {handler' : Fault → Action τ β} (h : (x s).InStep Halt.IsFault R (y t))
    (handled : ∀ fault s t, R s t → (handler fault s).InStep P R (handler' fault t)) :
    ((x.catchFault handler) s).InStep P R ((y.catchFault handler') t) := by
  rw [Action.catchFault, Action.catchFault]
  cases hx : x s <;> cases hy : y t <;> rw [hx, hy] at h
  case ok.ok => exact h
  case halt.halt =>
    obtain ⟨rfl, ⟨fault, rfl⟩, related⟩ := h
    exact handled fault _ _ related
  all_goals first | exact h.elim | trivial

theorem forM {ι : Type} {x : ι → Action σ Unit} {y : ι → Action τ Unit} {items : List ι}
    (each : ∀ b ∈ items, ∀ s t, R s t → (x b s).InStep P R (y b t)) (related : R s t) :
    (forM items x s).InStep P R (forM items y t) := by
  induction items generalizing s t with
  | nil => exact related
  | cons b items ih =>
    rw [List.forM_cons, List.forM_cons]
    refine (each b List.mem_cons_self s t related).bind fun _ _ s t related => ?_
    exact ih (fun c member => each c (List.mem_cons_of_mem b member)) related

theorem of_mapState {g : σ → τ} {o : Outcome σ α} (halts : o.HaltsBy P)
    (leaves : o.Leaves fun s => R s (g s)) : o.InStep P R (o.mapState g) := by
  cases o with
  | ok a s => exact leaves
  | halt why s => exact ⟨rfl, halts, leaves⟩
  | exhausted => trivial

end InStep

end Outcome

namespace Task

structure Residue where
  returns : List Value
  status : Value

def withResidue (t : Task) (r : Residue) : Task :=
  { t with returns := r.returns, status := r.status }

theorem unnoticed_withResidue (r : Residue) : Unnoticed (withResidue · r) where
  stack _ := rfl
  locals _ := rfl
  setStack _ _ := rfl
  setLocals _ _ := rfl

end Task

def Builtin.usesReturns : Builtin → Bool
  | toReturn | fromReturn => true
  | _ => false

section Effects

variable {b : Builtin} {arg : Operand} {t : Task} {globals : Variables} {r : Task.Residue}

theorem Task.jump_withResidue :
    (t.withResidue r).jump arg = (t.jump arg).map (Prod.map id (withResidue · r)) := by
  have level : (t.withResidue r).level = t.level := rfl
  have depth : (t.withResidue r).atomicDepth = t.atomicDepth := rfl
  have positions : (t.withResidue r).positions = t.positions := rfl
  unfold jump
  rw [level, depth, positions]
  split
  · rfl
  · split
    · split
      · rfl
      · dsimp only
        split
        · rfl
        · rfl
    · rfl

theorem Effect.ofTask_jump_withResidue :
    ofTask (t.withResidue r) globals ((t.withResidue r).jump arg) =
      (ofTask t globals (t.jump arg)).onTask (Task.withResidue · r) := by
  rw [Task.jump_withResidue]
  cases t.jump arg <;> rfl

theorem Builtin.effect_withResidue (returnless : ¬ b.usesReturns) :
    b.effect arg (t.withResidue r) globals =
      (b.effect arg t globals).onTask (Task.withResidue · r) := by
  have unnoticed := Task.unnoticed_withResidue r
  cases b with
  | print => exact unnoticed.print
  | newline => rfl
  | fetch => exact unnoticed.fetch
  | store => exact unnoticed.store
  | branch => exact Effect.ofTask_jump_withResidue
  | zeroBranch =>
    simp only [effect, Effect.zeroBranch, unnoticed.pop]
    cases t.pop with
    | error fault => rfl
    | ok popped =>
      simp only [Except.map, Prod.map, id]
      split
      · exact Effect.ofTask_jump_withResidue
      · rfl
  | toReturn => exact absurd rfl returnless
  | fromReturn => exact absurd rfl returnless

end Effects

def Word.usesReturns (w : Word) : Bool :=
  match w.kind, w.primitive with
  | .primitive, some (.builtin b) => b.usesReturns
  | _, _ => false

namespace Dictionary

/-- A word that can be run in any task to the same effect on stack and variables: it reaches no
malformed word and no primitive of the second stack. -/
structure SelfContained (d : Dictionary) (w : Word) : Prop where
  wellFormed : ∀ u, d.Reaches w u → u.WellFormed
  returnless : ∀ u, d.Reaches w u → u.usesReturns = false

theorem Closed.selfContained {d : Dictionary} {ws : List Word} {w : Word} (closed : d.Closed ws)
    (member : w ∈ ws) (wellFormed : ∀ u ∈ ws, u.WellFormed)
    (returnless : ∀ u ∈ ws, u.usesReturns = false) : d.SelfContained w where
  wellFormed u reached := wellFormed u (closed.mem_of_reaches member reached)
  returnless u reached := returnless u (closed.mem_of_reaches member reached)

theorem SelfContained.of_calls {d : Dictionary} {w u : Word} (h : d.SelfContained w)
    (call : d.Calls w u) : d.SelfContained u where
  wellFormed v reached := h.wellFormed v (.head call reached)
  returnless v reached := h.returnless v (.head call reached)

structure Portable (d d' : Dictionary) (i : Instruction) : Prop where
  agrees : d.AgreesAt d' i
  contained : ∀ w, d.findToken? i.token = some w → d.SelfContained w

theorem Portable.of_mem {d d' : Dictionary} {i j : Instruction} {w : Word} (h : d.Portable d' i)
    (found : d.findToken? i.token = some w) (runs : w.RunsBody) (member : j ∈ w.body) :
    d.Portable d' j where
  agrees := (h.agrees.word w found).agreesAt runs member
  contained _ there := (h.contained w found).of_calls ⟨runs, j, member, there⟩

end Dictionary

namespace Focus

def Akin (name : Text) (f g : Focus) : Prop :=
  f.task.name = name ∧ ∃ r, g = f.onTask (Task.withResidue · r)

variable {d d' : Dictionary} {strict : Strictness} {name : Text} {f g : Focus}

theorem Akin.refl (named : f.task.name = name) : Akin name f f :=
  ⟨named, ⟨f.task.returns, f.task.status⟩, rfl⟩

theorem Akin.onTask {change change' : Task → Task} (h : Akin name f g)
    (named : ∀ t, (change t).name = t.name)
    (same : ∀ r, change' (f.task.withResidue r) = (change f.task).withResidue r) :
    Akin name (f.onTask change) (g.onTask change') := by
  obtain ⟨named', r, rfl⟩ := h
  refine ⟨(named f.task).trans named', r, ?_⟩
  exact congrArg (fun t => { f with task := t }) (same r)

theorem Akin.setStatus (h : Akin name f g) (v v' : Option Value) :
    Akin name (setStatus v f) (setStatus v' g) := by
  obtain ⟨named, r, rfl⟩ := h
  exact ⟨named, ⟨r.returns, v'.getD .null⟩, rfl⟩

theorem runBuiltin_akin {b : Builtin} (returnless : ¬ b.usesReturns) (akin : Akin name f g)
    (arg : Operand) :
    (runBuiltin strict b arg f).InStep Halt.IsFault (Akin name)
      (runBuiltin strict b arg g) := by
  obtain ⟨named, r, rfl⟩ := akin
  rw [runBuiltin_onTask (Builtin.effect_withResidue returnless)]
  refine .of_mapState (runBuiltin_halts (fun _ => ⟨_, rfl⟩) fun _ _ => ⟨_, rfl⟩) ?_
  refine (runBuiltin_leaves b arg f).mono fun g same => ⟨?_, r, rfl⟩
  rw [same, (Builtin.effect_modest b).name, named]

theorem reportFault_akin {P : Halt → Prop} (akin : Akin name f g) (word : Option Text)
    (fault : Fault) :
    (reportFault word fault f).InStep P (Akin name) (reportFault word fault g) := by
  obtain ⟨named, r, rfl⟩ := akin
  exact ⟨named, r, rfl⟩

def Invoker.InStep (name : Text) (u v : Invoker) (i : Instruction) : Prop :=
  ∀ f g, Akin name f g → (u i f).InStep (fun _ => False) (Akin name) (v i g)

section Bodies

variable {u v : Invoker} {i : Instruction} {body : List Instruction}

theorem invokeFor_akin (h : Invoker.InStep name u v i) (akin : Akin name f g) :
    (invokeFor u i f).InStep (fun _ => False) (Akin name) (invokeFor v i g) :=
  (h f g akin).bind fun value value' _ _ akin => akin.setStatus value value'

theorem invokeEach_eq_forM (u : Invoker) (body : List Instruction) :
    invokeEach u body = forM body (invokeFor u) := by
  induction body with
  | nil => rfl
  | cons i rest ih => rw [invokeEach, ih, List.forM_cons]

theorem invokeEach_akin (h : ∀ i ∈ body, Invoker.InStep name u v i) (akin : Akin name f g) :
    (invokeEach u body f).InStep (fun _ => False) (Akin name) (invokeEach v body g) := by
  rw [invokeEach_eq_forM, invokeEach_eq_forM]
  exact .forM (fun i member _ _ akin => invokeFor_akin (h i member) akin) akin

theorem status_akin {P : Halt → Prop} {x y : Action Focus Unit} {change change' : Task → Task}
    (h : (x f).InStep P (Akin name) (y g))
    (afterwards : ∀ f g, Akin name f g → Akin name (f.onTask change) (g.onTask change')) :
    ((do x.ensuring (onTask change); status) f).InStep P (Akin name)
      ((do y.ensuring (onTask change'); status) g) :=
  (h.ensuring afterwards).bind fun _ _ _ _ akin => akin

theorem runStraight_akin (h : ∀ i ∈ body, Invoker.InStep name u v i) (akin : Akin name f g) :
    (runStraight u body f).InStep (fun _ => False) (Akin name) (runStraight v body g) := by
  have entered : Akin name (f.onTask Machine.enterAtomic) (g.onTask Machine.enterAtomic) :=
    akin.onTask (fun _ => rfl) fun _ => rfl
  refine status_akin (f := f.onTask Machine.enterAtomic) (g := g.onTask Machine.enterAtomic)
    (invokeEach_akin h entered) ?_
  exact fun f g akin => akin.onTask (fun _ => rfl) fun _ => rfl

theorem positionOf_akin {α β : Type} {level : Int} {next : Int → Action Focus α}
    {next' : Int → Action Focus β} (akin : Akin name f g)
    (found : ∀ p, (next p f).InStep Halt.IsFault (Akin name)
      (next' p g)) :
    ((positionOf level >>= next) f).InStep Halt.IsFault (Akin name)
      ((positionOf level >>= next') g) := by
  have positions : g.task.positions = f.task.positions := by
    obtain ⟨-, r, rfl⟩ := akin
    rfl
  rw [Action.bind_apply, Action.bind_apply, positionOf, positionOf, positions]
  cases f.task.positions.get? level with
  | none => exact ⟨rfl, ⟨_, rfl⟩, akin⟩
  | some p => exact found p

theorem runByPosition_akin (h : ∀ i ∈ body, Invoker.InStep name u v i) (level : Int)
    (rounds : Nat) (akin : Akin name f g) :
    (runByPosition u level body rounds f).InStep Halt.IsFault
      (Akin name) (runByPosition v level body rounds g) := by
  induction rounds generalizing f g with
  | zero => trivial
  | succ rounds ih =>
    refine positionOf_akin akin fun position => ?_
    by_cases inside : position ≤ body.length
    · rw [if_pos inside, if_pos inside]
      cases fetched : Machine.instructionAt body (position - 1) with
      | error fault => exact ⟨rfl, ⟨fault, rfl⟩, akin⟩
      | ok i =>
        have member := Machine.mem_of_instructionAt fetched
        have head := (invokeFor_akin (h i member) akin).mono
          (Q := Halt.IsFault) fun _ impossible => impossible.elim
        refine head.bind fun _ _ f g akin => positionOf_akin akin fun position => ?_
        exact ih (akin.onTask (fun _ => rfl) fun _ => rfl)
    · rw [if_neg inside, if_neg inside]
      exact akin

theorem runAtLevel_akin (h : ∀ i ∈ body, Invoker.InStep name u v i) (rounds : Nat)
    (akin : Akin name f g) :
    (runAtLevel u rounds body f).InStep Halt.IsFault (Akin name)
      (runAtLevel v rounds body g) := by
  obtain ⟨named, r, rfl⟩ := akin
  have entered : Akin name (f.onTask Machine.enterLevel)
      ((f.onTask (Task.withResidue · r)).onTask Machine.enterLevel) := ⟨named, r, rfl⟩
  refine status_akin (f := f.onTask Machine.enterLevel)
    (g := (f.onTask (Task.withResidue · r)).onTask Machine.enterLevel)
    (runByPosition_akin h _ rounds entered) ?_
  exact fun f g akin => akin.onTask (fun _ => rfl) fun _ => rfl

end Bodies

theorem executeWith_akin {n : Nat} {u v : Invoker} {w : Word} {i : Instruction}
    (contained : d.SelfContained w) (own : w.isForeign = false)
    (h : w.RunsBody → ∀ j ∈ w.body, Invoker.InStep name u v j) (akin : Akin name f g) :
    (executeWith strict n u w i f).InStep Halt.IsFault (Akin name)
      (executeWith strict n v w i g) := by
  have formed := contained.wellFormed w .refl
  unfold executeWith
  cases hk : w.kind with
  | primitive =>
    cases hp : w.primitive with
    | none =>
      rcases formed with (runs | runs) | ⟨-, supplied⟩
      · rw [hk] at runs
        cases runs
      · rw [hk] at runs
        cases runs
      · exact absurd hp supplied
    | some p =>
      cases p with
      | builtin b =>
        have returnless := contained.returnless w .refl
        rw [Word.usesReturns, hk, hp] at returnless
        exact runBuiltin_akin (Bool.not_eq_true _ ▸ returnless) akin i.arg
      | foreign name => simp [Word.isForeign, hk, hp] at own
  | atomic =>
    exact (runStraight_akin (h (.inl hk)) akin).mono fun _ impossible => impossible.elim
  | composite => exact runAtLevel_akin (h (.inr hk)) n akin
  | other label =>
    rcases formed with (runs | runs) | ⟨primitive, -⟩
    · rw [hk] at runs
      cases runs
    · rw [hk] at runs
      cases runs
    · rw [hk] at primitive
      cases primitive

/-- Instructions keep step in tasks that differ in their residue, with the same fuel under both
dictionaries. -/
theorem invoke_akin (strict : Strictness) (name : Text) (n : Nat) {i : Instruction}
    (portable : d.Portable d' i) :
    Invoker.InStep name (invoke d strict n) (invoke d' strict n) i := by
  induction n generalizing i with
  | zero => exact fun _ _ _ => trivial
  | succ n ih =>
    intro f g akin
    rw [invoke, invoke, portable.agrees.token]
    cases found : d.findToken? i.token with
    | none => exact reportFault_akin akin _ _
    | some w =>
      have executed : (executeWith strict n (invoke d strict n) w i f).InStep
          Halt.IsFault (Akin name)
          (executeWith strict n (invoke d' strict n) w i g) :=
        executeWith_akin (portable.contained w found) ((portable.agrees.word w found).own w .refl)
          (fun runs j member => ih (portable.of_mem found runs member)) akin
      refine Outcome.InStep.catchFault ?_ fun fault f g akin => reportFault_akin akin _ _
      exact executed.bind fun _ _ _ _ akin => akin

end Focus

end ThreadedCode
