import ThreadedCode.Proofs.Machine.Frame
import ThreadedCode.Proofs.Machine.Lifting

/-!
Composite bodies with a program counter. The interpreter keeps the position of a composite body in
the task: a jump sets it to just before its target, and the loop moves it on by one. Here a counter
of the loop itself says where the body is, and where it is next is read off the instruction and the
stack. Both go through the same instructions and end alike.
-/

namespace ThreadedCode

def Builtin.taken : Builtin → List Value → Bool
  | branch, _ => true
  | zeroBranch, flag :: _ => flag.isZero
  | _, _ => false

/-- Where a jump at a position leads. Without a whole number to go by, or where that leads before
the start of the body, it is the next instruction. -/
def Operand.target (p : Int) : Operand → Int
  | value (.int offset) => if 1 ≤ p + offset then p + offset else p + 1
  | _ => p + 1

def Dictionary.nextPosition (d : Dictionary) (i : Instruction) (stack : List Value) (p : Int) :
    Int :=
  match d.builtin? i with
  | some b => if b.taken stack then i.arg.target p else p + 1
  | none => p + 1

theorem Operand.one_le_target {p : Int} (h : 1 ≤ p) (arg : Operand) : 1 ≤ arg.target p := by
  unfold target
  split
  · split <;> omega
  · omega

theorem Dictionary.one_le_nextPosition {p : Int} (h : 1 ≤ p) (d : Dictionary) (i : Instruction)
    (stack : List Value) : 1 ≤ d.nextPosition i stack p := by
  unfold nextPosition
  split
  · split
    · exact Operand.one_le_target h i.arg
    · omega
  · omega

section Slots

variable {t : Task} {globals : Variables} {p : Int}

theorem Effect.ofTask_jump_position (accepts : ¬ t.Refuses)
    (here : t.positions.get? t.level = some p) (arg : Operand) :
    (ofTask t globals (t.jump arg)).task.positions.get? t.level = some (arg.target p - 1) := by
  have opened : ¬ (t.level = 0 || 0 < t.atomicDepth : Bool) = true := by
    simpa [Task.Refuses] using accepts
  have stays : some p = some (p + 1 - 1) := by rw [Int.add_sub_cancel]
  unfold Task.jump
  rw [if_neg opened]
  cases arg with
  | list items => exact here.trans stays
  | value v =>
    cases v with
    | int offset =>
      simp only [here, Operand.target]
      by_cases start : p + offset < 1
      · rw [if_pos start, if_neg (by omega)]
        exact here.trans stays
      · rw [if_neg start, if_pos (by omega)]
        simp [ofTask, Table.get?_insert]
    | text s => exact here.trans stays
    | flag b => exact here.trans stays
    | null => exact here.trans stays

theorem Effect.zeroBranch_position (accepts : ¬ t.Refuses)
    (here : t.positions.get? t.level = some p) (arg : Operand) :
    (zeroBranch arg t globals).task.positions.get? t.level =
      some ((if Builtin.zeroBranch.taken t.stack then arg.target p else p + 1) - 1) := by
  have stays : some p = some (p + 1 - 1) := by rw [Int.add_sub_cancel]
  cases hs : t.stack with
  | nil =>
    simp only [zeroBranch, Task.pop, hs, Builtin.taken]
    exact here.trans stays
  | cons flag rest =>
    have taken : Builtin.zeroBranch.taken (flag :: rest) = flag.isZero := rfl
    simp only [zeroBranch, Task.pop, hs, taken]
    by_cases zero : flag.isZero
    · rw [if_pos zero, if_pos zero]
      exact ofTask_jump_position (t := { t with stack := rest }) accepts here arg
    · rw [if_neg zero, if_neg zero]
      exact here.trans stays

theorem Builtin.effect_position (accepts : ¬ t.Refuses)
    (here : t.positions.get? t.level = some p) (b : Builtin) (arg : Operand) :
    (b.effect arg t globals).task.positions.get? t.level =
      some ((if b.taken t.stack then arg.target p else p + 1) - 1) := by
  by_cases jumps : b.isJump
  · cases b with
    | branch => exact Effect.ofTask_jump_position accepts here arg
    | zeroBranch => exact Effect.zeroBranch_position accepts here arg
    | print | newline | fetch | store | toReturn | fromReturn => cases jumps
  · have falls : b.taken t.stack = false := by
      cases b with
      | branch | zeroBranch => exact absurd rfl jumps
      | print | newline | fetch | store | toReturn | fromReturn => rfl
    have same : (b.effect arg t globals).task.control = t.control :=
      effect_control fun jumps' => absurd jumps' jumps
    have positions : (b.effect arg t globals).task.positions = t.positions :=
      congrArg Task.Control.positions same
    rw [positions, here, falls]
    simp

end Slots

namespace Focus

variable {d : Dictionary} {strict : Strictness} {level p : Int}

structure At (level p : Int) (f : Focus) : Prop where
  level_eq : f.task.level = level
  depth_eq : f.task.atomicDepth = 0
  position_eq : f.task.positions.get? level = some p

theorem At.calm {f : Focus} (here : f.At level p) : f.task.Calm :=
  Or.inr (Int.le_of_eq here.depth_eq.symm)

theorem At.accepts {f : Focus} (here : f.At level p) (inner : level ≠ 0) : ¬ f.task.Refuses := by
  rw [Task.Refuses, here.level_eq, here.depth_eq]
  omega

theorem At.of_kept {f g : Focus} (here : f.At level p) (kept : Kept level f g) : g.At level p where
  level_eq := kept.level.trans here.level_eq
  depth_eq := kept.atomicDepth.trans here.depth_eq
  position_eq := (kept.below level (Int.le_refl level)).trans here.position_eq

theorem At.enterLevel (f : Focus) :
    (f.onTask Machine.enterLevel).At (f.task.level + 1) 1 where
  level_eq := rfl
  depth_eq := rfl
  position_eq := by simp [onTask, Machine.enterLevel, Table.get?_insert]

theorem At.setPosition_self {f : Focus} (here : f.At level p) :
    f.onTask (Machine.setPosition level p) = f := by
  rw [onTask, Machine.setPosition, Table.insert_of_get? here.position_eq]

theorem invoke_builtin_position (inner : level ≠ 0) (fuel : Nat) {i : Instruction} {b : Builtin}
    (primitive : d.builtin? i = some b) {f : Focus} (here : f.At level p) :
    (invoke d strict fuel i f).Leaves fun g =>
      g.task.positions.get? level = some (d.nextPosition i f.task.stack p - 1) := by
  have position : f.task.positions.get? f.task.level = some p := by
    rw [here.level_eq, here.position_eq]
  refine (invoke_builtin primitive fuel f).mono fun g same => ?_
  simp only [Dictionary.nextPosition, primitive]
  rw [same, ← here.level_eq]
  exact Builtin.effect_position (here.accepts inner) position b i.arg

theorem invoke_other_position (fuel : Nat) {i : Instruction} (other : d.builtin? i = none)
    {f : Focus} (here : f.At level p) :
    (invoke d strict fuel i f).Leaves fun g =>
      g.task.positions.get? level = some (d.nextPosition i f.task.stack p - 1) := by
  have noJump : ¬ d.Jumps i := by
    rintro ⟨b, found, -⟩
    rw [other] at found
    cases found
  have still : ¬ d.Moves i f.task :=
    Dictionary.not_moves here.calm fun jumps => absurd jumps noJump
  have kept := invoke_keeps d strict fuel level i f (Int.le_of_eq here.level_eq.symm) still.elim
  refine kept.mono fun g kept => ?_
  simp only [Dictionary.nextPosition, other]
  rw [kept.below level (Int.le_refl level), here.position_eq, Int.add_sub_cancel]

/-- Whatever the instruction at a position does, the loop finds the position just before the next
one. -/
theorem invoke_position (inner : level ≠ 0) (fuel : Nat) (i : Instruction) {f : Focus}
    (here : f.At level p) :
    (invoke d strict fuel i f).Leaves (At level (d.nextPosition i f.task.stack p - 1)) := by
  have inside : level - 1 < f.task.level := by rw [here.level_eq]; omega
  have kept := invoke_keeps d strict fuel (level - 1) i f (by omega) fun _ => inside
  have next : (invoke d strict fuel i f).Leaves fun g =>
      g.task.positions.get? level = some (d.nextPosition i f.task.stack p - 1) := by
    cases hb : d.builtin? i with
    | some b => exact invoke_builtin_position inner fuel hb here
    | none => exact invoke_other_position fuel hb here
  refine (kept.and next).mono fun g both => ?_
  obtain ⟨kept, position⟩ := both
  exact ⟨kept.level.trans here.level_eq, kept.atomicDepth.trans here.depth_eq, position⟩

theorem invokeFor_position (inner : level ≠ 0) (fuel : Nat) (i : Instruction) {f : Focus}
    (here : f.At level p) :
    (invokeFor (invoke d strict fuel) i f).Leaves
      (At level (d.nextPosition i f.task.stack p - 1)) := by
  refine (invoke_position inner fuel i here).bind (fun _ there => there) fun v g there => ?_
  exact ⟨there.level_eq, there.depth_eq, there.position_eq⟩

theorem At.setPosition {f : Focus} {q : Int} (here : f.At level q) (p : Int) :
    (f.onTask (Machine.setPosition level p)).At level p where
  level_eq := here.level_eq
  depth_eq := here.depth_eq
  position_eq := by simp [onTask, Machine.setPosition, Table.get?_insert]

end Focus

namespace Machine

/-- What a loop fetches, each instruction with its position, and how it ends. -/
structure Trace where
  fetches : List (Int × Instruction)
  outcome : Outcome Machine Unit

def Trace.round (fetch : Int × Instruction) (o : Outcome Machine Unit) (next : Machine → Trace) :
    Trace :=
  match o with
  | .ok _ m => ⟨fetch :: (next m).fetches, (next m).outcome⟩
  | .halt why m => ⟨[fetch], .halt why m⟩
  | .exhausted => ⟨[fetch], .exhausted⟩

theorem Trace.round_outcome (fetch : Int × Instruction) (o : Outcome Machine Unit)
    (next : Machine → Trace) :
    (round fetch o next).outcome =
      match o with
      | .ok _ m => (next m).outcome
      | .halt why m => .halt why m
      | .exhausted => .exhausted := by
  cases o <;> rfl

theorem Trace.mem_round {fetch fetch' : Int × Instruction} {o : Outcome Machine Unit}
    {next : Machine → Trace} (h : fetch' ∈ (round fetch o next).fetches) :
    fetch' = fetch ∨ ∃ m, fetch' ∈ (next m).fetches := by
  cases o with
  | ok _ m => exact (List.mem_cons.mp h).imp_right fun later => ⟨m, later⟩
  | halt why m => exact Or.inl (List.mem_singleton.mp h)
  | exhausted => exact Or.inl (List.mem_singleton.mp h)

def advance (id : TaskId) (level : Int) : Action Machine Unit := do
  let position ← positionOf id level
  Action.modify (updateTask id (setPosition level (position + 1)))

def traceByPosition (invoke : Invoker) (id : TaskId) (level : Int) (body : List Instruction) :
    Nat → Machine → Trace
  | 0, _ => ⟨[], .exhausted⟩
  | rounds + 1, m =>
    match positionOf id level m with
    | .ok position m =>
      if position ≤ body.length then
        match instructionAt body (position - 1) with
        | .ok i =>
          .round (position, i) ((do invokeFor invoke id i; advance id level) m)
            (traceByPosition invoke id level body rounds)
        | .error fault => ⟨[], .halt (.fault fault) m⟩
      else ⟨[], .ok () m⟩
    | .halt why m => ⟨[], .halt why m⟩
    | .exhausted => ⟨[], .exhausted⟩

theorem traceByPosition_outcome (invoke : Invoker) (id : TaskId) (level : Int)
    (body : List Instruction) (rounds : Nat) (m : Machine) :
    (traceByPosition invoke id level body rounds m).outcome =
      runByPosition invoke id level body rounds m := by
  induction rounds generalizing m with
  | zero => rfl
  | succ rounds ih =>
    rw [traceByPosition, runByPosition, Action.bind_apply]
    cases positionOf id level m with
    | ok position m =>
      dsimp only
      by_cases inside : position ≤ body.length
      · rw [if_pos inside, if_pos inside]
        cases instructionAt body (position - 1) with
        | error fault => rfl
        | ok i =>
          have fetched : ∀ rest : Instruction → Action Machine Unit,
              (Action.ofExcept (.ok i) >>= rest) m = rest i m := fun rest => rfl
          rw [fetched, Trace.round_outcome]
          simp only [Action.bind_apply, advance]
          cases invokeFor invoke id i m with
          | ok _ m =>
            dsimp only
            cases positionOf id level m with
            | ok position m => exact ih _
            | halt why m => rfl
            | exhausted => rfl
          | halt why m => rfl
          | exhausted => rfl
      · rw [if_neg inside, if_neg inside]
        rfl
    | halt why m => rfl
    | exhausted => rfl

/-- The loop with a counter. The position in the task is written for the instruction to see and
never read. -/
def traceByCounter (d : Dictionary) (invoke : Invoker) (id : TaskId) (level : Int)
    (body : List Instruction) : Nat → Int → Machine → Trace
  | 0, _, _ => ⟨[], .exhausted⟩
  | rounds + 1, p, m =>
    let m := m.updateTask id (setPosition level p)
    if h : 1 ≤ p ∧ p ≤ body.length then
      let i := body.get ⟨(p - 1).toNat, by omega⟩
      let stack := (m.task? id).elim [] (·.stack)
      .round (p, i) (invokeFor invoke id i m)
        (traceByCounter d invoke id level body rounds (d.nextPosition i stack p))
    else ⟨[], .ok () m⟩

theorem traceByCounter_fetches {d : Dictionary} {invoke : Invoker} {id : TaskId} {level : Int}
    {body : List Instruction} {rounds : Nat} {p : Int} {m : Machine} {q : Int} {i : Instruction}
    (h : (q, i) ∈ (traceByCounter d invoke id level body rounds p m).fetches) :
    1 ≤ q ∧ q ≤ body.length ∧ body[(q - 1).toNat]? = some i := by
  induction rounds generalizing p m with
  | zero => cases h
  | succ rounds ih =>
    rw [traceByCounter] at h
    by_cases inside : 1 ≤ p ∧ p ≤ body.length
    · simp only [dif_pos inside] at h
      rcases Trace.mem_round h with first | ⟨m, later⟩
      · cases first
        exact ⟨inside.1, inside.2, List.getElem?_eq_getElem _⟩
      · exact ih later
    · simp only [dif_neg inside] at h
      cases h

section Rounds

variable {m : Machine} {id : TaskId} {level p : Int}

theorem setPosition_setPosition (level p q : Int) (t : Task) :
    setPosition level p (setPosition level q t) = setPosition level p t := by
  simp [setPosition]

theorem traceByCounter_setPosition (d : Dictionary) (invoke : Invoker) (body : List Instruction)
    (rounds : Nat) (p q : Int) (f : Focus) :
    traceByCounter d invoke id level body rounds p ((f.onTask (setPosition level q)).put m id) =
      traceByCounter d invoke id level body rounds p (f.put m id) := by
  cases rounds with
  | zero => rfl
  | succ rounds =>
    have same : (f.onTask (setPosition level q)).onTask (setPosition level p) =
        f.onTask (setPosition level p) := by
      simp only [Focus.onTask, setPosition_setPosition]
    simp only [traceByCounter, Focus.put_updateTask, same]

theorem positionOf_put {f : Focus} (here : f.At level p) :
    positionOf id level (f.put m id) = .ok p (f.put m id) := by
  rw [positionOf, Focus.put_task?, Option.bind_some, here.position_eq]

theorem advance_put {f : Focus} (here : f.At level (p - 1)) :
    advance id level (f.put m id) = .ok () ((f.onTask (setPosition level p)).put m id) := by
  rw [advance, Action.bind_apply, positionOf_put here]
  simp only [Action.modify, Focus.put_updateTask, Int.sub_add_cancel]

theorem traceByPosition_eq (active : m.active = some id) (own : m.dictionary.OnlyBuiltins)
    (host : Host) (fuel : Nat) (inner : level ≠ 0) (body : List Instruction) (rounds : Nat)
    (start : 1 ≤ p) {f : Focus} (here : f.At level p) :
    traceByPosition (invoke host fuel) id level body rounds (f.put m id) =
      traceByCounter m.dictionary (invoke host fuel) id level body rounds p (f.put m id) := by
  induction rounds generalizing m p f with
  | zero => rfl
  | succ rounds ih =>
    have stack : ((f.put m id).task? id).elim [] (·.stack) = f.task.stack := by
      rw [Focus.put_task?]
      rfl
    rw [traceByPosition, traceByCounter, positionOf_put here, Focus.put_updateTask,
      here.setPosition_self, stack]
    dsimp only
    by_cases inside : p ≤ body.length
    · rw [if_pos inside, dif_pos ⟨start, inside⟩, instructionAt_eq ⟨start, inside⟩]
      dsimp only
      rw [Action.bind_apply, invokeFor_put active own]
      generalize body.get ⟨(p - 1).toNat, _⟩ = i
      have there : (Focus.invokeFor (Focus.invoke m.dictionary m.strict fuel) i f).Leaves
          (Focus.At level (m.dictionary.nextPosition i f.task.stack p - 1)) :=
        Focus.invokeFor_position inner fuel i here
      have onward := m.dictionary.one_le_nextPosition start i f.task.stack
      generalize m.dictionary.nextPosition i f.task.stack p = next at there onward ⊢
      cases hg : Focus.invokeFor (Focus.invoke m.dictionary m.strict fuel) i f with
      | ok a g =>
        rw [hg] at there
        -- The loop moves the position from just before the next instruction onto it.
        have rest := ih (m := m.ready) active own onward (there.setPosition next)
        rw [traceByCounter_setPosition] at rest
        simp only [Outcome.mapState, advance_put there, Trace.round, rest]
        rfl
      | halt why g => rfl
      | exhausted => rfl
    · have outside : ¬ (1 ≤ p ∧ p ≤ body.length) := fun h => inside h.2
      rw [if_neg inside, dif_neg outside]

end Rounds

def runByCounter (d : Dictionary) (invoke : Invoker) (id : TaskId) (level : Int)
    (body : List Instruction) (rounds : Nat) : Action Machine Unit := fun m =>
  (traceByCounter d invoke id level body rounds 1 m).outcome

def runAtCounter (d : Dictionary) (invoke : Invoker) (rounds : Nat) (body : List Instruction) :
    Action Machine Value := do
  let (id, before) ← activeTask
  Action.modify (updateTask id enterLevel)
  (runByCounter d invoke id (before.level + 1) body rounds).ensuring
    (updateTask id (leaveLevel before))
  statusOf id

section Entry

variable {m : Machine} {id : TaskId} {t : Task}

theorem traceByPosition_entered (h : m.activeTask? = some (id, t))
    (own : m.dictionary.OnlyBuiltins) (nonneg : 0 ≤ t.level) (host : Host) (fuel rounds : Nat)
    (body : List Instruction) :
    traceByPosition (invoke host fuel) id (t.level + 1) body rounds (m.updateTask id enterLevel) =
      traceByCounter m.dictionary (invoke host fuel) id (t.level + 1) body rounds 1
        (m.updateTask id enterLevel) := by
  obtain ⟨active, known⟩ := activeTask?_eq_some h
  have entered : m.updateTask id enterLevel = ((Focus.of m t).onTask enterLevel).put m id := by
    rw [← Focus.put_updateTask, Focus.put_of known]
  rw [entered]
  exact traceByPosition_eq active own host fuel (by omega) body rounds (Int.le_refl 1)
    (.enterLevel (Focus.of m t))

/-- A composite body is run as by a program counter that begins at the first instruction and after
each goes where `nextPosition` says: the same instructions are fetched at the same positions, all of
them in the body, and the run ends in the same way and in the same state. -/
theorem composite_runs_by_counter (h : m.activeTask? = some (id, t))
    (own : m.dictionary.OnlyBuiltins) (nonneg : 0 ≤ t.level) (host : Host) (fuel rounds : Nat)
    (body : List Instruction) :
    let entered := m.updateTask id enterLevel
    let trace :=
      traceByCounter m.dictionary (invoke host fuel) id (t.level + 1) body rounds 1 entered
    traceByPosition (invoke host fuel) id (t.level + 1) body rounds entered = trace ∧
      (∀ q i, (q, i) ∈ trace.fetches →
        1 ≤ q ∧ q ≤ body.length ∧ body[(q - 1).toNat]? = some i) ∧
      runAtLevel (invoke host fuel) rounds body m =
        runAtCounter m.dictionary (invoke host fuel) rounds body m := by
  have same := traceByPosition_entered h own nonneg host fuel rounds body
  refine ⟨same, fun q i fetched => traceByCounter_fetches fetched, ?_⟩
  have entry : activeTask m = .ok (id, t) m := by rw [activeTask, h]
  have loop : runByPosition (invoke host fuel) id (t.level + 1) body rounds
      (m.updateTask id enterLevel) =
      runByCounter m.dictionary (invoke host fuel) id (t.level + 1) body rounds
        (m.updateTask id enterLevel) := by
    rw [← traceByPosition_outcome, same, runByCounter]
  rw [runAtLevel, runAtCounter, Action.bind_apply, Action.bind_apply, entry]
  simp only [Action.bind_apply, Action.modify, Action.ensuring, loop]

theorem composite_runs_by_counter_jump :
    let main :=
      Word.secondary "main" 9 .composite [⟨6, .value (.int 2)⟩, ⟨99, .absent⟩, ⟨2, .absent⟩]
    let t : Task := { name := "main", entry := main, stack := [.flag false] }
    let m : Machine := { tasks := ⟨[(0, t)]⟩, nextTask := 1, active := some 0 }
    let host : Host := fun _ _ _ => pure .null
    let entered := m.updateTask 0 enterLevel
    let trace := traceByCounter m.dictionary (invoke host 1) 0 (t.level + 1) main.body 3 1 entered
    m.activeTask? = some (0, t) ∧ m.dictionary.OnlyBuiltins ∧ 0 ≤ t.level ∧
      trace.fetches.map (·.1) = [1, 3] ∧
      traceByPosition (invoke host 1) 0 (t.level + 1) main.body 3 entered = trace ∧
      runAtLevel (invoke host 1) 3 main.body m =
        runAtCounter m.dictionary (invoke host 1) 3 main.body m := by
  intro main t m host entered trace
  have active : m.activeTask? = some (0, t) := rfl
  have own : m.dictionary.OnlyBuiltins := by
    rw [dictionary_of_unbuilt rfl]
    exact Dictionary.onlyBuiltins_initial
  have nonneg : 0 ≤ t.level := Int.le_refl 0
  have run := composite_runs_by_counter active own nonneg host 1 3 main.body
  exact ⟨active, own, nonneg, by decide +kernel, run.1, run.2.2⟩

end Entry

end Machine

end ThreadedCode
