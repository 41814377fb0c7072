import ThreadedCode.Proofs.Dictionary.Reclassified
import ThreadedCode.Proofs.Machine.Counter
import ThreadedCode.Proofs.Machine.Steering

/-!
Two tasks side by side, at levels and at depths of their own. Where both refuse jumps, or both accept
them and stand at the same position, a primitive has the same effect on all but what steers them. So
have bodies that are run in the same way, since a body begins a level or a depth of its own, and in it
a jump is refused in both tasks, or moves the same position in both.
-/

namespace ThreadedCode

theorem Dictionary.Reclassified.nextPosition_eq {d d' : Dictionary} (h : d.Reclassified d')
    (i : Instruction) (stack : List Value) (p : Int) :
    d'.nextPosition i stack p = d.nextPosition i stack p := by
  rw [nextPosition, nextPosition, h.builtin?_eq]

def Operand.jumpFrom (p : Int) (arg : Operand) : Except Fault (Value × Int) :=
  match arg with
  | value (.int offset) =>
    if p + offset < 1 then .error (.ifWritable (Text.hasNumeral offset) (.jumpBeforeStart offset))
    else .ok (.int (p + offset), p + offset - 1)
  | _ => .error (.ifWritable arg.isWritable (.badOffset arg))

namespace Task

variable {t u : Task} {p : Int}

/-- A level that is a number of words, and a depth at which any atomic word has jumps refused. -/
structure Counted (t : Task) : Prop where
  level : 0 ≤ t.level
  calm : t.Calm

theorem Counted.of_keeps {n : Int} (h : t.Counted) (kept : Keeps n t u) : u.Counted where
  level := by rw [kept.level]; exact h.level
  calm := kept.calm.mpr h.calm

theorem Counted.enterAtomic (h : t.Counted) : (Machine.enterAtomic t).Counted where
  level := h.level
  calm := (refuses_enterAtomic h.calm).calm

def Abreast (t u : Task) : Prop :=
  t.Refuses ∧ u.Refuses ∨
    ¬ t.Refuses ∧ ¬ u.Refuses ∧
      ∃ p, t.positions.get? t.level = some p ∧ u.positions.get? u.level = some p

theorem jump_eq_map (accepts : ¬ t.Refuses) (here : t.positions.get? t.level = some p)
    (arg : Operand) :
    t.jump arg =
      (arg.jumpFrom p).map fun moved => (moved.1, Machine.setPosition t.level moved.2 t) := by
  have opened : ¬ (t.level = 0 || 0 < t.atomicDepth : Bool) = true := by
    simpa [Refuses] using accepts
  unfold jump Operand.jumpFrom
  rw [if_neg opened]
  cases arg with
  | list items => rfl
  | value v =>
    cases v with
    | int offset =>
      simp only [here]
      by_cases start : p + offset < 1
      · rw [if_pos start, if_pos start]
        rfl
      · rw [if_neg start, if_neg start]
        rfl
    | text s => rfl
    | flag b => rfl
    | null => rfl

end Task

section Effects

variable {t : Task} {globals : Variables} {c : Task.Control}

theorem Effect.ofTask_jump_abreast (together : t.Abreast (t.withControl c)) (arg : Operand) :
    ∃ c', ofTask (t.withControl c) globals ((t.withControl c).jump arg) =
      (ofTask t globals (t.jump arg)).withControl c' := by
  rcases together with ⟨refuses, refuses'⟩ | ⟨accepts, accepts', p, here, here'⟩
  · rw [Task.jump_of_refuses refuses, Task.jump_of_refuses refuses']
    exact ⟨c, rfl⟩
  · rw [Task.jump_eq_map accepts here, Task.jump_eq_map accepts' here']
    cases arg.jumpFrom p with
    | error fault => exact ⟨c, rfl⟩
    | ok moved =>
      let there := Machine.setPosition (t.withControl c).level moved.2 (t.withControl c)
      exact ⟨there.control, rfl⟩

theorem Builtin.effect_abreast {b : Builtin}
    (together : b.isJump → t.Abreast (t.withControl c)) (arg : Operand) :
    ∃ c', b.effect arg (t.withControl c) globals = (b.effect arg t globals).withControl c' := by
  by_cases jumps : b.isJump
  · cases b with
    | branch => exact Effect.ofTask_jump_abreast (together rfl) arg
    | zeroBranch =>
      have stack : (t.withControl c).stack = t.stack := rfl
      simp only [effect, Effect.zeroBranch, Task.pop, stack]
      cases t.stack with
      | nil => exact ⟨c, rfl⟩
      | cons flag rest =>
        by_cases zero : flag.isZero
        · simp only [zero, if_true]
          exact Effect.ofTask_jump_abreast (t := { t with stack := rest }) (together rfl) arg
        · simp only [zero]
          exact ⟨c, rfl⟩
    | print | newline | fetch | store | toReturn | fromReturn => cases jumps
  · exact ⟨c, effect_withControl (fun jumps' => absurd jumps' jumps) fun jumps' =>
      absurd jumps' jumps⟩

end Effects

namespace Focus

variable {d d' : Dictionary} {strict : Strictness} {f g : Focus}

theorem Like.of_mapState {α : Type} (c : Task.Control) (o : Outcome Focus α) :
    o.Matched Like (o.mapState (withControl c)) := by
  cases o with
  | ok a f => exact ⟨rfl, c, rfl⟩
  | halt why f => exact ⟨rfl, c, rfl⟩
  | exhausted => trivial

theorem runBuiltin_matched {b : Builtin} (like : Like f g)
    (together : b.isJump → f.task.Abreast g.task) (arg : Operand) :
    (runBuiltin strict b arg f).Matched Like (runBuiltin strict b arg g) := by
  obtain ⟨c, rfl⟩ := like
  obtain ⟨c', effect⟩ := Builtin.effect_abreast together arg
  rw [runBuiltin_of_effect effect]
  exact Like.of_mapState c' _

/-- An invoker is as good as another: no instruction can tell how the task is steered, unless it
jumps itself and the two tasks are not ready for the same jumps. -/
def Invoker.Tracks (d : Dictionary) (u v : Invoker) : Prop :=
  ∀ (i : Instruction) (f g : Focus), Like f g → f.task.Counted → g.task.Counted →
    (d.Jumps i → f.task.Abreast g.task) → (u i f).Matched Like (v i g)

theorem setStatus_like (v : Option Value) (like : Like f g) :
    Like (setStatus v f) (setStatus v g) := by
  obtain ⟨c, rfl⟩ := like
  exact ⟨c, rfl⟩

section Bodies

variable {u v : Invoker}

theorem invokeFor_matched (h : Invoker.Tracks d u v) {i : Instruction} (like : Like f g)
    (counted : f.task.Counted) (counted' : g.task.Counted)
    (together : d.Jumps i → f.task.Abreast g.task) :
    (invokeFor u i f).Matched Like (invokeFor v i g) := by
  refine (h i f g like counted counted' together).bind (fun _ _ like => like) ?_
  exact fun value f g like => ⟨rfl, setStatus_like value like⟩

theorem invokeEach_matched (h : Invoker.Tracks d u v) (keeps : u.Keeps d) (keeps' : v.Keeps d')
    (body : List Instruction) (like : Like f g) (counted : f.task.Counted)
    (counted' : g.task.Counted) (refuses : f.task.Refuses) (refuses' : g.task.Refuses) :
    (invokeEach u body f).Matched Like (invokeEach v body g) := by
  induction body generalizing f g with
  | nil => exact ⟨rfl, like⟩
  | cons i rest ih =>
    have head := invokeFor_matched h (i := i) like counted counted' fun _ =>
      Or.inl ⟨refuses, refuses'⟩
    have kept := invokeFor_kept keeps i (Int.le_refl _) refuses
    have kept' := invokeFor_kept keeps' i (Int.le_refl _) refuses'
    refine (head.and_leaves kept kept').bind (fun _ _ all => all.1) fun _ f g all => ?_
    obtain ⟨like, kept, kept'⟩ := all
    exact ih like (counted.of_keeps kept) (counted'.of_keeps kept') (kept.refuses.mpr refuses)
      (kept'.refuses.mpr refuses')

theorem status_matched {x y : Action Focus Unit} {change change' : Task → Task}
    (h : (x f).Matched Like (y g)) (steers : Steers change) (steers' : Steers change') :
    ((do x.ensuring (onTask change); status) f).Matched Like
      ((do y.ensuring (onTask change'); status) g) := by
  refine (h.ensuring fun f g like => like.onTask steers steers').bind (fun _ _ like => like) ?_
  exact fun _ f g like => ⟨(congrArg Results.status like.results).symm, like⟩

theorem runStraight_matched (h : Invoker.Tracks d u v) (keeps : u.Keeps d) (keeps' : v.Keeps d')
    (body : List Instruction) (like : Like f g) (counted : f.task.Counted)
    (counted' : g.task.Counted) :
    (runStraight u body f).Matched Like (runStraight v body g) := by
  refine status_matched (f := f.onTask Machine.enterAtomic) (g := g.onTask Machine.enterAtomic) ?_
    (fun _ => rfl) fun _ => rfl
  exact invokeEach_matched h keeps keeps' body (like.onTask (fun _ => rfl) fun _ => rfl)
    counted.enterAtomic counted'.enterAtomic (Task.refuses_enterAtomic counted.calm)
    (Task.refuses_enterAtomic counted'.calm)

end Bodies

section Positions

variable {n n' : Nat} {level level' p : Int} {body : List Instruction} {rounds rounds' : Nat}

theorem At.counted (here : f.At level p) (inner : 1 ≤ level) : f.task.Counted where
  level := by rw [here.level_eq]; omega
  calm := here.calm

theorem At.abreast (here : f.At level p) (here' : g.At level' p) (inner : 1 ≤ level)
    (inner' : 1 ≤ level') : f.task.Abreast g.task := by
  refine Or.inr ⟨here.accepts (by omega), here'.accepts (by omega), p, ?_, ?_⟩
  · rw [here.level_eq, here.position_eq]
  · rw [here'.level_eq, here'.position_eq]

theorem runByPosition_matched (same : d.Reclassified d')
    (h : Invoker.Tracks d (invoke d strict n) (invoke d' strict n')) (inner : 1 ≤ level)
    (inner' : 1 ≤ level') (le : rounds ≤ rounds') (start : 1 ≤ p) (like : Like f g)
    (here : f.At level p) (here' : g.At level' p) :
    (runByPosition (invoke d strict n) level body rounds f).Matched Like
      (runByPosition (invoke d' strict n') level' body rounds' g) := by
  -- on the rounds of the loop: at the head of each both tasks stand at the same position
  induction rounds generalizing rounds' p f g with
  | zero => trivial
  | succ rounds ih =>
    obtain ⟨rounds', rfl⟩ : ∃ k, rounds' = k + 1 := ⟨rounds' - 1, by omega⟩
    by_cases inside : p ≤ body.length
    · have fetched := Machine.instructionAt_eq ⟨start, inside⟩
      rw [runByPosition_inside here.position_eq inside fetched,
        runByPosition_inside here'.position_eq inside fetched]
      generalize body.get ⟨(p - 1).toNat, _⟩ = i
      have head := invokeFor_matched h (i := i) like (here.counted inner) (here'.counted inner')
        fun _ => here.abreast here' inner inner'
      have left : (invokeFor (invoke d strict n) i f).Leaves
          (At level (d.nextPosition i f.task.stack p - 1)) :=
        invokeFor_position (by omega) n i here
      have right : (invokeFor (invoke d' strict n') i g).Leaves
          (At level' (d'.nextPosition i g.task.stack p - 1)) :=
        invokeFor_position (by omega) n' i here'
      have stack : g.task.stack = f.task.stack := congrArg Results.stack like.results
      rw [same.nextPosition_eq, stack] at right
      have onward := d.one_le_nextPosition start i f.task.stack
      generalize d.nextPosition i f.task.stack p = next at left right onward
      refine (head.and_leaves left right).bind (fun _ _ all => all.1) fun _ f g all => ?_
      obtain ⟨like, there, there'⟩ := all
      simp only [Action.bind_apply, advance_eq there.position_eq, advance_eq there'.position_eq,
        Int.sub_add_cancel]
      exact ih (by omega) onward (like.onTask (fun _ => rfl) fun _ => rfl)
        (there.setPosition next) (there'.setPosition next)
    · rw [runByPosition_outside here.position_eq inside,
        runByPosition_outside here'.position_eq inside]
      exact ⟨rfl, like⟩

theorem runAtLevel_matched (same : d.Reclassified d')
    (h : Invoker.Tracks d (invoke d strict n) (invoke d' strict n')) (le : rounds ≤ rounds')
    (like : Like f g) (counted : f.task.Counted) (counted' : g.task.Counted) :
    (runAtLevel (invoke d strict n) rounds body f).Matched Like
      (runAtLevel (invoke d' strict n') rounds' body g) := by
  refine status_matched (f := f.onTask Machine.enterLevel) (g := g.onTask Machine.enterLevel) ?_
    (fun _ => rfl) fun _ => rfl
  exact runByPosition_matched same h (Int.le_add_of_nonneg_left counted.level)
    (Int.le_add_of_nonneg_left counted'.level) le (Int.le_refl 1)
    (like.onTask (fun _ => rfl) fun _ => rfl) (.enterLevel f) (.enterLevel g)

end Positions

end Focus

end ThreadedCode
