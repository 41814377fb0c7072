import ThreadedCode.Proofs.Dictionary.Builtins
import ThreadedCode.Proofs.Machine.Focus

/-!
What steers a run, and what primitives have to do with it. A jump moves the position of the level it
is executed at. A jump that is refused, and any other primitive, neither changes what steers the run
nor depends on it.
-/

namespace ThreadedCode

namespace Task

structure Control where
  entry : Word
  level : Int
  positions : Table Int Int
  atomicDepth : Int

def control (t : Task) : Control := ⟨t.entry, t.level, t.positions, t.atomicDepth⟩

def withControl (t : Task) (c : Control) : Task :=
  { t with
    entry := c.entry
    level := c.level
    positions := c.positions
    atomicDepth := c.atomicDepth }

@[simp]
theorem withControl_control (t : Task) : t.withControl t.control = t := rfl

def Refuses (t : Task) : Prop := t.level = 0 ∨ 0 < t.atomicDepth

/-- One more atomic word is enough for jumps to be refused. -/
def Calm (t : Task) : Prop := t.level = 0 ∨ 0 ≤ t.atomicDepth

theorem Refuses.calm {t : Task} (refuses : t.Refuses) : t.Calm := refuses.imp_right Int.le_of_lt

theorem refuses_enterAtomic {t : Task} (calm : t.Calm) : (Machine.enterAtomic t).Refuses := by
  unfold Calm at calm
  unfold Refuses Machine.enterAtomic
  dsimp only
  omega

theorem jump_of_refuses {t : Task} (refuses : t.Refuses) (arg : Operand) :
    t.jump arg = .error .jumpOutsideComposite := by
  have closed : (t.level = 0 || 0 < t.atomicDepth : Bool) = true := by
    simpa [Refuses] using refuses
  unfold jump
  rw [if_pos closed]

theorem jump_eq_ok {t u : Task} {arg : Operand} {v : Value} (h : t.jump arg = .ok (v, u)) :
    ∃ before after, t.positions.get? t.level = some before ∧
      u = { t with positions := t.positions.insert t.level after } := by
  unfold jump at h
  split at h
  · cases h
  · split at h
    · split at h
      · cases h
      next before here =>
        dsimp only at h
        split at h
        · cases h
        · cases h
          exact ⟨before, _, here, rfl⟩
    · cases h

/-- The control states that agree for a level `n` and all below: the level and the depth of atomic
words are the same, and so are the positions up to `n`. The task's own level has a position in both
or in neither. Above its own level a task may have lost positions. -/
structure Keeps (n : Int) (t u : Task) : Prop where
  level : u.level = t.level
  atomicDepth : u.atomicDepth = t.atomicDepth
  slot : u.positions.contains t.level = t.positions.contains t.level
  below : ∀ k ≤ n, u.positions.get? k = t.positions.get? k
  above : ∀ k, t.level < k → u.positions.get? k = none ∨ u.positions.get? k = t.positions.get? k

namespace Keeps

variable {n : Int} {t u v : Task}

theorem of_control (h : u.control = t.control) : Keeps n t u := by
  injection h with entry level positions atomicDepth
  exact ⟨level, atomicDepth, by rw [positions], fun k _ => by rw [positions],
    fun k _ => by simp [positions]⟩

theorem refl (n : Int) (t : Task) : Keeps n t t := of_control rfl

theorem trans (h : Keeps n t u) (k : Keeps n u v) : Keeps n t v where
  level := k.level.trans h.level
  atomicDepth := k.atomicDepth.trans h.atomicDepth
  slot := by rw [← h.slot, ← h.level, k.slot]
  below key le := (k.below key le).trans (h.below key le)
  above key lt := by
    rcases k.above key (by rw [h.level]; exact lt) with gone | same
    · exact Or.inl gone
    · rw [same]
      exact h.above key lt

theorem refuses (h : Keeps n t u) : u.Refuses ↔ t.Refuses := by
  rw [Refuses, Refuses, h.level, h.atomicDepth]

theorem calm (h : Keeps n t u) : u.Calm ↔ t.Calm := by
  rw [Calm, Calm, h.level, h.atomicDepth]

theorem setPosition {level before : Int} (at_ : t.level = level) (lt : n < level)
    (here : t.positions.get? level = some before) (position : Int) :
    Keeps n t (Machine.setPosition level position t) where
  level := rfl
  atomicDepth := rfl
  slot := by simp [Machine.setPosition, Table.contains, Table.get?_insert, at_, here]
  below k le := by
    have other : k ≠ level := by omega
    simp [Machine.setPosition, Table.get?_insert, other]
  above k lt := by
    have other : k ≠ level := by omega
    simp [Machine.setPosition, Table.get?_insert, other]

theorem leaveAtomic (h : Keeps n (Machine.enterAtomic t) u) :
    Keeps n t (Machine.leaveAtomic u) where
  level := h.level
  atomicDepth := by
    have entered : u.atomicDepth = t.atomicDepth + 1 := h.atomicDepth
    change u.atomicDepth - 1 = t.atomicDepth
    omega
  slot := h.slot
  below := h.below
  above := h.above

theorem position_leaveLevel (h : Keeps t.level (Machine.enterLevel t) u) {k : Int}
    (le : k ≤ t.level) : (Machine.leaveLevel t u).positions.get? k = t.positions.get? k := by
  have other : k ≠ t.level + 1 := by omega
  have kept := h.below k le
  simpa [Machine.leaveLevel, Machine.enterLevel, Table.get?_erase, Table.get?_insert, other]
    using kept

theorem leaveLevel (le : n ≤ t.level) (h : Keeps t.level (Machine.enterLevel t) u) :
    Keeps n t (Machine.leaveLevel t u) where
  level := by
    have entered : u.level = t.level + 1 := h.level
    change u.level - 1 = t.level
    omega
  atomicDepth := rfl
  slot := by rw [Table.contains, h.position_leaveLevel (Int.le_refl _), Table.contains]
  below k lek := h.position_leaveLevel (Int.le_trans lek le)
  above k lt := by
    by_cases own : k = t.level + 1
    · left
      simp [Machine.leaveLevel, Table.get?_erase, own]
    · have kept := h.above k (by change t.level + 1 < k; omega)
      simpa [Machine.leaveLevel, Machine.enterLevel, Table.get?_erase, Table.get?_insert, own]
        using kept

end Keeps

end Task

namespace Effect

def onTask (change : Task → Task) (e : Effect) : Effect := { e with task := change e.task }

def withControl (e : Effect) (c : Task.Control) : Effect := e.onTask (Task.withControl · c)

end Effect

/-- A change of a task that printing and the primitives for variables do not notice. All that these
read is the stack and the variables, which the change leaves alone, and it does not matter whether
they are written before it or after it. -/
structure Task.Unnoticed (change : Task → Task) : Prop where
  stack : ∀ t, (change t).stack = t.stack
  locals : ∀ t, (change t).locals = t.locals
  setStack : ∀ t s, { change t with stack := s } = change { t with stack := s }
  setLocals : ∀ t l, { change t with locals := l } = change { t with locals := l }

namespace Task.Unnoticed

variable {change : Task → Task} (h : Unnoticed change) {t : Task} {globals : Variables}

include h

theorem pop : (change t).pop = t.pop.map (Prod.map id change) := by
  rw [Task.pop, Task.pop, h.stack]
  cases t.stack with
  | nil => rfl
  | cons v rest =>
    dsimp only
    rw [h.setStack]
    rfl

theorem push (v : Value) : (change t).push v = change (t.push v) := by
  rw [Task.push, h.stack, h.setStack]
  rfl

theorem print : Effect.print (change t) globals = (Effect.print t globals).onTask change := by
  rw [Effect.print, Effect.print, h.pop]
  cases t.pop with
  | error fault => rfl
  | ok popped =>
    by_cases writable : popped.1.isWritable
    · simp [Except.map, writable, Effect.onTask]
    · simp [Except.map, writable, Effect.onTask]

theorem fetch : Effect.fetch (change t) globals = (Effect.fetch t globals).onTask change := by
  rw [Effect.fetch, Effect.fetch, h.pop]
  cases t.pop with
  | error fault => rfl
  | ok popped =>
    simp only [Except.map, Prod.map, id]
    cases popped.1.asName with
    | error fault => rfl
    | ok key =>
      have seen : (change popped.2).valueOf? globals key = popped.2.valueOf? globals key := by
        rw [valueOf?, valueOf?, h.locals]
      simp only [seen]
      cases popped.2.valueOf? globals key with
      | none => rfl
      | some v => simp only [h.push, Effect.onTask]

theorem assign (key : Text) (v : Value) :
    (change t).assign globals key v = (t.assign globals key v).map change id := by
  rw [Task.assign, Task.assign, h.locals, h.setLocals]
  by_cases own : t.locals.contains key
  · rw [if_pos own, if_pos own]
    rfl
  · rw [if_neg own, if_neg own]
    by_cases shared : globals.contains key
    · rw [if_pos shared, if_pos shared]
      rfl
    · rw [if_neg shared, if_neg shared]
      rfl

theorem store : Effect.store (change t) globals = (Effect.store t globals).onTask change := by
  rw [Effect.store, Effect.store, h.stack]
  cases t.stack with
  | nil => rfl
  | cons top below =>
    dsimp only
    cases top.asName with
    | error fault => rfl
    | ok key =>
      cases below with
      | nil => rfl
      | cons v rest =>
        dsimp only
        rw [h.setStack, h.assign]
        rfl

end Task.Unnoticed

theorem Task.unnoticed_withControl (c : Control) : Unnoticed (Task.withControl · c) where
  stack _ := rfl
  locals _ := rfl
  setStack _ _ := rfl
  setLocals _ _ := rfl

section Effects

variable {b : Builtin} {arg : Operand} {t : Task} {globals : Variables} {c : Task.Control}

theorem Task.pop_control {u : Task} {v : Value} (h : t.pop = .ok (v, u)) :
    u.control = t.control := by
  unfold pop at h
  split at h
  · cases h
  · cases h
    rfl

theorem Effect.zeroBranch_withControl (refuses : t.Refuses)
    (refuses' : (t.withControl c).Refuses) :
    zeroBranch arg (t.withControl c) globals = (zeroBranch arg t globals).withControl c := by
  rw [zeroBranch, zeroBranch, (Task.unnoticed_withControl c).pop]
  cases hp : t.pop with
  | error fault => rfl
  | ok popped =>
    have hp' : (t.withControl c).pop = .ok (popped.1, popped.2.withControl c) := by
      rw [(Task.unnoticed_withControl c).pop, hp]
      rfl
    have same : Task.Keeps 0 t popped.2 := .of_control (Task.pop_control hp)
    have same' : Task.Keeps 0 (t.withControl c) (popped.2.withControl c) :=
      .of_control (Task.pop_control hp')
    have jump := Task.jump_of_refuses (same.refuses.mpr refuses) arg
    have jump' := Task.jump_of_refuses (same'.refuses.mpr refuses') arg
    simp only [Except.map, Prod.map, id, jump, jump']
    by_cases zero : popped.1.isZero
    · rw [if_pos zero, if_pos zero]
      rfl
    · rw [if_neg zero, if_neg zero]
      rfl

theorem Builtin.effect_withControl (quiet : b.isJump → t.Refuses)
    (quiet' : b.isJump → (t.withControl c).Refuses) :
    b.effect arg (t.withControl c) globals = (b.effect arg t globals).withControl c := by
  cases b with
  | print => exact (Task.unnoticed_withControl c).print
  | newline => rfl
  | fetch => exact (Task.unnoticed_withControl c).fetch
  | store => exact (Task.unnoticed_withControl c).store
  | branch =>
    rw [effect, effect, Task.jump_of_refuses (quiet rfl), Task.jump_of_refuses (quiet' rfl)]
    rfl
  | zeroBranch => exact Effect.zeroBranch_withControl (quiet rfl) (quiet' rfl)
  | toReturn =>
    have stack : (t.withControl c).stack = t.stack := rfl
    simp only [effect, Task.moveToReturn, Task.pop, stack]
    cases t.stack <;> rfl
  | fromReturn =>
    have returns : (t.withControl c).returns = t.returns := rfl
    simp only [effect, Task.moveFromReturn, Task.popReturn, returns]
    cases t.returns <;> rfl

theorem Builtin.effect_control (quiet : b.isJump → t.Refuses) :
    (b.effect arg t globals).task.control = t.control := by
  have same : b.effect arg (t.withControl t.control) globals =
      (b.effect arg t globals).withControl t.control := effect_withControl quiet quiet
  rw [Task.withControl_control] at same
  rw [same]
  rfl

theorem Effect.ofTask_jump_keeps {n : Int} (lt : n < t.level) :
    Task.Keeps n t (ofTask t globals (t.jump arg)).task := by
  cases hj : t.jump arg with
  | error fault => exact .refl n t
  | ok jumped =>
    obtain ⟨_, position, here, moved⟩ := Task.jump_eq_ok hj
    have ended : (ofTask t globals (.ok jumped)).task = jumped.2 := rfl
    rw [ended, moved]
    exact .setPosition rfl lt here position

theorem Effect.zeroBranch_keeps {n : Int} (lt : n < t.level) :
    Task.Keeps n t (zeroBranch arg t globals).task := by
  unfold zeroBranch
  cases hp : t.pop with
  | error fault => exact .refl n t
  | ok popped =>
    have same : Task.Keeps n t popped.2 := .of_control (Task.pop_control hp)
    by_cases zero : popped.1.isZero
    · simp only [zero, if_true]
      exact same.trans (ofTask_jump_keeps (by rw [same.level]; exact lt))
    · simp only [zero]
      exact same

theorem Builtin.effect_keeps {n : Int} (quiet : b.isJump → n < t.level ∨ t.Refuses) :
    Task.Keeps n t (b.effect arg t globals).task := by
  by_cases refused : b.isJump → t.Refuses
  · exact .of_control (effect_control refused)
  · obtain ⟨jumps, accepted⟩ := Classical.not_imp.mp refused
    have lt : n < t.level := (quiet jumps).resolve_right accepted
    cases b with
    | branch => exact Effect.ofTask_jump_keeps lt
    | zeroBranch => exact Effect.zeroBranch_keeps lt
    | print | newline | fetch | store | toReturn | fromReturn => cases jumps

end Effects

end ThreadedCode
