import ThreadedCode.Proofs.Dictionary.Placement
import ThreadedCode.Proofs.Machine.Boundary
import ThreadedCode.Proofs.Machine.Frame
import ThreadedCode.Proofs.Machine.Lifting

/-!
What an instruction leaves alone on a machine whose embedding program has primitives, too: which task
is active, the level and the depth of every task, and the tokens that the dictionary has given out. It
is asked of the primitives of the embedding program that they do the same, and then every instruction
does, at any depth of bodies and of runs within runs. An instruction that is executed fails for the
place it stands in only as a jump that is refused there.
-/

namespace ThreadedCode

namespace Machine

/-- The same task is active, no task is gone or at another level or depth, and the dictionary is one
that may have developed. -/
structure Steady (m m' : Machine) : Prop where
  active : m'.active = m.active
  tasks : ∀ id t, m.task? id = some t → ∃ t', m'.task? id = some t' ∧ t'.level = t.level ∧
    t'.atomicDepth = t.atomicDepth
  dictionary : m.dictionary.Develops m'.dictionary

def InPlace (why : Halt) : Prop := why ≠ .fault .jumpOutsideComposite

structure Sound {α : Type} (m : Machine) (o : Outcome Machine α) : Prop where
  steady : o.Leaves (Steady m)
  inPlace : o.HaltsBy InPlace

/-- The primitives of an embedding program do not steer a run: they are sound wherever the runs are
that they start. -/
def Host.Sound (host : Host) : Prop :=
  ∀ name run, (∀ id m, Machine.Sound m (run id m)) → ∀ i m, Machine.Sound m (host name run i m)

variable {α β : Type} {m m' : Machine} {id : TaskId}

namespace Steady

theorem refl (m : Machine) : Steady m m where
  active := rfl
  tasks _ t known := ⟨t, known, rfl, rfl⟩
  dictionary := .refl _

theorem trans {m'' : Machine} (h : Steady m m') (k : Steady m' m'') : Steady m m'' where
  active := k.active.trans h.active
  tasks id t known := by
    obtain ⟨t', known', level, depth⟩ := h.tasks id t known
    obtain ⟨t'', known'', level', depth'⟩ := k.tasks id t' known'
    exact ⟨t'', known'', level'.trans level, depth'.trans depth⟩
  dictionary := h.dictionary.trans k.dictionary

theorem of_same (active : m'.active = m.active) (tasks : m'.tasks = m.tasks)
    (dictionary : m'.dictionary = m.dictionary) : Steady m m' where
  active := active
  tasks id t known := ⟨t, by rw [task?, tasks]; exact known, rfl, rfl⟩
  dictionary := dictionary ▸ .refl _

theorem ready (m : Machine) : Steady m m.ready := of_same rfl rfl rfl

end Steady

theorem updateTask_active (id : TaskId) (f : Task → Task) (m : Machine) :
    (updateTask id f m).active = m.active := by
  unfold updateTask
  split <;> rfl

theorem updateTask_dictionary (id : TaskId) (f : Task → Task) (m : Machine) :
    (updateTask id f m).dictionary = m.dictionary := by
  unfold updateTask
  split <;> rfl

theorem updateTask_task? (id r : TaskId) (f : Task → Task) (m : Machine) :
    (updateTask id f m).task? r = if r = id then (m.task? id).map f else m.task? r := by
  unfold updateTask
  cases known : m.task? id with
  | none =>
    by_cases same : r = id
    · rw [same]
      simp [known]
    · simp [same]
  | some t =>
    have inserted : (m.setTask id (f t)).task? r = if r = id then some (f t) else m.task? r :=
      Table.get?_insert ..
    simp [inserted]

theorem updateTask_steady (id : TaskId) {f : Task → Task} (m : Machine)
    (kept : ∀ t, (f t).level = t.level ∧ (f t).atomicDepth = t.atomicDepth) :
    Steady m (updateTask id f m) where
  active := updateTask_active id f m
  tasks r t known := by
    rw [updateTask_task?]
    by_cases same : r = id
    · subst same
      exact ⟨f t, by simp [known], kept t⟩
    · exact ⟨t, by simp [same, known], rfl, rfl⟩
  dictionary := by
    rw [updateTask_dictionary]
    exact .refl _

theorem around_steady {enter leave : Task → Task} {t : Task} (known : m.task? id = some t)
    (inner : Steady (updateTask id enter m) m')
    (back : ∀ u, u.level = (enter t).level → u.atomicDepth = (enter t).atomicDepth →
      (leave u).level = t.level ∧ (leave u).atomicDepth = t.atomicDepth) :
    Steady m (updateTask id leave m') where
  active := by rw [updateTask_active, inner.active, updateTask_active]
  tasks r u known' := by
    rw [updateTask_task?]
    by_cases same : r = id
    · subst same
      obtain rfl : t = u := Option.some.inj (known.symm.trans known')
      obtain ⟨v, there, level, depth⟩ := inner.tasks r (enter t) (by simp [updateTask_task?, known])
      exact ⟨leave v, by simp [there], back v level depth⟩
    · obtain ⟨v, there, kept⟩ := inner.tasks r u (by simp [updateTask_task?, same, known'])
      exact ⟨v, by simp [same, there], kept⟩
  dictionary := by
    have developed := inner.dictionary
    rw [updateTask_dictionary] at developed
    rw [updateTask_dictionary]
    exact developed

namespace Sound

theorem ok {a : α} (h : Steady m m') : Sound m (.ok a m') := ⟨h, trivial⟩

theorem exhausted : Sound (α := α) m .exhausted := ⟨trivial, trivial⟩

theorem halt {why : Halt} (inPlace : InPlace why) : Sound (α := α) m (.halt why m) :=
  ⟨.refl m, inPlace⟩

theorem modify {change : Machine → Machine} (h : Steady m (change m)) :
    Sound m (Action.modify change m) := ok h

theorem ofExcept {r : Except Fault α} (inPlace : ∀ fault, r = .error fault → InPlace (.fault fault)) :
    Sound m (Action.ofExcept r m) := by
  cases r with
  | ok a => exact ok (.refl m)
  | error fault => exact halt (inPlace fault rfl)

theorem bind {x : Action Machine α} {g : α → Action Machine β} {start : Machine}
    (h : Sound m (x start)) (next : ∀ a m', Steady m m' → Sound m' (g a m')) :
    Sound m ((x >>= g) start) := by
  rw [Action.bind_apply]
  cases run : x start with
  | ok a m' =>
    rw [run] at h
    have rest := next a m' h.steady
    exact ⟨rest.steady.mono fun _ => h.steady.trans, rest.inPlace⟩
  | halt why m' =>
    rw [run] at h
    exact ⟨h.steady, h.inPlace⟩
  | exhausted => exact exhausted

theorem ensuring {x : Action Machine α} {after : Machine → Machine} {start : Machine}
    (h : Sound start (x start)) (back : ∀ now, Steady start now → Steady m (after now)) :
    Sound m (x.ensuring after start) :=
  ⟨h.steady.ensuring back, h.inPlace.ensuring after⟩

theorem bracket {x : Action Machine α} {next : α → Action Machine β} {enter leave : Task → Task}
    {t : Task} (known : m.task? id = some t) (h : ∀ m, Sound m (x m))
    (back : ∀ u, u.level = (enter t).level → u.atomicDepth = (enter t).atomicDepth →
      (leave u).level = t.level ∧ (leave u).atomicDepth = t.atomicDepth)
    (rest : ∀ a m, Sound m (next a m)) :
    Sound m ((do
      Action.modify (updateTask id enter)
      let a ← x.ensuring (updateTask id leave)
      next a) m) :=
  ((h (updateTask id enter m)).ensuring fun _ inner => around_steady known inner back).bind
    fun a m' _ => rest a m'

theorem catchFault {x : Action Machine α} {handler : Fault → Action Machine α}
    (h : (x m).Leaves (Steady m)) (handled : ∀ fault m', Sound m' (handler fault m')) :
    Sound m (x.catchFault handler m) := by
  rw [Action.catchFault]
  cases run : x m with
  | ok a m' =>
    rw [run] at h
    exact ok h
  | halt why m' =>
    rw [run] at h
    cases why with
    | fault fault =>
      have caught := handled fault m'
      exact ⟨caught.steady.mono fun _ => Steady.trans h, caught.inPlace⟩
    | malformed word => exact ⟨h, by simp [Outcome.HaltsBy, InPlace]⟩
    | quit => exact ⟨h, by simp [Outcome.HaltsBy, InPlace]⟩
  | exhausted => exact exhausted

end Sound

theorem write_sound (t : Text) (m : Machine) : Sound m (write t m) := by
  unfold write
  split
  · exact .halt (by simp [InPlace])
  · exact .ok (.of_same rfl rfl rfl)

theorem reportFault_sound (word : Option Text) (fault : Fault) (m : Machine) :
    Sound m (reportFault word fault m) := .ok (.of_same rfl rfl rfl)

theorem statusOf_sound (id : TaskId) (m : Machine) : Sound m (statusOf id m) := .ok (.refl m)

theorem positionOf_sound (id : TaskId) (level : Int) (m : Machine) :
    Sound m (positionOf id level m) := by
  unfold positionOf
  split
  · exact .ok (.refl m)
  · exact .halt (by simp [InPlace])

theorem activeTask?_cases (m : Machine) :
    m.activeTask? = none ∨ ∃ id t, m.activeTask? = some (id, t) ∧ m.task? id = some t := by
  cases found : m.activeTask? with
  | none => exact .inl rfl
  | some pair =>
    obtain ⟨id, t⟩ := pair
    exact .inr ⟨id, t, rfl, (activeTask?_eq_some found).2⟩

theorem activeTask_bind (next : TaskId × Task → Action Machine α) (m : Machine)
    (found : ∀ id t, m.activeTask? = some (id, t) → m.task? id = some t → Sound m (next (id, t) m)) :
    Sound m ((activeTask >>= next) m) := by
  rw [Action.bind_apply, activeTask]
  rcases activeTask?_cases m with none | ⟨id, t, active, known⟩
  · rw [none]
    exact .halt (by simp [InPlace])
  · rw [active]
    exact found id t active known

theorem instructionAt_error {body : List Instruction} {index : Int} {fault : Fault}
    (missing : instructionAt body index = .error fault) : fault = .missingInstruction := by
  unfold instructionAt at missing
  dsimp only at missing
  split at missing
  · cases missing
  · exact (Except.error.inj missing).symm

section Bodies

variable {v : Invoker}

theorem invokeFor_sound (h : ∀ i m, Sound m (v i m)) (id : TaskId) (i : Instruction) (m : Machine) :
    Sound m (invokeFor v id i m) :=
  (h i m).bind fun _ m' _ => .modify (updateTask_steady id m' fun _ => ⟨rfl, rfl⟩)

theorem invokeEach_sound (h : ∀ i m, Sound m (v i m)) (id : TaskId) (body : List Instruction)
    (m : Machine) : Sound m (invokeEach v id body m) := by
  induction body generalizing m with
  | nil => exact .ok (.refl m)
  | cons i rest ih => exact (invokeFor_sound h id i m).bind fun _ m' _ => ih m'

theorem runByPosition_sound (h : ∀ i m, Sound m (v i m)) (id : TaskId) (level : Int)
    (body : List Instruction) (rounds : Nat) (m : Machine) :
    Sound m (runByPosition v id level body rounds m) := by
  induction rounds generalizing m with
  | zero => exact .exhausted
  | succ rounds ih =>
    refine (positionOf_sound id level m).bind fun position m _ => ?_
    by_cases inside : position ≤ body.length
    · rw [if_pos inside]
      refine (Sound.ofExcept fun fault missing => ?_).bind fun i m _ => ?_
      · rw [instructionAt_error missing]
        simp [InPlace]
      · refine (invokeFor_sound h id i m).bind fun _ m _ => ?_
        refine (positionOf_sound id level m).bind fun position m _ => ?_
        refine Sound.bind (.modify (updateTask_steady id m fun _ => ⟨rfl, rfl⟩)) fun _ m _ => ih m
    · rw [if_neg inside]
      exact .ok (.refl m)

theorem runStraight_sound (h : ∀ i m, Sound m (v i m)) (body : List Instruction) (m : Machine) :
    Sound m (runStraight v body m) := by
  refine activeTask_bind _ m fun id t _ known => ?_
  refine Sound.bracket known (invokeEach_sound h id body) (fun u level depth => ?_)
    fun _ m => statusOf_sound id m
  exact ⟨level, by rw [leaveAtomic, depth, enterAtomic]; exact Int.add_sub_cancel _ _⟩

theorem runAtLevel_sound (h : ∀ i m, Sound m (v i m)) (fuel : Nat) (body : List Instruction)
    (m : Machine) : Sound m (runAtLevel v fuel body m) := by
  refine activeTask_bind _ m fun id t _ known => ?_
  refine Sound.bracket known (runByPosition_sound h id _ body fuel) (fun u level depth => ?_)
    fun _ m => statusOf_sound id m
  exact ⟨by rw [leaveLevel, level, enterLevel]; exact Int.add_sub_cancel _ _, rfl⟩

theorem runTask_sound (h : ∀ i m, Sound m (v i m)) (id : TaskId) (m : Machine) :
    Sound m (runTask v id m) := by
  rw [runTask, Action.bind_apply]
  dsimp only [Action.get]
  cases known : m.task? id with
  | none => exact .halt (by simp [InPlace])
  | some t =>
    have inner := invokeFor_sound h id { token := t.entry.token } { m with active := some id }
    exact inner.ensuring fun now steady => ⟨rfl, steady.tasks, steady.dictionary⟩

end Bodies

theorem setTask_steady {t u : Task} (known : m.task? id = some t) (level : u.level = t.level)
    (depth : u.atomicDepth = t.atomicDepth) (globals : Variables) :
    Steady m { m.setTask id u with globals } where
  active := rfl
  tasks r s known' := by
    have inserted : ({ m.setTask id u with globals } : Machine).task? r =
        if r = id then some u else m.task? r := Table.get?_insert ..
    rw [inserted]
    by_cases same : r = id
    · subst same
      obtain rfl : t = s := Option.some.inj (known.symm.trans known')
      exact ⟨u, by simp, level, depth⟩
    · exact ⟨s, by simp [same, known'], rfl, rfl⟩
  dictionary := .refl _

theorem ofExcept_steady (r : Except Fault α) (m : Machine) :
    (Action.ofExcept r m).Leaves (Steady m) := by
  cases r <;> exact Steady.refl m

theorem runBuiltin_steady (b : Builtin) (arg : Operand) (m : Machine) :
    (runBuiltin b arg m).Leaves (Steady m) := by
  rw [runBuiltin, Action.bind_apply]
  dsimp only [Action.get]
  rcases activeTask?_cases m with none | ⟨id, t, found, known⟩
  · rw [none]
    cases b with
    | newline => exact ((write_sound _ m).bind fun _ m' _ => .ok (.refl m')).steady
    | print | fetch | store | branch | zeroBranch | toReturn | fromReturn => exact Steady.refl m
  · rw [found]
    have kept : Task.Keeps (t.level - 1) t (b.effect arg t m.globals).task :=
      Builtin.effect_keeps fun _ => .inl (by omega)
    have changed := setTask_steady known kept.level kept.atomicDepth
      (b.effect arg t m.globals).globals
    refine Outcome.Leaves.bind (P := Steady m) changed (fun _ steady => steady) fun _ m' steady => ?_
    refine ((write_sound _ m').steady.mono fun _ => steady.trans).bind (fun _ steady => steady) ?_
    exact fun _ m'' steady => (ofExcept_steady _ m'').mono fun _ => steady.trans

theorem executeWith_steady {host : Host} (harmless : host.Sound) {v : Invoker}
    (h : ∀ i m, Sound m (v i m)) (fuel : Nat) (w : Word) (i : Instruction) (m : Machine) :
    (executeWith host fuel v w i m).Leaves (Steady m) := by
  unfold executeWith
  cases w.kind with
  | primitive =>
    cases w.primitive with
    | none => exact Steady.refl m
    | some p =>
      cases p with
      | builtin b => exact runBuiltin_steady b i.arg m
      | foreign name => exact (harmless name _ (runTask_sound h) i m).steady
  | atomic => exact (runStraight_sound h w.body m).steady
  | composite => exact (runAtLevel_sound h fuel w.body m).steady
  | other label => exact Steady.refl m

/-- Faults stop at the boundary of an instruction, so that no jump is out of place beyond it. -/
theorem invoke_sound {host : Host} (harmless : host.Sound) (fuel : Nat) (i : Instruction)
    (m : Machine) : Sound m (invoke host fuel i m) := by
  induction fuel generalizing i m with
  | zero => exact .exhausted
  | succ fuel ih =>
    rw [invoke]
    refine Sound.bind (x := useDictionary) (.ok (.ready m)) fun d m _ => ?_
    cases d.findToken? i.token with
    | none => exact reportFault_sound _ _ m
    | some w =>
      have run := executeWith_steady harmless (fun i m => ih i m) fuel w i m
      refine .catchFault (run.bind (fun _ steady => steady) ?_) fun fault m =>
        reportFault_sound _ fault m
      exact fun _ _ steady => steady

section Place

variable {t : Task} {b : Builtin} {arg : Operand} {globals : Variables} {fault : Fault}
  {host : Host} {v : Invoker} {w : Word} {i : Instruction}

theorem ifWritable_ne {writable : Bool} (h : fault ≠ .jumpOutsideComposite) :
    Fault.ifWritable writable fault ≠ .jumpOutsideComposite := by
  unfold Fault.ifWritable
  split
  · exact h
  · simp

theorem jump_ne (accepts : ¬ t.Refuses) : t.jump arg ≠ .error .jumpOutsideComposite := by
  have allowed : ¬ (t.level = 0 || 0 < t.atomicDepth : Bool) = true := by
    simpa [Task.Refuses] using accepts
  intro refused
  unfold Task.jump at refused
  rw [if_neg allowed] at refused
  split at refused
  · split at refused
    · cases refused
    · dsimp only at refused
      split at refused
      · exact ifWritable_ne (by simp) (Except.error.inj refused)
      · cases refused
  · exact ifWritable_ne (by simp) (Except.error.inj refused)

theorem asName_ne (v : Value) : v.asName ≠ .error .jumpOutsideComposite := by
  intro failed
  unfold Value.asName at failed
  split at failed
  · cases failed
  · exact ifWritable_ne (by simp) (Except.error.inj failed)

theorem ofTask_ne {r : Except Fault (Value × Task)} (h : r ≠ .error .jumpOutsideComposite) :
    (Effect.ofTask t globals r).result ≠ .error .jumpOutsideComposite := by
  cases r with
  | ok moved => simp [Effect.ofTask]
  | error fault => simpa [Effect.ofTask] using h

theorem zeroBranch_ne (accepts : ¬ t.Refuses) :
    (Effect.zeroBranch arg t globals).result ≠ .error .jumpOutsideComposite := by
  unfold Effect.zeroBranch Task.pop
  cases t.stack with
  | nil => simp
  | cons flag rest =>
    dsimp only
    split
    · exact ofTask_ne (jump_ne (t := { t with stack := rest }) accepts)
    · simp

theorem effect_ne (accepts : b.isJump = true → ¬ t.Refuses) :
    (b.effect arg t globals).result ≠ .error .jumpOutsideComposite := by
  cases b with
  | print => grind [Builtin.effect, Effect.print, Task.pop]
  | newline => simp [Builtin.effect]
  | fetch => grind [Builtin.effect, Effect.fetch, Task.pop, asName_ne]
  | store => grind [Builtin.effect, Effect.store, asName_ne]
  | branch => exact ofTask_ne (jump_ne (accepts rfl))
  | zeroBranch => exact zeroBranch_ne (accepts rfl)
  | toReturn =>
    refine ofTask_ne ?_
    rw [Task.moveToReturn, Task.pop]
    cases t.stack <;> simp [bind, Except.bind]
  | fromReturn =>
    refine ofTask_ne ?_
    rw [Task.moveFromReturn, Task.popReturn]
    cases t.returns <;> simp [bind, Except.bind]

theorem runBuiltin_inPlace (found : m.activeTask? = some (id, t))
    (accepts : b.isJump = true → ¬ t.Refuses) : (runBuiltin b arg m).HaltsBy InPlace := by
  rw [runBuiltin, Action.bind_apply]
  dsimp only [Action.get]
  rw [found]
  refine Outcome.HaltsBy.bind (P := InPlace) trivial fun _ m => ?_
  refine (write_sound _ m).inPlace.bind fun _ m => ?_
  refine (Sound.ofExcept fun fault failed => ?_).inPlace
  intro misplaced
  rw [Halt.fault.inj misplaced] at failed
  exact effect_ne accepts failed

theorem executeWith_inPlace (harmless : host.Sound) (h : ∀ i m, Sound m (v i m)) (fuel : Nat)
    (found : m.activeTask? = some (id, t)) (accepts : w.isJump = true → ¬ t.Refuses) :
    (executeWith host fuel v w i m).HaltsBy InPlace := by
  unfold executeWith
  cases kind : w.kind with
  | primitive =>
    cases primitive : w.primitive with
    | none => exact (Sound.halt (m := m) (by simp [InPlace])).inPlace
    | some p =>
      cases p with
      | builtin b =>
        refine runBuiltin_inPlace found fun jumps => accepts ?_
        simp [Word.isJump, Word.isPrimary, kind, primitive, Primitive.isJump, jumps]
      | foreign name => exact (harmless name _ (runTask_sound h) i m).inPlace
  | atomic => exact (runStraight_sound h w.body m).inPlace
  | composite => exact (runAtLevel_sound h fuel w.body m).inPlace
  | other label => exact (Sound.halt (m := m) (by simp [InPlace])).inPlace

end Place

end Machine

end ThreadedCode
