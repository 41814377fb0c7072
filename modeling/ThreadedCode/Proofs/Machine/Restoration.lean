import ThreadedCode.Proofs.Machine.Frame
import ThreadedCode.Proofs.Machine.Lifting

/-!
The control state after an instruction. Whatever the instruction does, and whether it succeeds, fails
or is stopped by a malformed word on the way, the level and the depth of atomic words are put back,
and so are the positions of all levels. Only an instruction that is itself a jump, in a composite
body with no atomic word in progress, may leave another position for its level, and an atomic word
only where the depth is below zero.
-/

namespace ThreadedCode

namespace Task

/-- The control states before and after an instruction that may have moved the position of its level,
or may not. -/
structure Restores (moved : Prop) (t u : Task) : Prop where
  level : u.level = t.level
  atomicDepth : u.atomicDepth = t.atomicDepth
  contains : ∀ k, u.positions.contains k = t.positions.contains k
  position : ∀ k, u.positions.get? k = t.positions.get? k ∨ k = t.level ∧ moved

variable {moved : Prop} {t u : Task}

theorem Keeps.above_eq {n : Int} (h : Keeps n t u)
    (top : ∀ k, t.level < k → t.positions.get? k = none) {k : Int} (lt : t.level < k) :
    u.positions.get? k = t.positions.get? k := by
  rcases h.above k lt with gone | same
  · rw [gone, top k lt]
  · exact same

theorem Keeps.restores (h : Keeps t.level t u)
    (top : ∀ k, t.level < k → t.positions.get? k = none) : Restores moved t u := by
  have same : ∀ k, u.positions.get? k = t.positions.get? k := fun k => by
    by_cases lt : t.level < k
    · exact h.above_eq top lt
    · exact h.below k (by omega)
  exact ⟨h.level, h.atomicDepth, fun k => by rw [Table.contains, same k, Table.contains],
    fun k => Or.inl (same k)⟩

theorem Keeps.restores_of_moved (h : Keeps (t.level - 1) t u)
    (top : ∀ k, t.level < k → t.positions.get? k = none) (there : moved) : Restores moved t u := by
  have same : ∀ k, k ≠ t.level → u.positions.get? k = t.positions.get? k := fun k other => by
    by_cases lt : t.level < k
    · exact h.above_eq top lt
    · exact h.below k (by omega)
  refine ⟨h.level, h.atomicDepth, fun k => ?_, fun k => ?_⟩
  · by_cases own : k = t.level
    · rw [own, h.slot]
    · rw [Table.contains, same k own, Table.contains]
  · by_cases own : k = t.level
    · exact Or.inr ⟨own, there⟩
    · exact Or.inl (same k own)

end Task

theorem Focus.invoke_restores (d : Dictionary) (strict : Strictness) (fuel : Nat) (i : Instruction)
    {f : Focus} (top : ∀ k, f.task.level < k → f.task.positions.get? k = none) :
    (invoke d strict fuel i f).Leaves fun g => f.task.Restores (d.Moves i f.task) g.task := by
  by_cases moves : d.Moves i f.task
  · have kept := invoke_keeps d strict fuel (f.task.level - 1) i f (by omega) fun _ => by omega
    exact kept.mono fun g kept => Task.Keeps.restores_of_moved kept top moves
  · have kept := invoke_keeps d strict fuel f.task.level i f (Int.le_refl _) moves.elim
    exact kept.mono fun g kept => Task.Keeps.restores kept top

namespace Machine

variable {m : Machine} {id : TaskId} {t : Task}

/-- No instruction disturbs the control state of the body that it stands in. A task is active that
has no position above its level. Then after every instruction that comes to an end, with a value,
with a fault of its own or of an instruction below it, or with a malformed word that stops them all,
the level, the depth and the positions are what they were, but for the position of the level after a
jump that is no part of an atomic word. With a depth below zero, which is no number of words, atomic
words may move that position, too. -/
theorem invoke_restores_control (h : m.activeTask? = some (id, t)) (own : m.dictionary.OnlyBuiltins)
    (top : ∀ k, t.level < k → t.positions.get? k = none) (host : Host) (fuel : Nat)
    (i : Instruction) :
    (invoke host fuel i m).Leaves fun m' => ∃ t', m'.activeTask? = some (id, t') ∧
      t'.level = t.level ∧ t'.atomicDepth = t.atomicDepth ∧
      (∀ k, t'.positions.contains k = t.positions.contains k) ∧
      ∀ k, t'.positions.get? k = t.positions.get? k ∨
        k = t.level ∧ (m.dictionary.Jumps i ∧ t.atomicDepth ≤ 0 ∨
          m.dictionary.RunsStraight i ∧ t.atomicDepth < 0) := by
  obtain ⟨active, known⟩ := activeTask?_eq_some h
  have restored := Focus.invoke_restores m.dictionary m.strict fuel i (f := Focus.of m t) top
  have lifted := invoke_put active own host fuel i (Focus.of m t)
  rw [Focus.put_of known] at lifted
  rw [lifted]
  refine Outcome.Leaves.of_mapState (restored.mono fun g restored => ?_)
  refine ⟨g.task, activeTask?_put active g, restored.level, restored.atomicDepth,
    restored.contains, fun k => (restored.position k).imp_right fun moved => ?_⟩
  exact ⟨moved.1, moved.2.depth⟩

theorem invoke_restores_control_malformed :
    let branch := Word.ofBuiltin "branch" 5 .branch
    let broken := Word.secondary "broken" 9 (.other "bogus") []
    let inner :=
      Word.secondary "inner" 10 .composite [⟨5, .value (.int 2)⟩, ⟨99, .absent⟩, ⟨9, .absent⟩]
    let outer :=
      Word.secondary "outer" 11 .atomic [⟨5, .value (.int 4)⟩, ⟨10, .absent⟩, ⟨5, .absent⟩]
    let d : Dictionary :=
      { Dictionary.empty 12 with
        words := ⟨[(5, branch), (9, broken), (10, inner), (11, outer)]⟩ }
    let t : Task := { name := "main", entry := outer, level := 1, positions := ⟨[(1, 3)]⟩ }
    let m : Machine := { built := some d, tasks := ⟨[(0, t)]⟩, nextTask := 1, active := some 0 }
    let host : Host := fun _ _ _ => pure .null
    m.activeTask? = some (0, t) ∧ m.dictionary.OnlyBuiltins ∧
      (∀ k, t.level < k → t.positions.get? k = none) ∧
      ∃ m' t', invoke host 4 ⟨11, .absent⟩ m =
          .halt (.malformed (.badClass "broken" "bogus")) m' ∧
        m'.activeTask? = some (0, t') ∧ t'.level = 1 ∧ t'.atomicDepth = 0 ∧
        ∀ k, t'.positions.get? k = t.positions.get? k := by
  intro branch broken inner outer d t m host
  have active : m.activeTask? = some (0, t) := rfl
  have own : m.dictionary.OnlyBuiltins := Dictionary.onlyBuiltins_of_values (by decide)
  have top : ∀ k, t.level < k → t.positions.get? k = none := fun k lt => by
    have other : 1 ≠ k := Int.ne_of_lt lt
    simp [t, Table.get?, other]
  have quiet : ¬ m.dictionary.Jumps ⟨11, .absent⟩ := by decide
  have halted : (invoke host 4 ⟨11, .absent⟩ m).why? =
      some (.malformed (.badClass "broken" "bogus")) := by decide +kernel
  -- What had to be computed is known; from here on the machine is no more than a name.
  clear_value m
  obtain ⟨m', stopped, t', active', level, depth, _, position⟩ :=
    (invoke_restores_control active own top host 4 ⟨11, .absent⟩).of_halted halted
  refine ⟨active, own, top, m', t', stopped, active', level, depth, fun k => ?_⟩
  refine (position k).resolve_right fun moved => ?_
  exact moved.2.elim (fun jumped => quiet jumped.1) fun below => absurd below.2 (Int.lt_irrefl 0)

/-- With a depth of one less than none, an atomic word is no protection against the jump in it. -/
theorem atomic_word_moves_position :
    let branch := Word.ofBuiltin "branch" 5 .branch
    let leap := Word.secondary "leap" 9 .atomic [⟨5, .value (.int 4)⟩]
    let d : Dictionary := { Dictionary.empty 10 with words := ⟨[(5, branch), (9, leap)]⟩ }
    let t : Task :=
      { name := "main", entry := leap, level := 1, positions := ⟨[(1, 3)]⟩, atomicDepth := -1 }
    let m : Machine := { built := some d, tasks := ⟨[(0, t)]⟩, nextTask := 1, active := some 0 }
    let host : Host := fun _ _ _ => pure .null
    m.activeTask? = some (0, t) ∧ m.dictionary.OnlyBuiltins ∧
      (∀ k, t.level < k → t.positions.get? k = none) ∧ t.positions.contains t.level ∧
      ¬ m.dictionary.Jumps ⟨9, .absent⟩ ∧
      ∃ v m' t', invoke host 2 ⟨9, .absent⟩ m = .ok v m' ∧ m'.activeTask? = some (0, t') ∧
        t'.positions.get? t.level ≠ t.positions.get? t.level := by
  intro branch leap d t m host
  have top : ∀ k, t.level < k → t.positions.get? k = none := fun k lt => by
    have other : 1 ≠ k := Int.ne_of_lt lt
    simp [t, Table.get?, other]
  refine ⟨rfl, Dictionary.onlyBuiltins_of_values (by decide), top, rfl, by decide, ?_⟩
  exact ⟨_, _, _, rfl, rfl, by decide⟩

end Machine

end ThreadedCode
