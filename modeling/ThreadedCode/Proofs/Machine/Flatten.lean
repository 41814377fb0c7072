import ThreadedCode.Proofs.Dictionary.Expansion
import ThreadedCode.Proofs.Machine.Steering

/-!
A word does what the leaves of its call tree do one after the other. Between two leaves the words of
the tree change only what steers the task: levels, positions and the depth of atomic words. A leaf
depends on these only if it jumps, and then it is refused, in the tree as in a single atomic body.
-/

namespace ThreadedCode

namespace Focus

variable {d : Dictionary} {strict : Strictness} {c : Task.Control} {i : Instruction} {f g : Focus}

theorem runBuiltin_withControl {b : Builtin} {arg : Operand}
    (quiet : b.isJump → f.task.Refuses) (quiet' : b.isJump → (f.withControl c).task.Refuses) :
    runBuiltin strict b arg (f.withControl c) =
      (runBuiltin strict b arg f).mapState (withControl c) :=
  runBuiltin_of_effect (Builtin.effect_withControl quiet quiet')

theorem write_ends (strict : Strictness) (t : Text) (f : Focus) :
    ∃ r g, write strict t f = Action.ofExcept r g := by
  unfold write
  cases strict.refusal? t with
  | some failure => exact ⟨.error (.unencodable failure), f, rfl⟩
  | none => exact ⟨.ok (), _, rfl⟩

theorem runBuiltin_ends (strict : Strictness) (b : Builtin) (arg : Operand) (f : Focus) :
    ∃ r g, runBuiltin strict b arg f = Action.ofExcept r g := by
  simp only [runBuiltin, Action.get, Action.modify, Action.bind_apply]
  generalize b.effect arg f.task f.globals = e
  obtain ⟨r, g, written⟩ := write_ends strict e.output { f with task := e.task, globals := e.globals }
  rw [written]
  cases r with
  | ok _ => exact ⟨e.result, g, rfl⟩
  | error fault => exact ⟨.error fault, g, rfl⟩

theorem invoke_leaf (strict : Strictness) (leaf : d.IsLeaf i) (fuel : Nat) (f : Focus) :
    ∃ v g, invoke d strict (fuel + 1) i f = .ok v g ∧ invoke d strict 1 i f = .ok v g := by
  rcases leaf with dangling | ⟨b, primitive⟩
  · simp only [invoke, dangling]
    exact ⟨_, _, rfl, rfl⟩
  · obtain ⟨w, found, kind, code⟩ := Dictionary.builtin?_eq_some.mp primitive
    obtain ⟨r, g, ended⟩ := runBuiltin_ends strict b i.arg f
    simp only [invoke, found, executeWith, kind, code, Action.catchFault, Action.bind_apply, ended]
    cases r with
    | ok v => exact ⟨_, _, rfl, rfl⟩
    | error fault => exact ⟨_, _, rfl, rfl⟩

def leaf (d : Dictionary) (strict : Strictness) (f : Focus) (i : Instruction) : Focus :=
  match invokeFor (invoke d strict 1) i f with
  | .ok _ g => g
  | _ => f

theorem invokeFor_leaf (h : d.IsLeaf i) (fuel : Nat) (f : Focus) :
    invokeFor (invoke d strict (fuel + 1)) i f = .ok () (leaf d strict f i) := by
  obtain ⟨v, g, more, one⟩ := invoke_leaf strict h fuel f
  simp only [leaf, invokeFor, Action.bind_apply, more, one, Action.modify]

theorem leaf_congr {d' : Dictionary} (same : d'.findToken? i.token = d.findToken? i.token)
    (f : Focus) : leaf d' strict f i = leaf d strict f i := by
  have below : invoke d' strict 0 = invoke d strict 0 := funext fun _ => rfl
  have one : invoke d' strict 1 i = invoke d strict 1 i := by
    rw [invoke, invoke, same, below]
  rw [leaf, leaf, invokeFor, invokeFor, one]

theorem invoke_withControl (h : d.IsLeaf i) (quiet : d.Jumps i → f.task.Refuses)
    (quiet' : d.Jumps i → (f.withControl c).task.Refuses) :
    invoke d strict 1 i (f.withControl c) = (invoke d strict 1 i f).mapState (withControl c) := by
  rcases h with dangling | ⟨b, primitive⟩
  · simp only [invoke, dangling]
    rfl
  · obtain ⟨w, found, kind, code⟩ := Dictionary.builtin?_eq_some.mp primitive
    obtain ⟨r, g, ended⟩ := runBuiltin_ends strict b i.arg f
    have ended' : runBuiltin strict b i.arg (f.withControl c) =
        (Action.ofExcept r g).mapState (withControl c) := by
      rw [runBuiltin_withControl (fun jumps => quiet ⟨b, primitive, jumps⟩)
        (fun jumps => quiet' ⟨b, primitive, jumps⟩), ended]
    simp only [invoke, found, executeWith, kind, code, Action.catchFault, Action.bind_apply, ended,
      ended']
    cases r with
    | ok v => rfl
    | error fault => rfl

theorem leaf_withControl (h : d.IsLeaf i) (quiet : d.Jumps i → f.task.Refuses)
    (quiet' : d.Jumps i → (f.withControl c).task.Refuses) :
    leaf d strict (f.withControl c) i = (leaf d strict f i).withControl c := by
  obtain ⟨v, g, _, one⟩ := invoke_leaf strict h 0 f
  have one' : invoke d strict 1 i (f.withControl c) = .ok v (g.withControl c) := by
    rw [invoke_withControl h quiet quiet', one]
    rfl
  simp only [leaf, invokeFor, Action.bind_apply, one, one', Action.modify]
  rfl

def Follows (d : Dictionary) (strict : Strictness) (c : Task.Control) (leaves : List Instruction)
    (f g : Focus) : Prop :=
  g.withControl c = leaves.foldl (leaf d strict) (f.withControl c)

theorem Follows.append {e : Focus} {leaves more : List Instruction}
    (first : Follows d strict c leaves f g) (second : Follows d strict c more g e) :
    Follows d strict c (leaves ++ more) f e := by
  rw [Follows, List.foldl_append, ← first, second]

/-- An instruction succeeds and does what leaves do, unless it is a jump that is not refused. -/
def Does (d : Dictionary) (strict : Strictness) (c : Task.Control) (depth : Nat) (i : Instruction)
    (leaves : List Instruction) : Prop :=
  ∀ fuel, depth ≤ fuel → ∀ f : Focus, f.task.Calm → (d.Jumps i → f.task.Refuses) →
    ∃ g, invokeFor (invoke d strict fuel) i f = .ok () g ∧ Follows d strict c leaves f g

/-- A body does what leaves do, straight through where jumps are refused, and by its position where
it has none. -/
structure Runs (d : Dictionary) (strict : Strictness) (c : Task.Control) (depth : Nat)
    (body leaves : List Instruction) : Prop where
  straight : ∀ fuel, depth ≤ fuel → ∀ f : Focus, f.task.Calm → f.task.Refuses →
    ∃ g, invokeEach (invoke d strict fuel) body f = .ok () g ∧ Follows d strict c leaves f g
  byPosition : (∀ i ∈ body, ¬ d.Jumps i) → ∀ fuel rounds, depth ≤ fuel → depth ≤ rounds →
    ∀ (before : List Instruction) (level : Int) (f : Focus), f.task.Calm → f.task.level = level →
      f.task.positions.get? level = some (before.length + 1 : Int) →
      ∃ g, runByPosition (invoke d strict fuel) level (before ++ body) rounds f = .ok () g ∧
        Follows d strict c leaves f g

theorem kept_of_invokeFor {fuel : Nat} (calm : f.task.Calm) (quiet : d.Jumps i → f.task.Refuses)
    (done : invokeFor (invoke d strict fuel) i f = .ok () g) : Kept f.task.level f g := by
  have kept : (invokeFor (invoke d strict fuel) i f).Leaves (Kept f.task.level f) :=
    invokeFor_keeps (invoke_keeps d strict fuel) (Int.le_refl _)
      (Dictionary.not_moves calm quiet).elim
  rwa [done] at kept

theorem does_leaf (refused : c.level = 0 ∨ 0 < c.atomicDepth) (h : d.IsLeaf i) :
    Does d strict c 1 i [i] := by
  intro fuel le f calm quiet
  obtain ⟨fuel, rfl⟩ := Nat.exists_eq_add_of_le' le
  refine ⟨leaf d strict f i, invokeFor_leaf h fuel f, ?_⟩
  exact (leaf_withControl h quiet fun _ => refused).symm

theorem Runs.nil : Runs d strict c 1 [] [] where
  straight fuel _ f _ _ := ⟨f, rfl, rfl⟩
  byPosition _ fuel rounds _ le before level f _ _ position := by
    obtain ⟨rounds, rfl⟩ := Nat.exists_eq_add_of_le' le
    refine ⟨f, ?_, rfl⟩
    have outside : ¬ (before.length + 1 : Int) ≤ (before ++ []).length := by
      rw [List.append_nil]
      omega
    exact runByPosition_outside position outside rounds

theorem Runs.cons {n m : Nat} {inner rest leaves : List Instruction}
    (head : Does d strict c n i inner) (tail : Runs d strict c m rest leaves) :
    Runs d strict c (max n m + 1) (i :: rest) (inner ++ leaves) where
  straight fuel le f calm refuses := by
    obtain ⟨g, done, first⟩ := head fuel (by omega) f calm fun _ => refuses
    have kept := kept_of_invokeFor calm (fun _ => refuses) done
    obtain ⟨e, ended, second⟩ := tail.straight fuel (by omega) g (kept.calm.mpr calm)
      (kept.refuses.mpr refuses)
    refine ⟨e, ?_, first.append second⟩
    rw [invokeEach, Action.bind_apply, done]
    exact ended
  byPosition noJump fuel rounds le leRounds before level f calm level_eq position := by
    obtain ⟨rounds, rfl⟩ : ∃ k, rounds = k + 1 := ⟨rounds - 1, by omega⟩
    have quiet : d.Jumps i → f.task.Refuses := fun jumps =>
      absurd jumps (noJump i List.mem_cons_self)
    obtain ⟨g, done, first⟩ := head fuel (by omega) f calm quiet
    have kept := kept_of_invokeFor calm quiet done
    have still : g.task.positions.get? level = some (before.length + 1 : Int) := by
      rw [kept.below level (Int.le_of_eq level_eq.symm), position]
    -- The rest of the body begins one position further on.
    let next := g.onTask (Machine.setPosition level (before.length + 1 + 1))
    have further : next.task.positions.get? level =
        some ((before ++ [i]).length + 1 : Int) := by
      simp [next, onTask, Machine.setPosition, Table.get?_insert]
    have noJumpLater : ∀ j ∈ rest, ¬ d.Jumps j := fun j member =>
      noJump j (List.mem_cons_of_mem i member)
    obtain ⟨e, ended, second⟩ := tail.byPosition noJumpLater fuel rounds (by omega) (by omega)
      (before ++ [i]) level next (kept.calm.mpr calm) (kept.level.trans level_eq) further
    refine ⟨e, ?_, first.append second⟩
    have inside : (before.length + 1 : Int) ≤ (before ++ i :: rest).length := by
      rw [List.length_append, List.length_cons]
      omega
    rw [List.append_assoc, List.singleton_append] at ended
    rw [runByPosition_inside position inside (instructionAt_append before i rest)]
    simp only [Action.bind_apply, done, advance_eq still]
    exact ended

theorem invokeFor_of_executeWith {fuel : Nat} {w : Word} (found : d.findToken? i.token = some w)
    (done : executeWith strict fuel (invoke d strict fuel) w i f = .ok g.task.status g) :
    invokeFor (invoke d strict (fuel + 1)) i f = .ok () g := by
  simp only [invokeFor, invoke, found, Action.bind_apply, Action.catchFault, done]
  rfl

theorem does_atomic {n : Nat} {w : Word} {inner : List Instruction}
    (found : d.findToken? i.token = some w) (kind : w.kind = .atomic)
    (body : Runs d strict c n w.body inner) : Does d strict c (n + 1) i inner := by
  intro fuel le f calm _
  obtain ⟨fuel, rfl⟩ : ∃ k, fuel = k + 1 := ⟨fuel - 1, by omega⟩
  have refuses := Task.refuses_enterAtomic calm
  obtain ⟨g, done, follows⟩ := body.straight fuel (by omega) (f.onTask Machine.enterAtomic)
    (refuses.imp_right Int.le_of_lt) refuses
  refine ⟨g.onTask Machine.leaveAtomic, invokeFor_of_executeWith found ?_, follows⟩
  rw [executeWith, kind]
  simp only [runStraight, Action.bind_apply, Action.modify, Action.ensuring, done]
  rfl

theorem does_composite {n : Nat} {w : Word} {inner : List Instruction}
    (found : d.findToken? i.token = some w) (kind : w.kind = .composite)
    (noJump : ∀ j ∈ w.body, ¬ d.Jumps j) (body : Runs d strict c n w.body inner) :
    Does d strict c (n + 1) i inner := by
  intro fuel le f calm _
  obtain ⟨fuel, rfl⟩ : ∃ k, fuel = k + 1 := ⟨fuel - 1, by omega⟩
  have start : (f.onTask Machine.enterLevel).task.positions.get? (f.task.level + 1) =
      some (([] : List Instruction).length + 1 : Int) := by
    simp [onTask, Machine.enterLevel, Table.get?_insert]
  obtain ⟨g, done, follows⟩ := body.byPosition noJump fuel fuel (by omega) (by omega) []
    (f.task.level + 1) (f.onTask Machine.enterLevel) (Or.inr (Int.le_refl 0)) rfl start
  rw [List.nil_append] at done
  refine ⟨g.onTask (Machine.leaveLevel f.task), invokeFor_of_executeWith found ?_, follows⟩
  rw [executeWith, kind]
  simp only [runAtLevel, Action.get, Action.bind_apply, Action.modify, Action.ensuring, done]
  rfl

/-- A body that can be written out does what its leaves do. -/
theorem runs_of_expands (refused : c.level = 0 ∨ 0 < c.atomicDepth)
    {body leaves : List Instruction} (h : d.Expands body leaves)
    (plain : ∀ i ∈ body, ∀ w, d.findToken? i.token = some w → d.Plain w) :
    ∃ n, Runs d strict c n body leaves := by
  induction h with
  | nil => exact ⟨1, .nil⟩
  | leaf leaf tail ih =>
    obtain ⟨n, rest⟩ := ih fun j member => plain j (List.mem_cons_of_mem _ member)
    exact ⟨_, .cons (does_leaf refused leaf) rest⟩
  | @nested i w _ _ _ found runs head tail ihHead ihTail =>
    have whole : d.Plain w := plain i List.mem_cons_self w found
    obtain ⟨n, inner⟩ := ihHead fun j member u there => whole.of_calls ⟨runs, j, member, there⟩
    obtain ⟨m, rest⟩ := ihTail fun j member => plain j (List.mem_cons_of_mem _ member)
    rcases runs with atomic | composite
    · exact ⟨_, .cons (does_atomic found atomic inner) rest⟩
    · have noJump := whole.jumpFree w .refl composite
      exact ⟨_, .cons (does_composite found composite noJump inner) rest⟩

theorem runs_leaves (refused : c.level = 0 ∨ 0 < c.atomicDepth) {leaves : List Instruction}
    (all : ∀ i ∈ leaves, d.IsLeaf i) : ∃ n, Runs d strict c n leaves leaves := by
  induction leaves with
  | nil => exact ⟨1, .nil⟩
  | cons i rest ih =>
    obtain ⟨n, tail⟩ := ih fun j member => all j (List.mem_cons_of_mem i member)
    exact ⟨_, .cons (does_leaf refused (all i List.mem_cons_self)) tail⟩

end Focus

namespace Machine

theorem does_entry {d : Dictionary} {strict : Strictness} {c : Task.Control} {w : Word}
    (refused : c.level = 0 ∨ 0 < c.atomicDepth) (plain : d.Plain w) (runs : w.RunsBody)
    {token : Token} (live : d.findToken? token = some w) {leaves : List Instruction}
    (tree : d.Expands w.body leaves) :
    ∃ n, Focus.Does d strict c n { token } leaves := by
  have callees : ∀ i ∈ w.body, ∀ u, d.findToken? i.token = some u → d.Plain u :=
    fun i member u found => plain.of_calls ⟨runs, i, member, found⟩
  obtain ⟨n, body⟩ : ∃ n, Focus.Runs d strict c n w.body leaves :=
    Focus.runs_of_expands refused tree callees
  rcases runs with atomic | composite
  · exact ⟨n + 1, Focus.does_atomic live atomic body⟩
  · exact ⟨n + 1, Focus.does_composite live composite (plain.jumpFree w .refl composite) body⟩

theorem run_of_does {m : Machine} {id : TaskId} {t : Task} (known : m.task? id = some t)
    (ground : t.level = 0) (own : m.dictionary.OnlyBuiltins) (host : Host) {c : Task.Control}
    {leaves : List Instruction} {n fuel : Nat}
    (does : Focus.Does m.dictionary m.strict c n { token := t.entry.token } leaves)
    (le : n ≤ fuel) :
    ∃ m', run host fuel id m = .ok () m' ∧ m'.results? id =
      some (leaves.foldl (Focus.leaf m.dictionary m.strict)
        ((Focus.of m t).withControl c)).results := by
  obtain ⟨g, done, follows⟩ := does fuel le (Focus.of m t) (Or.inl ground) fun _ => Or.inl ground
  rw [← follows, Focus.results_withControl]
  refine ⟨settle m id t.name g, ?_, results?_settle m id t.name g⟩
  rw [run_eq known own, done]
  rfl

/-- Flattening keeps what a run does. Where no word that an entry word reaches is malformed or calls
itself, and no composite one jumps, the leaves of the call tree can be put into one atomic word. A
task at level zero that runs this word instead comes to the same stacks, variables and status, and
writes the same output and diagnostics. The word may not have the token of one of the leaves, which
would not be that leaf any more. -/
theorem run_flattened {m : Machine} {id : TaskId} {t : Task} {w : Word}
    (known : m.task? id = some t) (ground : t.level = 0)
    (live : m.dictionary.findToken? t.entry.token = some w) (secondary : w.isSecondary)
    (own : m.dictionary.OnlyBuiltins) (plain : m.dictionary.Plain w) (host : Host) :
    (∃ leaves, m.dictionary.Expands w.body leaves) ∧
      ∀ leaves, m.dictionary.Expands w.body leaves →
        ∀ (flat : Word) (d : Dictionary), flat.kind = .atomic → flat.body = leaves →
          (∀ i ∈ leaves, i.token ≠ flat.token) →
          d.words = m.dictionary.words.insert flat.token flat →
          let flattened := { m with built := some d }.setTask id { t with entry := flat }
          ∃ results n, ∀ fuel, n ≤ fuel →
            (∃ m', run host fuel id m = .ok () m' ∧ m'.results? id = some results) ∧
              ∃ m', run host fuel id flattened = .ok () m' ∧ m'.results? id = some results := by
  have runs : w.RunsBody := by
    refine (plain.wellFormed w .refl).resolve_right fun primary => ?_
    simp [Word.isSecondary, Word.isPrimary, primary.1] at secondary
  refine ⟨plain.exists_expands own (Dictionary.mem_values_of_findToken? live) runs, ?_⟩
  intro leaves tree flat d kind body fresh words flattened
  let c := t.control
  have refused : c.level = 0 ∨ 0 < c.atomicDepth := Or.inl ground
  have foundFlat : d.findToken? flat.token = some flat := Dictionary.findToken?_inserted words
  have foundLeaf : ∀ i ∈ leaves, d.findToken? i.token = m.dictionary.findToken? i.token :=
    fun i member => Dictionary.findToken?_of_ne words (fresh i member)
  have ownFlat : d.OnlyBuiltins := own.insert words (by simp [Word.isForeign, kind])
  have allLeaves : ∀ i ∈ leaves, d.IsLeaf i := fun i member =>
    (Dictionary.isLeaf_congr (foundLeaf i member)).mpr (tree.isLeaf i member)
  obtain ⟨n, does⟩ : ∃ n, Focus.Does m.dictionary m.strict c n { token := t.entry.token } leaves :=
    does_entry refused plain runs live tree
  obtain ⟨k, straight⟩ : ∃ k, Focus.Runs d m.strict c k leaves leaves :=
    Focus.runs_leaves refused allLeaves
  have doesFlat : Focus.Does d m.strict c (k + 1) { token := flat.token } leaves :=
    Focus.does_atomic foundFlat kind (by rw [body]; exact straight)
  -- Both runs begin alike but for what steers them, and the leaves lead both to the same end.
  let start := (Focus.of m t).withControl c
  let finish := leaves.foldl (Focus.leaf m.dictionary m.strict) start
  have finishFlat : leaves.foldl (Focus.leaf d m.strict) start = finish :=
    List.foldl_ext _ _ start fun f i member => Focus.leaf_congr (foundLeaf i member) f
  refine ⟨finish.results, max n (k + 1), fun fuel le => ⟨?_, ?_⟩⟩
  · exact run_of_does known ground own host does (by omega)
  · have knownFlat : flattened.task? id = some { t with entry := flat } := by
      simp [flattened, setTask, task?, Table.get?_insert]
    rw [← finishFlat]
    exact run_of_does knownFlat ground ownFlat host doesFlat (by omega)

theorem run_flattened_nested :
    let newline := Word.ofBuiltin "cr" 1 .newline
    let inner := Word.secondary "inner" 2 .atomic [⟨99, .absent⟩, ⟨1, .absent⟩]
    let outer := Word.secondary "outer" 3 .composite [⟨2, .absent⟩, ⟨1, .absent⟩]
    let flat := Word.secondary "flat" 4 .atomic [⟨99, .absent⟩, ⟨1, .absent⟩, ⟨1, .absent⟩]
    let d : Dictionary :=
      { Dictionary.empty 4 with words := ⟨[(1, newline), (2, inner), (3, outer)]⟩ }
    let t : Task := { name := "main", entry := outer }
    let m : Machine := { built := some d, tasks := ⟨[(0, t)]⟩, nextTask := 1 }
    let flattened := { m with built := some { d with words := d.words.insert 4 flat } }.setTask 0
      { t with entry := flat }
    let host : Host := fun _ _ _ => pure .null
    m.task? 0 = some t ∧ t.level = 0 ∧ m.dictionary.findToken? 3 = some outer ∧
      outer.isSecondary ∧ d.OnlyBuiltins ∧ d.Plain outer ∧ d.Expands outer.body flat.body ∧
      ∃ results n, ∀ fuel, n ≤ fuel →
        (∃ m', run host fuel 0 m = .ok () m' ∧ m'.results? 0 = some results) ∧
          ∃ m', run host fuel 0 flattened = .ok () m' ∧ m'.results? 0 = some results := by
  intro newline inner outer flat d t m flattened host
  have own : d.OnlyBuiltins := Dictionary.onlyBuiltins_of_values (by decide)
  have descends : d.Descends := by decide
  have plain : d.Plain outer := descends.plain rfl
  have innerLeaves : d.Expands inner.body [⟨99, .absent⟩, ⟨1, .absent⟩] :=
    .leaf (Or.inl rfl) (.leaf (Or.inr ⟨.newline, rfl⟩) .nil)
  have tree : d.Expands outer.body flat.body :=
    .nested (w := inner) rfl (Or.inl rfl) innerLeaves (.leaf (Or.inr ⟨.newline, rfl⟩) .nil)
  have known : m.task? 0 = some t := rfl
  have live : m.dictionary.findToken? t.entry.token = some outer := rfl
  have run := run_flattened known rfl live rfl own plain host
  exact ⟨known, rfl, live, rfl, own, plain, tree,
    run.2 flat.body tree flat _ rfl rfl (by decide) rfl⟩

end Machine

end ThreadedCode
