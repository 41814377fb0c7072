import ThreadedCode.Machine.Fuel
import ThreadedCode.Proofs.Machine.Boundary
import ThreadedCode.Proofs.Machine.Way

/-!
A body that does not jump itself may be run straight through or by its position, to the same end. The
words in it are then executed at other levels and at other depths of atomic words, and none of them
can tell: only the number of a level may differ, and that is neither written nor left for others to
see.

The comparison is between two dictionaries, in which words without jumps may be of either class.
-/

namespace ThreadedCode

namespace Focus

variable {d d' : Dictionary} {strict : Strictness} {f g : Focus} {n n' : Nat} {w w' : Word}
  {i : Instruction}

theorem executeWith_recast (same : d.Reclassified d')
    (h : Invoker.Tracks d (invoke d strict n) (invoke d' strict n')) (recast : d.Recast w w')
    (enough : w.body.length < n') (like : Like f g)
    (counted : (Machine.enterAtomic f.task).Counted)
    (counted' : (Machine.enterAtomic g.task).Counted) (i i' : Instruction) :
    (executeWith strict n (invoke d strict n) w i f).Matched Like
      (executeWith strict n' (invoke d' strict n') w' i' g) := by
  obtain ⟨way, enter, leave, steers, steers', fits, _, run⟩ :=
    Way.exists_way recast.runs counted n
  obtain ⟨way', enter', leave', steers₁, steers₁', fits', lasts, run'⟩ :=
    Way.exists_way recast.runs' counted' n'
  rw [run, run']
  rw [recast.body_eq] at lasts ⊢
  exact status_matched (Way.go_matched same h recast.free (like.onTask steers steers₁) fits fits'
    (lasts enough)) steers' steers₁'

theorem executeWith_matched (same : d.Reclassified d')
    (h : Invoker.Tracks d (invoke d strict n) (invoke d' strict n')) (le : n ≤ n')
    (found : d.findToken? i.token = some w) (like : Like f g) (counted : f.task.Counted)
    (counted' : g.task.Counted) (together : d.Jumps i → f.task.Abreast g.task) :
    (executeWith strict n (invoke d strict n) w i f).Matched Like
      (executeWith strict n' (invoke d' strict n') w i g) := by
  unfold executeWith
  cases hk : w.kind with
  | primitive =>
    cases hp : w.primitive with
    | none => exact ⟨rfl, like⟩
    | some p =>
      cases p with
      | builtin b =>
        have found := Dictionary.builtin?_eq_some.mpr ⟨w, found, hk, hp⟩
        exact runBuiltin_matched like (fun jumps => together ⟨b, found, jumps⟩) i.arg
      | foreign name => exact ⟨rfl, like⟩
  | atomic =>
    exact runStraight_matched h (invoke_keeps d strict n) (invoke_keeps d' strict n') w.body like
      counted counted'
  | composite => exact runAtLevel_matched same h le like counted counted'
  | other label => exact ⟨rfl, like⟩

theorem reportFault_matched (like : Like f g) (word : Option Text) (fault : Fault) :
    (reportFault word fault f).Matched Like (reportFault word fault g) := by
  obtain ⟨c, rfl⟩ := like
  exact ⟨rfl, c, rfl⟩

/-- Instructions do the same under both dictionaries, with fuel enough for the longest body that is
run by its position on one side only. -/
theorem invoke_tracks (same : d.Reclassified d') (strict : Strictness) (le : n + d.totalLength < n') :
    Invoker.Tracks d (invoke d strict n) (invoke d' strict n') := by
  -- on the depth of calls on the left, which the right never has less fuel for
  induction n generalizing n' with
  | zero => exact fun _ _ _ _ _ _ _ => trivial
  | succ n ih =>
    obtain ⟨n', rfl⟩ := Nat.exists_eq_add_of_le' (Nat.one_le_of_lt le)
    have h : Invoker.Tracks d (invoke d strict n) (invoke d' strict n') := ih (by omega)
    intro i f g like counted counted' together
    rw [invoke, invoke]
    rcases same i.token with eq | ⟨w, w', found, found', name, recast⟩
    · rw [eq]
      cases found : d.findToken? i.token with
      | none => exact reportFault_matched like _ _
      | some w =>
        refine Outcome.Matched.catchFault ?_ fun fault f g like => reportFault_matched like _ _
        refine (executeWith_matched same h (by omega) found like counted counted' together).bind
          (fun _ _ like => like) ?_
        exact fun v f g like => ⟨rfl, like⟩
    · have enough := Dictionary.length_le_totalLength found
      rw [found, found']
      dsimp only
      rw [name]
      refine Outcome.Matched.catchFault ?_ fun fault f g like => reportFault_matched like _ _
      refine (executeWith_recast same h recast (by omega) like counted.enterAtomic
        counted'.enterAtomic i i).bind
        (fun _ _ like => like) ?_
      exact fun v f g like => ⟨rfl, like⟩

end Focus

namespace Machine

/-- How an execution ends: its value or what halted it, and what it leaves for others to see. -/
structure Ending where
  result : Except Halt Value
  results : Results

def ending? (id : TaskId) : Outcome Machine Value → Option Ending
  | .ok v m => (m.results? id).map (⟨.ok v, ·⟩)
  | .halt why m => (m.results? id).map (⟨.error why, ·⟩)
  | .exhausted => none

variable {m m' : Machine} {id : TaskId} {t : Task} {d d' : Dictionary} {w w' : Word}

theorem ending?_of_matched {o o' : Outcome Focus Value} {e : Ending} (h : o.Matched Focus.Like o')
    (ended : ending? id (o.mapState (Focus.put m id)) = some e) :
    ending? id (o'.mapState (Focus.put m' id)) = some e := by
  cases o <;> cases o'
  case ok.ok v f v' g =>
    obtain ⟨rfl, like⟩ := h
    simpa only [Outcome.mapState, ending?, results?_put, like.results] using ended
  case halt.halt why f why' g =>
    obtain ⟨rfl, like⟩ := h
    simpa only [Outcome.mapState, ending?, results?_put, like.results] using ended
  case exhausted.exhausted | exhausted.ok | exhausted.halt => cases ended
  all_goals exact h.elim

theorem execute_ends_recast (h : m.activeTask? = some (id, t))
    (same : m' = { m with built := m'.built }) (own : m.dictionary.OnlyBuiltins)
    (alike : m.dictionary.Reclassified m'.dictionary) (counted : (enterAtomic t).Counted)
    (recast : m.dictionary.Recast w w') (host host' : Host) (i i' : Instruction) {n : Nat}
    {e : Ending} (ended : ending? id (execute host n w i m) = some e) :
    ∃ k, ∀ n, k ≤ n → ending? id (execute host' n w' i' m') = some e := by
  obtain ⟨active, known⟩ := activeTask?_eq_some h
  have active' : m'.active = some id := by rw [same]; exact active
  have strict : m'.strict = m.strict := by rw [same]
  have known' : (Focus.of m t).put m' id = m' := by
    rw [same]
    exact Focus.put_of (m := { m with built := m'.built }) known
  obtain ⟨m₁, run⟩ := executeWith_put active own host n recast.runs.isForeign i (Focus.of m t)
  rw [Focus.put_of known] at run
  rw [execute, run] at ended
  refine ⟨n + m.dictionary.totalLength + w.body.length + 1, fun n' le => ?_⟩
  have tracks : Focus.Invoker.Tracks m.dictionary (Focus.invoke m.dictionary m.strict n)
      (Focus.invoke m'.dictionary m.strict n') := Focus.invoke_tracks alike m.strict (by omega)
  obtain ⟨m₁', run'⟩ := executeWith_put active' (alike.onlyBuiltins own) host' n'
    recast.runs'.isForeign i' (Focus.of m t)
  rw [known', strict] at run'
  rw [execute, run']
  exact ending?_of_matched (Focus.executeWith_recast alike tracks recast (by omega) (.refl _)
    counted counted i i') ended

theorem ending?_of_le {host : Host} (monotone : host.IsMonotone) {i : Instruction} {n n' : Nat}
    (le : n ≤ n') {e : Ending} (ended : ending? id (execute host n w i m) = some e) :
    ending? id (execute host n' w i m) = some e := by
  have refines : Refines (execute host n w i) (execute host n' w i) :=
    executeWith_refines monotone (invoke_refines monotone le) le w i
  rw [refines m fun spent => ?_, ended]
  rw [spent] at ended
  cases ended

theorem ending?_straight (h : m.activeTask? = some (id, t)) (own : m.dictionary.OnlyBuiltins)
    (atomic : w.kind = .atomic) (host : Host) (i : Instruction) {n : Nat} {e : Ending}
    (ended : ending? id (execute host n w i m) = some e) :
    (∃ v, e.result = .ok v) ∨ ∃ word, e.result = .error (.malformed word) := by
  obtain ⟨active, known⟩ := activeTask?_eq_some h
  have runs : w.RunsBody := Or.inl atomic
  obtain ⟨m₁, run⟩ := executeWith_put active own host n runs.isForeign i (Focus.of m t)
  have halts : (Focus.executeWith m.strict n (Focus.invoke m.dictionary m.strict n) w i
      (Focus.of m t)).HaltsBy Halt.IsMalformed := by
    rw [Focus.executeWith, atomic]
    exact Focus.runStraight_halts (Focus.invoke_halts m.dictionary m.strict n) w.body _
  rw [Focus.put_of known] at run
  rw [execute, run] at ended
  cases hx : Focus.executeWith m.strict n (Focus.invoke m.dictionary m.strict n) w i
      (Focus.of m t) with
  | ok v f =>
    rw [hx, Outcome.mapState, ending?, results?_put] at ended
    cases ended
    exact Or.inl ⟨v, rfl⟩
  | halt why f =>
    rw [hx] at halts
    obtain ⟨word, rfl⟩ := halts
    rw [hx, Outcome.mapState, ending?, results?_put] at ended
    cases ended
    exact Or.inr ⟨word, rfl⟩
  | exhausted =>
    rw [hx] at ended
    cases ended

/-- A body that does not jump itself may be run either way. A task is active, and if it stands in a
composite body, then two more atomic words are enough for jumps to be refused. An atomic and a
composite word have the same body, and the words in it may be anything, also words that call these
two again: in the dictionary, too, words with such bodies may be of either class. Where the execution
of one of the two words comes to an end, that of the other comes to the same one: to the same value,
or halted by the same malformed word, with the same stacks, variables, status, output and
diagnostics. -/
theorem execute_reclassified (h : m.activeTask? = some (id, t))
    (same : m' = { m with built := m'.built }) (own : m.dictionary.OnlyBuiltins)
    (alike : m.dictionary.Reclassified m'.dictionary) (levels : 0 ≤ t.level)
    (depths : t.level = 0 ∨ -1 ≤ t.atomicDepth) {straight placed : Word} (atomic : straight.kind = .atomic)
    (composite : placed.kind = .composite) (body : placed.body = straight.body)
    (free : ∀ i ∈ straight.body, ¬ m.dictionary.Jumps i) (host : Host) (i : Instruction) :
    (∀ n e, ending? id (execute host n straight i m) = some e →
      ∃ k, ∀ n, k ≤ n → ending? id (execute host n placed i m') = some e) ∧
    (∀ n e, ending? id (execute host n placed i m') = some e →
      ∃ k, ∀ n, k ≤ n → ending? id (execute host n straight i m) = some e) ∧
    ∀ n e, ending? id (execute host n straight i m) = some e →
      (∃ v, e.result = .ok v) ∨ ∃ word, e.result = .error (.malformed word) := by
  have counted : (enterAtomic t).Counted :=
    ⟨levels, depths.imp_right fun le => Int.add_le_add_right le 1⟩
  have recast : m.dictionary.Recast straight placed := ⟨Or.inl atomic, Or.inr composite, body, free⟩
  have h' : m'.activeTask? = some (id, t) := by rw [same]; exact h
  have back : m = { m' with built := m.built } := by rw [same]
  refine ⟨fun n e ended => ?_, fun n e ended => ?_, fun n e ended => ?_⟩
  · exact execute_ends_recast h same own alike counted recast host host i i ended
  · exact execute_ends_recast h' back (alike.onlyBuiltins own) alike.symm counted
      (alike.recast_symm recast) host host i i ended
  · exact ending?_straight h own atomic host i ended

/-- A word that calls itself again from another one, unless that one jumps past the call, and that
goes on with a refused jump and an unknown word, until a malformed word stops it. -/
theorem execute_reclassified_recursive :
    let branch := Word.ofBuiltin "branch" 5 .branch
    let zeroBranch := Word.ofBuiltin "0branch" 6 .zeroBranch
    let broken := Word.secondary "broken" 9 (.other "bogus") []
    let again := Word.secondary "again" 10 .composite [⟨6, .value (.int 2)⟩, ⟨12, .absent⟩]
    let refused := Word.secondary "refused" 11 .atomic [⟨5, .value (.int 1)⟩]
    let straight :=
      Word.secondary "main" 12 .atomic [⟨10, .absent⟩, ⟨11, .absent⟩, ⟨99, .absent⟩, ⟨9, .absent⟩]
    let placed : Word := { straight with kind := .composite }
    let base : Dictionary :=
      { Dictionary.empty 13 with
        words := ⟨[(5, branch), (6, zeroBranch), (9, broken), (10, again), (11, refused)]⟩ }
    let d (main : Word) : Dictionary := { base with words := base.words.insert 12 main }
    let t : Task :=
      { name := "main", entry := straight, stack := [.int 1, .flag false], level := 1,
        positions := ⟨[(1, 3)]⟩ }
    let m (main : Word) : Machine :=
      { built := some (d main), tasks := ⟨[(0, t)]⟩, nextTask := 1, active := some 0 }
    let host : Host := fun _ _ _ => pure .null
    (m straight).activeTask? = some (0, t) ∧ (m straight).dictionary.OnlyBuiltins ∧
      (m straight).dictionary.Reclassified (m placed).dictionary ∧ 0 ≤ t.level ∧
      (t.level = 0 ∨ -1 ≤ t.atomicDepth) ∧ (∀ i ∈ straight.body, ¬ (m straight).dictionary.Jumps i) ∧
      ∃ e word k, e.result = .error (.malformed word) ∧
        ∀ n, k ≤ n → ending? 0 (execute host n placed ⟨12, .absent⟩ (m placed)) = some e := by
  intro branch zeroBranch broken again refused straight placed base d t m host
  have active : (m straight).activeTask? = some (0, t) := rfl
  have own : (m straight).dictionary.OnlyBuiltins := Dictionary.onlyBuiltins_of_values (by decide)
  have free : ∀ i ∈ straight.body, ¬ (m straight).dictionary.Jumps i := by decide
  have atomic : straight.kind = .atomic := rfl
  have composite : placed.kind = .composite := rfl
  have inserted : ∀ main, (m main).dictionary.words = base.words.insert 12 main := fun _ => rfl
  have recast : (m straight).dictionary.Recast straight placed :=
    ⟨Or.inl atomic, Or.inr composite, rfl, free⟩
  have alike : (m straight).dictionary.Reclassified (m placed).dictionary :=
    recast.reclassified rfl rfl (inserted straight) (inserted placed)
  have levels : 0 ≤ t.level := by decide
  have depths : t.level = 0 ∨ -1 ≤ t.atomicDepth := by decide
  have halted : ((ending? 0 (execute host 8 straight ⟨12, .absent⟩ (m straight))).any
      fun e => e.result.toOption.isNone) = true := by decide +kernel
  obtain ⟨e, ended, failed⟩ := (Option.any_eq_true _ _).mp halted
  have run := execute_reclassified active rfl own alike levels depths atomic composite rfl free host
    ⟨12, .absent⟩
  obtain ⟨k, enough⟩ := run.1 8 e ended
  obtain ⟨word, malformed⟩ := (run.2.2 8 e ended).resolve_left fun value => by
    obtain ⟨v, ok⟩ := value
    rw [ok] at failed
    cases failed
  exact ⟨active, own, alike, levels, depths, free, e, word, k, malformed, enough⟩

/-- With a depth of two less than none, a jump in an atomic word of the body is refused where the body
is run by its position, but moves the position that the task stands at where the body is run straight
through. -/
theorem reclassified_execution_differs :
    let branch := Word.ofBuiltin "branch" 5 .branch
    let leap := Word.secondary "leap" 9 .atomic [⟨5, .value (.int 4)⟩]
    let straight := Word.secondary "main" 10 .atomic [⟨9, .absent⟩]
    let placed : Word := { straight with kind := .composite }
    let base : Dictionary :=
      { Dictionary.empty 11 with words := ⟨[(5, branch), (9, leap)]⟩ }
    let d (main : Word) : Dictionary := { base with words := base.words.insert 10 main }
    let t : Task :=
      { name := "main", entry := leap, level := 1, positions := ⟨[(1, 3)]⟩, atomicDepth := -2 }
    let m (main : Word) : Machine :=
      { built := some (d main), tasks := ⟨[(0, t)]⟩, nextTask := 1, active := some 0 }
    let host : Host := fun _ _ _ => pure .null
    (m straight).activeTask? = some (0, t) ∧ (m straight).dictionary.OnlyBuiltins ∧
      (m straight).dictionary.Reclassified (m placed).dictionary ∧ 0 ≤ t.level ∧
      (∀ k, t.level < k → t.positions.get? k = none) ∧
      (∀ i ∈ straight.body, ¬ (m straight).dictionary.Jumps i) ∧
      ∃ e, ending? 0 (execute host 3 straight ⟨10, .absent⟩ (m straight)) = some e ∧
        ¬ ∃ k, ∀ n, k ≤ n → ending? 0 (execute host n placed ⟨10, .absent⟩ (m placed)) = some e := by
  intro branch leap straight placed base d t m host
  have active : (m straight).activeTask? = some (0, t) := rfl
  have own : (m straight).dictionary.OnlyBuiltins := Dictionary.onlyBuiltins_of_values (by decide)
  have free : ∀ i ∈ straight.body, ¬ (m straight).dictionary.Jumps i := by decide
  have inserted : ∀ main, (m main).dictionary.words = base.words.insert 10 main := fun _ => rfl
  have recast : (m straight).dictionary.Recast straight placed :=
    ⟨Or.inl rfl, Or.inr rfl, rfl, free⟩
  have alike : (m straight).dictionary.Reclassified (m placed).dictionary :=
    recast.reclassified rfl rfl (inserted straight) (inserted placed)
  have top : ∀ k, t.level < k → t.positions.get? k = none := fun k lt => by
    have other : 1 ≠ k := Int.ne_of_lt lt
    simp [t, Table.get?, other]
  have monotone : host.IsMonotone := fun _ _ _ _ _ => Refines.refl _
  have moved : (ending? 0 (execute host 3 straight ⟨10, .absent⟩ (m straight))).map
      (·.results.status) = some (.int 7) := by decide +kernel
  have refused : (ending? 0 (execute host 3 placed ⟨10, .absent⟩ (m placed))).map
      (·.results.status) = some .null := by decide +kernel
  obtain ⟨e, ended, status⟩ := Option.map_eq_some_iff.mp moved
  obtain ⟨e', ended', status'⟩ := Option.map_eq_some_iff.mp refused
  refine ⟨active, own, alike, by decide, top, free, e, ended, fun agrees => ?_⟩
  obtain ⟨k, agrees⟩ := agrees
  have same := agrees (max k 3) (Nat.le_max_left k 3)
  rw [ending?_of_le monotone (Nat.le_max_right k 3) ended'] at same
  cases same
  rw [status] at status'
  cases status'

end Machine

end ThreadedCode
