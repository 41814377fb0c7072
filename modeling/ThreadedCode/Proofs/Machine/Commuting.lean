import ThreadedCode.Proofs.Machine.Footprint
import ThreadedCode.Proofs.Machine.Termination

/-!
Two tasks that run one after the other. A run writes to the two texts but never reads them, so what
it does is the same whatever has been written before. Without global variables there is nothing else
that one task could tell another: the two runs may change places.
-/

namespace ThreadedCode

namespace Table

variable {κ α : Type} [DecidableEq κ]

theorem insertEntry_comm {j k : κ} (apart : j ≠ k) (a b : α) (entries : List (κ × α))
    (there : j ∈ entries.map (·.1)) :
    insertEntry k b (insertEntry j a entries) = insertEntry j a (insertEntry k b entries) := by
  induction entries with
  | nil => cases there
  | cons e rest ih =>
    by_cases here : e.1 = j
    · simp [insertEntry, here, apart]
    · have later : j ∈ rest.map (·.1) := (List.mem_cons.mp there).resolve_left (Ne.symm here)
      by_cases other : e.1 = k
      · simp [insertEntry, other, Ne.symm apart]
      · simp [insertEntry, here, other, ih later]

theorem insert_comm {t : Table κ α} {j k : κ} (apart : j ≠ k) (there : t.contains j = true)
    (a b : α) : (t.insert j a).insert k b = (t.insert k b).insert j a :=
  congrArg mk (insertEntry_comm apart a b t.entries (contains_iff.mp there))

theorem erase_comm (t : Table κ α) (j k : κ) : (t.erase j).erase k = (t.erase k).erase j := by
  simp only [erase, List.filter_filter, Bool.and_comm]

omit [DecidableEq κ] in
theorem eq_empty_of_keys {t : Table κ α} (none : t.keys = []) : t = ∅ :=
  congrArg mk (List.map_eq_nil_iff.mp none)

end Table

namespace Outcome

def ended {σ : Type} (why : Option Halt) (s : σ) : Outcome σ Unit :=
  match why with
  | none => ok () s
  | some why => halt why s

theorem ended_eq_ok {σ : Type} {why : Option Halt} {s t : σ} :
    ended why s = .ok () t ↔ why = none ∧ s = t := by
  cases why <;> simp [ended]

theorem ended_eq_halt {σ : Type} {why : Option Halt} {halted : Halt} {s t : σ} :
    ended why s = .halt halted t ↔ why = some halted ∧ s = t := by
  cases why <;> simp [ended]

theorem mapState_ended {σ τ : Type} (g : σ → τ) (why : Option Halt) (s : σ) :
    (ended why s).mapState g = ended why (g s) := by
  cases why <;> rfl

theorem Terminates.of_mapState {σ τ α : Type} {g : σ → τ} {o : Outcome σ α}
    (h : (o.mapState g).Terminates) : o.Terminates := by
  rintro rfl
  exact h rfl

theorem Terminates.exists_ended {σ : Type} {o : Outcome σ Unit} (h : o.Terminates) :
    ∃ why s, o = ended why s := by
  cases o with
  | ok a s => exact ⟨none, s, rfl⟩
  | halt why s => exact ⟨some why, s, rfl⟩
  | exhausted => exact absurd rfl h

theorem Leaves.of_ended {σ : Type} {P : σ → Prop} {why : Option Halt} {s : σ}
    (h : (ended why s).Leaves P) : P s := by
  cases why <;> exact h

end Outcome

/-- A change of the state that a computation does not notice, and keeps. -/
def Action.Ignores {σ α : Type} (change : σ → σ) (x : Action σ α) : Prop :=
  ∀ s, x (change s) = (x s).mapState change

namespace Action.Ignores

variable {σ α β : Type} {change : σ → σ} {x : Action σ α}

theorem bind {g : α → Action σ β} (h : x.Ignores change) (next : ∀ a, (g a).Ignores change) :
    (x >>= g).Ignores change := by
  intro s
  rw [bind_apply, bind_apply, h s]
  cases x s with
  | ok a s => exact next a s
  | halt why s => rfl
  | exhausted => rfl

theorem ensuring (h : x.Ignores change) (after : σ → σ)
    (comm : ∀ s, after (change s) = change (after s)) : (x.ensuring after).Ignores change := by
  intro s
  rw [Action.ensuring, Action.ensuring, h s]
  cases x s <;> simp [Outcome.mapState, comm]

theorem catchFault {handler : Fault → Action σ α} (h : x.Ignores change)
    (handled : ∀ fault, (handler fault).Ignores change) :
    (x.catchFault handler).Ignores change := by
  intro s
  rw [Action.catchFault, Action.catchFault, h s]
  cases x s with
  | ok a s => rfl
  | halt why s =>
    cases why with
    | fault fault => exact handled fault s
    | malformed word => rfl
    | quit => rfl
  | exhausted => rfl

theorem ofExcept (r : Except Fault α) : (Action.ofExcept r).Ignores change := by
  cases r <;> exact fun _ => rfl

end Action.Ignores

namespace Focus

def behind (output diagnostics : Text) (f : Focus) : Focus :=
  { f with output := output ++ f.output, diagnostics := diagnostics ++ f.diagnostics }

variable {d : Dictionary} {strict : Strictness} {output diagnostics : Text}

theorem write_ignores (t : Text) :
    (write strict t).Ignores (behind output diagnostics) := by
  intro f
  unfold write
  split
  · rfl
  · simp [Outcome.mapState, behind]

theorem runBuiltin_ignores (b : Builtin) (arg : Operand) :
    (runBuiltin strict b arg).Ignores (behind output diagnostics) := fun f =>
  ((write_ignores _).bind fun _ => .ofExcept _)
    { f with
      task := (b.effect arg f.task f.globals).task
      globals := (b.effect arg f.task f.globals).globals }

theorem positionOf_ignores (level : Int) :
    (positionOf level).Ignores (behind output diagnostics) := by
  intro f
  have same : (f.behind output diagnostics).task = f.task := rfl
  rw [positionOf, positionOf, same]
  cases f.task.positions.get? level <;> rfl

theorem status_ignores : status.Ignores (behind output diagnostics) := fun _ => rfl

section Bodies

variable {u : Invoker} (h : ∀ i, (u i).Ignores (behind output diagnostics))

include h

theorem invokeFor_ignores (i : Instruction) :
    (invokeFor u i).Ignores (behind output diagnostics) :=
  (h i).bind fun _ _ => rfl

theorem invokeEach_ignores (body : List Instruction) :
    (invokeEach u body).Ignores (behind output diagnostics) := by
  induction body with
  | nil => exact fun _ => rfl
  | cons i rest ih => exact (invokeFor_ignores h i).bind fun _ => ih

theorem runStraight_ignores (body : List Instruction) :
    (runStraight u body).Ignores (behind output diagnostics) := fun f =>
  (((invokeEach_ignores h body).ensuring (onTask Machine.leaveAtomic) fun _ => rfl).bind
    fun _ => status_ignores) (f.onTask Machine.enterAtomic)

theorem runByPosition_ignores (level : Int) (body : List Instruction) (rounds : Nat) :
    (runByPosition u level body rounds).Ignores (behind output diagnostics) := by
  induction rounds with
  | zero => exact fun _ => rfl
  | succ rounds ih =>
    refine (positionOf_ignores level).bind fun position => ?_
    by_cases inside : position ≤ body.length
    · rw [if_pos inside]
      refine (Action.Ignores.ofExcept _).bind fun i => (invokeFor_ignores h i).bind fun _ => ?_
      refine (positionOf_ignores level).bind fun position f => ?_
      exact ih (f.onTask (Machine.setPosition level (position + 1)))
    · rw [if_neg inside]
      exact fun _ => rfl

theorem runAtLevel_ignores (rounds : Nat) (body : List Instruction) :
    (runAtLevel u rounds body).Ignores (behind output diagnostics) := fun f =>
  (((runByPosition_ignores h (f.task.level + 1) body rounds).ensuring
    (onTask (Machine.leaveLevel f.task)) fun _ => rfl).bind
      fun _ => status_ignores) (f.onTask Machine.enterLevel)

theorem executeWith_ignores (fuel : Nat) (w : Word) (i : Instruction) :
    (executeWith strict fuel u w i).Ignores (behind output diagnostics) := by
  unfold executeWith
  cases w.kind with
  | primitive =>
    cases w.primitive with
    | none => exact fun _ => rfl
    | some p =>
      cases p with
      | builtin b => exact runBuiltin_ignores b i.arg
      | foreign name => exact fun _ => rfl
  | atomic => exact runStraight_ignores h w.body
  | composite => exact runAtLevel_ignores h fuel w.body
  | other label => exact fun _ => rfl

end Bodies

theorem reportFault_ignores (word : Option Text) (fault : Fault) :
    (reportFault word fault).Ignores (behind output diagnostics) := by
  intro f
  simp [reportFault, behind, Outcome.mapState]

theorem invoke_ignores (d : Dictionary) (strict : Strictness) (output diagnostics : Text) (fuel : Nat)
    (i : Instruction) : (invoke d strict fuel i).Ignores (behind output diagnostics) := by
  induction fuel generalizing i with
  | zero => exact fun _ => rfl
  | succ fuel ih =>
    rw [invoke]
    cases d.findToken? i.token with
    | none => exact reportFault_ignores _ _
    | some w =>
      refine Action.Ignores.catchFault ?_ fun fault => reportFault_ignores _ fault
      exact (executeWith_ignores ih fuel w i).bind fun _ _ => rfl

def unwritten (t : Task) (globals : Variables) : Focus := ⟨t, globals, [], []⟩

end Focus

namespace Machine

def silent (m : Machine) : Machine := { m with output := [], diagnostics := [] }

/-- The machine after a run of a task, where the run by itself has come to a part in focus. -/
def after (m : Machine) (id : TaskId) (name : Text) (f : Focus) : Machine :=
  settle m id name (f.behind m.output m.diagnostics)

theorem after_eq (m : Machine) (id : TaskId) (name : Text) (f : Focus) :
    m.after id name f =
      { m with
        built := some m.dictionary
        tasks := m.tasks.insert id f.task
        registry := released m.registry id name
        globals := f.globals
        output := m.output ++ f.output
        diagnostics := m.diagnostics ++ f.diagnostics } :=
  rfl

theorem run_eq_after {m : Machine} {id : TaskId} {t : Task} (known : m.task? id = some t)
    (own : m.dictionary.OnlyBuiltins) (host : Host) (fuel : Nat) :
    run host fuel id m =
      (Focus.invokeFor (Focus.invoke m.dictionary m.strict fuel) { token := t.entry.token }
        (.unwritten t m.globals)).mapState (m.after id t.name) := by
  have ignores := Focus.invokeFor_ignores
    (Focus.invoke_ignores m.dictionary m.strict m.output m.diagnostics fuel)
    { token := t.entry.token } (.unwritten t m.globals)
  have here : (Focus.unwritten t m.globals).behind m.output m.diagnostics = Focus.of m t := by
    simp [Focus.unwritten, Focus.behind, Focus.of]
  rw [here] at ignores
  rw [run_eq known own, ignores]
  cases Focus.invokeFor (Focus.invoke m.dictionary m.strict fuel) { token := t.entry.token }
    (.unwritten t m.globals) <;> rfl

theorem after_dictionary (m : Machine) (id : TaskId) (name : Text) (f : Focus) :
    (m.after id name f).dictionary = m.dictionary := by
  rw [after_eq]
  rfl

theorem after_task?_of_ne {id other : TaskId} (apart : other ≠ id) (m : Machine) (name : Text)
    (f : Focus) : (m.after id name f).task? other = m.task? other := by
  rw [after_eq]
  exact (Table.get?_insert _ _ _ _).trans (if_neg apart)

/-- Without global variables a task that comes to an end has one thing that it does, on every machine
that executes words in the same way. -/
theorem run_of_no_globals {m : Machine} {id : TaskId} {t : Task} (known : m.task? id = some t)
    (own : m.dictionary.OnlyBuiltins) (empty : m.globals = ∅) {host : Host} {fuel : Nat}
    (ends : (run host fuel id m).Terminates) :
    ∃ why f, f.globals = ∅ ∧ ∀ m' : Machine, m'.task? id = some t → m'.globals = ∅ →
      m'.dictionary = m.dictionary → m'.strict = m.strict →
      run host fuel id m' = .ended why (m'.after id t.name f) := by
  rw [run_eq_after known own, empty] at ends
  obtain ⟨why, f, ran⟩ := ends.of_mapState.exists_ended
  have steps := Focus.invokeFor_stepped (Focus.invoke_stepped m.dictionary m.strict fuel)
    { token := t.entry.token } (.unwritten t ∅)
  rw [ran] at steps
  refine ⟨why, f, Table.eq_empty_of_keys steps.of_ended.keys_globals, ?_⟩
  intro m' known' empty' dictionary strict
  rw [run_eq_after known' (dictionary ▸ own), dictionary, strict, empty', ran,
    Outcome.mapState_ended]

theorem get?_released_of_ne {x y : Text} (apart : y ≠ x) (registry : Table Text TaskId)
    (a : TaskId) : (released registry a x).get? y = registry.get? y := by
  unfold released
  split
  · rw [Table.get?_erase, if_neg apart]
  · rfl

theorem released_comm {a b : TaskId} (apart : a ≠ b) (registry : Table Text TaskId) (x y : Text) :
    released (released registry a x) b y = released (released registry b y) a x := by
  by_cases same : x = y
  · subst same
    have either : ∀ c e : TaskId, c ≠ e → registry.get? x = some c →
        released (released registry c x) e x = released (released registry e x) c x := by
      intro c e other here
      have gone : (registry.erase x).get? x ≠ some e := by simp [Table.get?_erase]
      have elsewhere : registry.get? x ≠ some e := fun there =>
        other (Option.some.inj (here.symm.trans there))
      simp only [released, if_pos here, if_neg gone, if_neg elsewhere]
    by_cases hereA : registry.get? x = some a
    · exact either a b apart hereA
    · by_cases hereB : registry.get? x = some b
      · exact (either b a apart.symm hereB).symm
      · simp only [released, if_neg hereA, if_neg hereB]
  · have keptY := get?_released_of_ne (Ne.symm same) registry a
    have keptX := get?_released_of_ne same registry b
    rw [released, keptY, released.eq_def (released registry b y), keptX]
    unfold released
    by_cases hereA : registry.get? x = some a
    · by_cases hereB : registry.get? y = some b
      · simp only [if_pos hereA, if_pos hereB, Table.erase_comm]
      · simp only [if_pos hereA, if_neg hereB]
    · simp only [if_neg hereA]

def Wrote (output diagnostics : Text) (before now : Machine) : Prop :=
  now.output = before.output ++ output ∧ now.diagnostics = before.diagnostics ++ diagnostics

theorem wrote_after (m : Machine) (id : TaskId) (name : Text) (f : Focus) :
    Wrote f.output f.diagnostics m (m.after id name f) := by
  rw [after_eq]
  exact ⟨rfl, rfl⟩

theorem silent_after_comm {m : Machine} {a b : TaskId} (apart : a ≠ b)
    (there : (m.tasks.contains a) = true) (x y : Text) {f g : Focus} (same : f.globals = g.globals) :
    ((m.after a x f).after b y g).silent = ((m.after b y g).after a x f).silent := by
  simp only [silent, after_eq, Table.insert_comm apart there f.task g.task,
    released_comm apart m.registry x y, same]
  rfl

/-- Independent tasks commute. Where there are no global variables, two tasks are run one after the
other, in either order. Each of them comes to an end on the machine as it is, with a result or a
halt. Then each comes to the same end in both orders and writes the same texts, and in the end all
is the same but the order of what was written: all tasks, the registry, the dictionary and the rest.
The active task and the dictionary are those from before, and there are still no global
variables. -/
theorem runs_commute {m : Machine} {a b : TaskId} {t u : Task} (apart : a ≠ b)
    (knownA : m.task? a = some t) (knownB : m.task? b = some u)
    (own : m.dictionary.OnlyBuiltins) (empty : m.globals = ∅) (host : Host) (n k : Nat)
    (endsA : (run host n a m).Terminates) (endsB : (run host k b m).Terminates) :
    ∃ whyA outA errA whyB outB errB mA mAB mB mBA,
      (run host n a m = .ended whyA mA ∧ Wrote outA errA m mA) ∧
      (run host k b mA = .ended whyB mAB ∧ Wrote outB errB mA mAB) ∧
      (run host k b m = .ended whyB mB ∧ Wrote outB errB m mB) ∧
      (run host n a mB = .ended whyA mBA ∧ Wrote outA errA mB mBA) ∧
      mAB.silent = mBA.silent ∧
      mAB.active = m.active ∧ mAB.dictionary = m.dictionary ∧ mAB.globals = ∅ := by
  obtain ⟨whyA, f, emptyF, runA⟩ := run_of_no_globals knownA own empty endsA
  obtain ⟨whyB, g, emptyG, runB⟩ := run_of_no_globals knownB own empty endsB
  refine ⟨whyA, f.output, f.diagnostics, whyB, g.output, g.diagnostics, m.after a t.name f,
    (m.after a t.name f).after b u.name g, m.after b u.name g,
    (m.after b u.name g).after a t.name f, ⟨?_, wrote_after ..⟩, ⟨?_, wrote_after ..⟩,
    ⟨?_, wrote_after ..⟩, ⟨?_, wrote_after ..⟩, ?_, ?_, ?_, ?_⟩
  · exact runA m knownA empty rfl rfl
  · refine runB _ ?_ ?_ (after_dictionary ..) ?_
    · rwa [after_task?_of_ne apart.symm]
    · rwa [after_eq]
    · rw [after_eq]
  · exact runB m knownB empty rfl rfl
  · refine runA _ ?_ ?_ (after_dictionary ..) ?_
    · rwa [after_task?_of_ne apart]
    · rwa [after_eq]
    · rw [after_eq]
  · refine silent_after_comm apart ?_ t.name u.name (emptyF.trans emptyG.symm)
    rw [Table.contains]
    exact Option.isSome_of_eq_some knownA
  · rw [after_eq, after_eq]
  · rw [after_dictionary, after_dictionary]
  · rwa [after_eq]

/-- Two tasks of one name, the first of which is halted by a malformed word. The registry has the
second one. -/
theorem runs_commute_namesakes :
    let print := Word.ofBuiltin "." 1 .print
    let broken : Word := { print with name := "broken", token := 2, primitive := none }
    let first := Word.secondary "first" 3 .atomic [⟨1, .absent⟩, ⟨2, .absent⟩, ⟨1, .absent⟩]
    let second := Word.secondary "second" 4 .atomic [⟨1, .absent⟩]
    let t : Task := { name := "main", entry := first, stack := [.int 7, .int 9] }
    let u : Task := { name := "main", entry := second, stack := [.int 8] }
    let m : Machine :=
      { built := some { Dictionary.empty 5 with
          words := ⟨[(1, print), (2, broken), (3, first), (4, second)]⟩ }
        tasks := ⟨[(0, t), (1, u)]⟩, nextTask := 2, registry := ⟨[("main", 1)]⟩, output := ">" }
    let host : Host := fun _ _ _ => pure .null
    let stopped : Halt := .malformed (.missingPrimitive "broken")
    m.task? 0 = some t ∧ m.task? 1 = some u ∧ m.dictionary.OnlyBuiltins ∧ m.globals = ∅ ∧
      ∃ mA mAB mB mBA,
        run host 9 0 m = .halt stopped mA ∧ run host 9 1 mA = .ok () mAB ∧
        run host 9 1 m = .ok () mB ∧ run host 9 0 mB = .halt stopped mBA ∧
        mAB.output = ">7 8 " ∧ mBA.output = ">8 7 " ∧ mAB.silent = mBA.silent := by
  intro print broken first second t u m host stopped
  have knownA : m.task? 0 = some t := rfl
  have knownB : m.task? 1 = some u := rfl
  have own : m.dictionary.OnlyBuiltins := Dictionary.onlyBuiltins_of_values (by decide)
  have empty : m.globals = ∅ := rfl
  have prompt : m.output = ">" := rfl
  have viewA : (run host 9 0 m).mapState (·.output) = .halt stopped (">" ++ "7 ") := by
    decide +kernel
  have viewB : (run host 9 1 m).mapState (·.output) = .ok () (">" ++ "8 ") := by decide +kernel
  clear_value m
  refine ⟨knownA, knownB, own, empty, ?_⟩
  have endsA : (run host 9 0 m).Terminates := by
    refine .of_mapState (g := (·.output)) ?_
    rw [viewA]
    exact .halt _ _
  have endsB : (run host 9 1 m).Terminates := by
    refine .of_mapState (g := (·.output)) ?_
    rw [viewB]
    exact .ok _ _
  obtain ⟨whyA, outA, errA, whyB, outB, errB, mA, mAB, mB, mBA, ⟨ranA, wroteA⟩, ⟨ranAB, wroteAB⟩,
    ⟨ranB, wroteB⟩, ⟨ranBA, wroteBA⟩, same, -⟩ :=
    runs_commute (by decide) knownA knownB own empty host 9 9 endsA endsB
  rw [ranA, Outcome.mapState_ended, Outcome.ended_eq_halt] at viewA
  rw [ranB, Outcome.mapState_ended, Outcome.ended_eq_ok] at viewB
  obtain ⟨rfl, writtenA⟩ := viewA
  obtain ⟨rfl, writtenB⟩ := viewB
  have textA : outA = "7 " := List.append_cancel_left (prompt ▸ wroteA.1.symm.trans writtenA)
  have textB : outB = "8 " := List.append_cancel_left (prompt ▸ wroteB.1.symm.trans writtenB)
  refine ⟨mA, mAB, mB, mBA, ranA, ranAB, ranB, ranBA, ?_, ?_, same⟩
  · rw [wroteAB.1, writtenA, textB]
    decide +kernel
  · rw [wroteBA.1, writtenB, textA]
    decide +kernel

end Machine

end ThreadedCode
