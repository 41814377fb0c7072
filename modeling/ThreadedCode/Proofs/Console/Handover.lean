import ThreadedCode.Proofs.Console.OneByOne
import ThreadedCode.Proofs.Machine.Registry

/-!
What a console gets back from the task of a word. The task has the pending stack and the variables
of the console for its own, and the console takes over what the task has of them only when the run
has come to its end. A run that a malformed word breaks off leaves both as they were, however far it
had got. In both cases the task is off the registry, and so is any other one that had its name.
-/

namespace ThreadedCode

namespace Table

variable {κ α : Type} [DecidableEq κ]

theorem filter_insertEntry (k : κ) (a : α) (entries : List (κ × α)) :
    (insertEntry k a entries).filter (fun e => e.1 ≠ k) = entries.filter fun e => e.1 ≠ k := by
  induction entries with
  | nil => simp [insertEntry]
  | cons e rest ih =>
    by_cases same : e.1 = k
    · simp [insertEntry, same]
    · simpa [insertEntry, same] using ih

theorem erase_insert (t : Table κ α) (k : κ) (a : α) : (t.insert k a).erase k = t.erase k :=
  congrArg mk (filter_insertEntry k a t.entries)

end Table

namespace Machine

theorem released_insert (registry : Table Text TaskId) (id : TaskId) (name : Text) :
    released (registry.insert name id) id name = registry.erase name := by
  rw [released, Table.get?_insert, if_pos rfl, if_pos rfl, Table.erase_insert]

end Machine

namespace Console

open Machine (settle)

/-- The same task is active as before, and the registry is the one from before without the name of
the tasks of the console. -/
structure Cleared (before now : Console) : Prop where
  active : now.machine.active = before.machine.active
  registry : now.machine.registry = before.machine.registry.erase before.taskName

variable {c : Console} {w : Word} {setting : Setting} {f : Focus}

theorem settle_spawned_task? (c : Console) (w : Word) (f : Focus) :
    (settle (c.spawned w) c.machine.nextTask c.taskName f).task? c.machine.nextTask =
      some f.task :=
  Machine.settle_task? _ _ _ f

theorem settle_spawned_cleared {left : Console}
    (settled : left.machine = settle (c.spawned w) c.machine.nextTask c.taskName f) :
    c.Cleared left where
  active := by
    rw [settled]
    rfl
  registry := by
    rw [settled]
    exact Machine.released_insert _ _ _

def runOf (setting : Setting) (c : Console) (w : Word) : Outcome Machine Unit :=
  Machine.run setting.host setting.fuel c.machine.nextTask (c.spawned w)

theorem runOf_eq (setting : Setting) (own : c.machine.dictionary.OnlyBuiltins) (w : Word) :
    runOf setting c w =
      (Focus.invokeFor (Focus.invoke c.machine.dictionary c.machine.strict setting.fuel)
        { token := w.token } (Focus.of (c.spawned w) (c.taskFor w))).mapState
          (settle (c.spawned w) c.machine.nextTask c.taskName) :=
  Machine.run_eq (spawned_task? c w) own setting.host setting.fuel

theorem runWord_apply (setting : Setting) (c : Console) (w : Word) :
    runWord setting w c =
      match runOf setting c w with
      | .ok _ m => keepFrom c.machine.nextTask { c with machine := m }
      | .halt why m => .halt why { c with machine := m }
      | .exhausted => .exhausted := by
  rw [runWord, Action.bind_of_eq (spawnTask_eq c w), Action.bind_apply]
  simp only [atMachine, Action.within, runOf]
  cases Machine.run setting.host setting.fuel c.machine.nextTask (c.spawned w) <;> rfl

theorem runWord_cases (setting : Setting) (own : c.machine.dictionary.OnlyBuiltins) (w : Word) :
    (∃ why m, runOf setting c w = .halt why m ∧ why.IsMalformed ∧
      runWord setting w c = .halt why { c with machine := m } ∧
      c.Cleared { c with machine := m }) ∨
    (∃ t m, runOf setting c w = .ok () m ∧ m.task? c.machine.nextTask = some t ∧
      runWord setting w c =
        .ok () { c with machine := m, pending := t.stack, locals := t.locals } ∧
      c.Cleared { c with machine := m, pending := t.stack, locals := t.locals }) ∨
    runWord setting w c = .exhausted := by
  have malformed : (Focus.invokeFor
      (Focus.invoke c.machine.dictionary c.machine.strict setting.fuel) { token := w.token }
        (Focus.of (c.spawned w) (c.taskFor w))).HaltsBy Halt.IsMalformed :=
    Focus.invokeFor_halts (Focus.invoke_halts _ _ _) _ _
  rw [runWord_apply, runOf_eq setting own]
  cases ran : Focus.invokeFor
      (Focus.invoke c.machine.dictionary c.machine.strict setting.fuel) { token := w.token }
        (Focus.of (c.spawned w) (c.taskFor w)) with
  | ok _ f =>
    have known := settle_spawned_task? c w f
    refine .inr (.inl ⟨f.task, _, rfl, known, ?_, settle_spawned_cleared rfl⟩)
    simp only [Outcome.mapState, keepFrom, Action.modify, known]
  | halt why f =>
    exact .inl ⟨why, _, rfl, malformed.of_halted ran, rfl, settle_spawned_cleared rfl⟩
  | exhausted => exact .inr (.inr rfl)

/-- A token for a word changes what the console keeps as a whole or not at all. Without primitives
of an embedding program nothing but a malformed word lets the token fail, wherever in the words that
the run comes through, and then the console keeps what it had. Otherwise it keeps the stack and the
variables that the task has at the end of its run. Either way the active task is as before, and the
registry too but for the name of the console's tasks, which it does not have. -/
theorem entered_word_whole (setting : Setting) {c : Console} {token : Text} {w : Word}
    (denotes : Denotes c.machine.dictionary token w)
    (own : c.machine.dictionary.OnlyBuiltins) :
    let run := runOf setting { c with machine := c.machine.ready } w
    (∀ why left, enterToken setting token c = .halt why left →
      why.IsMalformed ∧ run = .halt why left.machine ∧
        left.pending = c.pending ∧ left.locals = c.locals ∧ c.Cleared left) ∧
    ∀ left, enterToken setting token c = .ok () left →
      run = .ok () left.machine ∧ c.Cleared left ∧
        ∃ t, left.machine.task? c.machine.nextTask = some t ∧
          left.pending = t.stack ∧ left.locals = t.locals := by
  intro run
  rw [denotes.enterToken_eq setting]
  have ready : ({ c with machine := c.machine.ready } : Console).machine.dictionary.OnlyBuiltins :=
    own
  rcases runWord_cases setting ready w with
    ⟨why, m, ran, malformed, entered, cleared⟩ | ⟨t, m, ran, known, entered, cleared⟩ | entered
  · rw [entered]
    refine ⟨fun why' left same => ?_, fun left same => (by cases same)⟩
    cases same
    exact ⟨malformed, ran, rfl, rfl, cleared.active, cleared.registry⟩
  · rw [entered]
    refine ⟨fun why' left same => (by cases same), fun left same => ?_⟩
    cases same
    exact ⟨ran, ⟨cleared.active, cleared.registry⟩, t, known, rfl, rfl⟩
  · rw [entered]
    exact ⟨fun why' left same => (by cases same), fun left same => (by cases same)⟩

/-- A composite word prints a value and calls an atomic word, which stores a variable and then meets
a word without code; meanwhile another task has the name of the console's, and a third one is
active. Printing alone is entered with success. -/
theorem entered_word_whole_broken :
    let print := Word.ofBuiltin "." 1 .print
    let inner : Word :=
      { Word.secondary "inner" 4 .atomic [⟨2, .absent⟩, ⟨3, .absent⟩] with older := some 3 }
    let doomed : Word :=
      { Word.secondary "doomed" 5 .composite [⟨1, .absent⟩, ⟨4, .absent⟩] with older := some 4 }
    let d := (Dictionary.empty 1).performAll
      [.definePrimitive "." (.builtin .print) "", .definePrimitive ":=" (.builtin .store) "",
        .define { name := "hollow", kind := .primitive },
        .define { name := "inner", kind := .atomic, body := inner.body },
        .define { name := "doomed", kind := .composite, body := doomed.body }]
    let idle : Task := { name := "main", entry := print }
    let c : Console :=
      { machine :=
          { built := some d, tasks := ⟨[(0, idle), (1, idle)]⟩, nextTask := 2, active := some 1
            registry := ⟨[("main", 0), ("other", 1)]⟩ }
        taskName := "main", pending := [.int 7, .text "x", .int 5]
        locals := ⟨[("y", .int 1)]⟩ }
    let setting : Setting :=
      { host := fun _ _ _ => pure .null, disk := fun _ => .error .missing, fuel := 9 }
    Denotes c.machine.dictionary "doomed" doomed ∧ Denotes c.machine.dictionary "." print ∧
      c.machine.dictionary.OnlyBuiltins ∧
      (∃ left, enterToken setting "doomed" c =
          .halt (.malformed (.missingPrimitive "hollow")) left ∧ left.machine.output = "7 " ∧
        left.pending = [.int 7, .text "x", .int 5] ∧ left.locals = ⟨[("y", .int 1)]⟩ ∧
        left.machine.active = some 1 ∧ left.machine.registry = ⟨[("other", 1)]⟩) ∧
      ∃ left, enterToken setting "." c = .ok () left ∧ left.pending = [.text "x", .int 5] ∧
        left.machine.active = some 1 ∧ left.machine.registry = ⟨[("other", 1)]⟩ := by
  intro print inner doomed d idle c setting
  have here : c.machine.dictionary = d := Option.getD_some
  have own : c.machine.dictionary.OnlyBuiltins :=
    here ▸ Dictionary.onlyBuiltins_of_values (by decide +kernel)
  have doomedDenoted : Denotes c.machine.dictionary "doomed" doomed :=
    ⟨by decide, by decide, here ▸ (by decide +kernel)⟩
  have printDenoted : Denotes c.machine.dictionary "." print :=
    ⟨by decide, by decide, here ▸ (by decide +kernel)⟩
  refine ⟨doomedDenoted, printDenoted, own, ?_, ?_⟩
  · have broken : (enterToken setting "doomed" c).mapState (·.machine.output) =
        .halt (.malformed (.missingPrimitive "hollow")) "7 " := by decide +kernel
    obtain ⟨left, halted, output⟩ := Outcome.mapState_eq_halt.mp broken
    obtain ⟨-, -, pending, locals, cleared⟩ :=
      (entered_word_whole setting doomedDenoted own).1 _ left halted
    exact ⟨left, halted, output, pending, locals, cleared.active, cleared.registry⟩
  · have printed : (enterToken setting "." c).mapState (·.pending) =
        .ok () [.text "x", .int 5] := by decide +kernel
    obtain ⟨left, ended, pending⟩ := Outcome.mapState_eq_ok.mp printed
    obtain ⟨-, cleared, -⟩ := (entered_word_whole setting printDenoted own).2 left ended
    exact ⟨left, ended, pending, cleared.active, cleared.registry⟩

end Console

end ThreadedCode
