import ThreadedCode.Proofs.Console.Joining
import ThreadedCode.Proofs.Dictionary.Authored
import ThreadedCode.Proofs.Machine.EarlyBinding
import ThreadedCode.Proofs.Machine.Succession

/-!
Words that are typed one by one. For each of them the console makes a task, which takes over the stack
and the variables that the console has kept, and keeps what the task leaves of them. That is to run
the words in succession, and so the console shows in the end what it would show after one task for an
atomic word with all these words in its body.
-/

namespace ThreadedCode

namespace Console

open Focus (runAlone)

def sight (c : Console) : Sight :=
  ⟨c.pending, c.locals, c.machine.globals, c.machine.output, c.machine.diagnostics⟩

structure Shows (d : Dictionary) (strict : Strictness) (name : Text) (f : Focus) (c : Console) : Prop where
  sight : f.sight = c.sight
  named : c.taskName = name
  dictionary : c.machine.dictionary = d
  strict : c.machine.strict = strict

def taskFor (c : Console) (w : Word) : Task :=
  { name := c.taskName, entry := w, stack := c.pending, locals := c.locals }

def spawned (c : Console) (w : Word) : Machine :=
  { c.machine with
    tasks := c.machine.tasks.insert c.machine.nextTask (c.taskFor w)
    nextTask := c.machine.nextTask + 1
    registry := c.machine.registry.insert c.taskName c.machine.nextTask }

theorem spawned_task? (c : Console) (w : Word) :
    (c.spawned w).task? c.machine.nextTask = some (c.taskFor w) := by
  rw [spawned, Machine.task?, Table.get?_insert, if_pos rfl]

theorem spawnTask_eq (c : Console) (w : Word) :
    spawnTask w c = .ok c.machine.nextTask { c with machine := c.spawned w } := by
  simp only [spawnTask, atMachine, Action.within, Action.bind_apply, Action.get, Action.modify,
    Machine.spawn, Machine.updateTask, Machine.task?, Machine.setTask, Table.get?_insert, if_true,
    Table.insert_insert]
  rfl

theorem keepFrom_settle (c : Console) (m : Machine) (id : TaskId) (f : Focus) :
    ∃ left, keepFrom id { c with machine := Machine.settle m id c.taskName f } = .ok () left ∧
      Shows m.dictionary m.strict c.taskName f left := by
  have known : (Machine.settle m id c.taskName f).task? id = some f.task :=
    Machine.settle_task? m id c.taskName f
  refine ⟨{ c with
    machine := Machine.settle m id c.taskName f
    pending := f.task.stack
    locals := f.task.locals }, ?_, ?_⟩
  · simp only [keepFrom, Action.modify, known]
  · exact ⟨rfl, rfl, rfl, rfl⟩

variable (setting : Setting) {d : Dictionary} {strict : Strictness} {name : Text} {f : Focus}
  {c : Console} {w : Word}

theorem runWord_inStep (own : d.OnlyBuiltins) (shows : Shows d strict name f c)
    (unhalted : (runAlone (Focus.invoke d strict setting.fuel) name w f).HaltsBy fun _ => False) :
    (runAlone (Focus.invoke d strict setting.fuel) name w f).InStep (fun _ => False)
      (Shows d strict name) (runWord setting w c) := by
  obtain ⟨same, rfl, rfl, rfl⟩ := shows
  have start : Focus.of (c.spawned w) (c.taskFor w) = Focus.renew c.taskName w f := by
    injection same with stack locals globals output diagnostics
    simp only [Focus.of, spawned, taskFor, Focus.renew, Focus.onTask, stack, locals, globals,
      output, diagnostics]
  have run : Machine.run setting.host setting.fuel c.machine.nextTask (c.spawned w) =
      (runAlone (Focus.invoke c.machine.dictionary c.machine.strict setting.fuel) c.taskName w
        f).mapState (Machine.settle (c.spawned w) c.machine.nextTask c.taskName) := by
    rw [Machine.run_eq (spawned_task? c w) own, start]
    rfl
  rw [runWord, Action.bind_apply, spawnTask_eq]
  simp only [Action.bind_apply, atMachine, Action.within, run]
  cases alone : runAlone (Focus.invoke c.machine.dictionary c.machine.strict setting.fuel)
      c.taskName w f with
  | ok _ g =>
    obtain ⟨left, kept, shows⟩ := keepFrom_settle c (c.spawned w) c.machine.nextTask g
    simp only [Outcome.mapState, kept]
    exact shows
  | halt why g =>
    rw [alone] at unhalted
    exact unhalted.elim
  | exhausted => trivial

/-- A token that is entered for a word: neither a string nor an integer, but a name of the word. -/
structure Denotes (d : Dictionary) (token : Text) (w : Word) : Prop where
  bare : token.isString = false
  notInteger : token.integer? = none
  found : d.find? token = .ok (some w)

theorem Denotes.portable {token : Text} {d' : Dictionary} (h : Denotes d token w)
    (ordered : d.Ordered) (contained : d.SelfContained w)
    (agrees : d.AgreesAt d' { token := w.token }) : d.Portable d' { token := w.token } := by
  obtain ⟨token, there⟩ := Dictionary.find?_live h.found
  obtain ⟨-, rfl⟩ := ordered.get?_eq_some.mp there
  refine ⟨agrees, fun u found => ?_⟩
  obtain rfl : w = u := Option.some.inj (there.symm.trans found)
  exact contained

theorem Denotes.enterToken_eq {token : Text} (h : Denotes c.machine.dictionary token w) :
    enterToken setting token c = runWord setting w { c with machine := c.machine.ready } := by
  rw [enterToken, h.bare, h.notInteger]
  simp only [Bool.false_eq_true, if_false, Action.bind_apply, dictionary, atMachine, Action.within,
    Machine.useDictionary, h.found, Action.ofExcept, Action.pure_apply]
  rfl

theorem enterTokens_inStep {items : List (Text × Word)} (own : d.OnlyBuiltins)
    (denotes : ∀ e ∈ items, Denotes d e.1 e.2) (shows : Shows d strict name f c)
    (unhalted : ∀ e ∈ items, ∀ f,
      (runAlone (Focus.invoke d strict setting.fuel) name e.2 f).HaltsBy fun _ => False) :
    (forM (items.map (·.2)) (runAlone (Focus.invoke d strict setting.fuel) name) f).InStep
      (fun _ => False) (Shows d strict name) (enterTokens setting (items.map (·.1)) c) := by
  rw [enterTokens_eq_forM, List.forM_map, List.forM_map]
  refine .forM (fun e member f c shows => ?_) shows
  obtain ⟨same, rfl, rfl, rfl⟩ := shows
  rw [(denotes e member).enterToken_eq setting]
  exact runWord_inStep setting own ⟨same, rfl, rfl, rfl⟩ (unhalted e member f)

/-- Typing words one by one is running them as one word. The console keeps any stack and any
variables, and its dictionary comes of any history without primitives of an embedding program. Each
token is entered for a word that reaches no malformed word and no primitive of the second stack. In
`d'` there is an atomic word with all these words in its body, and what they may look up is there as
it is in `d`. Then neither the tokens nor the atomic word are ever halted, and where one of the two
comes to an end, so does the other, given fuel enough, and the console shows the same: stack,
variables of the task and of the machine, output and diagnostics. -/
theorem words_run_as_one (firstToken : Token) (rs : List Dictionary.Request) (d' : Dictionary)
    (items : List (Text × Word)) (whole : Word) (c : Console) (host : Machine.Host) (disk : Disk) :
    let d := (Dictionary.empty firstToken).performAll rs
    c.machine.dictionary = d → d.OnlyBuiltins → d'.OnlyBuiltins →
    (∀ e ∈ items, Denotes d e.1 e.2 ∧ d.SelfContained e.2 ∧ d.AgreesAt d' { token := e.2.token }) →
    d'.findToken? whole.token = some whole → whole.kind = .atomic →
    whole.body = items.map (fun e => { token := e.2.token }) →
      let typed (n : Nat) := enterTokens ⟨host, disk, n⟩ (items.map (·.1)) c
      let ran (n : Nat) :=
        runWord ⟨host, disk, n⟩ whole { c with machine := c.machine.rebuilt d' }
      (∀ n left, typed n = .ok () left →
        ∃ k, ∀ n, k ≤ n → ∃ other, ran n = .ok () other ∧ other.sight = left.sight) ∧
      (∀ n left, ran n = .ok () left →
        ∃ k, ∀ n, k ≤ n → ∃ other, typed n = .ok () other ∧ other.sight = left.sight) ∧
      ∀ n, (typed n).HaltsBy (fun _ => False) ∧ (ran n).HaltsBy fun _ => False := by
  intro d here own own' each found atomic body typed ran
  have ordered : d.Ordered := .performAll firstToken rs
  have portable : ∀ w ∈ items.map (·.2), d.Portable d' { token := w.token } := by
    intro w member
    obtain ⟨e, listed, rfl⟩ := List.mem_map.mp member
    obtain ⟨denotes, contained, agrees⟩ := each e listed
    exact denotes.portable ordered contained agrees
  have body : whole.body = (items.map (·.2)).map fun w => { token := w.token } := by
    rw [body, List.map_map]
    rfl
  let f : Focus := .of c.machine (c.taskFor whole)
  have shows : Shows d c.machine.strict c.taskName f c := ⟨rfl, rfl, here, rfl⟩
  have shows' : Shows d' c.machine.strict c.taskName f
      { c with machine := c.machine.rebuilt d' } := ⟨rfl, rfl, Option.getD_some, rfl⟩
  have typing (n : Nat) :
      (forM (items.map (·.2)) (runAlone (Focus.invoke d c.machine.strict n) c.taskName) f).InStep
        (fun _ => False) (Shows d c.machine.strict c.taskName) (typed n) :=
    enterTokens_inStep ⟨host, disk, n⟩ own (fun e member => (each e member).1) shows fun e member =>
      Focus.runAlone_unhalted (portable e.2 (List.mem_map_of_mem member))
  have running (n : Nat) :
      (runAlone (Focus.invoke d' c.machine.strict n) c.taskName whole f).InStep (fun _ => False)
        (Shows d' c.machine.strict c.taskName) (ran n) :=
    runWord_inStep ⟨host, disk, n⟩ own' shows'
      (Focus.runAlone_whole_unhalted _ _ portable found atomic body n f)
  refine ⟨fun n left ended => ⟨n + d.totalLength + 2, fun n' le => ?_⟩,
    fun n left ended => ⟨n + d.totalLength + 1, fun n' le => ?_⟩,
    fun n => ⟨(typing n).symm.halts, (running n).symm.halts⟩⟩
  · have same :=
      Focus.runAlone_whole_of_each c.machine.strict c.taskName portable found atomic body le f
    have both := ((typing n).symm.matched.trans same).trans (running n').matched
    obtain ⟨other, ended', whole, ⟨each, shows, same⟩, shows'⟩ := both.of_ok ended
    exact ⟨other, ended', shows'.sight.symm.trans (same.symm.trans shows.sight)⟩
  · have same :=
      Focus.each_of_runAlone_whole c.machine.strict c.taskName portable found atomic body le f
    have both := ((running n).symm.matched.trans same).trans (typing n').matched
    obtain ⟨other, ended', each, ⟨whole, shows', same⟩, shows⟩ := both.of_ok ended
    exact ⟨other, ended', shows.sight.symm.trans (same.trans shows'.sight)⟩

/-- A composite word jumps over an instruction, then calls an atomic word with a jump that is refused,
and writes a variable, which is read back by a word of its own; one value too many is printed. -/
theorem words_run_as_one_carried :
    let rs : List Dictionary.Request :=
      [.definePrimitive "branch" (.builtin .branch) "",
        .definePrimitive "0branch" (.builtin .zeroBranch) "",
        .definePrimitive "=:" (.builtin .fetch) "", .definePrimitive ":=" (.builtin .store) "",
        .definePrimitive "." (.builtin .print) "", .definePrimitive ">r" (.builtin .toReturn) "",
        .define { name := "leap", kind := .atomic, body := [⟨1, .value (.int 4)⟩] },
        .define
          { name := "keep", kind := .composite
            body := [⟨2, .value (.int 2)⟩, ⟨5, .absent⟩, ⟨7, .absent⟩, ⟨4, .absent⟩] }]
    let d := (Dictionary.empty 1).performAll rs
    let fetch : Word := { Word.ofBuiltin "=:" 3 .fetch with older := some 2 }
    let print : Word := { Word.ofBuiltin "." 5 .print with older := some 4 }
    let keep : Word :=
      { Word.secondary "keep" 8 .composite
          [⟨2, .value (.int 2)⟩, ⟨5, .absent⟩, ⟨7, .absent⟩, ⟨4, .absent⟩] with
        older := some 7 }
    let items : List (Text × Word) := [("keep", keep), ("=:", fetch), (".", print), (".", print)]
    let body : List Instruction := [⟨8, .absent⟩, ⟨3, .absent⟩, ⟨5, .absent⟩, ⟨5, .absent⟩]
    let whole : Word := { Word.secondary "all" 9 .atomic body with older := some 8 }
    let d' := d.perform (.define { name := "all", kind := .atomic, body })
    let c : Console :=
      { machine := { built := some d }, taskName := "main"
        pending := [.int 0, .text "x", .int 7, .text "x"] }
    let host : Machine.Host := fun _ _ _ => pure .null
    let disk : Disk := fun _ => .error .missing
    let typed (n : Nat) := enterTokens ⟨host, disk, n⟩ (items.map (·.1)) c
    let ran (n : Nat) := runWord ⟨host, disk, n⟩ whole { c with machine := c.machine.rebuilt d' }
    c.machine.dictionary = d ∧ d.OnlyBuiltins ∧ d'.OnlyBuiltins ∧
      (∀ e ∈ items,
        Denotes d e.1 e.2 ∧ d.SelfContained e.2 ∧ d.AgreesAt d' { token := e.2.token }) ∧
      d'.findToken? whole.token = some whole ∧
      ∃ left, typed 9 = .ok () left ∧ left.locals = ⟨[("x", .int 7)]⟩ ∧ left.machine.output = "7 " ∧
        ∃ k, ∀ n, k ≤ n → ∃ other, ran n = .ok () other ∧ other.sight = left.sight := by
  intro rs d fetch print keep items body whole d' c host disk typed ran
  let leap : Word :=
    { Word.secondary "leap" 7 .atomic [⟨1, .value (.int 4)⟩] with older := some 6 }
  let store : Word := { Word.ofBuiltin ":=" 4 .store with older := some 3 }
  let branch := Word.ofBuiltin "branch" 1 .branch
  let zeroBranch : Word := { Word.ofBuiltin "0branch" 2 .zeroBranch with older := some 1 }
  let reached : List Word := [keep, fetch, print, leap, store, branch, zeroBranch]
  have own : d.OnlyBuiltins := Dictionary.onlyBuiltins_of_values (by decide +kernel)
  have own' : d'.OnlyBuiltins := Dictionary.onlyBuiltins_of_values (by decide +kernel)
  have closed : d.Closed reached := by decide +kernel
  have formed : ∀ u ∈ reached, u.WellFormed := by decide
  have returnless : ∀ u ∈ reached, u.usesReturns = false := by decide
  have ours : ∀ u ∈ reached, u.isForeign = false := by decide
  have same : ∀ u ∈ reached, ∀ i ∈ u.body, d'.findToken? i.token = d.findToken? i.token := by
    decide +kernel
  have listed : ∀ e ∈ items, e.2 ∈ reached := by decide
  have live : ∀ e ∈ items, d.findToken? e.2.token = some e.2 ∧
      d'.findToken? e.2.token = some e.2 := by decide +kernel
  have bare : ∀ e ∈ items, e.1.isString = false ∧ e.1.integer? = none := by decide +kernel
  have denoted : ∀ e ∈ items, d.find? e.1 = .ok (some e.2) := by decide +kernel
  have each : ∀ e ∈ items,
      Denotes d e.1 e.2 ∧ d.SelfContained e.2 ∧ d.AgreesAt d' { token := e.2.token } := by
    intro e member
    have inside := listed e member
    refine ⟨⟨(bare e member).1, (bare e member).2, denoted e member⟩,
      closed.selfContained inside formed returnless,
      (live e member).2.trans (live e member).1.symm, fun w found => ?_⟩
    obtain rfl : e.2 = w := Option.some.inj ((live e member).1.symm.trans found)
    exact closed.agreesBelow inside ours same
  have found : d'.findToken? whole.token = some whole := by decide +kernel
  have here : c.machine.dictionary = d := Option.getD_some
  obtain ⟨ends, -⟩ :=
    words_run_as_one 1 rs d' items whole c host disk here own own' each found rfl rfl
  have shown : (typed 9).mapState (fun left => (left.locals, left.machine.output)) =
      .ok () (⟨[("x", .int 7)]⟩, "7 ") := by decide +kernel
  obtain ⟨left, run, same⟩ := Outcome.mapState_eq_ok.mp shown
  obtain ⟨locals, output⟩ := Prod.mk.inj same
  exact ⟨here, own, own', each, found, left, run, locals, output, ends 9 left run⟩

end Console

end ThreadedCode
