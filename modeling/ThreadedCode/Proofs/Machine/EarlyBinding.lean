import ThreadedCode.Proofs.Dictionary.Revision
import ThreadedCode.Proofs.Machine.Frame

/-!
Running a word after its dictionary has been revised. A machine looks into its dictionary for nothing
but the words of instructions. So with another dictionary in its place a run does the same, if all
tokens that the run may meet denote the same words in both. Bodies hold tokens, not names, and tokens
are given out once: definitions, redefinitions and changes of vocabularies leave every run as it was.
-/

namespace ThreadedCode.Machine

def rebuilt (d : Dictionary) (m : Machine) : Machine := { m with built := some d }

structure Spares (change : Machine → Machine) : Prop where
  rebuilt : ∀ d m, change (m.rebuilt d) = (change m).rebuilt d
  built : ∀ m, (change m).built = m.built

theorem Spares.dictionary {change : Machine → Machine} (h : Spares change) (m : Machine) :
    (change m).dictionary = m.dictionary := by
  rw [Machine.dictionary, h.built, Machine.dictionary]

theorem Spares.updateTask (id : TaskId) (change : Task → Task) :
    Spares (Machine.updateTask id change) where
  rebuilt d m := by
    have known : (m.rebuilt d).task? id = m.task? id := rfl
    rw [Machine.updateTask, Machine.updateTask, known]
    cases m.task? id <;> rfl
  built m := by
    rw [Machine.updateTask]
    cases m.task? id <;> rfl

theorem Spares.endRun (before : Machine) (id : TaskId) : Spares (Machine.endRun before id) :=
  ⟨fun _ _ => rfl, fun _ => rfl⟩

/-- With `d'` in place of `d`, a computation does the same; the dictionary stays. -/
structure Unaffected (d d' : Dictionary) {α : Type} (x : Action Machine α) : Prop where
  same : ∀ m : Machine, m.dictionary = d → x (m.rebuilt d') = (x m).mapState (rebuilt d')
  kept : ∀ m : Machine, m.dictionary = d → (x m).Leaves fun now => now.dictionary = d

namespace Unaffected

variable {d d' : Dictionary} {α β : Type}

theorem pure (a : α) : Unaffected d d' (pure a) := ⟨fun _ _ => rfl, fun _ here => here⟩

theorem halt (why : Halt) : Unaffected d d' (Action.halt why : Action Machine α) :=
  ⟨fun _ _ => rfl, fun _ here => here⟩

theorem exhausted : Unaffected d d' (Action.exhausted : Action Machine α) :=
  ⟨fun _ _ => rfl, fun _ _ => trivial⟩

theorem ofExcept (r : Except Fault α) : Unaffected d d' (Action.ofExcept r) := by
  cases r with
  | ok a => exact pure a
  | error fault => exact halt (.fault fault)

theorem ofExcept_bind {r : Except Fault α} {g : α → Action Machine β}
    (next : ∀ a, r = .ok a → Unaffected d d' (g a)) :
    Unaffected d d' (Action.ofExcept r >>= g) := by
  cases r with
  | ok a => exact next a rfl
  | error fault => exact halt (.fault fault)

theorem modify {change : Machine → Machine} (spares : Spares change) :
    Unaffected d d' (Action.modify change) where
  same m _ := congrArg (Outcome.ok ()) (spares.rebuilt d' m)
  kept m here := (spares.dictionary m).trans here

theorem updateTask (id : TaskId) (change : Task → Task) :
    Unaffected d d' (Action.modify (updateTask id change)) := modify (.updateTask id change)

theorem bind {x : Action Machine α} {g : α → Action Machine β} (h : Unaffected d d' x)
    (next : ∀ a, Unaffected d d' (g a)) : Unaffected d d' (x >>= g) where
  same m here := by
    have kept := h.kept m here
    rw [Action.bind_apply, Action.bind_apply, h.same m here]
    cases hx : x m with
    | ok a now =>
      rw [hx] at kept
      exact (next a).same now kept
    | halt why now => rfl
    | exhausted => rfl
  kept m here := (h.kept m here).bind (fun _ kept => kept) fun a now kept => (next a).kept now kept

theorem ensuring {x : Action Machine α} (h : Unaffected d d' x) {change : Machine → Machine}
    (spares : Spares change) : Unaffected d d' (x.ensuring change) where
  same m here := by
    rw [Action.ensuring, Action.ensuring, h.same m here]
    cases x m <;> simp [Outcome.mapState, spares.rebuilt]
  kept m here := (h.kept m here).ensuring fun now kept => (spares.dictionary now).trans kept

theorem catchFault {x : Action Machine α} {handler : Fault → Action Machine α}
    (h : Unaffected d d' x) (handled : ∀ fault, Unaffected d d' (handler fault)) :
    Unaffected d d' (x.catchFault handler) where
  same m here := by
    have kept := h.kept m here
    rw [Action.catchFault, Action.catchFault, h.same m here]
    cases hx : x m with
    | ok a now => rfl
    | halt why now =>
      rw [hx] at kept
      cases why with
      | fault fault => exact (handled fault).same now kept
      | malformed word => rfl
      | quit => rfl
    | exhausted => rfl
  kept m here :=
    (h.kept m here).catchFault fun fault now kept => (handled fault).kept now kept

theorem get {g : Machine → Action Machine α} (reads : ∀ m, g (m.rebuilt d') = g m)
    (next : ∀ m, Unaffected d d' (g m)) : Unaffected d d' (Action.get >>= g) where
  same m here := by
    change g (m.rebuilt d') (m.rebuilt d') = _
    rw [reads, (next m).same m here]
    rfl
  kept m here := (next m).kept m here

theorem useDictionary {g : Dictionary → Action Machine α} (reads : g d' = g d)
    (next : Unaffected d d' (g d)) : Unaffected d d' (useDictionary >>= g) where
  same m here := by
    subst here
    change g d' (m.rebuilt d') = _
    rw [reads]
    exact next.same (m.rebuilt m.dictionary) rfl
  kept m here := by
    subst here
    exact next.kept (m.rebuilt m.dictionary) rfl

end Unaffected

variable {d d' : Dictionary}

theorem activeTask_unaffected : Unaffected d d' activeTask where
  same m here := by
    have known : (m.rebuilt d').activeTask? = m.activeTask? := rfl
    rw [activeTask, activeTask, known]
    cases m.activeTask? <;> rfl
  kept m here := by
    rw [activeTask]
    cases m.activeTask? <;> exact here

theorem statusOf_unaffected (id : TaskId) : Unaffected d d' (statusOf id) :=
  ⟨fun _ _ => rfl, fun _ here => here⟩

theorem positionOf_unaffected (id : TaskId) (level : Int) :
    Unaffected d d' (positionOf id level) where
  same m here := by
    have known : (m.rebuilt d').task? id = m.task? id := rfl
    rw [positionOf, positionOf, known]
    cases (m.task? id).bind (·.positions.get? level) <;> rfl
  kept m here := by
    rw [positionOf]
    cases (m.task? id).bind (·.positions.get? level) <;> exact here

theorem write_unaffected (t : Text) : Unaffected d d' (write t) where
  same m here := by
    have strict : (m.rebuilt d').strict = m.strict := rfl
    rw [write, write, strict]
    cases m.strict.refusal? t <;> rfl
  kept m here := by
    unfold write
    split <;> exact here

theorem reportFault_unaffected (word : Option Text) (fault : Fault) :
    Unaffected d d' (reportFault word fault) := by
  refine .get (fun _ => rfl) fun m => .bind (.modify ?_) fun _ => .pure none
  exact ⟨fun _ _ => rfl, fun _ => rfl⟩

theorem runBuiltin_unaffected (b : Builtin) (arg : Operand) :
    Unaffected d d' (runBuiltin b arg) := by
  refine .get (fun _ => rfl) fun m => ?_
  cases m.activeTask? with
  | some found =>
    refine .bind (.modify ?_) fun _ => (write_unaffected _).bind fun _ => .ofExcept _
    exact ⟨fun _ _ => rfl, fun _ => rfl⟩
  | none =>
    cases b with
    | newline => exact (write_unaffected _).bind fun _ => .pure _
    | print | fetch | store | branch | zeroBranch | toReturn | fromReturn => exact .halt _

section Bodies

variable {v : Invoker} {body : List Instruction}

theorem invokeFor_unaffected (id : TaskId) {i : Instruction} (h : Unaffected d d' (v i)) :
    Unaffected d d' (invokeFor v id i) :=
  h.bind fun _ => .updateTask id _

theorem invokeEach_unaffected (id : TaskId) (h : ∀ i ∈ body, Unaffected d d' (v i)) :
    Unaffected d d' (invokeEach v id body) := by
  induction body with
  | nil => exact .pure ()
  | cons i rest ih =>
    have tail := ih fun j member => h j (List.mem_cons_of_mem i member)
    exact (invokeFor_unaffected id (h i List.mem_cons_self)).bind fun _ => tail

theorem runByPosition_unaffected (id : TaskId) (h : ∀ i ∈ body, Unaffected d d' (v i))
    (level : Int) (fuel : Nat) : Unaffected d d' (runByPosition v id level body fuel) := by
  induction fuel with
  | zero => exact .exhausted
  | succ fuel ih =>
    refine (positionOf_unaffected id level).bind fun position => ?_
    by_cases inside : position ≤ body.length
    · rw [if_pos inside]
      refine .ofExcept_bind fun i fetched => ?_
      have member := mem_of_instructionAt fetched
      exact (invokeFor_unaffected id (h i member)).bind fun _ =>
        (positionOf_unaffected id level).bind fun _ => (Unaffected.updateTask id _).bind fun _ => ih
    · rw [if_neg inside]
      exact .pure ()

theorem runStraight_unaffected (h : ∀ i ∈ body, Unaffected d d' (v i)) :
    Unaffected d d' (runStraight v body) := by
  refine activeTask_unaffected.bind fun (id, t) => (Unaffected.updateTask id _).bind fun _ => ?_
  have run := (invokeEach_unaffected id h).ensuring (.updateTask id leaveAtomic)
  exact run.bind fun _ => statusOf_unaffected id

theorem runAtLevel_unaffected (h : ∀ i ∈ body, Unaffected d d' (v i)) (fuel : Nat) :
    Unaffected d d' (runAtLevel v fuel body) := by
  refine activeTask_unaffected.bind fun (id, t) => (Unaffected.updateTask id _).bind fun _ => ?_
  have run := (runByPosition_unaffected id h (t.level + 1) fuel).ensuring
    (.updateTask id (leaveLevel t))
  exact run.bind fun _ => statusOf_unaffected id

end Bodies

theorem executeWith_unaffected (host : Host) (fuel : Nat) {v : Invoker} {w : Word}
    (own : w.isForeign = false) (h : w.RunsBody → ∀ i ∈ w.body, Unaffected d d' (v i))
    (i : Instruction) : Unaffected d d' (executeWith host fuel v w i) := by
  unfold executeWith
  cases hk : w.kind with
  | primitive =>
    cases hp : w.primitive with
    | none => exact .halt _
    | some p =>
      cases p with
      | builtin b => exact runBuiltin_unaffected b i.arg
      | foreign name => simp [Word.isForeign, hk, hp] at own
  | atomic => exact runStraight_unaffected (h (.inl hk))
  | composite => exact runAtLevel_unaffected (h (.inr hk)) fuel
  | other label => exact .halt _

theorem invoke_unaffected (host : Host) (fuel : Nat) {i : Instruction} (agrees : d.AgreesAt d' i) :
    Unaffected d d' (invoke host fuel i) := by
  induction fuel generalizing i with
  | zero => exact .exhausted
  | succ fuel ih =>
    rw [invoke]
    refine .useDictionary (by rw [agrees.token]) ?_
    cases found : d.findToken? i.token with
    | none => exact reportFault_unaffected _ _
    | some w =>
      have below := agrees.word w found
      have executed := executeWith_unaffected host fuel (below.own w .refl)
        (fun runs j member => ih (below.agreesAt runs member)) i
      exact (executed.bind fun _ => .pure _).catchFault (reportFault_unaffected _)

theorem execute_unaffected (host : Host) (fuel : Nat) {w : Word} (agrees : d.AgreesBelow d' w)
    (i : Instruction) : Unaffected d d' (execute host fuel w i) :=
  executeWith_unaffected host fuel (agrees.own w .refl)
    (fun runs _ member => invoke_unaffected host fuel (agrees.agreesAt runs member)) i

theorem run_rebuilt (host : Host) (fuel : Nat) (id : TaskId) {m : Machine}
    (entry : ∀ t, m.task? id = some t →
      Unaffected m.dictionary d' (invoke host fuel { token := t.entry.token })) :
    run host fuel id (m.rebuilt d') = (run host fuel id m).mapState (rebuilt d') := by
  have known : (m.rebuilt d').task? id = m.task? id := rfl
  rw [run, runTask, Action.bind_apply, Action.bind_apply]
  dsimp only [Action.get]
  rw [known]
  cases found : m.task? id with
  | none => rfl
  | some t =>
    have awake : Spares fun now => { now with active := some id } :=
      ⟨fun _ _ => rfl, fun _ => rfl⟩
    have whole := (Unaffected.modify awake).bind fun _ =>
      (invokeFor_unaffected id (entry t found)).ensuring (.endRun m id)
    exact whole.same m rfl

/-- Early binding. A dictionary has come about by revisions, and `w` was made in the course of them.
It is revised further, and in the end no word that `w` reaches is gone; since no token is given out
twice, this is to say that none of them has been forgotten in between. Then all tokens in the bodies
that `w` reaches denote what they did before, and those that denoted nothing still denote nothing. To
execute `w`, or to run a task for it, is the same as before: whatever the state of the machine, it
comes to the same result or the same halt, or to no end, and leaves the same but for the
dictionary. -/
theorem run_early_bound (past since later : List Dictionary.Revision) (w : Word)
    (made : (Dictionary.initial.reviseAll past).findToken? w.token = some w) :
    let d := Dictionary.initial.reviseAll (past ++ since)
    let d' := d.reviseAll later
    (∀ u, d.Reaches w u → u.isForeign = false) →
    (∀ u, d.Reaches w u → d.findToken? u.token = some u → d'.findToken? u.token ≠ none) →
      (∀ u, d.Reaches w u → u.RunsBody →
        ∀ i ∈ u.body, d'.findToken? i.token = d.findToken? i.token) ∧
      ∀ (m : Machine) (host : Host) (fuel : Nat), m.dictionary = d →
        (∀ i, execute host fuel w i (m.rebuilt d') =
          (execute host fuel w i m).mapState (rebuilt d')) ∧
        ∀ id, (∀ t, m.task? id = some t → t.entry = w) →
          run host fuel id (m.rebuilt d') = (run host fuel id m).mapState (rebuilt d') := by
  intro d d' own kept
  have inPast := Dictionary.Grounded.initial.reviseAll past
  have inBetween := inPast.1.reviseAll since
  rw [← Dictionary.reviseAll_append] at inBetween
  have afterwards := inBetween.1.reviseAll later
  have given : w.token < d.nextToken :=
    Int.lt_of_lt_of_le (inPast.1.numbered.given w.token w made) inBetween.2.next
  have agrees : d.AgreesBelow d' w := by
    refine inBetween.1.agreesBelow afterwards.2 (fun i member => ?_) own kept
    exact Int.lt_of_lt_of_le (inPast.1.mentions w.token w made i member) inBetween.2.next
  -- The token of the word itself denotes the word, or nothing if the word has been forgotten.
  have denotes : ∀ u, d.findToken? w.token = some u → u = w := fun u found =>
    inBetween.2.same (inPast.1.numbered.given w.token w made) made found
  have token : d'.findToken? w.token = d.findToken? w.token :=
    afterwards.2.findToken?_eq given fun u found => kept w .refl (denotes u found ▸ found)
  refine ⟨agrees.same, fun m host fuel here => ⟨fun i => ?_, fun id entry => ?_⟩⟩
  · exact (execute_unaffected host fuel agrees i).same m here
  · refine run_rebuilt host fuel id fun t known => ?_
    rw [entry t known, here]
    exact invoke_unaffected host fuel ⟨token, fun u found => (denotes u found).symm ▸ agrees⟩

/-- A word with a word in its body that has been forgotten. Then words and a primitive of the names in
its body are made anew, and another word of its own name is made and forgotten. -/
theorem run_early_bound_redefined :
    let past : List Dictionary.Revision :=
      [.author (.compile "a" [("cr", .absent)] none), .author (.addVocabulary "tools"),
        .author (.use "tools"),
        .author (.compile "b" [("a", .absent), (".", .absent)] (some true))]
    let since : List Dictionary.Revision := [.author (.defineIn "forth"), .author (.forget "a")]
    let later : List Dictionary.Revision :=
      [.author (.compile "a" [(".", .absent)] none), .primitive "." (.foreign "noise") "",
        .author (.addVocabulary "more"), .author (.use "tools"),
        .author (.compile "b" [("a", .absent), ("b", .absent)] none), .author (.forget "b"),
        .author (.searchIn "more")]
    let d := Dictionary.initial.reviseAll (past ++ since)
    let d' := d.reviseAll later
    let b : Word :=
      { Word.secondary "b" 10 .composite [⟨9, .absent⟩, ⟨1, .absent⟩] with vocabulary := "tools" }
    let t : Task := { name := "main", entry := b, stack := [.int 7] }
    let m : Machine := { built := some d, tasks := ⟨[(0, t)]⟩, nextTask := 1 }
    let host : Host := fun _ _ _ => pure .null
    (Dictionary.initial.reviseAll past).findToken? 10 = some b ∧
      (∀ u, d.Reaches b u → u.isForeign = false) ∧
      (∀ u, d.Reaches b u → d.findToken? u.token = some u → d'.findToken? u.token ≠ none) ∧
      d.findToken? 9 = none ∧ d'.findToken? 9 = none ∧ d'.nextToken = 14 ∧
      ∀ fuel, run host fuel 0 (m.rebuilt d') = (run host fuel 0 m).mapState (rebuilt d') := by
  intro past since later d d' b t m host
  have made : (Dictionary.initial.reviseAll past).findToken? 10 = some b := by decide +kernel
  have ours : ∀ u ∈ d.words.values, u.isForeign = false := by decide +kernel
  have stay : ∀ u ∈ d.words.values, d'.findToken? u.token ≠ none := by decide +kernel
  have dangling : d.findToken? 9 = none := by decide +kernel
  have own : ∀ u, d.Reaches b u → u.isForeign = false := by
    intro u reached
    rcases reached.eq_or_found with rfl | ⟨token, found⟩
    · rfl
    · exact ours u (Dictionary.mem_values_of_findToken? found)
  have kept : ∀ u, d.Reaches b u → d.findToken? u.token = some u → d'.findToken? u.token ≠ none :=
    fun u _ found => stay u (Dictionary.mem_values_of_findToken? found)
  obtain ⟨same, runs⟩ := run_early_bound past since later b made own kept
  have mentioned : (⟨9, .absent⟩ : Instruction) ∈ b.body := List.mem_cons_self
  have still : d'.findToken? 9 = none :=
    (same b .refl (.inr rfl) ⟨9, .absent⟩ mentioned).trans dangling
  have entry : ∀ u, m.task? 0 = some u → u.entry = b := fun u known => by
    obtain rfl : t = u := Option.some.inj known
    rfl
  have built : m.dictionary = d := Option.getD_some
  have next : d'.nextToken = 14 := by decide +kernel
  exact ⟨made, own, kept, dangling, still, next, fun fuel => (runs m host fuel built).2 0 entry⟩

end ThreadedCode.Machine
