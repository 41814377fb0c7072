import ThreadedCode.Proofs.Machine.Boundary
import ThreadedCode.Proofs.Machine.Messages
import ThreadedCode.Proofs.Machine.Stages

/-!
What a run writes to the diagnostics: the lines of its failures, in the order in which they happen.
A line has no line feed but the one at its end, unless it shows the name of an unknown variable that
has one.
-/

namespace ThreadedCode

section Effects

variable {arg : Operand} {t : Task} {globals : Variables}

theorem Fault.Plain.ifWritable {fault : Fault} (h : fault.Plain) (writable : Bool) :
    (Fault.ifWritable writable fault).Plain := by
  cases writable with
  | true => exact h
  | false => exact Or.inl rfl

theorem Task.jump_plain {fault : Fault} (h : t.jump arg = .error fault) : fault.Plain := by
  unfold jump at h
  split at h
  · cases h
    exact Or.inl rfl
  split at h
  · split at h
    · cases h
      exact Or.inl rfl
    · dsimp only at h
      split at h
      · cases h
        exact .ifWritable (Or.inl rfl) _
      · cases h
  · cases h
    exact .ifWritable (Or.inl rfl) _

/-- What a primitive leaves alone, and the faults that it may have. -/
structure Effect.Modest (t : Task) (e : Effect) : Prop where
  name : e.task.name = t.name
  plain : ∀ fault, e.result = .error fault → fault.Plain

theorem Value.asName_plain {v : Value} {fault : Fault} (h : v.asName = .error fault) :
    fault.Plain := by
  unfold asName at h
  split at h
  · cases h
  · cases h
    exact .ifWritable (Or.inl rfl) _

namespace Effect.Modest

theorem error {u : Task} (name : u.name = t.name) {fault : Fault} (plain : fault.Plain) :
    Modest t { task := u, globals, result := .error fault } := by
  refine ⟨name, fun _ failed => ?_⟩
  cases failed
  exact plain

theorem ok {u : Task} (name : u.name = t.name) (output : Text) (v : Value) :
    Modest t { task := u, globals, output, result := .ok v } :=
  ⟨name, fun _ failed => by cases failed⟩

theorem pop {next : Value → Task → Effect}
    (found : ∀ v u, u.name = t.name → Modest t (next v u)) :
    Modest t (match t.pop with
      | .error fault => { task := t, globals, result := .error fault }
      | .ok (v, u) => next v u) := by
  unfold Task.pop
  cases t.stack with
  | nil => exact error rfl (Or.inl rfl)
  | cons v rest => exact found v _ rfl

theorem jump (arg : Operand) (t : Task) (globals : Variables) :
    Modest t (.ofTask t globals (t.jump arg)) := by
  cases jumped : t.jump arg with
  | error fault => exact error rfl (Task.jump_plain jumped)
  | ok moved =>
    obtain ⟨_, position, _, same⟩ := Task.jump_eq_ok jumped
    exact ok (by rw [same]) [] moved.1

theorem zeroBranch : Modest t (.zeroBranch arg t globals) := by
  refine pop fun flag u name => ?_
  split
  · have jumped := jump arg u globals
    exact ⟨jumped.name.trans name, jumped.plain⟩
  · exact ok name [] flag

theorem print : Modest t (.print t globals) := by
  refine pop fun v u name => ?_
  split
  · exact ok name _ v
  · exact error name (Or.inl rfl)

theorem fetch : Modest t (.fetch t globals) := by
  refine pop fun top u name => ?_
  cases named : top.asName with
  | error fault => exact error name (Value.asName_plain named)
  | ok key =>
    dsimp only
    cases u.valueOf? globals key with
    | none => exact error name (Or.inr ⟨key, rfl⟩)
    | some v => exact ok (u := u.push v) name [] v

theorem store : Modest t (.store t globals) := by
  unfold Effect.store
  cases t.stack with
  | nil => exact error rfl (Or.inl rfl)
  | cons top below =>
    dsimp only
    cases named : top.asName with
    | error fault => exact error rfl (Value.asName_plain named)
    | ok key =>
      cases below with
      | nil => exact error rfl (Or.inl rfl)
      | cons v rest =>
        refine ok ?_ [] v
        unfold Task.assign
        split
        · rfl
        · split <;> rfl

end Effect.Modest

theorem Builtin.effect_modest (b : Builtin) : Effect.Modest t (b.effect arg t globals) := by
  cases b with
  | print => exact .print
  | newline => exact .ok rfl _ _
  | fetch => exact .fetch
  | store => exact .store
  | branch => exact .jump arg t globals
  | zeroBranch => exact .zeroBranch
  | toReturn =>
    simp only [effect, Task.moveToReturn, Task.pop]
    cases t.stack with
    | nil => exact .error rfl (Or.inl rfl)
    | cons v rest => exact ⟨rfl, fun _ failed => by cases failed⟩
  | fromReturn =>
    simp only [effect, Task.moveFromReturn, Task.popReturn]
    cases t.returns with
    | nil => exact .error rfl (Or.inl rfl)
    | cons v rest => exact ⟨rfl, fun _ failed => by cases failed⟩

end Effects

namespace Failure

def text (task : Text) (x : Failure) : Text :=
  Text.concat
    ["[", task, "] ", x.word.getD "?", ": ", x.fault.kind, ": ", x.fault.message]

def line (task : Text) (x : Failure) : Text := x.text task ++ [.lineFeed]

theorem line_eq (task : Text) (x : Failure) :
    x.line task = Machine.diagnosticLine (some task) x.word x.fault := by
  have last : Text.ofString "\n" = [CodePoint.lineFeed] := rfl
  simp [line, text, Machine.diagnosticLine, Text.concat, last]

structure Arises (d : Dictionary) (x : Failure) : Prop where
  named : ∀ name, x.word = some name → ∃ token w, d.findToken? token = some w ∧ w.name = name
  plain : x.fault.Plain

theorem Arises.lineFeed_mem_text {d : Dictionary} {x : Failure} (h : x.Arises d)
    (words : ∀ token w, d.findToken? token = some w → w.name.OneLine) {task : Text}
    (name : task.OneLine) :
    CodePoint.lineFeed ∈ x.text task ↔
      ∃ key, x.fault = .undefinedVariable key ∧ CodePoint.lineFeed ∈ key := by
  have word : (x.word.getD "?").OneLine := by
    cases shown : x.word with
    | none => exact (by decide : Text.OneLine "?")
    | some name =>
      obtain ⟨token, w, found, rfl⟩ := h.named name shown
      exact words token w found
  rw [text, Text.OneLine.mem_concat_cons (by decide), Text.OneLine.mem_concat_cons name,
    Text.OneLine.mem_concat_cons (by decide), Text.OneLine.mem_concat_cons word,
    Text.OneLine.mem_concat_cons (by decide), Text.OneLine.mem_concat_cons h.plain.kind,
    Text.OneLine.mem_concat_cons (by decide), Text.concat, List.flatten_singleton]
  exact h.plain.lineFeed_mem_message

theorem count_line (task : Text) (x : Failure) :
    (x.line task).count .lineFeed = (x.text task).count .lineFeed + 1 := by
  rw [line, List.count_append]
  rfl

theorem count_lines_cons (task : Text) (x : Failure) (rest : List Failure) :
    (Text.concat ((x :: rest).map (line task))).count .lineFeed =
      (x.text task).count .lineFeed + 1 +
        (Text.concat (rest.map (line task))).count .lineFeed := by
  rw [Text.concat, List.map_cons, List.flatten_cons, List.count_append, count_line, Text.concat]

theorem length_le_count_lines (task : Text) (xs : List Failure) :
    xs.length ≤ (Text.concat (xs.map (line task))).count .lineFeed := by
  induction xs with
  | nil => exact Nat.zero_le _
  | cons x rest ih =>
    rw [count_lines_cons, List.length_cons]
    omega

theorem count_lines_eq_iff (task : Text) (xs : List Failure) :
    (Text.concat (xs.map (line task))).count .lineFeed = xs.length ↔
      ∀ x ∈ xs, CodePoint.lineFeed ∉ x.text task := by
  induction xs with
  | nil => exact iff_of_true rfl fun _ member => absurd member List.not_mem_nil
  | cons x rest ih =>
    have most := length_le_count_lines task rest
    rw [count_lines_cons, List.length_cons, List.forall_mem_cons, ← ih, ← List.count_eq_zero]
    omega

end Failure

def Halt.Plain (why : Halt) : Prop := ∀ reason, why = fault reason → reason.Plain

namespace Focus

/-- What `g` has in its diagnostics beyond `f` are the lines of the failures. -/
structure Grown (failures : List Failure) (f g : Focus) : Prop where
  name : g.task.name = f.task.name
  diagnostics : g.diagnostics =
    f.diagnostics ++ Text.concat (failures.map (Failure.line f.task.name))

namespace Grown

variable {xs ys : List Failure} {f g h : Focus}

theorem quiet (name : g.task.name = f.task.name) (same : g.diagnostics = f.diagnostics) :
    Grown [] f g :=
  ⟨name, same.trans (List.append_nil _).symm⟩

theorem refl (f : Focus) : Grown [] f f := quiet rfl rfl

theorem trans (first : Grown xs f g) (second : Grown ys g h) : Grown (xs ++ ys) f h where
  name := second.name.trans first.name
  diagnostics := by
    rw [second.diagnostics, first.diagnostics, first.name, List.map_append, Text.concat,
      Text.concat, Text.concat, List.flatten_append, List.append_assoc]

theorem reported (word : Option Text) (fault : Fault) (f : Focus) :
    Grown [⟨word, fault⟩] f
      { f with diagnostics := f.diagnostics ++ Machine.diagnosticLine (some f.task.name) word fault }
      where
  name := rfl
  diagnostics := by
    rw [List.map_singleton, Text.concat, List.flatten_singleton, Failure.line_eq]

end Grown

structure Quiet {α : Type} (f : Focus) (o : Outcome Focus α) : Prop where
  leaves : o.Leaves (Grown [] f)
  plain : o.HaltsBy Halt.Plain

namespace Quiet

variable {α β : Type} {f g : Focus}

theorem ok (a : α) (grown : Grown [] f g) : Quiet f (.ok a g) := ⟨grown, trivial⟩

theorem fault {reason : Fault} (grown : Grown [] f g) (plain : reason.Plain) :
    Quiet (α := α) f (.halt (.fault reason) g) := by
  refine ⟨grown, ?_⟩
  rintro _ ⟨⟩
  exact plain

theorem malformed (word : Malformed) (f : Focus) :
    Quiet (α := α) f (.halt (.malformed word) f) := by
  refine ⟨.refl f, ?_⟩
  rintro _ ⟨⟩

theorem after {o : Outcome Focus α} (grown : Grown [] f g) (h : Quiet g o) : Quiet f o :=
  ⟨h.leaves.mono fun _ => grown.trans, h.plain⟩

theorem bind {x : Action Focus α} {k : α → Action Focus β} (h : Quiet f (x f))
    (next : ∀ a g, Quiet g (k a g)) : Quiet f ((x >>= k) f) where
  leaves := h.leaves.bind (fun _ grown => grown) fun a g grown =>
    (after grown (next a g)).leaves
  plain := h.plain.bind fun a g => (next a g).plain

end Quiet

end Focus

/-- The failures in a record are those that the computation has reported. -/
structure Reports {α : Type} (d : Dictionary) (f : Focus) (r : Record (Visit Focus) Focus α) : Prop where
  leaves : r.outcome.Leaves (Focus.Grown (allFailures r.events) f)
  arises : ∀ x ∈ allFailures r.events, x.Arises d
  plain : r.outcome.HaltsBy Halt.Plain

namespace Reports

variable {α β : Type} {d : Dictionary} {f : Focus}

theorem silently {x : Action Focus α} (quiet : Focus.Quiet f (x f)) :
    Reports d f (Recording.silently x f) :=
  ⟨quiet.leaves, fun _ member => absurd member List.not_mem_nil, quiet.plain⟩

theorem after {events : List (Visit Focus)} {g : Focus} {r : Record (Visit Focus) Focus β}
    (grown : Focus.Grown (allFailures events) f g) (arises : ∀ x ∈ allFailures events, x.Arises d)
    (h : Reports d g r) : Reports d f ⟨events ++ r.events, r.outcome⟩ where
  leaves := by
    rw [allFailures_append]
    exact h.leaves.mono fun _ => grown.trans
  arises x member := by
    rw [allFailures_append, List.mem_append] at member
    exact member.elim (arises x) (h.arises x)
  plain := h.plain

theorem bind {x : Recording (Visit Focus) Focus α} {k : α → Recording (Visit Focus) Focus β}
    (h : Reports d f (x f)) (next : ∀ a g, Reports d g (k a g)) : Reports d f ((x >>= k) f) := by
  rw [Recording.bind_apply]
  cases hx : x f with
  | mk events outcome =>
    rw [hx] at h
    cases outcome with
    | ok a g => exact after h.leaves h.arises (next a g)
    | halt why g => exact ⟨h.leaves, h.arises, h.plain⟩
    | exhausted => exact ⟨trivial, h.arises, trivial⟩

theorem ensuring {x : Recording (Visit Focus) Focus α} (h : Reports d f (x f)) {change : Task → Task}
    (name : ∀ t, (change t).name = t.name) :
    Reports d f ((x.ensuring (Focus.onTask change)) f) where
  leaves := by
    refine Outcome.Leaves.ensuring (x := x.erase) h.leaves fun g grown => ?_
    exact ⟨(name g.task).trans grown.name, grown.diagnostics⟩
  arises := h.arises
  plain := Outcome.HaltsBy.ensuring (x := x.erase) h.plain _

end Reports

namespace Focus

variable {d : Dictionary} {strict : Strictness}

theorem positionOf_quiet (level : Int) (f : Focus) : Quiet f (positionOf level f) := by
  unfold positionOf
  cases f.task.positions.get? level with
  | none => exact .fault (.refl f) (Or.inl rfl)
  | some position => exact .ok position (.refl f)

theorem ofExcept_quiet {α : Type} {r : Except Fault α}
    (plain : ∀ fault, r = .error fault → fault.Plain) (f : Focus) :
    Quiet f (Action.ofExcept r f) := by
  cases r with
  | ok a => exact .ok a (.refl f)
  | error fault => exact .fault (.refl f) (plain fault rfl)

theorem instructionAt_plain {body : List Instruction} {index : Int} {fault : Fault}
    (h : Machine.instructionAt body index = .error fault) : fault.Plain := by
  unfold Machine.instructionAt at h
  dsimp only at h
  split at h
  · cases h
  · cases h
    exact Or.inl rfl

theorem write_quiet (strict : Strictness) (t : Text) (f : Focus) : Quiet f (write strict t f) := by
  unfold write
  split
  · exact .fault (.refl f) (Or.inl rfl)
  · exact .ok () (.quiet rfl rfl)

theorem runBuiltin_quiet (b : Builtin) (arg : Operand) (f : Focus) :
    Quiet f (runBuiltin strict b arg f) := by
  have modest : Effect.Modest f.task (b.effect arg f.task f.globals) := b.effect_modest
  let changed : Focus :=
    { f with
      task := (b.effect arg f.task f.globals).task
      globals := (b.effect arg f.task f.globals).globals }
  have written := (write_quiet strict (b.effect arg f.task f.globals).output changed).bind
    fun _ g => ofExcept_quiet modest.plain g
  exact .after (g := changed) (.quiet modest.name rfl) written

theorem reports_compositional (d : Dictionary) (strict : Strictness) :
    (stage d strict).Compositional (Reports d) where
  step between f := by
    cases between with
    | exhausted => exact .silently ⟨trivial, trivial⟩
    | positionOf id level => exact .silently (positionOf_quiet level f)
    | fetch body index => exact .silently (ofExcept_quiet (fun _ => instructionAt_plain) f)
    | change id steers =>
      exact .silently (.ok () (.quiet (steers.apply_eq f.task Task.name fun _ => rfl) rfl))
    | pure a | activeTask | statusOf => exact .silently (.ok _ (.refl f))
  bind h next := h.bind next
  ensuring _ _ h steers := h.ensuring fun t => steers.apply_eq t Task.name fun _ => rfl

theorem executeWith_quiet (u : Invoker) (fuel : Nat) {w : Word} (runs : ¬ w.RunsBody)
    (i : Instruction) (f : Focus) : Quiet f (executeWith strict fuel u w i f) := by
  unfold executeWith
  cases kind : w.kind with
  | primitive =>
    cases w.primitive with
    | none => exact .malformed _ f
    | some p =>
      cases p with
      | builtin b => exact runBuiltin_quiet b i.arg f
      | foreign name => exact .malformed _ f
  | atomic => exact absurd (.inl kind) runs
  | composite => exact absurd (.inr kind) runs
  | other label => exact .malformed _ f

theorem reports_visit {calls : List Call} {i : Instruction} {inner : List (Visit Focus)}
    {f g : Focus} (grown : Grown (allFailures inner) f g)
    (arises : ∀ x ∈ allFailures inner, x.Arises d) {r : Except Failure Value} {g' : Focus}
    (own : Grown (Visit.failure? ⟨calls, i, f, .ok r (setStatus r.toOption g'), inner⟩).toList g g')
    (ours : ∀ failure, r = .error failure → failure.Arises d) :
    Reports d f ⟨[⟨calls, i, f, .ok r (setStatus r.toOption g'), inner⟩],
      .ok () (setStatus r.toOption g')⟩ where
  leaves := by
    rw [allFailures_singleton]
    have both := grown.trans own
    exact ⟨both.name, both.diagnostics⟩
  arises x member := by
    rw [allFailures_singleton, List.mem_append] at member
    rcases member with member | member
    · exact arises x member
    · cases r with
      | ok a => cases member
      | error failure => exact List.mem_singleton.mp member ▸ ours failure rfl
  plain := trivial

theorem allFailures_of_no_failure {v : Visit Focus} (none : v.failure? = none) :
    allFailures [v] = allFailures v.inner := by
  rw [allFailures_singleton, none]
  exact List.append_nil _

theorem visitFor_reports_found {calls : List Call} {i : Instruction} {w : Word}
    (found : d.findToken? i.token = some w) {fuel : Nat} {f : Focus}
    (h : Reports d f ((stage d strict).visitWith ((stage d strict).visit fuel) calls fuel w i f)) :
    Reports d f ((stage d strict).visitFor ((stage d strict).visit (fuel + 1)) calls () i f) := by
  have looked : (stage d strict).wordOf i f = .ok (some w) f := found ▸ stage_wordOf i f
  rw [Stage.visitFor_apply, Stage.visit_found looked]
  cases hw : (stage d strict).visitWith ((stage d strict).visit fuel) calls fuel w i f with
  | mk inner outcome =>
    rw [hw] at h
    cases outcome with
    | ok a g => exact reports_visit h.leaves h.arises (.refl g) fun _ failed => by cases failed
    | halt why g =>
      cases why with
      | fault fault =>
        have arises : Failure.Arises d ⟨some w.name, fault⟩ :=
          ⟨fun _ same => ⟨i.token, w, found, Option.some.inj same⟩, h.plain fault rfl⟩
        exact reports_visit h.leaves h.arises (.reported (some w.name) fault g)
          fun _ same => Except.error.inj same ▸ arises
      | malformed word | quit =>
        refine ⟨?_, ?_, h.plain⟩
        · rw [allFailures_of_no_failure rfl]
          exact h.leaves
        · rw [allFailures_of_no_failure rfl]
          exact h.arises
    | exhausted =>
      refine ⟨trivial, ?_, trivial⟩
      rw [allFailures_of_no_failure rfl]
      exact h.arises

/-- Every instruction reports its failure and those below it. -/
theorem visitFor_reports (d : Dictionary) (strict : Strictness) (fuel : Nat) (calls : List Call)
    (i : Instruction) (f : Focus) :
    Reports d f ((stage d strict).visitFor ((stage d strict).visit fuel) calls () i f) := by
  -- on the depth of calls, as the words in a body are invoked with less fuel
  induction fuel generalizing calls i f with
  | zero => exact ⟨trivial, fun _ member => absurd member List.not_mem_nil, trivial⟩
  | succ fuel ih =>
    cases found : d.findToken? i.token with
    | some w =>
      refine visitFor_reports_found found ?_
      exact (reports_compositional d strict).visitWith (fun calls _ => ih calls)
        (fun runs => .silently (executeWith_quiet _ fuel runs i f)) calls
    | none =>
      rw [Stage.visitFor_apply, Stage.visit_missing (found ▸ stage_wordOf i f)]
      have arises : Failure.Arises d
          ⟨none, .ifWritable (Text.hasNumeral i.token) (.danglingToken i.token)⟩ :=
        ⟨fun _ same => (by cases same), .ifWritable (Or.inl rfl) _⟩
      have nothing : Grown (allFailures ([] : List (Visit Focus))) f f := .refl f
      exact reports_visit nothing (fun _ member => absurd member List.not_mem_nil) (.reported none _ f)
        fun _ same => Except.error.inj same ▸ arises

end Focus

namespace Machine

/-- A run writes one line of diagnostics for each instruction that fails, in the order in which they
fail: the lines of all failures in the tree of the run, each visit that fails having one. This is so
with a result and when a malformed word stops the run. Where the names of the words and of the task
have no line feed, the one at the end of a line is its only one, except where the line shows the name
of an unknown variable that has one; so the line feeds are as many as the failures exactly if no
such variable is looked up. -/
theorem run_reports_failures {m : Machine} {id : TaskId} {t : Task} (known : m.task? id = some t)
    (own : m.dictionary.OnlyBuiltins)
    (words : ∀ token w, m.dictionary.findToken? token = some w → w.name.OneLine)
    (name : t.name.OneLine) (host : Host) (fuel : Nat) :
    let entry : Instruction := { token := t.entry.token }
    let record := (Focus.stage m.dictionary m.strict).record fuel () entry (Focus.of m t)
    run host fuel id m = record.outcome.mapState (settle m id t.name) ∧
      ∃ root, record.events = [root] ∧ root.instruction = entry ∧
        root.failures.Perm (root.all.filterMap Visit.failure?) ∧
        let written := Text.concat (root.failures.map (Failure.line t.name))
        ((run host fuel id m).Leaves fun m' => m'.diagnostics = m.diagnostics ++ written) ∧
        (∀ x ∈ root.failures, CodePoint.lineFeed ∈ x.text t.name ↔
          ∃ key, x.fault = .undefinedVariable key ∧ CodePoint.lineFeed ∈ key) ∧
        (written.count .lineFeed = root.failures.length ↔
          ∀ x ∈ root.failures, CodePoint.lineFeed ∉ x.text t.name) := by
  intro entry record
  obtain ⟨visited, root, events, invoked⟩ := run_visits known own host fuel
  have visited : run host fuel id m = record.outcome.mapState (settle m id t.name) := visited
  have reports : Reports m.dictionary (Focus.of m t) record :=
    Focus.visitFor_reports m.dictionary m.strict fuel [] entry (Focus.of m t)
  have all : allFailures record.events = root.failures := by
    rw [root.failures_eq, ← allFailures_singleton, ← events]
  refine ⟨visited, root, events, invoked, root.failures_perm, ?_, ?_, ?_⟩
  · rw [visited]
    refine Outcome.Leaves.of_mapState (reports.leaves.mono fun g grown => ?_)
    rw [all] at grown
    exact grown.diagnostics
  · intro x member
    rw [← all] at member
    exact (reports.arises x member).lineFeed_mem_text words name
  · exact Failure.count_lines_eq_iff t.name root.failures

theorem run_reports_failures_each :
    let newline := Word.ofBuiltin "cr" 2 .newline
    let fetch := Word.ofBuiltin "=:" 3 .fetch
    let straight :=
      Word.secondary "straight" 11 .atomic
        [⟨3, .absent⟩, ⟨3, .absent⟩, ⟨99, .absent⟩, ⟨2, .absent⟩]
    let d : Dictionary :=
      { Dictionary.empty 13 with words := ⟨[(2, newline), (3, fetch), (11, straight)]⟩ }
    let t : Task := { name := "main", entry := straight, stack := [.text "x"] }
    let m : Machine := { built := some d, tasks := ⟨[(0, t)]⟩, nextTask := 1 }
    let host : Host := fun _ _ _ => pure .null
    let entry : Instruction := { token := 11 }
    let record := (Focus.stage d m.strict).record 9 () entry (Focus.of m t)
    m.task? 0 = some t ∧ d.OnlyBuiltins ∧
      (∀ token w, d.findToken? token = some w → w.name.OneLine) ∧ t.name.OneLine ∧
      allFailures record.events =
        [⟨some "=:", .undefinedVariable "x"⟩, ⟨some "=:", .stackUnderflow⟩,
          ⟨none, .danglingToken 99⟩] ∧
      run host 9 0 m = record.outcome.mapState (settle m 0 t.name) ∧
      ∃ root, record.events = [root] ∧ root.instruction = entry ∧
        root.failures.Perm (root.all.filterMap Visit.failure?) ∧
        let written := Text.concat (root.failures.map (Failure.line t.name))
        ((run host 9 0 m).Leaves fun m' => m'.diagnostics = m.diagnostics ++ written) ∧
        (∀ x ∈ root.failures, CodePoint.lineFeed ∈ x.text t.name ↔
          ∃ key, x.fault = .undefinedVariable key ∧ CodePoint.lineFeed ∈ key) ∧
        (written.count .lineFeed = root.failures.length ↔
          ∀ x ∈ root.failures, CodePoint.lineFeed ∉ x.text t.name) := by
  intro newline fetch straight d t m host entry record
  have known : m.task? 0 = some t := rfl
  have own : d.OnlyBuiltins := Dictionary.onlyBuiltins_of_values (by decide)
  have words : ∀ token w, d.findToken? token = some w → w.name.OneLine := by
    intro token w found
    have entries : ∀ e ∈ d.words.entries, e.2.name.OneLine := by decide
    exact entries (token, w) (Table.mem_entries_of_get? found)
  have name : t.name.OneLine := by decide
  have failures : allFailures record.events =
      [⟨some "=:", .undefinedVariable "x"⟩, ⟨some "=:", .stackUnderflow⟩,
        ⟨none, .danglingToken 99⟩] := by
    decide +kernel
  exact ⟨known, own, words, name, failures, run_reports_failures known own words name host 9⟩

/-- The name of an unknown variable is shown as it is: looked up where its name has a line feed, it
breaks the one line of the one failure in two. -/
theorem unknown_name_breaks_line :
    let fetch : Word :=
      { Word.ofBuiltin "=:" 3 .fetch with
        older := some 2, doc := "( name -- x ) lit une variable" }
    let t : Task := { name := "t", entry := fetch, stack := [.text "a\nb"] }
    let m : Machine := { tasks := ⟨[(0, t)]⟩, nextTask := 1 }
    let host : Host := fun _ _ _ => pure .null
    let entry : Instruction := { token := 3 }
    let record := (Focus.stage m.dictionary m.strict).record 1 () entry (Focus.of m t)
    m.task? 0 = some t ∧ m.dictionary.findToken? 3 = some fetch ∧ m.dictionary.OnlyBuiltins ∧
      (∀ token w, m.dictionary.findToken? token = some w → w.name.OneLine) ∧ t.name.OneLine ∧
      ∃ root m', record.events = [root] ∧ run host 1 0 m = .ok () m' ∧
        root.failures = [⟨some "=:", .undefinedVariable "a\nb"⟩] ∧ m.diagnostics = [] ∧
        m'.diagnostics = "[t] =:: UndefinedVariable: a\nb\n" ∧
        m'.diagnostics.count .lineFeed = 2 := by
  intro fetch t m host entry record
  have words : ∀ token w, m.dictionary.findToken? token = some w → w.name.OneLine := by
    intro token w found
    have entries : ∀ e ∈ m.dictionary.words.entries, e.2.name.OneLine := by decide
    exact entries (token, w) (Table.mem_entries_of_get? found)
  refine ⟨rfl, by decide, Dictionary.onlyBuiltins_of_values (by decide), words, by decide, ?_⟩
  exact ⟨_, _, rfl, rfl, rfl, rfl, by decide +kernel, by decide +kernel⟩

end Machine

end ThreadedCode
