import ThreadedCode.Proofs.Machine.Stages

/-!
What a run of a task can change. Global variables keep their names and can only have other values
where a store found no variable of the task under that name; which of the two a store writes to is
decided anew each time. The rest of what a run changes is the task itself.
-/

namespace ThreadedCode

theorem Table.contains_iff {κ α : Type} [DecidableEq κ] {t : Table κ α} {k : κ} :
    t.contains k = true ↔ k ∈ t.keys := by
  rw [contains, Option.isSome_iff_ne_none, ne_eq, get?_eq_none_iff, Decidable.not_not]

theorem Table.keys_insert_of_contains {κ α : Type} [DecidableEq κ] {t : Table κ α} {k : κ}
    (there : t.contains k = true) (a : α) : (t.insert k a).keys = t.keys := by
  have keys : (t.insert k a).keys = if k ∈ t.keys then t.keys else t.keys ++ [k] :=
    keys_insertEntry k a t.entries
  rw [keys, if_pos (contains_iff.mp there)]

theorem Table.contains_insert {κ α : Type} [DecidableEq κ] {t : Table κ α} {j k : κ} (a : α)
    (there : t.contains j = true) : (t.insert k a).contains j = true := by
  rw [contains, get?_insert]
  by_cases same : j = k
  · rw [if_pos same]
    rfl
  · rwa [if_neg same]

theorem Outcome.Leaves.pointwise {σ α ι : Type} {P : ι → σ → Prop} {o : Outcome σ α}
    (each : ∀ x, o.Leaves (P x)) : o.Leaves fun s => ∀ x, P x s := by
  cases o with
  | ok a s => exact each
  | halt why s => exact each
  | exhausted => trivial

namespace Holdings

variable {b : Builtin} {h h' : Holdings} {name : Text}

theorem Step.keys_globals (step : Step b h h') : h'.globals.keys = h.globals.keys := by
  cases step with
  | storeGlobal stack free shared => exact Table.keys_insert_of_contains shared _
  | keep | drop | fetch | storeLocal | toReturn | fromReturn => rfl

theorem Step.contains_locals (step : Step b h h') (there : h.locals.contains name = true) :
    h'.locals.contains name = true := by
  cases step with
  | storeLocal => exact Table.contains_insert _ there
  | keep | drop | fetch | storeGlobal | toReturn | fromReturn => exact there

theorem Step.get?_globals (step : Step b h h')
    (changed : h'.globals.get? name ≠ h.globals.get? name) :
    b = .store ∧ h.locals.contains name = false ∧ ∃ v rest, h.stack = .text name :: v :: rest := by
  cases step with
  | @storeGlobal h key v rest stack free shared =>
    by_cases same : name = key
    · subst same
      exact ⟨rfl, free, v, rest, stack⟩
    · exact absurd ((Table.get?_insert _ key name v).trans (if_neg same)) changed
  | keep | drop | fetch | storeLocal | toReturn | fromReturn => exact absurd rfl changed

theorem Steps.keys_globals (steps : Steps h h') : h'.globals.keys = h.globals.keys := by
  induction steps with
  | refl => rfl
  | tail _ step ih => exact step.elim fun _ step => step.keys_globals.trans ih

theorem Steps.contains_locals (steps : Steps h h') (there : h.locals.contains name = true) :
    h'.locals.contains name = true := by
  induction steps with
  | refl => exact there
  | tail _ step ih => exact step.elim fun _ step => step.contains_locals ih

end Holdings

/-- A value is about to be stored in a global variable: the name and the value are on the stack, and
the task has no variable of that name. -/
def Visit.StoresIn (d : Dictionary) (name : Text) (v : Visit Focus) : Prop :=
  d.builtin? v.instruction = some .store ∧ v.before.task.locals.contains name = false ∧
    ∃ x rest, v.before.task.stack = .text name :: x :: rest

/-- A part of the state is left as it was, or the record has a visit of a kind. -/
def Record.Accounts {σ α β : Type} (part : σ → β) (cause : Visit σ → Prop) (s : σ)
    (r : Record (Visit σ) σ α) : Prop :=
  r.outcome.Leaves fun s' => part s' = part s ∨ ∃ v ∈ allVisits r.events, cause v

namespace Record.Accounts

variable {σ η α β γ : Type} {part : σ → γ} {cause : Visit σ → Prop} {s : σ}

theorem of_mem {r : Record (Visit σ) σ α} {v : Visit σ} (member : v ∈ allVisits r.events)
    (here : cause v) : r.Accounts part cause s := by
  unfold Accounts
  cases r.outcome with
  | ok a s' => exact .inr ⟨v, member, here⟩
  | halt why s' => exact .inr ⟨v, member, here⟩
  | exhausted => trivial

theorem silently {x : Action σ α} (kept : (x s).Leaves fun s' => part s' = part s) :
    (Recording.silently x s).Accounts part cause s :=
  kept.mono fun _ same => .inl same

theorem after {events : List (Visit σ)} {r : Record (Visit σ) σ α} {s' : σ}
    (before : part s' = part s ∨ ∃ v ∈ allVisits events, cause v) (h : r.Accounts part cause s') :
    (⟨events ++ r.events, r.outcome⟩ : Record (Visit σ) σ α).Accounts part cause s := by
  refine Outcome.Leaves.mono h fun now here => ?_
  simp only [allVisits_append, List.mem_append]
  rcases here with same | ⟨v, member, there⟩
  · exact before.imp same.trans fun ⟨v, member, there⟩ => ⟨v, .inl member, there⟩
  · exact .inr ⟨v, .inr member, there⟩

theorem bind {x : Recording (Visit σ) σ α} {g : α → Recording (Visit σ) σ β}
    (h : (x s).Accounts part cause s) (next : ∀ a s', (g a s').Accounts part cause s') :
    ((x >>= g) s).Accounts part cause s := by
  rw [Recording.bind_apply]
  rcases hx : x s with ⟨events, outcome⟩
  rw [hx] at h
  cases outcome with
  | ok a s' => exact after h (next a s')
  | halt why s' => exact h
  | exhausted => trivial

theorem ensuring {x : Recording (Visit σ) σ α} (h : (x s).Accounts part cause s) (change : σ → σ)
    (kept : ∀ s', part (change s') = part s') :
    ((x.ensuring change) s).Accounts part cause s := by
  have left : (x s).outcome.Leaves fun s' =>
      part s' = part s ∨ ∃ v ∈ allVisits (x s).events, cause v := h
  refine Outcome.Leaves.ensuring left fun s' here => ?_
  rwa [kept]

theorem catchFault {x : Recording (Visit σ) σ α} {handler : Fault → Recording (Visit σ) σ α}
    (h : (x s).Accounts part cause s)
    (handled : ∀ fault s', (handler fault s').Accounts part cause s') :
    ((x.catchFault handler) s).Accounts part cause s := by
  rw [Recording.catchFault]
  rcases hx : x s with ⟨events, outcome⟩
  rw [hx] at h
  cases outcome with
  | ok a s' => exact h
  | halt why s' =>
    cases why with
    | fault fault => exact after h (handled fault s')
    | malformed word => exact h
    | quit => exact h
  | exhausted => trivial

theorem visitFor {S : Stage σ η} {v : Visitor σ} {calls : List Call} {id : η} {i : Instruction}
    (h : (v calls i s).Accounts part cause s) (kept : ∀ r s', part (S.setStatus id r s') = part s') :
    (S.visitFor v calls id i s).Accounts part cause s := by
  have below : ∀ x : Visit σ, (∃ y ∈ allVisits x.inner, cause y) → ∃ y ∈ allVisits [x], cause y := by
    rintro x ⟨y, member, here⟩
    exact ⟨y, allVisits_singleton x ▸ List.mem_cons_of_mem x member, here⟩
  rw [Stage.visitFor_apply]
  rcases hv : v calls i s with ⟨inner, ⟨r, t⟩ | ⟨why, t⟩ | _⟩
  · rw [hv] at h
    exact h.imp (kept r.toOption t).trans (below _)
  · rw [hv] at h
    exact h.imp_right (below _)
  · trivial

end Record.Accounts

namespace Focus

open Recording (silently)

variable {d : Dictionary} {strict : Strictness} {name : Text} {f : Focus}

abbrev Traces (d : Dictionary) (name : Text) {α : Type} (f : Focus)
    (r : Record (Visit Focus) Focus α) : Prop :=
  r.Accounts (fun f => f.globals.get? name) (Visit.StoresIn d name) f

theorem silently_traces {α : Type} {x : Action Focus α}
    (same : (x f).Leaves fun g => g.globals = f.globals) : Traces d name f (silently x f) :=
  .silently (same.mono fun _ same => congrArg (fun globals => Table.get? globals name) same)

theorem traces_compositional (d : Dictionary) (strict : Strictness) (name : Text) :
    (stage d strict).Compositional (Traces d name) where
  step between f := by
    cases between with
    | positionOf id level =>
      have kept : (positionOf level f).Leaves fun g => g.globals = f.globals := by
        unfold positionOf
        cases f.task.positions.get? level <;> rfl
      exact silently_traces kept
    | fetch body index =>
      exact silently_traces ((ofExcept_leaves _ f).mono fun _ eq => congrArg Focus.globals eq)
    | exhausted => exact silently_traces trivial
    | pure | activeTask | statusOf | change => exact silently_traces rfl
  bind h next := h.bind next
  ensuring _ _ h _ := h.ensuring _ fun _ => rfl

theorem runBuiltin_get?_globals {b : Builtin} {v : Visit Focus}
    (primitive : d.builtin? v.instruction = some b) (quiet : ¬ v.StoresIn d name) :
    (runBuiltin strict b v.instruction.arg v.before).Leaves fun g =>
      g.globals.get? name = v.before.globals.get? name := by
  refine (runBuiltin_holdings b v.instruction.arg v.before).mono fun g same => ?_
  have step : Holdings.Step b v.before.holdings g.holdings :=
    same ▸ b.effect_step v.instruction.arg v.before.task v.before.globals
  refine Decidable.byContradiction fun changed => ?_
  obtain ⟨rfl, free, stack⟩ := step.get?_globals changed
  exact quiet ⟨primitive, free, stack⟩

theorem execute_traces {v : Visit Focus} {w : Word}
    (found : d.findToken? v.instruction.token = some w) (runs : ¬ w.RunsBody)
    (quiet : ¬ v.StoresIn d name) (u : Invoker) (fuel : Nat) :
    Traces d name v.before (silently (executeWith strict fuel u w v.instruction) v.before) := by
  unfold executeWith
  cases kind : w.kind with
  | primitive =>
    cases primitive : w.primitive with
    | none => exact silently_traces rfl
    | some p =>
      cases p with
      | builtin b =>
        have ours := Dictionary.builtin?_eq_some.mpr ⟨w, found, kind, primitive⟩
        exact .silently (runBuiltin_get?_globals ours quiet)
      | foreign name => exact silently_traces rfl
  | atomic => exact absurd (.inl kind) runs
  | composite => exact absurd (.inr kind) runs
  | other label => exact silently_traces rfl

/-- The value of a global variable can only change by a store that the record has. -/
theorem visitFor_traces (d : Dictionary) (strict : Strictness) (name : Text) (fuel : Nat)
    (calls : List Call) (i : Instruction) (f : Focus) :
    Traces d name f ((stage d strict).visitFor ((stage d strict).visit fuel) calls () i f) := by
  induction fuel generalizing calls i f with
  | zero => trivial
  | succ fuel ih =>
    -- a store accounts for itself; any other instruction, for what the visits below it do
    by_cases quiet : Visit.StoresIn d name ⟨calls, i, f, .exhausted, []⟩
    · let v := (stage d strict).visit (fuel + 1)
      obtain ⟨ending, events, -⟩ := (stage d strict).visitFor_events v calls () i f
      have head : (⟨calls, i, f, ending, (v calls i f).events⟩ : Visit Focus) ∈
          allVisits ((stage d strict).visitFor v calls () i f).events := by
        rw [events, allVisits_singleton]
        exact List.mem_cons_self
      exact .of_mem head quiet
    · refine .visitFor ?_ fun _ _ => rfl
      cases found : d.findToken? i.token with
      | none =>
        rw [Stage.visit_missing (found ▸ stage_wordOf i f)]
        exact .inl rfl
      | some w =>
        have looked : (stage d strict).wordOf i f = .ok (some w) f := found ▸ stage_wordOf i f
        rw [Stage.visit, Recording.bind_apply, silently, looked]
        refine Record.Accounts.catchFault ?_ fun _ _ => silently_traces rfl
        refine Record.Accounts.bind ?_ fun _ _ => silently_traces (x := pure _) rfl
        exact (traces_compositional d strict name).visitWith (fun calls _ => ih calls)
          (fun runs => execute_traces found runs quiet _ fuel) calls

end Focus

namespace Machine

/-- No run creates or deletes a global variable, and what a run changes is its own task. The run is
recorded. However it ends, the global variables have the names that they had, and one with another
value was stored in, by a visit at which the task had no variable of that name. The dictionary and all
other tasks are as they were, and the variables that the task had are still there. -/
theorem run_footprint {m : Machine} {id : TaskId} {t : Task} (known : m.task? id = some t)
    (own : m.dictionary.OnlyBuiltins) (host : Host) (fuel : Nat) :
    let entry : Instruction := { token := t.entry.token }
    let record := (Focus.stage m.dictionary m.strict).record fuel () entry (Focus.of m t)
    run host fuel id m = record.outcome.mapState (settle m id t.name) ∧
      (run host fuel id m).Leaves fun m' =>
        m'.globals.keys = m.globals.keys ∧
        (∀ name, m'.globals.get? name ≠ m.globals.get? name →
          ∃ v ∈ allVisits record.events, v.StoresIn m.dictionary name) ∧
        m'.dictionary = m.dictionary ∧
        (∀ other, other ≠ id → m'.task? other = m.task? other) ∧
        ∃ t', m'.task? id = some t' ∧
          ∀ name, t.locals.contains name = true → t'.locals.contains name = true := by
  intro entry record
  have mapped : run host fuel id m = record.outcome.mapState (settle m id t.name) :=
    (run_visits known own host fuel).1
  have erased : record.outcome =
      Focus.invokeFor (Focus.invoke m.dictionary m.strict fuel) entry (Focus.of m t) :=
    congrFun (Focus.erase_record m.dictionary m.strict fuel entry) _
  have stores : ∀ name, Focus.Traces m.dictionary name (Focus.of m t) record := fun name =>
    Focus.visitFor_traces m.dictionary m.strict name fuel [] entry _
  have steps : record.outcome.Leaves (Focus.Stepped (Focus.of m t)) := by
    rw [erased]
    exact Focus.invokeFor_stepped (Focus.invoke_stepped m.dictionary m.strict fuel) entry
      (Focus.of m t)
  refine ⟨mapped, ?_⟩
  rw [mapped]
  refine ((steps.and (.pointwise stores)).mono fun f left => ?_).of_mapState
  obtain ⟨steps, stores⟩ := left
  refine ⟨?_, fun name changed => ?_, ?_, fun other apart => ?_, f.task, ?_, ?_⟩
  · exact steps.keys_globals
  · exact (stores name).resolve_left changed
  · rfl
  · exact (Table.get?_insert _ _ _ _).trans (if_neg apart)
  · exact settle_task? m id t.name f
  · exact fun name there => steps.contains_locals there

/-- A loop of stores by a word that is run straight through: to a global variable, to a variable of the
task that a global one has its name from, and to a new one. Then a malformed word. -/
theorem run_footprint_stores :
    let store := Word.ofBuiltin "!" 4 .store
    let branch := Word.ofBuiltin "0branch" 6 .zeroBranch
    let broken : Word := { store with name := "broken", token := 9, primitive := none }
    let put := Word.secondary "put" 10 .atomic [⟨4, .absent⟩]
    let main :=
      Word.secondary "main" 11 .composite
        [⟨10, .absent⟩, ⟨6, .value (.int (-1))⟩, ⟨9, .absent⟩, ⟨10, .absent⟩]
    let d : Dictionary :=
      { Dictionary.empty 12 with
        words := ⟨[(4, store), (6, branch), (9, broken), (10, put), (11, main)]⟩ }
    let t : Task :=
      { name := "main", entry := main, locals := ⟨[("h", .int 5)]⟩
        stack := [.text "g", .int 7, .int 0, .text "h", .int 8, .int 0, .text "x", .int 9, .int 1] }
    let m : Machine :=
      { built := some d, tasks := ⟨[(0, t)]⟩, nextTask := 1
        globals := ⟨[("g", .int 0), ("h", .int 1)]⟩ }
    let host : Host := fun _ _ _ => pure .null
    let entry : Instruction := { token := 11 }
    let record := (Focus.stage m.dictionary m.strict).record 9 () entry (Focus.of m t)
    m.task? 0 = some t ∧ m.dictionary.OnlyBuiltins ∧
      ((run host 9 0 m).mapState fun m' => (m'.globals, (m'.task? 0).map (·.locals))) =
        .halt (.malformed (.missingPrimitive "broken"))
          (⟨[("g", .int 7), ("h", .int 1)]⟩, some ⟨[("h", .int 8), ("x", .int 9)]⟩) ∧
      ∃ v ∈ allVisits record.events, v.StoresIn m.dictionary "g" := by
  intro store branch broken put main d t m host entry record
  have known : m.task? 0 = some t := rfl
  have own : m.dictionary.OnlyBuiltins := Dictionary.onlyBuiltins_of_values (by decide)
  have halted : ((run host 9 0 m).mapState fun m' => (m'.globals, (m'.task? 0).map (·.locals))) =
      .halt (.malformed (.missingPrimitive "broken"))
        (⟨[("g", .int 7), ("h", .int 1)]⟩, some ⟨[("h", .int 8), ("x", .int 9)]⟩) := by
    decide +kernel
  have changed : (⟨[("g", .int 7), ("h", .int 1)]⟩ : Variables).get? "g" ≠ m.globals.get? "g" := by
    decide +kernel
  clear_value m
  refine ⟨known, own, halted, ?_⟩
  obtain ⟨m', ended, seen⟩ := Outcome.mapState_eq_halt.mp halted
  have stored : m'.globals = ⟨[("g", .int 7), ("h", .int 1)]⟩ := congrArg Prod.fst seen
  have footprint := (run_footprint known own host 9).2
  rw [ended] at footprint
  exact footprint.2.1 "g" (stored ▸ changed)

end Machine

end ThreadedCode
