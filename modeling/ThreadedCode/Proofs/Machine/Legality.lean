import ThreadedCode.Proofs.Machine.Steadiness
import ThreadedCode.Proofs.Machine.Stages

/-!
Jumps in their place. Where definitions choose the class of their words, a jump is only ever invoked
by a composite body, with no atomic word in progress since that body was entered. So no jump is
refused, whatever is redefined or forgotten, also while the run goes on: this is said of every visit
of a run on the machine.
-/

namespace ThreadedCode

/-- A jump is invoked at a level, with no atomic word in progress there; and nothing fails for want of
either. -/
structure Visit.Legal (id : TaskId) (v : Visit Machine) : Prop where
  placed : v.before.dictionary.Jumps v.instruction →
    ∃ t, v.before.activeTask? = some (id, t) ∧ 1 ≤ t.level ∧ t.atomicDepth = 0
  accepted : ∀ failure, v.failure? = some failure → failure.fault ≠ .jumpOutsideComposite

namespace Machine

open Recording (silently)

structure Ready (id : TaskId) (m : Machine) (i : Instruction) : Prop where
  placed : m.dictionary.Placed
  active : ∃ t, m.activeTask? = some (id, t) ∧ 0 ≤ t.level ∧
    (m.dictionary.Jumps i → 1 ≤ t.level ∧ t.atomicDepth = 0)

variable {id : TaskId} {m m' : Machine} {i : Instruction} {t : Task} {host : Host}
  {α β : Type}

theorem activeTask?_of_known (active : m.active = some id) (known : m.task? id = some t) :
    m.activeTask? = some (id, t) := by
  simp [activeTask?, active, known]

theorem Steady.inside {enter : Task → Task} (h : Steady (updateTask id enter m) m')
    (found : m.activeTask? = some (id, t)) :
    ∃ t', m'.activeTask? = some (id, t') ∧ t'.level = (enter t).level ∧
      t'.atomicDepth = (enter t).atomicDepth := by
  obtain ⟨active, known⟩ := activeTask?_eq_some found
  obtain ⟨t', known', kept⟩ := h.tasks id (enter t) (by simp [updateTask_task?, known])
  have active' : m'.active = some id := by rw [h.active, updateTask_active, active]
  exact ⟨t', activeTask?_of_known active' known', kept⟩

theorem legal_bind {x : Recording (Visit Machine) Machine α}
    {g : α → Recording (Visit Machine) Machine β} (h : (x m).All (Visit.Legal id))
    (sound : Sound m (x.erase m))
    (next : ∀ a m', Steady m m' → (g a m').All (Visit.Legal id)) :
    ((x >>= g) m).All (Visit.Legal id) := by
  refine h.bind fun a m' run => next a m' ?_
  rw [run] at sound
  exact sound.steady

theorem legal_silently {x : Action Machine α} {g : α → Recording (Visit Machine) Machine β}
    (sound : Sound m (x m)) (next : ∀ a m', Steady m m' → (g a m').All (Visit.Legal id)) :
    ((silently x >>= g) m).All (Visit.Legal id) :=
  legal_bind (.silently x) sound next

theorem legal_ofExcept {r : Except Fault α} {g : α → Recording (Visit Machine) Machine β}
    (next : ∀ a, r = .ok a → (g a m).All (Visit.Legal id)) :
    ((silently (Action.ofExcept r) >>= g) m).All (Visit.Legal id) := by
  refine (Record.All.silently _).bind fun a m' run => ?_
  cases r with
  | ok b =>
    cases run
    exact next a rfl
  | error fault => cases run

theorem legal_activeTask {g : TaskId × Task → Recording (Visit Machine) Machine β}
    (found : m.activeTask? = some (id, t)) (next : (g (id, t) m).All (Visit.Legal id)) :
    ((silently activeTask >>= g) m).All (Visit.Legal id) := by
  refine (Record.All.silently _).bind fun pair m' run => ?_
  have active : activeTask m = .ok (id, t) m := by
    rw [activeTask, found]
  cases active.symm.trans run
  exact next

theorem legal_bracket {x : Recording (Visit Machine) Machine α}
    {g : α → Recording (Visit Machine) Machine β} {enter leave : Task → Task}
    (h : (x (updateTask id enter m)).All (Visit.Legal id))
    (next : ∀ a m, (g a m).All (Visit.Legal id)) :
    ((do
      silently (Action.modify (updateTask id enter))
      let a ← x.ensuring (updateTask id leave)
      g a) m).All (Visit.Legal id) := by
  refine (Record.All.silently _).bind fun _ m' run => ?_
  cases run
  exact (h.ensuring _).bind fun a m' _ => next a m'

theorem visitFor_sound (harmless : host.Sound) (fuel : Nat) (calls : List Call) (i : Instruction)
    (m : Machine) :
    Sound m (((stage host).visitFor ((stage host).visit fuel) calls id i).erase m) := by
  rw [erase_visitFor (visit_follows host fuel)]
  exact invokeFor_sound (invoke_sound harmless fuel) id i m

section Bodies

variable {fuel : Nat} {w : Word} {body : List Instruction} {inside : Int → List Call}
  (harmless : host.Sound)
  (legal : ∀ calls i m, Ready id m i →
    ((stage host).visitFor ((stage host).visit fuel) calls id i m).All (Visit.Legal id))

include harmless legal

theorem visitEach_legal (p : Int) (ready : ∀ i ∈ body, ∀ m', Steady m m' → Ready id m' i) :
    ((stage host).visitEach ((stage host).visit fuel) inside id p body m).All (Visit.Legal id) := by
  induction body generalizing p m with
  | nil => exact .silently (pure ())
  | cons i rest ih =>
    have head := legal (inside p) i m (ready i List.mem_cons_self m (.refl m))
    refine legal_bind head (visitFor_sound harmless fuel _ i m) fun _ m' steady => ?_
    refine ih (p + 1) fun j member m'' later => ?_
    exact ready j (List.mem_cons_of_mem i member) m'' (steady.trans later)

theorem visitByPosition_legal (level : Int) (rounds : Nat)
    (ready : ∀ i ∈ body, ∀ m', Steady m m' → Ready id m' i) :
    ((stage host).visitByPosition ((stage host).visit fuel) inside id level body rounds m).All
      (Visit.Legal id) := by
  induction rounds generalizing m with
  | zero => exact .silently Action.exhausted
  | succ rounds ih =>
    refine legal_silently (positionOf_sound id level m) fun position m₁ first => ?_
    by_cases within : position ≤ body.length
    · rw [if_pos within]
      refine legal_ofExcept fun i fetched => ?_
      have head := legal (inside position) i m₁ (ready i (mem_of_instructionAt fetched) m₁ first)
      refine legal_bind head (visitFor_sound harmless fuel _ i m₁) fun _ m₂ second => ?_
      refine legal_silently (positionOf_sound id level m₂) fun position m₃ third => ?_
      have moved : Steady m₃ (updateTask id (setPosition level (position + 1)) m₃) :=
        updateTask_steady id m₃ fun _ => ⟨rfl, rfl⟩
      refine legal_silently (.modify moved) fun _ m₄ fourth => ?_
      have later := ((first.trans second).trans third).trans fourth
      exact ih fun i member m' steady => ready i member m' (later.trans steady)
    · rw [if_neg within]
      exact .silently (pure ())

theorem visitStraight_legal (ready : Ready id m i)
    (denoted : m.dictionary.findToken? i.token = some w) (atomic : w.kind = .atomic) :
    ((stage host).visitStraight ((stage host).visit fuel) inside w.body m).All (Visit.Legal id) := by
  obtain ⟨t, found, level, -⟩ := ready.active
  refine legal_activeTask found (legal_bracket ?_ fun _ _ => .silently _)
  refine visitEach_legal harmless legal 1 fun j member m' steady => ?_
  have developed := steady.dictionary
  rw [updateTask_dictionary] at developed
  obtain ⟨placed, later⟩ := ready.placed.develops developed
  obtain ⟨t', found', level', -⟩ := steady.inside found
  refine ⟨placed, t', found', level'.symm ▸ level, fun jumps => ?_⟩
  exact absurd jumps (ready.placed.still_later later denoted atomic member)

theorem visitAtLevel_legal (rounds : Nat) (body : List Instruction) (ready : Ready id m i) :
    ((stage host).visitAtLevel ((stage host).visit fuel) inside rounds body m).All
      (Visit.Legal id) := by
  obtain ⟨t, found, level, -⟩ := ready.active
  refine legal_activeTask found (legal_bracket ?_ fun _ _ => .silently _)
  refine visitByPosition_legal harmless legal _ rounds fun j _ m' steady => ?_
  have developed := steady.dictionary
  rw [updateTask_dictionary] at developed
  obtain ⟨t', found', level', depth'⟩ := steady.inside found
  have entered : 1 ≤ t'.level := by
    rw [level', enterLevel]
    exact Int.add_le_add_right level 1
  exact ⟨(ready.placed.develops developed).1, t', found', by omega, fun _ => ⟨entered, depth'⟩⟩

theorem visitWith_legal (ready : Ready id m i)
    (denoted : m.dictionary.findToken? i.token = some w) (calls : List Call) :
    ((stage host).visitWith ((stage host).visit fuel) calls fuel w i m).All (Visit.Legal id) := by
  unfold Stage.visitWith
  cases kind : w.kind with
  | primitive | other => exact .silently _
  | atomic => exact visitStraight_legal harmless legal ready denoted kind
  | composite => exact visitAtLevel_legal harmless legal fuel w.body ready

end Bodies

theorem Ready.accepts {t' : Task} {w : Word} (ready : Ready id m i)
    (found : m.activeTask? = some (id, t')) (denoted : m.dictionary.findToken? i.token = some w)
    (jumps : w.isJump = true) : ¬ t'.Refuses := by
  obtain ⟨t, active, -, permitted⟩ := ready.active
  cases found.symm.trans active
  obtain ⟨level, depth⟩ := permitted (Dictionary.jumps_iff_isJump.mpr ⟨w, denoted, jumps⟩)
  unfold Task.Refuses
  omega

theorem failure_inPlace (harmless : host.Sound) (ready : Ready id m i) {fuel : Nat}
    {calls : List Call} {failure : Failure}
    (failed : ((stage host).visit fuel calls i m).outcome = .ok (.error failure) m') :
    failure.fault ≠ .jumpOutsideComposite := by
  cases fuel with
  | zero => cases failed
  | succ fuel =>
    cases denoted : m.dictionary.findToken? i.token with
    | none =>
      rw [Stage.visit_missing (denoted ▸ stage_wordOf i m)] at failed
      rw [Stage.failure_of_fail failed]
      exact ifWritable_ne (by simp)
    | some w =>
      obtain ⟨t, found, -, -⟩ := ready.active
      have same : Ready id m.ready i := ⟨ready.placed, ready.active⟩
      have executed : (executeWith host fuel (invoke host fuel) w i m.ready).HaltsBy InPlace :=
        executeWith_inPlace harmless (invoke_sound harmless fuel) fuel found
          (same.accepts found denoted)
      rw [← erase_visitWith (visit_follows host fuel) calls w i] at executed
      obtain ⟨m'', halted⟩ := Stage.halted_of_failure (denoted ▸ stage_wordOf i m) failed
      have inPlace : InPlace (.fault failure.fault) := executed.of_halted halted
      exact fun misplaced => inPlace (congrArg Halt.fault misplaced)

theorem Ready.visitFor (harmless : host.Sound) (ready : Ready id m i) {fuel : Nat}
    {calls : List Call} (below : ((stage host).visit fuel calls i m).All (Visit.Legal id)) :
    ((stage host).visitFor ((stage host).visit fuel) calls id i m).All (Visit.Legal id) := by
  obtain ⟨t, found, -, permitted⟩ := ready.active
  refine .visitFor below fun ending inner failed => ?_
  refine ⟨fun jumps => ⟨t, found, permitted jumps⟩, fun failure same => ?_⟩
  obtain ⟨m', ended⟩ := Visit.failure?_eq_some same
  obtain ⟨m'', failed⟩ := failed failure m' ended
  exact failure_inPlace harmless ready failed

/-- An instruction that may be invoked invokes no other that may not. -/
theorem visitFor_legal (harmless : host.Sound) (fuel : Nat) (calls : List Call)
    (ready : Ready id m i) :
    ((stage host).visitFor ((stage host).visit fuel) calls id i m).All (Visit.Legal id) := by
  induction fuel generalizing calls i m with
  | zero => exact ready.visitFor harmless (.silently _)
  | succ fuel ih =>
    refine ready.visitFor harmless ?_
    cases denoted : m.dictionary.findToken? i.token with
    | none =>
      rw [Stage.visit_missing (denoted ▸ stage_wordOf i m)]
      exact Record.All.silently fun _ => _
    | some w =>
      have same : Ready id m.ready i := ⟨ready.placed, ready.active⟩
      have looked : (stage host).wordOf i m = .ok (some w) m.ready := denoted ▸ stage_wordOf i m
      rw [Stage.visit, Recording.bind_apply, silently, looked]
      refine Record.All.catchFault ?_ fun _ _ _ => .silently _
      have body := visitWith_legal harmless (fun calls i m ready => ih calls ready) same denoted calls
      exact body.bind fun _ _ _ => .silently (pure _)

/-- Of a dictionary as installed some revisions have been made: words compiled with the class that
their definitions choose, also for names that have been defined before; primitives of the embedding
program, which do not jump; vocabularies; and words forgotten. In a run of a secondary word, every jump
is invoked at a level with no atomic word in progress there, and no instruction fails as a jump outside
a composite word. This is so although the primitives of the embedding program may go on revising the
dictionary, and though they may start runs of other tasks, for which it can be said in turn. -/
theorem run_jumps_in_place (developed : Dictionary.initial.Develops m.dictionary)
    (known : m.task? id = some t) (level : 0 ≤ t.level)
    (secondary : ∀ w, m.dictionary.findToken? t.entry.token = some w → w.isSecondary = true)
    (harmless : host.Sound) (fuel : Nat) :
    let entry : Instruction := { token := t.entry.token }
    let record := (stage host).record fuel id entry { m with active := some id }
    run host fuel id m = record.outcome.mapState (endRun m id) ∧
      (∀ v ∈ allVisits record.events, v.before.dictionary.Jumps v.instruction →
        ∃ t', v.before.activeTask? = some (id, t') ∧ 1 ≤ t'.level ∧ t'.atomicDepth = 0) ∧
      ∀ v ∈ allVisits record.events, ∀ failure, v.failure? = some failure →
        failure.fault ≠ .jumpOutsideComposite := by
  intro entry record
  have placed : m.dictionary.Placed := (Dictionary.Placed.initial.develops developed).1
  have still : ¬ m.dictionary.Jumps { token := t.entry.token } := by
    rw [Dictionary.jumps_iff_isJump]
    rintro ⟨w, denoted, jumps⟩
    simp only [Word.isJump, Bool.and_eq_true] at jumps
    simpa [Word.isSecondary, jumps.1] using secondary w denoted
  have ready : Ready id { m with active := some id } { token := t.entry.token } :=
    ⟨placed, t, activeTask?_of_known rfl known, level, fun jumps => absurd jumps still⟩
  have legal : record.All (Visit.Legal id) := visitFor_legal harmless fuel [] ready
  refine ⟨run_eq_record known host fuel, ?_, ?_⟩
  · exact fun v member => (legal v member).placed
  · exact fun v member => (legal v member).accepted

/-- While an atomic word is in progress, the word after it in its body is redefined so that it jumps,
by a primitive of the embedding program. The name of a jump has come to denote another such primitive
before. -/
theorem run_jumps_in_place_redefined :
    let rs : List Dictionary.Revision :=
      [.author (.compile "skip" [("branch", .value (.int 2)), (">r", .absent), ("cr", .absent)] none),
        .primitive "revise" (.foreign "revise") "", .author (.addVocabulary "app"),
        .author (.use "app"), .primitive "branch" (.foreign "revise") "",
        .author (.compile "quiet" [("revise", .absent), ("cr", .absent)] none),
        .author (.compile "cr" [("branch", .absent)] none), .author (.forget "cr"),
        .author (.compile "main" [("quiet", .absent), ("branch", .absent), ("skip", .absent)] none)]
    let d := Dictionary.initial.reviseAll rs
    let again : List Dictionary.Revision :=
      [.author (.searchIn "forth"),
        .author (.compile "cr" [("branch", .value (.int 1)), ("cr", .absent)] none)]
    let host : Host := fun _ _ _ => do
      Action.modify fun m => { m with built := some (m.dictionary.reviseAll again) }
      pure .null
    let main : Word :=
      { Word.secondary "main" 14 .composite [⟨12, .absent⟩, ⟨11, .absent⟩, ⟨9, .absent⟩] with
        vocabulary := "app", older := some 12 }
    let m : Machine :=
      { built := some d, tasks := ⟨[(0, { name := "main", entry := main })]⟩, nextTask := 1 }
    let entry : Instruction := { token := 14 }
    let record (fuel : Nat) := (stage host).record fuel 0 entry { m with active := some 0 }
    d.findToken? 14 = some main ∧ Dictionary.initial.Develops m.dictionary ∧ host.Sound ∧
      (allVisits (record 9).events).map (·.instruction.token) = [14, 12, 10, 2, 11, 9, 5, 2] ∧
      ∀ fuel, run host fuel 0 m = (record fuel).outcome.mapState (endRun m 0) ∧
        (∀ v ∈ allVisits (record fuel).events, v.before.dictionary.Jumps v.instruction →
          ∃ t', v.before.activeTask? = some (0, t') ∧ 1 ≤ t'.level ∧ t'.atomicDepth = 0) ∧
        ∀ v ∈ allVisits (record fuel).events, ∀ failure, v.failure? = some failure →
          failure.fault ≠ .jumpOutsideComposite := by
  intro rs d again host main m entry record
  have denoted : d.findToken? 14 = some main := by decide +kernel
  have unforced : ∀ r ∈ rs, r.unforced = true := by decide
  have built : m.dictionary = d := Option.getD_some
  have developed : Dictionary.initial.Develops m.dictionary := ⟨rs, unforced, built⟩
  have gentle : ∀ r ∈ again, r.unforced = true := by decide
  have harmless : host.Sound := by
    intro name run _ i now
    have steady : Steady now { now with built := some (now.dictionary.reviseAll again) } :=
      ⟨rfl, fun _ t known => ⟨t, known, rfl, rfl⟩, again, gentle, rfl⟩
    exact Sound.bind (.modify steady) fun _ now _ => .ok (.refl now)
  have visits : (allVisits (record 9).events).map (·.instruction.token) =
      [14, 12, 10, 2, 11, 9, 5, 2] := by
    decide +kernel
  have known : m.task? 0 = some { name := "main", entry := main } := rfl
  have secondary : ∀ w, m.dictionary.findToken? 14 = some w → w.isSecondary = true := by
    intro w found
    rw [built] at found
    obtain rfl : main = w := Option.some.inj (denoted.symm.trans found)
    rfl
  clear_value m
  exact ⟨denoted, developed, harmless, visits,
    run_jumps_in_place developed known (Int.le_refl 0) secondary harmless⟩

end Machine

end ThreadedCode
