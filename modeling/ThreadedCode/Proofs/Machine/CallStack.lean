import ThreadedCode.Proofs.Machine.Counter
import ThreadedCode.Proofs.Machine.Restoration
import ThreadedCode.Proofs.Machine.Stages

/-!
What the control state of a task says about the words in progress. Whenever an instruction is about
to be invoked, the level is the number of composite words in progress, the positions are the places
of their bodies that they have come to, and the depth is the number of atomic words that were entered
since the innermost composite one.
-/

namespace ThreadedCode

/-- The calls that lead from an entry instruction to one that is about to be invoked: each word in
progress is the word of the instruction at the position of the next outer one. -/
inductive InProgress (d : Dictionary) (entry : Instruction) : List Call → Instruction → Prop
  | entry : InProgress d entry [] entry
  | body {calls : List Call} {i j : Instruction} {w : Word} {p : Int}
      (outer : InProgress d entry calls i) (found : d.findToken? i.token = some w)
      (runs : w.RunsBody) (start : 1 ≤ p) (here : w.body[(p - 1).toNat]? = some j) :
      InProgress d entry (⟨w, p⟩ :: calls) j

def levels (calls : List Call) : List Call :=
  (calls.filter fun c => c.word.kind = .composite).reverse

structure Mirrors (calls : List Call) (t : Task) : Prop where
  level : t.level = (levels calls).length
  keys : ∀ k, t.positions.contains k ↔ 1 ≤ k ∧ k ≤ t.level
  position : ∀ (k : Nat) (h : k < (levels calls).length),
    t.positions.get? (k + 1) = some (levels calls)[k].position
  atomicDepth : t.atomicDepth = (calls.takeWhile fun c => c.word.kind = .atomic).length

section Calls

variable {calls : List Call} {w : Word} {p : Int} {t u : Task}

theorem levels_atomic (kind : w.kind = .atomic) : levels (⟨w, p⟩ :: calls) = levels calls := by
  simp [levels, kind]

theorem levels_composite (kind : w.kind = .composite) :
    levels (⟨w, p⟩ :: calls) = levels calls ++ [⟨w, p⟩] := by
  simp [levels, kind]

namespace Mirrors

theorem ground (level : t.level = 0) (depth : t.atomicDepth = 0) (empty : t.positions = ∅) :
    Mirrors [] t where
  level := level
  keys k := by
    have none : t.positions.contains k = false := by rw [empty]; rfl
    simp only [none, level, Bool.false_eq_true, false_iff]
    omega
  position k h := absurd h (Nat.not_lt_zero k)
  atomicDepth := depth

theorem above (h : Mirrors calls t) {k : Int} (lt : t.level < k) : t.positions.get? k = none := by
  have absent : ¬ t.positions.contains k := fun there => by
    have bound := ((h.keys k).mp there).2
    omega
  simpa [Table.contains] using absent

theorem level_nonneg (h : Mirrors calls t) : 0 ≤ t.level := by
  rw [h.level]
  exact Int.natCast_nonneg _

theorem calm (h : Mirrors calls t) : t.Calm := by
  right
  rw [h.atomicDepth]
  exact Int.natCast_nonneg _

theorem atomic (h : Mirrors calls t) (kind : w.kind = .atomic) (p : Int)
    (level : u.level = t.level) (depth : u.atomicDepth = t.atomicDepth + 1)
    (positions : ∀ k, u.positions.get? k = t.positions.get? k) : Mirrors (⟨w, p⟩ :: calls) u where
  level := by rw [level, h.level, levels_atomic kind]
  keys k := by rw [Table.contains, positions, level, ← Table.contains, h.keys]
  position := by
    rw [levels_atomic kind]
    intro k bound
    rw [positions, h.position k bound]
  atomicDepth := by
    rw [depth, h.atomicDepth]
    simp [kind]

theorem composite (h : Mirrors calls t) (kind : w.kind = .composite)
    (level : u.level = t.level + 1) (depth : u.atomicDepth = 0)
    (own : u.positions.get? (t.level + 1) = some p)
    (others : ∀ k, k ≠ t.level + 1 → u.positions.get? k = t.positions.get? k) :
    Mirrors (⟨w, p⟩ :: calls) u where
  level := by
    rw [level, h.level, levels_composite kind, List.length_append, List.length_singleton]
    rfl
  keys k := by
    have below := h.keys k
    have nonneg := h.level_nonneg
    rw [level]
    by_cases here : k = t.level + 1
    · subst here
      simp only [Table.contains, own, Option.isSome_some, true_iff]
      omega
    · rw [Table.contains, others k here, ← Table.contains, below]
      omega
  position := by
    rw [levels_composite kind]
    intro k bound
    by_cases outer : k < (levels calls).length
    · have other : (k + 1 : Int) ≠ t.level + 1 := by
        rw [h.level]
        omega
      rw [others _ other, List.getElem_append_left outer, h.position k outer]
    · have last : k = (levels calls).length := by
        rw [List.length_append, List.length_singleton] at bound
        omega
      subst last
      rw [← h.level, own]
      simp
  atomicDepth := by
    rw [depth]
    simp [kind]

end Mirrors

end Calls

/-- A visit whose calls lead to its instruction, and whose control state mirrors them. -/
def Visit.Faithful (d : Dictionary) (entry : Instruction) (v : Visit Focus) : Prop :=
  InProgress d entry v.calls v.instruction ∧ Mirrors v.calls v.before.task

namespace Focus

variable {d : Dictionary} {strict : Strictness} {calls : List Call} {w : Word} {p : Int} {f g : Focus}

theorem mirrors_straight (h : Mirrors calls f.task) (kind : w.kind = .atomic) (p : Int)
    (kept : Kept f.task.level (f.onTask Machine.enterAtomic) g) :
    Mirrors (⟨w, p⟩ :: calls) g.task := by
  refine h.atomic kind p kept.level kept.atomicDepth fun k => ?_
  by_cases lt : f.task.level < k
  · exact Task.Keeps.above_eq kept (fun k lt => h.above lt) lt
  · exact kept.below k (by omega)

theorem mirrors_placed (h : Mirrors calls f.task) (kind : w.kind = .composite)
    (kept : Kept f.task.level (f.onTask Machine.enterLevel) g)
    (here : g.At (f.task.level + 1) p) : Mirrors (⟨w, p⟩ :: calls) g.task := by
  have entered : ∀ k, k ≠ f.task.level + 1 →
      (f.onTask Machine.enterLevel).task.positions.get? k = f.task.positions.get? k := by
    intro k other
    simp [onTask, Machine.enterLevel, Table.get?_insert, other]
  refine h.composite kind here.level_eq here.depth_eq here.position_eq fun k other => ?_
  rw [← entered k other]
  by_cases lt : f.task.level + 1 < k
  · refine Task.Keeps.above_eq kept (fun k lt => ?_) lt
    have beyond : f.task.level + 1 < k := lt
    rw [entered k (by omega), h.above (by omega)]
  · exact kept.below k (by omega)

section Bodies

variable {entry i : Instruction} {fuel : Nat}

def FaithfulInside (d : Dictionary) (strict : Strictness) (fuel : Nat) (entry : Instruction)
    (calls : List Call) (w : Word) : Prop :=
  ∀ p i f, 1 ≤ p → w.body[(p - 1).toNat]? = some i → Mirrors (⟨w, p⟩ :: calls) f.task →
    ((stage d strict).visitFor ((stage d strict).visit fuel) (⟨w, p⟩ :: calls) () i f).All
      (Visit.Faithful d entry)

theorem leaves_of_visited {P : Focus → Prop} {a : Unit}
    (h : (invokeFor (invoke d strict fuel) i f).Leaves P)
    (ended : ((stage d strict).visitFor ((stage d strict).visit fuel) calls () i).erase f = .ok a g) :
    P g := by
  rw [erase_visitFor (visit_follows d strict fuel)] at ended
  rwa [ended] at h

theorem visitEach_faithful (within : FaithfulInside d strict fuel entry calls w)
    (mirrors : Mirrors calls f.task) (kind : w.kind = .atomic) (before rest : List Instruction)
    (body : w.body = before ++ rest) (kept : Kept f.task.level (f.onTask Machine.enterAtomic) g) :
    ((stage d strict).visitEach ((stage d strict).visit fuel) (⟨w, ·⟩ :: calls) ()
      (before.length + 1) rest g).All (Visit.Faithful d entry) := by
  induction rest generalizing before g with
  | nil => exact Record.All.silently (pure ())
  | cons i rest ih =>
    have refuses := kept.refuses.mpr (Task.refuses_enterAtomic mirrors.calm)
    have here : w.body[((before.length + 1 : Int) - 1).toNat]? = some i := by
      rw [body]
      simp
    have head := within _ i g (by omega) here (mirrors_straight mirrors kind _ kept)
    refine head.bind fun _ g' ended => ?_
    have further := leaves_of_visited (invokeFor_kept (invoke_keeps d strict fuel) _
      (Int.le_of_eq kept.level.symm) refuses) ended
    have tail := ih (before ++ [i]) (by rw [body, List.append_assoc, List.singleton_append])
      (kept.trans further)
    rwa [List.length_append, List.length_singleton] at tail

theorem visitByPosition_faithful (within : FaithfulInside d strict fuel entry calls w)
    (mirrors : Mirrors calls f.task) (kind : w.kind = .composite) (rounds : Nat) (start : 1 ≤ p)
    (here : g.At (f.task.level + 1) p)
    (kept : Kept f.task.level (f.onTask Machine.enterLevel) g) :
    ((stage d strict).visitByPosition ((stage d strict).visit fuel) (⟨w, ·⟩ :: calls) ()
      (f.task.level + 1) w.body rounds g).All (Visit.Faithful d entry) := by
  -- on the rounds of the loop: at the head of each the levels below are as they were at first
  induction rounds generalizing p g with
  | zero => exact Record.All.silently _
  | succ rounds ih =>
    refine (Record.All.silently _).bind fun position g' found => ?_
    have located : positionOf (f.task.level + 1) g = .ok position g' := found
    cases (positionOf_eq here.position_eq).symm.trans located
    by_cases inside : p ≤ w.body.length
    · rw [if_pos inside]
      refine (Record.All.silently _).bind fun i g' fetched => ?_
      rw [Recording.erase_silently, Machine.instructionAt_eq ⟨start, inside⟩] at fetched
      cases fetched
      have fetched : w.body[(p - 1).toNat]? = some (w.body.get ⟨(p - 1).toNat, by omega⟩) :=
        List.getElem?_eq_getElem _
      generalize w.body.get ⟨(p - 1).toNat, _⟩ = i at fetched ⊢
      have nonneg := mirrors.level_nonneg
      have head := within p i g start fetched (mirrors_placed mirrors kind kept here)
      refine head.bind fun _ g' ended => ?_
      have there := leaves_of_visited (invokeFor_position (by omega) fuel i here) ended
      have inside : f.task.level < g.task.level := by rw [here.level_eq]; omega
      have further := leaves_of_visited (invokeFor_keeps (invoke_keeps d strict fuel)
        (Int.le_of_lt inside) fun _ => inside) ended
      have onward := d.one_le_nextPosition start i g.task.stack
      generalize d.nextPosition i g.task.stack p = next at there onward
      refine (Record.All.silently _).bind fun position g'' found => ?_
      have located : positionOf (f.task.level + 1) g' = .ok position g'' := found
      cases (positionOf_eq there.position_eq).symm.trans located
      refine (Record.All.silently _).bind fun _ g'' moved => ?_
      cases moved
      rw [Int.sub_add_cancel]
      have set := Task.Keeps.setPosition there.level_eq (Int.lt_succ _) there.position_eq next
      exact ih onward (there.setPosition next) ((kept.trans further).trans set)
    · rw [if_neg inside]
      exact Record.All.silently (pure ())

theorem visitWith_faithful (within : w.RunsBody → FaithfulInside d strict fuel entry calls w)
    (mirrors : Mirrors calls f.task) (i : Instruction) :
    ((stage d strict).visitWith ((stage d strict).visit fuel) calls fuel w i f).All
      (Visit.Faithful d entry) := by
  unfold Stage.visitWith
  cases kind : w.kind with
  | primitive | other => exact Record.All.silently _
  | atomic =>
    refine (Record.All.silently _).bind fun _ g found => ?_
    cases found
    refine (Record.All.silently _).bind fun _ g entered => ?_
    cases entered
    have body := visitEach_faithful (within (Or.inl kind)) mirrors kind [] w.body rfl (.refl _ _)
    exact (body.ensuring _).bind fun _ _ _ => Record.All.silently _
  | composite =>
    refine (Record.All.silently _).bind fun _ g found => ?_
    cases found
    refine (Record.All.silently _).bind fun _ g entered => ?_
    cases entered
    have body := visitByPosition_faithful (within (Or.inr kind)) mirrors kind fuel
      (Int.le_refl 1) (.enterLevel f) (.refl _ _)
    exact (body.ensuring _).bind fun _ _ _ => Record.All.silently _

/-- Whenever an instruction is invoked, the control state mirrors the words in progress, if it does at
the start. -/
theorem visitFor_faithful (outer : InProgress d entry calls i) (mirrors : Mirrors calls f.task)
    (strict : Strictness) (fuel : Nat) :
    ((stage d strict).visitFor ((stage d strict).visit fuel) calls () i f).All
      (Visit.Faithful d entry) := by
  induction fuel generalizing calls i f with
  | zero => exact .visitFor (.silently _) fun _ _ _ => ⟨outer, mirrors⟩
  | succ fuel ih =>
    refine .visitFor ?_ fun _ _ _ => ⟨outer, mirrors⟩
    cases found : d.findToken? i.token with
    | none =>
      rw [Stage.visit_missing (found ▸ stage_wordOf i f)]
      exact Record.All.silently fun _ => _
    | some w =>
      have within : w.RunsBody → FaithfulInside d strict fuel entry calls w :=
        fun runs p j f start here mirrors => ih (.body outer found runs start here) mirrors
      have looked : (stage d strict).wordOf i f = .ok (some w) f := found ▸ stage_wordOf i f
      rw [Stage.visit, Recording.bind_apply, Recording.silently, looked]
      refine Record.All.catchFault ?_ fun _ _ _ => Record.All.silently _
      exact (visitWith_faithful within mirrors i).bind fun _ _ _ => Record.All.silently (pure _)

end Bodies

end Focus

namespace Machine

/-- During a run the control state mirrors the words in progress. A task begins at level zero, with
no position and no atomic word in progress. Its run is recorded: the record has all instructions that
are invoked, of any body and at any depth, each with the task at its beginning, the words in progress
and where they have come to. At each of them the level is the number of composite words in progress,
the levels that have a position are those from one up to it, each with the position that its
composite word has come to, and the depth is the number of atomic words entered since the innermost
composite one. -/
theorem run_mirrors_calls {m : Machine} {id : TaskId} {t : Task} (known : m.task? id = some t)
    (level : t.level = 0) (depth : t.atomicDepth = 0) (empty : t.positions = ∅)
    (own : m.dictionary.OnlyBuiltins) (host : Host) (fuel : Nat) :
    let entry : Instruction := { token := t.entry.token }
    let record := (Focus.stage m.dictionary m.strict).record fuel () entry (Focus.of m t)
    run host fuel id m = record.outcome.mapState (settle m id t.name) ∧
      ∀ v ∈ allVisits record.events, InProgress m.dictionary entry v.calls v.instruction ∧
        Mirrors v.calls v.before.task := by
  intro entry record
  refine ⟨(run_visits known own host fuel).1, ?_⟩
  exact Focus.visitFor_faithful .entry (Mirrors.ground level depth empty) m.strict fuel

theorem run_mirrors_calls_nested :
    let branch := Word.ofBuiltin "branch" 5 .branch
    let newline := Word.ofBuiltin "cr" 2 .newline
    let inner :=
      Word.secondary "inner" 10 .composite
        [⟨2, .absent⟩, ⟨5, .value (.int 2)⟩, ⟨2, .absent⟩, ⟨99, .absent⟩]
    let around := Word.secondary "around" 11 .atomic [⟨5, .absent⟩, ⟨10, .absent⟩]
    let outer := Word.secondary "outer" 12 .composite [⟨2, .absent⟩, ⟨11, .absent⟩, ⟨10, .absent⟩]
    let d : Dictionary :=
      { Dictionary.empty 13 with
        words := ⟨[(2, newline), (5, branch), (10, inner), (11, around), (12, outer)]⟩ }
    let t : Task := { name := "main", entry := outer }
    let m : Machine := { built := some d, tasks := ⟨[(0, t)]⟩, nextTask := 1 }
    let host : Host := fun _ _ _ => pure .null
    let entry : Instruction := { token := 12 }
    let record := (Focus.stage m.dictionary m.strict).record 9 () entry (Focus.of m t)
    m.task? 0 = some t ∧ t.level = 0 ∧ t.atomicDepth = 0 ∧ t.positions = ∅ ∧
      m.dictionary.OnlyBuiltins ∧
      (allVisits record.events).map
          (fun v => (v.instruction.token, v.before.task.level, v.before.task.atomicDepth)) =
        [(12, 0, 0), (2, 1, 0), (11, 1, 0), (5, 1, 1), (10, 1, 1), (2, 2, 0), (5, 2, 0), (99, 2, 0),
          (10, 1, 0), (2, 2, 0), (5, 2, 0), (99, 2, 0)] ∧
      run host 9 0 m = record.outcome.mapState (settle m 0 t.name) ∧
      ∀ v ∈ allVisits record.events, InProgress m.dictionary entry v.calls v.instruction ∧
        Mirrors v.calls v.before.task := by
  intro branch newline inner around outer d t m host entry record
  have known : m.task? 0 = some t := rfl
  have own : m.dictionary.OnlyBuiltins := Dictionary.onlyBuiltins_of_values (by decide)
  have visits : (allVisits record.events).map
      (fun v => (v.instruction.token, v.before.task.level, v.before.task.atomicDepth)) =
        [(12, 0, 0), (2, 1, 0), (11, 1, 0), (5, 1, 1), (10, 1, 1), (2, 2, 0), (5, 2, 0), (99, 2, 0),
          (10, 1, 0), (2, 2, 0), (5, 2, 0), (99, 2, 0)] := by decide +kernel
  have run := run_mirrors_calls known rfl rfl rfl own host 9
  exact ⟨known, rfl, rfl, rfl, own, visits, run.1, run.2⟩

end Machine

end ThreadedCode
