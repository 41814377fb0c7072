import ThreadedCode.Proofs.Dictionary.Authored
import ThreadedCode.Proofs.Machine.Counter

/-!
Runs that come to an end. Where the words in a body have smaller tokens than the word itself, calls
are never deeper than there are tokens; and where jumps lead forward, a composite body is left after
as many instructions as it has, at the latest. So the fuel that a run needs is known beforehand.
-/

namespace ThreadedCode

/-- A jump with this operand does not lead back, nor to itself. -/
def Operand.isForward : Operand → Bool
  | value (.int offset) => 1 ≤ offset
  | _ => true

theorem Operand.lt_target {arg : Operand} (forward : arg.isForward) (p : Int) :
    p < arg.target p := by
  unfold target
  split
  next offset =>
    have onward : 1 ≤ offset := of_decide_eq_true forward
    split <;> omega
  next => omega

theorem Dictionary.lt_nextPosition {d : Dictionary} {i : Instruction}
    (forward : d.Jumps i → i.arg.isForward) (stack : List Value) (p : Int) :
    p < d.nextPosition i stack p := by
  unfold nextPosition
  split
  next b primitive =>
    by_cases taken : b.taken stack
    · have jumps : b.isJump := by
        cases b with
        | branch | zeroBranch => rfl
        | print | newline | fetch | store | toReturn | fromReturn => cases taken
      rw [if_pos taken]
      exact Operand.lt_target (forward ⟨b, primitive, jumps⟩) p
    · rw [if_neg taken]
      omega
  next => omega

def Outcome.Terminates {σ α : Type} (o : Outcome σ α) : Prop := o ≠ exhausted

namespace Outcome.Terminates

variable {σ τ α β : Type} {x : Action σ α} {s : σ}

theorem ok (a : α) (s : σ) : (Outcome.ok a s).Terminates := nofun

theorem halt (why : Halt) (s : σ) : (Outcome.halt why s : Outcome σ α).Terminates := nofun

theorem bind {g : α → Action σ β} (h : (x s).Terminates)
    (next : ∀ a t, x s = .ok a t → (g a t).Terminates) : ((x >>= g) s).Terminates := by
  rw [Action.bind_apply]
  cases hx : x s with
  | ok a t => exact next a t hx
  | halt why t => exact halt why t
  | exhausted => exact absurd hx h

theorem ensuring (h : (x s).Terminates) (after : σ → σ) : ((x.ensuring after) s).Terminates := by
  rw [Action.ensuring]
  cases hx : x s with
  | ok a t => exact ok a _
  | halt why t => exact halt why _
  | exhausted => exact absurd hx h

theorem catchFault {handler : Fault → Action σ α} (h : (x s).Terminates)
    (handled : ∀ fault t, (handler fault t).Terminates) :
    ((x.catchFault handler) s).Terminates := by
  rw [Action.catchFault]
  cases hx : x s with
  | ok a t => exact ok a t
  | halt why t =>
    cases why with
    | fault fault => exact handled fault t
    | malformed word => exact halt _ t
    | quit => exact halt _ t
  | exhausted => exact absurd hx h

theorem mapState {o : Outcome σ α} (h : o.Terminates) (g : σ → τ) : (o.mapState g).Terminates := by
  cases o with
  | ok a t => exact ok a _
  | halt why t => exact halt why _
  | exhausted => exact absurd rfl h

end Outcome.Terminates

namespace Focus

variable {d : Dictionary} {strict : Strictness} {n : Nat} {body : List Instruction} {f : Focus}

theorem invokeFor_terminates {u : Invoker} {i : Instruction} (h : (u i f).Terminates) :
    (invokeFor u i f).Terminates :=
  h.bind fun _ _ _ => .ok _ _

theorem invokeEach_terminates {u : Invoker} (h : ∀ i ∈ body, ∀ f, (u i f).Terminates) (f : Focus) :
    (invokeEach u body f).Terminates := by
  induction body generalizing f with
  | nil => exact .ok () f
  | cons i rest ih =>
    refine (invokeFor_terminates (h i List.mem_cons_self f)).bind fun _ g _ => ?_
    exact ih (fun j member => h j (List.mem_cons_of_mem i member)) g

theorem invokeFor_onward {level p : Int} {i : Instruction} (here : f.At level p)
    (forward : d.Jumps i → i.arg.isForward) :
    (invokeFor (invoke d strict n) i f).Leaves fun g => ∃ q, p ≤ q ∧ g.At level q := by
  by_cases outer : level = 0
  · -- There is no such level, and all jumps are refused.
    have refuses : f.task.Refuses := Or.inl (here.level_eq.trans outer)
    have kept := invokeFor_kept (invoke_keeps d strict n) i (Int.le_of_eq here.level_eq.symm) refuses
    exact kept.mono fun g kept => ⟨p, Int.le_refl p, here.of_kept kept⟩
  · refine (invokeFor_position outer n i here).mono fun g there => ⟨_, ?_, there⟩
    exact Int.le_sub_one_of_lt (Dictionary.lt_nextPosition forward f.task.stack p)

theorem runByPosition_terminates (h : ∀ i ∈ body, ∀ f, (invoke d strict n i f).Terminates)
    (forward : ∀ i ∈ body, d.Jumps i → i.arg.isForward) {level p : Int} {rounds : Nat}
    (some_ : 0 < rounds) (enough : body.length + 1 < p + rounds) (start : 1 ≤ p)
    (here : f.At level p) :
    (runByPosition (invoke d strict n) level body rounds f).Terminates := by
  induction rounds generalizing p f with
  | zero => exact absurd some_ (Nat.lt_irrefl 0)
  | succ rounds ih =>
    by_cases inside : p ≤ body.length
    · rw [runByPosition_inside here.position_eq inside (Machine.instructionAt_eq ⟨start, inside⟩)]
      have member : body.get ⟨(p - 1).toNat, by omega⟩ ∈ body := List.get_mem _ _
      generalize body.get ⟨(p - 1).toNat, _⟩ = i at member ⊢
      refine (invokeFor_terminates (h i member f)).bind fun _ g invoked => ?_
      have onward : (invokeFor (invoke d strict n) i f).Leaves fun g => ∃ q, p ≤ q ∧ g.At level q :=
        invokeFor_onward here (forward i member)
      rw [invoked] at onward
      obtain ⟨q, le, there⟩ := onward
      rw [Action.bind_apply, advance_eq there.position_eq]
      exact ih (by omega) (by omega) (by omega) (there.setPosition (q + 1))
    · rw [runByPosition_outside here.position_eq inside]
      exact .ok () f

theorem write_terminates (t : Text) (f : Focus) : (write strict t f).Terminates := by
  unfold write
  split
  · exact .halt _ f
  · exact .ok () _

theorem runBuiltin_terminates (b : Builtin) (arg : Operand) (f : Focus) :
    (runBuiltin strict b arg f).Terminates := by
  refine (write_terminates _ _).bind fun _ g _ => ?_
  cases (b.effect arg f.task f.globals).result with
  | ok v => exact .ok v g
  | error fault => exact .halt _ g

theorem executeWith_terminates {w : Word} (i : Instruction)
    (h : ∀ i ∈ w.body, ∀ f, (invoke d strict n i f).Terminates)
    (forward : ∀ i ∈ w.body, d.Jumps i → i.arg.isForward) (enough : w.body.length < n) (f : Focus) :
    (executeWith strict n (invoke d strict n) w i f).Terminates := by
  unfold executeWith
  cases w.kind with
  | primitive =>
    cases w.primitive with
    | none => exact .halt _ f
    | some p =>
      cases p with
      | builtin b => exact runBuiltin_terminates b i.arg f
      | foreign name => exact .halt _ f
  | atomic => exact ((invokeEach_terminates h _).ensuring _).bind fun _ _ _ => .ok _ _
  | composite =>
    have loop := runByPosition_terminates h forward (Nat.zero_lt_of_lt enough) (by omega)
      (Int.le_refl 1) (.enterLevel f)
    exact (loop.ensuring _).bind fun _ _ _ => .ok _ _
  | other label => exact .halt _ f

theorem invoke_terminates_of_callees {i : Instruction}
    (h : ∀ w, d.findToken? i.token = some w → w.body.length < n ∧
      ∀ j ∈ w.body, (d.Jumps j → j.arg.isForward) ∧ ∀ f, (invoke d strict n j f).Terminates)
    (f : Focus) : (invoke d strict (n + 1) i f).Terminates := by
  rw [invoke]
  cases found : d.findToken? i.token with
  | none => exact .ok _ _
  | some w =>
    obtain ⟨enough, callees⟩ := h w found
    have executed := executeWith_terminates i (fun j member => (callees j member).2)
      (fun j member => (callees j member).1) enough f
    exact Outcome.Terminates.catchFault (executed.bind fun _ _ _ => .ok _ _) fun _ _ => .ok _ _

/-- Fuel that suffices below a token: one call for each token, and then as many rounds as there are
instructions in all bodies. -/
theorem invoke_terminates_below (layered : d.Layered)
    (forward : ∀ w ∈ d.words.values, ∀ i ∈ w.body, d.Jumps i → i.arg.isForward) (strict : Strictness)
    (bound : Nat) {fuel : Nat} (enough : bound + d.totalLength < fuel) {i : Instruction}
    (below : i.token < bound) (f : Focus) : (invoke d strict fuel i f).Terminates := by
  induction bound generalizing fuel i f with
  | zero =>
    obtain ⟨fuel, rfl⟩ := Nat.exists_eq_add_of_le' (Nat.one_le_of_lt enough)
    refine invoke_terminates_of_callees (fun w found => ?_) f
    -- No word has a token below one.
    obtain ⟨member, same⟩ := layered.live found
    have positive := (layered.token w member).1
    rw [same] at positive
    exact absurd (Int.lt_of_lt_of_le below (Int.zero_le_ofNat 1)) (Int.not_lt.mpr positive)
  | succ bound ih =>
    obtain ⟨fuel, rfl⟩ := Nat.exists_eq_add_of_le' (Nat.one_le_of_lt enough)
    refine invoke_terminates_of_callees (fun w found => ?_) f
    obtain ⟨member, same⟩ := layered.live found
    have length := Dictionary.length_le_totalLength found
    refine ⟨by omega, fun j inside => ⟨forward w member j inside, fun g => ?_⟩⟩
    have smaller : j.token < i.token := same ▸ layered.below w member j inside
    exact ih (by omega) (Int.lt_of_lt_of_le smaller (Int.le_of_lt_add_one below)) g

theorem invoke_terminates (layered : d.Layered)
    (forward : ∀ w ∈ d.words.values, ∀ i ∈ w.body, d.Jumps i → i.arg.isForward) (strict : Strictness)
    {fuel : Nat} (enough : d.nextToken.toNat + d.totalLength + 1 < fuel) (i : Instruction)
    (f : Focus) : (invoke d strict fuel i f).Terminates := by
  obtain ⟨fuel, rfl⟩ := Nat.exists_eq_add_of_le' (Nat.one_le_of_lt enough)
  refine invoke_terminates_of_callees (fun w found => ?_) f
  obtain ⟨member, same⟩ := layered.live found
  have length := Dictionary.length_le_totalLength found
  refine ⟨by omega, fun j inside => ⟨forward w member j inside, fun g => ?_⟩⟩
  refine invoke_terminates_below layered forward strict d.nextToken.toNat (by omega) ?_ g
  have smaller : j.token < w.token := layered.below w member j inside
  exact Int.lt_of_lt_of_le (Int.lt_trans smaller (layered.token w member).2)
    (Int.self_le_toNat d.nextToken)

end Focus

namespace Machine

/-- Programs without backward jumps come to an end. The words of a dictionary are defined by names,
from its beginning and in any history of definitions, redefinitions, forgetting and changes of
vocabularies. Then the words in a body have smaller tokens than the word itself, so no word calls
itself. If, moreover, no jump with a whole number leads back or to itself, all runs of all tasks come
to an end, whatever the state of the task: fuel suffices that depends on the dictionary alone. -/
theorem authored_run_terminates (rs : List Dictionary.Authoring) :
    let d := Dictionary.initial.authorAll rs
    (∀ w ∈ d.words.values, ∀ i ∈ w.body, i.token < w.token) ∧
      (∀ w, ¬ Relation.TransGen d.Calls w w) ∧
      ((∀ w ∈ d.words.values, ∀ i ∈ w.body, d.Jumps i → i.arg.isForward) →
        ∃ n, ∀ fuel, n ≤ fuel → ∀ (m : Machine) (host : Host) (id : TaskId), m.dictionary = d →
          run host fuel id m ≠ .exhausted) := by
  intro d
  have layered : d.Layered := Dictionary.Layered.authorAll rs
  refine ⟨layered.below, layered.acyclic, fun forward => ?_⟩
  refine ⟨d.nextToken.toNat + d.totalLength + 2, fun fuel enough m host id same => ?_⟩
  have own : m.dictionary.OnlyBuiltins := by
    rw [same]
    exact Dictionary.onlyBuiltins_of_values layered.own
  cases known : m.task? id with
  | none =>
    rw [run, runTask, Action.bind_apply]
    simp [Action.get, known, Action.fail, Action.halt]
  | some t =>
    rw [run_eq known own, same]
    have ended : (Focus.invoke d m.strict fuel { token := t.entry.token }
        (Focus.of m t)).Terminates :=
      Focus.invoke_terminates layered forward m.strict (by omega) _ _
    exact (Focus.invokeFor_terminates ended).mapState _

/-- A word that is defined anew in terms of itself, a forgotten word, and jumps of all kinds that do
not lead back. -/
theorem authored_run_terminates_redefined :
    let rs : List Dictionary.Authoring :=
      [.compile "x" [("cr", .absent)] none,
        .compile "x" [("x", .absent), ("0branch", .value (.int 2)), ("x", .absent),
          ("branch", .value (.int 1))] none,
        .compile "y" [("x", .absent), ("branch", .value (.flag true))] (some false),
        .forget "y", .addVocabulary "tools", .use "tools",
        .compile "z" [("x", .absent), ("branch", .absent)] none]
    let d := Dictionary.initial.authorAll rs
    let z : Word :=
      { Word.secondary "z" 12 .composite [⟨10, .absent⟩, ⟨5, .absent⟩] with vocabulary := "tools" }
    let t : Task := { name := "main", entry := z, level := 3, atomicDepth := -1 }
    let m : Machine := { built := some d, tasks := ⟨[(0, t)]⟩, nextTask := 1 }
    let host : Host := fun _ _ _ => pure .null
    d.findToken? 12 = some z ∧
      (∀ w ∈ d.words.values, ∀ i ∈ w.body, d.Jumps i → i.arg.isForward) ∧
      ∃ n, ∀ fuel, n ≤ fuel → run host fuel 0 m ≠ .exhausted := by
  intro rs d z t m host
  have forward : ∀ w ∈ d.words.values, ∀ i ∈ w.body, d.Jumps i → i.arg.isForward := by
    decide +kernel
  have found : d.findToken? 12 = some z := by decide +kernel
  have built : m.dictionary = d := Option.getD_some
  obtain ⟨n, enough⟩ := (authored_run_terminates rs).2.2 forward
  exact ⟨found, forward, n, fun fuel le => enough fuel le m host 0 built⟩

end Machine

end ThreadedCode
