import ThreadedCode.Proofs.Console.OneByOne
import ThreadedCode.Proofs.Dictionary.Coherence
import ThreadedCode.Proofs.Machine.Boundary
import ThreadedCode.Proofs.Machine.Holdings
import ThreadedCode.Proofs.Machine.Termination
import ThreadedCode.Proofs.Text.Numeral

/-!
What stays true of a console whatever is entered. Its dictionary is in order and has primitives of
the machine only, and all values that it keeps have a written form: integers come from numerals, and
no primitive makes a value. Such a console takes every token, and every source as far as the source
has lines.
-/

namespace ThreadedCode

/-- A computation that comes to an end in a state with a property. Of its end there is a kind, which
says whether it may have a result (then there is no reason for a halt) and for which reasons it may
be halted. -/
def Outcome.Ends {σ α : Type} (kind : Option Halt → Prop) (P : σ → Prop) : Outcome σ α → Prop
  | ok _ s => kind none ∧ P s
  | halt why s => kind (some why) ∧ P s
  | exhausted => False

abbrev Outcome.EndsBy {σ α : Type} (fate : Option Halt) (P : σ → Prop) (o : Outcome σ α) : Prop :=
  o.Ends (· = fate) P

abbrev Outcome.Succeeds {σ α : Type} (P : σ → Prop) (o : Outcome σ α) : Prop := o.EndsBy none P

namespace Outcome

variable {σ α β : Type} {kind next : Option Halt → Prop} {fate later : Option Halt} {P : σ → Prop}
  {x : Action σ α} {s : σ}

theorem Ends.mono {o : Outcome σ α} (h : o.Ends kind P) (weaken : ∀ why, kind why → next why) :
    o.Ends next P := by
  cases o with
  | ok a s => exact ⟨weaken _ h.1, h.2⟩
  | halt why s => exact ⟨weaken _ h.1, h.2⟩
  | exhausted => exact h

theorem Ends.bind {g : α → Action σ β} (h : (x s).Ends kind P)
    (halted : ∀ why, kind (some why) → next (some why))
    (after : kind none → ∀ a s, P s → (g a s).Ends next P) : ((x >>= g) s).Ends next P := by
  rw [Action.bind_apply]
  cases hx : x s with
  | ok a s =>
    rw [hx] at h
    exact after h.1 a s h.2
  | halt why s =>
    rw [hx] at h
    exact ⟨halted why h.1, h.2⟩
  | exhausted =>
    rw [hx] at h
    exact h

theorem Succeeds.bind {g : α → Action σ β} (h : (x s).Succeeds P)
    (after : ∀ a s, P s → (g a s).Ends next P) : ((x >>= g) s).Ends next P :=
  Ends.bind h (fun why halted => by cases halted) fun _ => after

theorem Succeeds.exists_ok {o : Outcome σ α} (h : o.Succeeds P) : ∃ a s, o = .ok a s ∧ P s := by
  cases o with
  | ok a s => exact ⟨a, s, rfl, h.2⟩
  | halt why s => cases h.1
  | exhausted => exact h.elim

theorem EndsBy.bind {g : α → Action σ β} (h : (x s).EndsBy fate P)
    (after : ∀ a s, P s → (g a s).EndsBy later P) : ((x >>= g) s).EndsBy (fate.or later) P := by
  refine Ends.bind h (fun why halted => ?_) fun done a s kept => ?_
  · rw [← halted, Option.some_or]
  · rw [← done, Option.none_or]
    exact after a s kept

end Outcome

def Word.isOwn (w : Word) : Bool :=
  match w.kind, w.primitive with
  | .primitive, some (.builtin _) => true
  | _, _ => false

theorem Word.isOwn_iff {w : Word} :
    w.isOwn = true ↔ ∃ b, w.kind = .primitive ∧ w.primitive = some (.builtin b) := by
  unfold isOwn
  constructor
  · intro own
    split at own
    next b kind code => exact ⟨b, kind, code⟩
    next => cases own
  · rintro ⟨b, kind, code⟩
    rw [kind, code]

namespace Focus

variable {d : Dictionary} {i : Instruction} {b : Builtin}

theorem invoke_builtin_ok (primitive : d.builtin? i = some b) (strict : Strictness) (fuel : Nat)
    (f : Focus) : ∃ v g, invoke d strict (fuel + 1) i f = .ok v g ∧ Stepped f g := by
  have steps := invoke_stepped d strict (fuel + 1) i f
  obtain ⟨w, found, kind, code⟩ := Dictionary.builtin?_eq_some.mp primitive
  rw [invoke, found] at steps ⊢
  simp only [executeWith, kind, code, Action.catchFault, Action.bind_apply] at steps ⊢
  have ends : (runBuiltin strict b i.arg f).Terminates := runBuiltin_terminates b i.arg f
  have faults : (runBuiltin strict b i.arg f).HaltsBy Halt.IsFault :=
    runBuiltin_halts (fun failure => ⟨_, rfl⟩) fun fault _ => ⟨fault, rfl⟩
  cases ran : runBuiltin strict b i.arg f with
  | ok v g =>
    rw [ran] at steps
    exact ⟨some v, g, rfl, steps⟩
  | halt why g =>
    rw [ran] at steps faults
    obtain ⟨fault, rfl⟩ := faults
    exact ⟨none, _, rfl, steps⟩
  | exhausted => exact absurd ran ends

end Focus

namespace Console

def holdings (c : Console) : Holdings := ⟨c.taskName, c.pending, [], c.locals, c.machine.globals⟩

/-- A console that nothing entered can upset, with an output that takes all text. -/
structure Sturdy (c : Console) : Prop where
  lenient : c.machine.strict = .lenient
  ordered : c.machine.dictionary.Ordered
  -- no command defines a word
  own : ∀ w ∈ c.machine.dictionary.words.values, w.isOwn = true
  writable : ∀ v ∈ c.holdings.values, v.isWritable = true

variable {c c' : Console} {setting : Setting}

namespace Sturdy

theorem of_values (h : Sturdy c) (strict : c'.machine.strict = c.machine.strict)
    (dictionary : c'.machine.dictionary = c.machine.dictionary)
    (values : ∀ v ∈ c'.holdings.values, v ∈ c.holdings.values ∨ v.isWritable = true) :
    Sturdy c' where
  lenient := strict.trans h.lenient
  ordered := dictionary ▸ h.ordered
  own := dictionary ▸ h.own
  writable v member := (values v member).elim (h.writable v) id

theorem ready (h : Sturdy c) : Sturdy { c with machine := c.machine.ready } :=
  h.of_values rfl rfl fun _ => .inl

theorem onlyBuiltins (h : Sturdy c) : c.machine.dictionary.OnlyBuiltins := by
  refine Dictionary.onlyBuiltins_of_values fun w member => ?_
  obtain ⟨b, primitive, code⟩ := Word.isOwn_iff.mp (h.own w member)
  rw [Word.isForeign, primitive, code]

end Sturdy

theorem dictionary_eq (c : Console) :
    dictionary c = .ok c.machine.dictionary { c with machine := c.machine.ready } := rfl

theorem printLine_succeeds (h : Sturdy c) (t : Text) : (printLine t c).Succeeds Sturdy := by
  have written : ∀ {c : Console} (t : Text), Sturdy c →
      (atMachine (Machine.write t) c).Succeeds Sturdy := by
    intro c t h
    simp only [atMachine, Action.within, Machine.write, h.lenient]
    exact ⟨rfl, h.of_values h.lenient.symm rfl fun _ => .inl⟩
  exact (written t h).bind fun _ _ h => written _ h

theorem printLines_succeeds (h : Sturdy c) (ts : List Text) :
    (printLines ts c).Succeeds Sturdy := by
  induction ts generalizing c with
  | nil => exact ⟨rfl, h⟩
  | cons t ts ih => exact (printLine_succeeds h t).bind fun _ _ h => ih h

theorem pushPending_succeeds (h : Sturdy c) {v : Value} (writable : v.isWritable = true) :
    (pushPending v c).Succeeds Sturdy := by
  refine ⟨rfl, h.of_values rfl rfl fun u member => ?_⟩
  rcases List.mem_cons.mp member with rfl | before
  · exact .inr writable
  · exact .inl before

theorem runWord_succeeds (h : Sturdy c) (fuel : 0 < setting.fuel) {w : Word}
    (member : w ∈ c.machine.dictionary.words.values) :
    (runWord setting w c).Succeeds Sturdy := by
  obtain ⟨b, primitive⟩ := Word.isOwn_iff.mp (h.own w member)
  have entry : c.machine.dictionary.builtin? { token := w.token } = some b :=
    Dictionary.builtin?_eq_some.mpr ⟨w, h.ordered.get?_eq_some.mpr ⟨member, rfl⟩, primitive⟩
  obtain ⟨n, fuel⟩ := Nat.exists_eq_add_of_le' fuel
  obtain ⟨v, f, ran, steps⟩ := Focus.invoke_builtin_ok entry c.machine.strict n
    (Focus.of (c.spawned w) (c.taskFor w))
  have invoked : Focus.invokeFor
      (Focus.invoke (c.spawned w).dictionary (c.spawned w).strict setting.fuel)
      { token := (c.taskFor w).entry.token } (Focus.of (c.spawned w) (c.taskFor w)) =
        .ok () (f.setStatus v) := by
    rw [fuel]
    exact Action.bind_of_eq ran
  have run : Machine.run setting.host setting.fuel c.machine.nextTask (c.spawned w) =
      .ok () (Machine.settle (c.spawned w) c.machine.nextTask c.taskName (f.setStatus v)) := by
    rw [Machine.run_eq (spawned_task? c w) h.onlyBuiltins, invoked]
    rfl
  obtain ⟨left, kept, shows⟩ := keepFrom_settle c (c.spawned w) c.machine.nextTask (f.setStatus v)
  rw [runWord, Action.bind_of_eq (spawnTask_eq c w)]
  simp only [Action.bind_apply, atMachine, Action.within, run]
  rw [kept]
  -- what the task has left is among what it was given: the primitive made no value
  refine ⟨rfl, h.of_values shows.strict shows.dictionary
    fun u member => .inl (steps.mem_values ?_)⟩
  have same := shows.sight
  injection same with stack locals globals
  simp only [Holdings.mem_values, Console.holdings, ← stack, ← locals, ← globals,
    List.not_mem_nil, false_or] at member
  exact Holdings.mem_values.mpr (member.imp_right .inr)

theorem enterToken_succeeds (h : Sturdy c) (fuel : 0 < setting.fuel) (token : Text) :
    (enterToken setting token c).Succeeds Sturdy := by
  unfold enterToken
  by_cases isString : token.isString
  · rw [if_pos isString]
    exact pushPending_succeeds h rfl
  · rw [if_neg isString]
    cases read : token.integer? with
    | some i => exact pushPending_succeeds h (Text.hasNumeral_of_integer? read)
    | none =>
      dsimp only
      obtain ⟨denoted, found⟩ := h.ordered.find?_ok token
      rw [Action.bind_of_eq (dictionary_eq c), found]
      cases denoted with
      | none => exact printLine_succeeds h.ready _
      | some w =>
        obtain ⟨t, live⟩ := Dictionary.find?_live found
        exact runWord_succeeds h.ready fuel (h.ordered.get?_eq_some.mp live).1

theorem enterTokens_succeeds (h : Sturdy c) (fuel : 0 < setting.fuel) (tokens : List Text) :
    (enterTokens setting tokens c).Succeeds Sturdy := by
  induction tokens generalizing c with
  | nil => exact ⟨rfl, h⟩
  | cons token tokens ih => exact (enterToken_succeeds h fuel token).bind fun _ _ h => ih h

theorem enterSource_ends (h : Sturdy c) (fuel : 0 < setting.fuel) (source : Source) :
    (enterSource setting source c).EndsBy (source.failure.map .fault) Sturdy := by
  obtain ⟨lines, failure⟩ := source
  cases failure with
  | none => exact (enterTokens_succeeds h fuel _).bind fun _ _ h => ⟨rfl, h⟩
  | some fault => exact (enterTokens_succeeds h fuel _).bind fun _ _ h => ⟨rfl, h⟩

end Console

end ThreadedCode
