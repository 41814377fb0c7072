import ThreadedCode.Proofs.Machine.Control

/-!
Nested words put back what they change of the control state, with a result and with a halt: after an
instruction the level and the depth of atomic words are as before, and so are the positions up to
the level. Only a jump that is not refused moves the position of the level itself.
-/

namespace ThreadedCode

/-- A computation that comes to an end, with a result or a halt, leaves a state with a property. -/
def Outcome.Leaves {σ α : Type} (P : σ → Prop) : Outcome σ α → Prop
  | ok _ s => P s
  | halt _ s => P s
  | exhausted => True

def Outcome.why? {σ α : Type} : Outcome σ α → Option Halt
  | halt why _ => some why
  | _ => none

namespace Outcome.Leaves

variable {σ α β : Type} {P Q : σ → Prop} {x : Action σ α} {s : σ}

theorem mono {o : Outcome σ α} (h : o.Leaves P) (weaken : ∀ s, P s → Q s) : o.Leaves Q := by
  cases o with
  | ok a s => exact weaken s h
  | halt why s => exact weaken s h
  | exhausted => trivial

theorem and {o : Outcome σ α} (h : o.Leaves P) (k : o.Leaves Q) : o.Leaves fun s => P s ∧ Q s := by
  cases o with
  | ok a s => exact ⟨h, k⟩
  | halt why s => exact ⟨h, k⟩
  | exhausted => trivial

theorem of_halted {o : Outcome σ α} {why : Halt} (h : o.Leaves P)
    (halted : o.why? = some why) : ∃ s, o = .halt why s ∧ P s := by
  cases o with
  | ok a s => cases halted
  | halt why s =>
    cases halted
    exact ⟨s, rfl, h⟩
  | exhausted => cases halted

theorem of_mapState {τ : Type} {g : σ → τ} {P : τ → Prop} {o : Outcome σ α}
    (h : o.Leaves fun s => P (g s)) : (o.mapState g).Leaves P := by
  cases o with
  | ok a s => exact h
  | halt why s => exact h
  | exhausted => trivial

theorem bind {g : α → Action σ β} (h : (x s).Leaves P) (halted : ∀ s, P s → Q s)
    (next : ∀ a s, P s → (g a s).Leaves Q) : ((x >>= g) s).Leaves Q := by
  rw [Action.bind_apply]
  cases hx : x s with
  | ok a s =>
    rw [hx] at h
    exact next a s h
  | halt why s =>
    rw [hx] at h
    exact halted s h
  | exhausted => trivial

theorem ensuring {after : σ → σ} (h : (x s).Leaves P) (afterwards : ∀ s, P s → Q (after s)) :
    ((x.ensuring after) s).Leaves Q := by
  rw [Action.ensuring]
  cases hx : x s with
  | ok a s =>
    rw [hx] at h
    exact afterwards s h
  | halt why s =>
    rw [hx] at h
    exact afterwards s h
  | exhausted => trivial

theorem catchFault {handler : Fault → Action σ α} (h : (x s).Leaves P)
    (handled : ∀ fault s, P s → (handler fault s).Leaves P) :
    ((x.catchFault handler) s).Leaves P := by
  rw [Action.catchFault]
  cases hx : x s with
  | ok a s =>
    rw [hx] at h
    exact h
  | halt why s =>
    rw [hx] at h
    cases why with
    | fault fault => exact handled fault s h
    | malformed word => exact h
    | quit => exact h
  | exhausted => trivial

end Outcome.Leaves

namespace Dictionary

variable {d : Dictionary} {i : Instruction} {t : Task}

def RunsStraight (d : Dictionary) (i : Instruction) : Prop :=
  ∃ w, d.findToken? i.token = some w ∧ w.kind = .atomic

/-- An instruction may move the position of the level that it is executed at: as a jump that is not
refused, or as an atomic word in which jumps are not refused. -/
def Moves (d : Dictionary) (i : Instruction) (t : Task) : Prop :=
  d.Jumps i ∧ ¬ t.Refuses ∨ d.RunsStraight i ∧ ¬ t.Calm

theorem Moves.not_refuses (moves : d.Moves i t) : ¬ t.Refuses := by
  rcases moves with ⟨_, accepts⟩ | ⟨_, wild⟩
  · exact accepts
  · exact mt Task.Refuses.calm wild

theorem Moves.depth (moves : d.Moves i t) :
    d.Jumps i ∧ t.atomicDepth ≤ 0 ∨ d.RunsStraight i ∧ t.atomicDepth < 0 := by
  refine moves.imp (fun jump => ⟨jump.1, ?_⟩) fun nested => ⟨nested.1, ?_⟩
  · exact Int.not_lt.mp fun inside => jump.2 (Or.inr inside)
  · exact Int.not_le.mp fun counted => nested.2 (Or.inr counted)

theorem not_moves (calm : t.Calm) (quiet : d.Jumps i → t.Refuses) : ¬ d.Moves i t := by
  rintro (⟨jumps, accepts⟩ | ⟨_, wild⟩)
  · exact accepts (quiet jumps)
  · exact wild calm

end Dictionary

theorem Machine.mem_of_instructionAt {body : List Instruction} {index : Int} {i : Instruction}
    (fetched : instructionAt body index = .ok i) : i ∈ body := by
  unfold instructionAt at fetched
  dsimp only at fetched
  generalize (if index < 0 then index + body.length else index) = place at fetched
  cases found : (if place < 0 then none else body[place.toNat]?) with
  | none =>
    rw [found] at fetched
    cases fetched
  | some j =>
    rw [found] at fetched
    obtain rfl := Except.ok.inj fetched
    split at found
    · cases found
    · exact List.mem_of_getElem? found

namespace Focus

variable {d : Dictionary} {strict : Strictness} {n : Int}

def Kept (n : Int) (f g : Focus) : Prop := f.task.Keeps n g.task

theorem Kept.refl (n : Int) (f : Focus) : Kept n f f := Task.Keeps.refl n f.task

theorem Kept.trans {f g h : Focus} (first : Kept n f g) (second : Kept n g h) : Kept n f h :=
  Task.Keeps.trans first second

def Invoker.Keeps (d : Dictionary) (u : Invoker) : Prop :=
  ∀ (n : Int) (i : Instruction) (f : Focus), n ≤ f.task.level →
    (d.Moves i f.task → n < f.task.level) → (u i f).Leaves (Kept n f)

theorem setStatus_kept (v : Option Value) (f : Focus) : Kept n f (setStatus v f) :=
  Task.Keeps.of_control rfl

section Bodies

variable {u : Invoker}

theorem invokeFor_keeps (h : u.Keeps d) {i : Instruction} {f : Focus} (le : n ≤ f.task.level)
    (inner : d.Moves i f.task → n < f.task.level) : (invokeFor u i f).Leaves (Kept n f) := by
  refine (h n i f le inner).bind (fun _ kept => kept) fun v g kept => ?_
  exact kept.trans (setStatus_kept v g)

theorem invokeFor_kept (h : u.Keeps d) (i : Instruction) {f : Focus} (le : n ≤ f.task.level)
    (refuses : f.task.Refuses) : (invokeFor u i f).Leaves (Kept n f) :=
  invokeFor_keeps h le fun moves => absurd refuses moves.not_refuses

theorem invokeEach_keeps (h : u.Keeps d) (body : List Instruction) {f : Focus}
    (le : n ≤ f.task.level) (inner : n < f.task.level ∨ f.task.Refuses) :
    (invokeEach u body f).Leaves (Kept n f) := by
  induction body generalizing f with
  | nil => exact Kept.refl n f
  | cons i rest ih =>
    have head := invokeFor_keeps h (i := i) le fun moves =>
      inner.resolve_right moves.not_refuses
    refine head.bind (fun _ kept => kept) fun _ g kept => ?_
    have tail := ih (f := g) (by rw [kept.level]; exact le) (by rwa [kept.level, kept.refuses])
    exact tail.mono fun _ => kept.trans

theorem positionOf_eq {level p : Int} {f : Focus}
    (position : f.task.positions.get? level = some p) : positionOf level f = .ok p f := by
  rw [positionOf, position]

theorem instructionAt_append (before : List Instruction) (i : Instruction)
    (rest : List Instruction) :
    Machine.instructionAt (before ++ i :: rest) (before.length + 1 - 1) = .ok i := by
  rw [Machine.instructionAt_eq ⟨by omega, by rw [List.length_append, List.length_cons]; omega⟩]
  simp

def advance (level : Int) : Action Focus Unit := do
  let position ← positionOf level
  Action.modify (onTask (Machine.setPosition level (position + 1)))

theorem advance_eq {level p : Int} {f : Focus}
    (position : f.task.positions.get? level = some p) :
    advance level f = .ok () (f.onTask (Machine.setPosition level (p + 1))) := by
  rw [advance, Action.bind_apply, positionOf_eq position]
  rfl

theorem runByPosition_inside {level p : Int} {f : Focus}
    (position : f.task.positions.get? level = some p) {body : List Instruction}
    (inside : p ≤ body.length) {i : Instruction}
    (fetched : Machine.instructionAt body (p - 1) = .ok i) (rounds : Nat) :
    runByPosition u level body (rounds + 1) f =
      (do invokeFor u i; advance level; runByPosition u level body rounds) f := by
  rw [runByPosition, Action.bind_apply, positionOf_eq position]
  dsimp only
  rw [if_pos inside, fetched]
  have next : ∀ rest : Instruction → Action Focus Unit,
      (Action.ofExcept (.ok i) >>= rest) f = rest i f := fun rest => rfl
  rw [next, Action.bind_apply, Action.bind_apply]
  cases invokeFor u i f with
  | ok _ g =>
    simp only [advance, Action.bind_apply]
    cases positionOf level g <;> rfl
  | halt why g => rfl
  | exhausted => rfl

theorem runByPosition_outside {level p : Int} {f : Focus}
    (position : f.task.positions.get? level = some p) {body : List Instruction}
    (outside : ¬ p ≤ body.length) (rounds : Nat) :
    runByPosition u level body (rounds + 1) f = .ok () f := by
  rw [runByPosition, Action.bind_apply, positionOf_eq position]
  dsimp only
  rw [if_neg outside]
  rfl

theorem positionOf_bind_leaves {α : Type} {level : Int} {f : Focus} {next : Int → Action Focus α}
    {P : Focus → Prop} (lost : P f)
    (found : ∀ p, f.task.positions.get? level = some p → (next p f).Leaves P) :
    ((positionOf level >>= next) f).Leaves P := by
  rw [Action.bind_apply, positionOf]
  cases here : f.task.positions.get? level with
  | none => exact lost
  | some p => exact found p here

theorem ofExcept_leaves {α : Type} (r : Except Fault α) (f : Focus) :
    (Action.ofExcept r f).Leaves (· = f) := by
  cases r <;> rfl

theorem runByPosition_keeps (h : u.Keeps d) {level : Int} (lt : n < level)
    (body : List Instruction) (rounds : Nat) {f : Focus} (at_ : f.task.level = level) :
    (runByPosition u level body rounds f).Leaves (Kept n f) := by
  induction rounds generalizing f with
  | zero => trivial
  | succ rounds ih =>
    refine positionOf_bind_leaves (Kept.refl n f) fun position _ => ?_
    by_cases inside : position ≤ body.length
    · rw [if_pos inside]
      refine (ofExcept_leaves _ f).bind (fun _ eq => eq ▸ Kept.refl n f) fun i g eq => ?_
      subst eq
      have invoked : (invokeFor u i g).Leaves (Kept n g) :=
        invokeFor_keeps h (by omega) fun _ => by omega
      refine invoked.bind (fun _ kept => kept) fun _ g' kept => ?_
      have there : g'.task.level = level := by rw [kept.level, at_]
      refine positionOf_bind_leaves kept fun position here => ?_
      have moved : Kept n g' (g'.onTask (Machine.setPosition level (position + 1))) :=
        Task.Keeps.setPosition there lt here _
      have rest := ih (f := g'.onTask (Machine.setPosition level (position + 1))) there
      exact rest.mono fun _ => (kept.trans moved).trans
    · rw [if_neg inside]
      exact Kept.refl n f

theorem runStraight_keeps (h : u.Keeps d) (body : List Instruction) {f : Focus}
    (le : n ≤ f.task.level) (inner : n < f.task.level ∨ f.task.Calm) :
    (runStraight u body f).Leaves (Kept n f) := by
  have entered : (invokeEach u body (f.onTask Machine.enterAtomic)).Leaves
      (Kept n (f.onTask Machine.enterAtomic)) :=
    invokeEach_keeps h body le (inner.imp_right Task.refuses_enterAtomic)
  have left : ∀ g, Kept n (f.onTask Machine.enterAtomic) g →
      Kept n f (g.onTask Machine.leaveAtomic) := fun g kept => kept.leaveAtomic
  exact (entered.ensuring left).bind (fun _ kept => kept) fun _ g kept => kept

theorem runAtLevel_keeps (h : u.Keeps d) (rounds : Nat) (body : List Instruction) {f : Focus}
    (le : n ≤ f.task.level) :
    (runAtLevel u rounds body f).Leaves (Kept n f) := by
  have entered : (runByPosition u (f.task.level + 1) body rounds
      (f.onTask Machine.enterLevel)).Leaves
      (Kept f.task.level (f.onTask Machine.enterLevel)) :=
    runByPosition_keeps h (Int.lt_succ _) body rounds rfl
  have left : ∀ g, Kept f.task.level (f.onTask Machine.enterLevel) g →
      Kept n f (g.onTask (Machine.leaveLevel f.task)) := fun g kept => kept.leaveLevel le
  exact (entered.ensuring left).bind (fun _ kept => kept) fun _ g kept => kept

end Bodies

theorem write_leaves (t : Text) (f : Focus) :
    (write strict t f).Leaves fun g => g.task = f.task := by
  unfold write
  split <;> rfl

theorem runBuiltin_leaves (b : Builtin) (arg : Operand) (f : Focus) :
    (runBuiltin strict b arg f).Leaves fun g =>
      g.task = (b.effect arg f.task f.globals).task := by
  refine (write_leaves _ _).bind (fun _ same => same) fun _ g same => ?_
  exact (ofExcept_leaves _ g).mono fun _ eq => eq ▸ same

theorem runBuiltin_keeps (b : Builtin) (arg : Operand) {f : Focus}
    (quiet : b.isJump → n < f.task.level ∨ f.task.Refuses) :
    (runBuiltin strict b arg f).Leaves (Kept n f) := by
  refine (runBuiltin_leaves b arg f).mono fun g same => ?_
  rw [Kept, same]
  exact Builtin.effect_keeps quiet

theorem executeWith_keeps {u : Invoker} (h : u.Keeps d) (fuel : Nat) {w : Word} {i : Instruction}
    (found : d.findToken? i.token = some w) {f : Focus} (le : n ≤ f.task.level)
    (inner : d.Moves i f.task → n < f.task.level) :
    (executeWith strict fuel u w i f).Leaves (Kept n f) := by
  unfold executeWith
  cases hk : w.kind with
  | primitive =>
    cases hp : w.primitive with
    | none => exact Kept.refl n f
    | some p =>
      cases p with
      | builtin b =>
        have found := Dictionary.builtin?_eq_some.mpr ⟨w, found, hk, hp⟩
        refine runBuiltin_keeps b i.arg fun jumps => ?_
        by_cases refuses : f.task.Refuses
        · exact Or.inr refuses
        · exact Or.inl (inner (Or.inl ⟨⟨b, found, jumps⟩, refuses⟩))
      | foreign name => exact Kept.refl n f
  | atomic =>
    refine runStraight_keeps h w.body le ?_
    by_cases calm : f.task.Calm
    · exact Or.inr calm
    · exact Or.inl (inner (Or.inr ⟨⟨w, found, hk⟩, calm⟩))
  | composite => exact runAtLevel_keeps h fuel w.body le
  | other label => exact Kept.refl n f

theorem invoke_builtin {i : Instruction} {b : Builtin} (h : d.builtin? i = some b) (fuel : Nat)
    (f : Focus) :
    (invoke d strict fuel i f).Leaves fun g => g.task = (b.effect i.arg f.task f.globals).task := by
  obtain ⟨w, found, kind, primitive⟩ := Dictionary.builtin?_eq_some.mp h
  cases fuel with
  | zero => trivial
  | succ fuel =>
    simp only [invoke, found, executeWith, kind, primitive]
    refine Outcome.Leaves.catchFault ?_ fun _ g same => same
    refine Outcome.Leaves.bind (runBuiltin_leaves b i.arg f) (fun _ same => same) ?_
    exact fun _ _ same => same

/-- An instruction keeps the control state for all levels below that of the task, and for the level
of the task itself where it cannot move the position. -/
theorem invoke_keeps (d : Dictionary) (strict : Strictness) (fuel : Nat) :
    Invoker.Keeps d (invoke d strict fuel) := by
  -- on the depth of calls
  induction fuel with
  | zero => exact fun _ _ _ _ _ => trivial
  | succ fuel ih =>
    intro n i f le inner
    rw [invoke]
    cases found : d.findToken? i.token with
    | none => exact Task.Keeps.refl n f.task
    | some w =>
      refine Outcome.Leaves.catchFault ?_ fun fault g kept => kept
      refine (executeWith_keeps ih fuel found le inner).bind (fun _ kept => kept) ?_
      exact fun v g kept => kept

end Focus

end ThreadedCode
