import Mathlib.Logic.Relation
import ThreadedCode.Proofs.Machine.Frame

/-!
What a task holds: its name, its stacks and its variables, and the global variables with them. Only
the primitives of the machine change any of it, one step at a time, and none of them the name; the
rest of the interpreter is about the control state, the status and the two texts. So whatever words a
run goes through and however it ends, it is a chain of such steps.
-/

namespace ThreadedCode

theorem Table.mem_values_of_get? {κ α : Type} [DecidableEq κ] {t : Table κ α} {k : κ} {a : α}
    (h : t.get? k = some a) : a ∈ t.values :=
  List.mem_map_of_mem (mem_entries_of_get? h)

theorem Table.mem_values_insert {κ α : Type} [DecidableEq κ] {t : Table κ α} {k : κ} {a b : α}
    (member : b ∈ (t.insert k a).values) : b = a ∨ b ∈ t.values := by
  have split : ∀ entries : List (κ × α), b ∈ (insertEntry k a entries).map (·.2) →
      b = a ∨ b ∈ entries.map (·.2) := by
    intro entries inserted
    induction entries with
    | nil => exact .inl (List.mem_singleton.mp inserted)
    | cons e rest ih =>
      by_cases here : e.1 = k
      · rw [insertEntry, if_pos here] at inserted
        exact (List.mem_cons.mp inserted).imp_right (List.mem_cons_of_mem _)
      · rw [insertEntry, if_neg here] at inserted
        rcases List.mem_cons.mp inserted with rfl | later
        · exact .inr List.mem_cons_self
        · exact (ih later).imp_right (List.mem_cons_of_mem _)
  exact split t.entries member

structure Holdings where
  name : Text
  stack : List Value
  returns : List Value
  locals : Variables
  globals : Variables

namespace Holdings

def of (t : Task) (globals : Variables) : Holdings := 
  ⟨t.name, t.stack, t.returns, t.locals, globals⟩

/-- What a primitive can do with the holdings. -/
inductive Step : Builtin → Holdings → Holdings → Prop
  | keep {b : Builtin} {h : Holdings} : Step b h h
  | drop {b : Builtin} {h : Holdings} {v : Value} {rest : List Value}
      (stack : h.stack = v :: rest) : Step b h { h with stack := rest }
  | fetch {h : Holdings} {name : Text} {v : Value} {rest : List Value}
      (stack : h.stack = .text name :: rest)
      (found : h.locals.get? name = some v ∨ h.globals.get? name = some v) :
      Step .fetch h { h with stack := v :: rest }
  | storeLocal {h : Holdings} {name : Text} {v : Value} {rest : List Value}
      (stack : h.stack = .text name :: v :: rest) :
      Step .store h { h with stack := rest, locals := h.locals.insert name v }
  | storeGlobal {h : Holdings} {name : Text} {v : Value} {rest : List Value}
      (stack : h.stack = .text name :: v :: rest) (free : h.locals.contains name = false)
      (shared : h.globals.contains name = true) :
      Step .store h { h with stack := rest, globals := h.globals.insert name v }
  | toReturn {h : Holdings} {v : Value} {rest : List Value} (stack : h.stack = v :: rest) :
      Step .toReturn h { h with stack := rest, returns := v :: h.returns }
  | fromReturn {h : Holdings} {v : Value} {rest : List Value} (returns : h.returns = v :: rest) :
      Step .fromReturn h { h with stack := v :: h.stack, returns := rest }

def Stepwise (h h' : Holdings) : Prop := ∃ b, Step b h h'

abbrev Steps : Holdings → Holdings → Prop := Relation.ReflTransGen Stepwise

theorem Step.name_eq {b : Builtin} {h h' : Holdings} (step : Step b h h') : h'.name = h.name := by
  cases step <;> rfl

theorem Steps.name_eq {h h' : Holdings} (steps : Steps h h') : h'.name = h.name := by
  induction steps with
  | refl => rfl
  | tail _ step ih => exact (step.elim fun _ step => step.name_eq).trans ih

def values (h : Holdings) : List Value :=
  h.stack ++ h.returns ++ h.locals.values ++ h.globals.values

theorem mem_values {h : Holdings} {v : Value} :
    v ∈ h.values ↔
      v ∈ h.stack ∨ v ∈ h.returns ∨ v ∈ h.locals.values ∨ v ∈ h.globals.values := by
  simp only [values, List.mem_append, or_assoc]

theorem Step.mem_values {b : Builtin} {h h' : Holdings} (step : Step b h h') {v : Value}
    (member : v ∈ h'.values) : v ∈ h.values := by
  rw [Holdings.mem_values] at member ⊢
  cases step with
  | keep => exact member
  | drop stack =>
    rw [stack]
    exact member.imp_left (List.mem_cons_of_mem _)
  | fetch stack found =>
    refine member.elim (fun top => ?_) .inr
    rcases List.mem_cons.mp top with rfl | below
    · exact .inr (.inr (found.imp Table.mem_values_of_get? Table.mem_values_of_get?))
    · rw [stack]
      exact .inl (List.mem_cons_of_mem _ below)
  | storeLocal stack =>
    rw [stack]
    rcases member with below | back | own | shared
    · exact .inl (List.mem_cons_of_mem _ (List.mem_cons_of_mem _ below))
    · exact .inr (.inl back)
    · rcases Table.mem_values_insert own with rfl | own
      · exact .inl (List.mem_cons_of_mem _ List.mem_cons_self)
      · exact .inr (.inr (.inl own))
    · exact .inr (.inr (.inr shared))
  | storeGlobal stack free known =>
    rw [stack]
    rcases member with below | back | own | shared
    · exact .inl (List.mem_cons_of_mem _ (List.mem_cons_of_mem _ below))
    · exact .inr (.inl back)
    · exact .inr (.inr (.inl own))
    · rcases Table.mem_values_insert shared with rfl | shared
      · exact .inl (List.mem_cons_of_mem _ List.mem_cons_self)
      · exact .inr (.inr (.inr shared))
  | toReturn stack =>
    rw [stack]
    rcases member with below | back | named
    · exact .inl (List.mem_cons_of_mem _ below)
    · rcases List.mem_cons.mp back with rfl | back
      · exact .inl List.mem_cons_self
      · exact .inr (.inl back)
    · exact .inr (.inr named)
  | fromReturn returns =>
    rw [returns]
    rcases member with top | back | named
    · rcases List.mem_cons.mp top with rfl | below
      · exact .inr (.inl List.mem_cons_self)
      · exact .inl below
    · exact .inr (.inl (List.mem_cons_of_mem _ back))
    · exact .inr (.inr named)

theorem Steps.mem_values {h h' : Holdings} (steps : Steps h h') {v : Value}
    (member : v ∈ h'.values) : v ∈ h.values := by
  induction steps with
  | refl => exact member
  | tail _ step ih => exact ih (step.elim fun _ step => step.mem_values member)

end Holdings

theorem Value.asName_eq_ok {top : Value} {name : Text} (h : top.asName = .ok name) :
    top = .text name := by
  unfold asName at h
  split at h
  next => cases h; rfl
  next => cases h

namespace Task

variable {t u : Task} {globals : Variables} {v : Value} {name : Text}

theorem pop_eq_ok (h : t.pop = .ok (v, u)) :
    ∃ rest, t.stack = v :: rest ∧ u = { t with stack := rest } := by
  unfold pop at h
  split at h
  next => cases h
  next top rest stack =>
    cases h
    exact ⟨rest, stack, rfl⟩

theorem pop_step (b : Builtin) (h : t.pop = .ok (v, u)) :
    Holdings.Step b (.of t globals) (.of u globals) := by
  obtain ⟨rest, stack, rfl⟩ := pop_eq_ok h
  exact .drop stack

theorem valueOf?_eq_some (h : t.valueOf? globals name = some v) :
    t.locals.get? name = some v ∨ globals.get? name = some v := by
  unfold valueOf? at h
  split at h
  next own => exact .inl (own.trans h)
  next => exact .inr h

theorem assign_step {rest : List Value} (stack : t.stack = .text name :: v :: rest) :
    let written := { t with stack := rest }.assign globals name v
    Holdings.Step .store (.of t globals) (.of written.1 written.2) := by
  intro written
  by_cases own : t.locals.contains name
  · have local_ : written = ({ t with stack := rest, locals := t.locals.insert name v }, globals) :=
      if_pos own
    rw [local_]
    exact .storeLocal stack
  · by_cases shared : globals.contains name
    · have global : written = ({ t with stack := rest }, globals.insert name v) :=
        (if_neg own).trans (if_pos shared)
      rw [global]
      exact .storeGlobal stack (Bool.not_eq_true _ ▸ own) shared
    · have fresh : written =
          ({ t with stack := rest, locals := t.locals.insert name v }, globals) :=
        (if_neg own).trans (if_neg shared)
      rw [fresh]
      exact .storeLocal stack

end Task

namespace Effect

open Holdings (Step)

variable {b : Builtin} {t : Task} {globals : Variables}

def holdings (e : Effect) : Holdings := .of e.task e.globals

theorem ofTask_step {r : Except Fault (Value × Task)}
    (ok : ∀ v u, r = .ok (v, u) → Step b (.of t globals) (.of u globals)) :
    Step b (.of t globals) (ofTask t globals r).holdings := by
  cases r with
  | error fault => exact .keep
  | ok done => exact ok done.1 done.2 rfl

theorem jump_step (arg : Operand) :
    Step b (.of t globals) (ofTask t globals (t.jump arg)).holdings := by
  refine ofTask_step fun v u jumped => ?_
  obtain ⟨before, after, -, rfl⟩ := Task.jump_eq_ok jumped
  exact .keep

theorem print_step : Step .print (.of t globals) (print t globals).holdings := by
  rw [print]
  cases popped : t.pop with
  | error fault => exact .keep
  | ok done =>
    have taken : Step .print (.of t globals) (.of done.2 globals) := Task.pop_step .print popped
    dsimp only
    by_cases writable : done.1.isWritable
    · rw [if_pos writable]
      exact taken
    · rw [if_neg writable]
      exact taken

theorem fetch_step : Step .fetch (.of t globals) (fetch t globals).holdings := by
  rw [fetch]
  cases popped : t.pop with
  | error fault => exact .keep
  | ok done =>
    have taken : Step .fetch (.of t globals) (.of done.2 globals) := Task.pop_step .fetch popped
    dsimp only
    cases named : done.1.asName with
    | error fault => exact taken
    | ok name =>
      dsimp only
      cases found : done.2.valueOf? globals name with
      | none => exact taken
      | some v =>
        obtain ⟨rest, stack, same⟩ := Task.pop_eq_ok popped
        rw [Value.asName_eq_ok named] at stack
        rw [same] at found ⊢
        exact .fetch stack (Task.valueOf?_eq_some found)

theorem store_step : Step .store (.of t globals) (store t globals).holdings := by
  unfold store
  split
  next => exact .keep
  next top below stack =>
    split
    next => exact .keep
    next name named =>
      split
      next => exact .keep
      next v rest =>
        rw [Value.asName_eq_ok named] at stack
        exact Task.assign_step stack

theorem zeroBranch_step (arg : Operand) :
    Step .zeroBranch (.of t globals) (zeroBranch arg t globals).holdings := by
  rw [zeroBranch]
  cases popped : t.pop with
  | error fault => exact .keep
  | ok done =>
    have taken : Step .zeroBranch (.of t globals) (.of done.2 globals) :=
      Task.pop_step .zeroBranch popped
    dsimp only
    by_cases zero : done.1.isZero
    · rw [if_pos zero]
      cases jumped : done.2.jump arg with
      | error fault => exact taken
      | ok landed =>
        obtain ⟨before, after, -, moved⟩ := Task.jump_eq_ok (v := landed.1) (u := landed.2) jumped
        have unmoved : (ofTask done.2 globals (.ok landed)).holdings = .of done.2 globals := by
          rw [ofTask, holdings, moved]
          rfl
        rwa [unmoved]
    · rw [if_neg zero]
      exact taken

end Effect

theorem Builtin.effect_step (b : Builtin) (arg : Operand) (t : Task) (globals : Variables) :
    Holdings.Step b (.of t globals) (b.effect arg t globals).holdings := by
  cases b with
  | print => exact Effect.print_step
  | newline => exact .keep
  | fetch => exact Effect.fetch_step
  | store => exact Effect.store_step
  | branch => exact Effect.jump_step arg
  | zeroBranch => exact Effect.zeroBranch_step arg
  | toReturn =>
    cases stack : t.stack with
    | nil =>
      simp only [effect, Task.moveToReturn, Task.pop, stack]
      exact .keep
    | cons v rest =>
      simp only [effect, Task.moveToReturn, Task.pop, stack]
      exact .toReturn stack
  | fromReturn =>
    cases returns : t.returns with
    | nil =>
      simp only [effect, Task.moveFromReturn, Task.popReturn, returns]
      exact .keep
    | cons v rest =>
      simp only [effect, Task.moveFromReturn, Task.popReturn, returns]
      exact .fromReturn returns

namespace Focus

open Holdings (Steps)

variable {strict : Strictness} {f g : Focus}

def holdings (f : Focus) : Holdings := .of f.task f.globals

abbrev Stepped (f g : Focus) : Prop := Steps f.holdings g.holdings

theorem Stepped.of_eq (same : g.holdings = f.holdings) : Stepped f g := by
  rw [Stepped, same]

theorem write_holdings (t : Text) (f : Focus) :
    (write strict t f).Leaves fun g => g.holdings = f.holdings := by
  unfold write
  split <;> rfl

theorem runBuiltin_holdings (b : Builtin) (arg : Operand) (f : Focus) :
    (runBuiltin strict b arg f).Leaves fun g =>
      g.holdings = (b.effect arg f.task f.globals).holdings := by
  refine (write_holdings _ _).bind (fun _ same => same) fun _ g same => ?_
  exact (ofExcept_leaves _ g).mono fun _ eq => eq ▸ same

theorem runBuiltin_stepped (b : Builtin) (arg : Operand) (f : Focus) :
    (runBuiltin strict b arg f).Leaves (Stepped f) := by
  refine (runBuiltin_holdings b arg f).mono fun g same => ?_
  exact .single ⟨b, same ▸ b.effect_step arg f.task f.globals⟩

section Bodies

variable {u : Invoker}

theorem invokeFor_stepped (h : ∀ i f, (u i f).Leaves (Stepped f)) (i : Instruction) (f : Focus) :
    (invokeFor u i f).Leaves (Stepped f) :=
  (h i f).bind (fun _ done => done) fun _ _ done => done

theorem invokeEach_stepped (h : ∀ i f, (u i f).Leaves (Stepped f)) (body : List Instruction)
    (f : Focus) : (invokeEach u body f).Leaves (Stepped f) := by
  induction body generalizing f with
  | nil => exact .of_eq rfl
  | cons i rest ih =>
    refine (invokeFor_stepped h i f).bind (fun _ done => done) fun _ g done => ?_
    exact (ih g).mono fun _ => done.trans

theorem runByPosition_stepped (h : ∀ i f, (u i f).Leaves (Stepped f)) (level : Int)
    (body : List Instruction) (rounds : Nat) (f : Focus) :
    (runByPosition u level body rounds f).Leaves (Stepped f) := by
  induction rounds generalizing f with
  | zero => trivial
  | succ rounds ih =>
    refine positionOf_bind_leaves (.of_eq rfl) fun position _ => ?_
    by_cases inside : position ≤ body.length
    · rw [if_pos inside]
      refine (ofExcept_leaves _ f).bind (fun _ eq => .of_eq (congrArg holdings eq)) fun i g eq => ?_
      subst eq
      refine (invokeFor_stepped h i g).bind (fun _ done => done) fun _ g' done => ?_
      refine positionOf_bind_leaves done fun position _ => ?_
      exact (ih _).mono fun _ => done.trans
    · rw [if_neg inside]
      exact .of_eq rfl

theorem runStraight_stepped (h : ∀ i f, (u i f).Leaves (Stepped f)) (body : List Instruction)
    (f : Focus) : (runStraight u body f).Leaves (Stepped f) := by
  have entered : (invokeEach u body (f.onTask Machine.enterAtomic)).Leaves (Stepped f) :=
    invokeEach_stepped h body (f.onTask Machine.enterAtomic)
  have left : ∀ g, Stepped f g → Stepped f (g.onTask Machine.leaveAtomic) := fun _ done => done
  exact (entered.ensuring left).bind (fun _ done => done) fun _ _ done => done

theorem runAtLevel_stepped (h : ∀ i f, (u i f).Leaves (Stepped f)) (rounds : Nat)
    (body : List Instruction) (f : Focus) : (runAtLevel u rounds body f).Leaves (Stepped f) := by
  have entered : (runByPosition u (f.task.level + 1) body rounds
      (f.onTask Machine.enterLevel)).Leaves (Stepped f) :=
    runByPosition_stepped h _ body rounds (f.onTask Machine.enterLevel)
  have left : ∀ g, Stepped f g → Stepped f (g.onTask (Machine.leaveLevel f.task)) :=
    fun _ done => done
  exact (entered.ensuring left).bind (fun _ done => done) fun _ _ done => done

theorem executeWith_stepped (h : ∀ i f, (u i f).Leaves (Stepped f)) (fuel : Nat) (w : Word)
    (i : Instruction) (f : Focus) : (executeWith strict fuel u w i f).Leaves (Stepped f) := by
  unfold executeWith
  cases w.kind with
  | primitive =>
    cases w.primitive with
    | none => exact .of_eq rfl
    | some p =>
      cases p with
      | builtin b => exact runBuiltin_stepped b i.arg f
      | foreign name => exact .of_eq rfl
  | atomic => exact runStraight_stepped h w.body f
  | composite => exact runAtLevel_stepped h fuel w.body f
  | other label => exact .of_eq rfl

end Bodies

theorem invoke_stepped (d : Dictionary) (strict : Strictness) (fuel : Nat) (i : Instruction)
    (f : Focus) : (invoke d strict fuel i f).Leaves (Stepped f) := by
  induction fuel generalizing i f with
  | zero => trivial
  | succ fuel ih =>
    rw [invoke]
    cases d.findToken? i.token with
    | none => exact .of_eq rfl
    | some w =>
      refine Outcome.Leaves.catchFault ?_ fun _ _ done => done
      exact (executeWith_stepped ih fuel w i f).bind (fun _ done => done) fun _ _ done => done

theorem invokeFor_named (d : Dictionary) (strict : Strictness) (fuel : Nat) (i : Instruction)
    (f : Focus) :
    (invokeFor (invoke d strict fuel) i f).Leaves fun g => g.task.name = f.task.name :=
  (invokeFor_stepped (invoke_stepped d strict fuel) i f).mono fun _ steps => steps.name_eq

end Focus

end ThreadedCode
