import ThreadedCode.Proofs.Machine.Abreast

/-!
The two ways to run a body, for the bodies that do not jump themselves: to such a body it makes no
difference which way it is run.
-/

namespace ThreadedCode.Focus

variable {d d' : Dictionary} {strict : Strictness} {f g : Focus}

/-- How a body that does not jump is run: straight through, or by its position at a level, with so
many rounds of the loop. -/
inductive Way where
  | straight
  | atLevel (level : Int) (rounds : Nat)

namespace Way

variable {u : Invoker} {way way' : Way} {before rest : List Instruction} {i : Instruction}

def go (u : Invoker) (before rest : List Instruction) : Way → Action Focus Unit
  | straight => invokeEach u rest
  | atLevel level rounds => runByPosition u level (before ++ rest) rounds

def onward : Way → Action Focus Unit
  | straight => pure ()
  | atLevel level _ => advance level

def next : Way → Way
  | straight => straight
  | atLevel level rounds => atLevel level (rounds - 1)

def Spent : Way → Prop
  | straight => False
  | atLevel _ rounds => rounds = 0

def Lasts (rest : List Instruction) : Way → Prop
  | straight => True
  | atLevel _ rounds => rest.length < rounds

def Fits (before : List Instruction) (f : Focus) : Way → Prop
  | straight => f.task.Counted
  | atLevel level _ => 1 ≤ level ∧ f.At level (before.length + 1)

theorem Fits.counted (fits : way.Fits before f) : f.task.Counted := by
  cases way with
  | straight => exact fits
  | atLevel level rounds => exact fits.2.counted fits.1

theorem Lasts.not_spent (lasts : way.Lasts rest) : ¬ way.Spent := by
  cases way with
  | straight => exact id
  | atLevel level rounds => exact Nat.ne_of_gt (Nat.zero_lt_of_lt lasts)

theorem Lasts.next (lasts : way.Lasts (i :: rest)) : way.next.Lasts rest := by
  cases way with
  | straight => trivial
  | atLevel level rounds =>
    have enough : rest.length + 1 < rounds := lasts
    exact Nat.lt_sub_of_add_lt enough

theorem go_spent (spent : way.Spent) : way.go u before rest f = .exhausted := by
  cases way with
  | straight => exact spent.elim
  | atLevel level rounds =>
    cases spent
    rfl

theorem go_nil (fits : way.Fits before f) (some_ : ¬ way.Spent) :
    way.go u before [] f = .ok () f := by
  cases way with
  | straight => rfl
  | atLevel level rounds =>
    obtain ⟨rounds, rfl⟩ := Nat.exists_eq_succ_of_ne_zero some_
    have outside : ¬ (before.length + 1 : Int) ≤ (before ++ []).length := by
      rw [List.append_nil]
      omega
    exact runByPosition_outside fits.2.position_eq outside rounds

theorem go_cons (fits : way.Fits before f) (some_ : ¬ way.Spent) :
    way.go u before (i :: rest) f =
      (do invokeFor u i; way.onward; way.next.go u (before ++ [i]) rest) f := by
  cases way with
  | straight => rfl
  | atLevel level rounds =>
    obtain ⟨rounds, rfl⟩ := Nat.exists_eq_succ_of_ne_zero some_
    have inside : (before.length + 1 : Int) ≤ (before ++ i :: rest).length := by
      rw [List.length_append, List.length_cons]
      omega
    have round := runByPosition_inside (u := u) fits.2.position_eq inside
      (instructionAt_append before i rest) rounds
    simpa only [go, onward, next, List.append_assoc, List.singleton_append, Nat.succ_eq_add_one,
      Nat.add_sub_cancel] using round

theorem Fits.onward (fits : way.Fits before f) (quiet : ¬ d.Jumps i) (strict : Strictness) (n : Nat) :
    (invokeFor (invoke d strict n) i f).Leaves fun g =>
      ∃ g', way.onward g = .ok () g' ∧ Like g g' ∧ way.next.Fits (before ++ [i]) g' := by
  have still : ¬ d.Moves i f.task :=
    Dictionary.not_moves fits.counted.calm fun jumps => absurd jumps quiet
  have kept := invokeFor_keeps (invoke_keeps d strict n) (Int.le_refl _) still.elim
  refine kept.mono fun g kept => ?_
  cases way with
  | straight => exact ⟨g, rfl, .refl g, Task.Counted.of_keeps fits kept⟩
  | atLevel level rounds =>
    obtain ⟨inner, here⟩ := fits
    rw [here.level_eq] at kept
    have there := here.of_kept kept
    refine ⟨_, advance_eq there.position_eq, .steered (fun _ => rfl) g, inner, ?_⟩
    rw [List.length_append, List.length_singleton]
    exact there.setPosition _

theorem go_matched {n n' : Nat} (same : d.Reclassified d')
    (h : Invoker.Tracks d (invoke d strict n) (invoke d' strict n')) (free : ∀ i ∈ rest, ¬ d.Jumps i)
    (like : Like f g) (fits : way.Fits before f) (fits' : way'.Fits before g)
    (lasts : way'.Lasts rest) :
    (way.go (invoke d strict n) before rest f).Matched Like
      (way'.go (invoke d' strict n') before rest g) := by
  -- on the rest of the body, at which both runs have arrived, each in its own way
  induction rest generalizing way way' before f g with
  | nil =>
    by_cases spent : way.Spent
    · rw [go_spent spent]
      trivial
    · rw [go_nil fits spent, go_nil fits' lasts.not_spent]
      exact ⟨rfl, like⟩
  | cons i rest ih =>
    by_cases spent : way.Spent
    · rw [go_spent spent]
      trivial
    · rw [go_cons fits spent, go_cons fits' lasts.not_spent]
      have quiet : ¬ d.Jumps i := free i List.mem_cons_self
      have head := invokeFor_matched h (i := i) like fits.counted fits'.counted fun jumps =>
        absurd jumps quiet
      have left := fits.onward quiet strict n
      have right := fits'.onward (mt (same.jumps_iff i).mp quiet) strict n'
      refine (head.and_leaves left right).bind (fun _ _ all => all.1) fun _ f g all => ?_
      obtain ⟨like, ⟨f', moved, steered, fits⟩, g', moved', steered', fits'⟩ := all
      rw [Action.bind_apply, Action.bind_apply, moved, moved']
      exact ih (fun j member => free j (List.mem_cons_of_mem i member))
        ((steered.symm.trans like).trans steered') fits fits' lasts.next

theorem exists_way {w : Word} (runs : w.RunsBody) (counted : (Machine.enterAtomic f.task).Counted)
    (rounds : Nat) :
    ∃ (way : Way) (enter leave : Task → Task), Steers enter ∧ Steers leave ∧
      way.Fits [] (f.onTask enter) ∧ (w.body.length < rounds → way.Lasts w.body) ∧
      ∀ u i, executeWith strict rounds u w i f =
        (do (way.go u [] w.body).ensuring (onTask leave); status) (f.onTask enter) := by
  rcases runs with kind | kind
  · refine ⟨straight, Machine.enterAtomic, Machine.leaveAtomic, fun _ => rfl, fun _ => rfl,
      counted, fun _ => trivial, fun u i => ?_⟩
    rw [executeWith, kind]
    rfl
  · have inner : 1 ≤ f.task.level + 1 := Int.le_add_of_nonneg_left counted.level
    refine ⟨atLevel (f.task.level + 1) rounds, Machine.enterLevel, Machine.leaveLevel f.task,
      fun _ => rfl, fun _ => rfl, ⟨inner, .enterLevel f⟩, id, fun u i => ?_⟩
    rw [executeWith, kind]
    rfl

end Way

end ThreadedCode.Focus
