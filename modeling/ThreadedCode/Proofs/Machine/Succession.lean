import ThreadedCode.Proofs.Machine.Dispatch
import ThreadedCode.Proofs.Machine.Residue

/-!
Words that run in succession, each as a task of its own that takes over the stack and the variables of
the task before it, and the same words in the body of one task. A new task stands at level zero, where
jumps are refused, and an atomic body refuses them too; what the new task does not take over nobody
reads. So whatever one of the two leaves to be seen, the other leaves as well.
-/

namespace ThreadedCode

/-- What a task passes on to the next one, and what both of them share. -/
structure Sight where
  stack : List Value
  locals : Variables
  globals : Variables
  output : Text
  diagnostics : Text
deriving DecidableEq

namespace Focus

def sight (f : Focus) : Sight :=
  ⟨f.task.stack, f.task.locals, f.globals, f.output, f.diagnostics⟩

def renew (name : Text) (w : Word) (f : Focus) : Focus :=
  f.onTask fun t => { name, entry := w, stack := t.stack, locals := t.locals }

def runAlone (u : Invoker) (name : Text) (w : Word) : Action Focus Unit := fun f =>
  invokeFor u { token := w.token } (renew name w f)

/-- The right one is inside an atomic body of a task of the name, and shows the same as the left. -/
structure Beside (name : Text) (f g : Focus) : Prop where
  sight : f.sight = g.sight
  named : g.task.name = name
  counted : g.task.Counted
  refuses : g.task.Refuses

variable {d d' : Dictionary} {strict : Strictness} {name : Text} {f g : Focus} {w : Word} {n n' : Nat}

theorem counted_renew (name : Text) (w : Word) (f : Focus) : (renew name w f).task.Counted :=
  ⟨Int.le_refl 0, Or.inl rfl⟩

theorem refuses_renew (name : Text) (w : Word) (f : Focus) : (renew name w f).task.Refuses :=
  Or.inl rfl

theorem Beside.steered (h : Beside name f g) (w : Word) :
    ∃ e, Like (renew name w f) e ∧ Akin name e g ∧ e.task.Counted ∧ e.task.Refuses := by
  obtain ⟨same, rfl, counted, refuses⟩ := h
  injection same with stack locals globals output diagnostics
  refine ⟨(renew g.task.name w f).withControl g.task.control, ⟨_, rfl⟩,
    ⟨rfl, ⟨g.task.returns, g.task.status⟩, ?_⟩, ⟨counted.level, counted.calm⟩, refuses⟩
  simp only [onTask, withControl, renew, Task.withResidue, Task.withControl, Task.control, stack,
    locals, globals, output, diagnostics]

theorem Beside.of_run {e e' : Focus} (counted : e.task.Counted) (refuses : e.task.Refuses)
    (kept : Kept e.task.level e e') (like : Like f e') (akin : Akin name e' g) :
    Beside name f g := by
  have counted' := counted.of_keeps kept
  have refuses' := kept.refuses.mpr refuses
  obtain ⟨c, rfl⟩ := like
  obtain ⟨named, r, rfl⟩ := akin
  exact ⟨rfl, named, ⟨counted'.level, counted'.calm⟩, refuses'⟩

theorem Beside.enter (name : Text) (w : Word) (f : Focus) :
    Beside name f ((renew name w f).onTask Machine.enterAtomic) where
  sight := rfl
  named := rfl
  counted := (counted_renew name w f).enterAtomic
  refuses := Task.refuses_enterAtomic (counted_renew name w f).calm

section Steps

variable (portable : d.Portable d' { token := w.token }) (le : n + d.totalLength < n')
  (beside : Beside name f g)

include portable le beside

theorem runAlone_matched :
    (runAlone (invoke d strict n) name w f).Matched (Beside name)
      (invokeFor (invoke d' strict n') { token := w.token } g) := by
  -- The new task is first steered as the one in the body, and then gets its second stack and status.
  obtain ⟨e, like, akin, counted, refuses⟩ := beside.steered w
  have tracks := invoke_tracks (d := d) (fun _ => Or.inl rfl) strict le
  have steered := invokeFor_matched tracks (i := { token := w.token }) like (counted_renew name w f)
    counted fun _ => Or.inl ⟨refuses_renew name w f, refuses⟩
  have kept := invokeFor_kept (invoke_keeps d strict n') { token := w.token } (Int.le_refl _) refuses
  have inBody := (invokeFor_akin (invoke_akin strict name n' portable) akin).matched
  refine ((steered.and_right kept).trans inBody).mono ?_
  rintro f' g' ⟨e', ⟨like, kept⟩, akin⟩
  exact .of_run counted refuses kept like akin

theorem matched_runAlone :
    (invokeFor (invoke d' strict n) { token := w.token } g).Matched (fun g f => Beside name f g)
      (runAlone (invoke d strict n') name w f) := by
  obtain ⟨e, like, akin, counted, refuses⟩ := beside.steered w
  have tracks := invoke_tracks (d := d) (fun _ => Or.inl rfl) strict le
  have steered := invokeFor_matched tracks (i := { token := w.token }) like.symm counted
    (counted_renew name w f) fun _ => Or.inl ⟨refuses, refuses_renew name w f⟩
  have kept := invokeFor_kept (invoke_keeps d strict n) { token := w.token } (Int.le_refl _) refuses
  have inBody := (invokeFor_akin (invoke_akin strict name n portable) akin).symm.matched
  refine ((inBody.and_right kept).trans steered).mono ?_
  rintro g' f' ⟨e', ⟨akin, kept⟩, like⟩
  exact .of_run counted refuses kept like.symm akin

end Steps

theorem runAlone_unhalted (portable : d.Portable d' { token := w.token }) (f : Focus) :
    (runAlone (invoke d strict n) name w f).HaltsBy fun _ => False := by
  have step := invokeFor_akin (invoke_akin strict name n portable) (.refl (f := renew name w f) rfl)
  exact step.halts

section Bodies

variable (strict) {ws : List Word} (portable : ∀ w ∈ ws, d.Portable d' { token := w.token })

include portable

theorem forM_runAlone_matched (le : n + d.totalLength < n') (beside : Beside name f g) :
    (forM ws (runAlone (invoke d strict n) name) f).Matched (Beside name)
      (invokeEach (invoke d' strict n') (ws.map fun w => { token := w.token }) g) := by
  rw [invokeEach_eq_forM, List.forM_map]
  refine .forM (fun w member f g beside => ?_) beside
  exact runAlone_matched (portable w member) le beside

theorem invokeEach_matched_forM (le : n + d.totalLength < n') (beside : Beside name f g) :
    (invokeEach (invoke d' strict n) (ws.map fun w => { token := w.token }) g).Matched
      (fun g f => Beside name f g) (forM ws (runAlone (invoke d strict n') name) f) := by
  rw [invokeEach_eq_forM, List.forM_map]
  refine .forM (fun w member g f beside => ?_) beside
  exact matched_runAlone (portable w member) le beside

theorem invokeEach_unhalted (f : Focus) :
    (invokeEach (invoke d' strict n) (ws.map fun w => { token := w.token }) f).HaltsBy
      fun _ => False := by
  rw [invokeEach_eq_forM, List.forM_map]
  refine .forM fun w member f => ?_
  have step := invokeFor_akin (invoke_akin strict f.task.name n (portable w member)) (.refl rfl)
  exact step.symm.halts

end Bodies

theorem invokeFor_atomic (found : d.findToken? w.token = some w) (atomic : w.kind = .atomic)
    (unhalted : (invokeEach (invoke d strict n) w.body (f.onTask Machine.enterAtomic)).HaltsBy
      fun _ => False) :
    (invokeEach (invoke d strict n) w.body (f.onTask Machine.enterAtomic)).InStep (fun _ => False)
      (fun g h => g.sight = h.sight)
      (invokeFor (invoke d strict (n + 1)) { token := w.token } f) := by
  rw [invokeFor, Action.bind_apply, invoke, found]
  simp only [executeWith, atomic, runStraight, Action.catchFault, Action.bind_apply, Action.modify,
    Action.ensuring]
  cases run : invokeEach (invoke d strict n) w.body (f.onTask Machine.enterAtomic) with
  | ok a g => rfl
  | halt why g =>
    rw [run] at unhalted
    exact unhalted.elim
  | exhausted => trivial

section Whole

variable (strict) (name) {ws : List Word} {whole : Word}
  (portable : ∀ w ∈ ws, d.Portable d' { token := w.token })
  (found : d'.findToken? whole.token = some whole) (atomic : whole.kind = .atomic)
  (body : whole.body = ws.map fun w => { token := w.token })

include portable found atomic body

theorem runAlone_whole :
    (invokeEach (invoke d' strict n) (ws.map fun w => { token := w.token })
      ((renew name whole f).onTask Machine.enterAtomic)).InStep (fun _ => False)
        (fun g h => g.sight = h.sight) (runAlone (invoke d' strict (n + 1)) name whole f) := by
  rw [← body]
  refine invokeFor_atomic found atomic ?_
  rw [body]
  exact invokeEach_unhalted strict portable _

theorem runAlone_whole_unhalted (n : Nat) (f : Focus) :
    (runAlone (invoke d' strict n) name whole f).HaltsBy fun _ => False := by
  cases n with
  | zero => trivial
  | succ n => exact (runAlone_whole strict name portable found atomic body).symm.halts

theorem runAlone_whole_of_each (le : n + d.totalLength + 1 < n') (f : Focus) :
    (forM ws (runAlone (invoke d strict n) name) f).Matched (fun f g => f.sight = g.sight)
      (runAlone (invoke d' strict n') name whole f) := by
  obtain ⟨n', rfl⟩ := Nat.exists_eq_add_of_le' (Nat.one_le_of_lt le)
  have enough : n + d.totalLength < n' := Nat.lt_of_succ_lt_succ le
  have each := forM_runAlone_matched strict portable enough (.enter name whole f)
  refine (each.trans (runAlone_whole strict name portable found atomic body).matched).mono ?_
  rintro f' g' ⟨g, beside, same⟩
  exact beside.sight.trans same

theorem each_of_runAlone_whole (le : n + d.totalLength < n') (f : Focus) :
    (runAlone (invoke d' strict n) name whole f).Matched (fun g f => f.sight = g.sight)
      (forM ws (runAlone (invoke d strict n') name) f) := by
  cases n with
  | zero => trivial
  | succ n =>
    have enough : n + d.totalLength < n' := by omega
    have each := invokeEach_matched_forM strict portable enough (.enter name whole f)
    refine ((runAlone_whole strict name portable found atomic body).symm.matched.trans each).mono ?_
    rintro g' f' ⟨g, same, beside⟩
    exact beside.sight.trans same

end Whole

end Focus

end ThreadedCode
