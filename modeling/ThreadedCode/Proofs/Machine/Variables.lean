import ThreadedCode.Machine.Interpreter

/-!
Reading after writing. A variable is local to a task or global, and reading and writing decide anew
each time which of the two a name means. The decisions agree: what a task has written it reads, of
two writes the later one counts, and another task reads what was written only where both of them mean
the global variable. A write that fails has taken nothing.
-/

namespace ThreadedCode

namespace Task

variable {t : Task} {globals : Variables} {name : Text} {v : Value}

def writesGlobal (t : Task) (globals : Variables) (name : Text) : Bool :=
  !t.locals.contains name && globals.contains name

theorem writesGlobal_iff :
    t.writesGlobal globals name = true ↔
      t.locals.contains name = false ∧ globals.contains name = true := by
  simp [writesGlobal]

theorem assign_eq (t : Task) (globals : Variables) (name : Text) (v : Value) :
    t.assign globals name v =
      if t.writesGlobal globals name then (t, globals.insert name v)
      else ({ t with locals := t.locals.insert name v }, globals) := by
  unfold assign writesGlobal
  cases t.locals.contains name <;> cases globals.contains name <;> rfl

theorem valueOf?_eq (t : Task) (globals : Variables) (key : Text) :
    t.valueOf? globals key = (t.locals.get? key).or (globals.get? key) := by
  unfold valueOf?
  cases t.locals.get? key <;> rfl

theorem valueOf?_of_other (t u : Task) (globals : Variables) (name key : Text) (v : Value) :
    u.valueOf? (t.assign globals name v).2 key =
      if key = name ∧ t.writesGlobal globals name ∧ u.locals.contains name = false then some v
      else u.valueOf? globals key := by
  rw [assign_eq, valueOf?_eq, valueOf?_eq]
  by_cases global : t.writesGlobal globals name
  · rw [if_pos global, Table.get?_insert]
    by_cases same : key = name
    · subst same
      cases own : u.locals.get? key <;> simp [global, Table.contains, own]
    · simp [same]
  · simp [global]

theorem valueOf?_of_assign (t : Task) (globals : Variables) (name key : Text) (v : Value) :
    (t.assign globals name v).1.valueOf? (t.assign globals name v).2 key =
      if key = name then some v else t.valueOf? globals key := by
  by_cases global : t.writesGlobal globals name
  · have free := (writesGlobal_iff.mp global).1
    have same : (t.assign globals name v).1 = t := by rw [assign_eq, if_pos global]
    rw [same, valueOf?_of_other]
    simp only [global, free, and_true]
  · rw [assign_eq, if_neg global, valueOf?_eq, valueOf?_eq, Table.get?_insert]
    by_cases same : key = name <;> simp [same]

theorem assign_assign (t : Task) (globals : Variables) (name : Text) (v w : Value)
    (stack : List Value) :
    { (t.assign globals name v).1 with stack }.assign (t.assign globals name v).2 name w =
      { t with stack }.assign globals name w := by
  by_cases global : t.writesGlobal globals name
  · obtain ⟨free, shared⟩ := writesGlobal_iff.mp global
    have still : { t with stack }.writesGlobal (globals.insert name v) name :=
      writesGlobal_iff.mpr ⟨free, by simp [Table.contains, Table.get?_insert]⟩
    have first : { t with stack }.writesGlobal globals name := global
    rw [assign_eq t, if_pos global, assign_eq, assign_eq, if_pos still, if_pos first,
      Table.insert_insert]
  · have still : ¬ { t with stack, locals := t.locals.insert name v }.writesGlobal globals name := by
      rw [writesGlobal_iff]
      simp [Table.contains, Table.get?_insert]
    have first : ¬ { t with stack }.writesGlobal globals name := global
    rw [assign_eq t, if_neg global, assign_eq, assign_eq, if_neg still, if_neg first,
      Table.insert_insert]

end Task

namespace Effect

variable {t : Task} {globals : Variables}

theorem store_eq (t : Task) (globals : Variables) (name : Text) (v : Value) (rest : List Value) :
    store { t with stack := .text name :: v :: rest } globals =
      let written := { t with stack := rest }.assign globals name v
      { task := written.1, globals := written.2, result := .ok v } := rfl

theorem store_of_lacking
    (lacking : ∀ name v rest, t.stack ≠ .text name :: v :: rest) :
    ∃ fault, store t globals = { task := t, globals, result := .error fault } := by
  unfold store
  split
  next => exact ⟨_, rfl⟩
  next top below stack =>
    cases top with
    | text name =>
      cases below with
      | nil => exact ⟨_, rfl⟩
      | cons v rest => exact absurd stack (lacking name v rest)
    | int | flag | null => exact ⟨_, rfl⟩

theorem fetch_eq {name : Text} {below : List Value} (stack : t.stack = .text name :: below) :
    fetch t globals =
      match t.valueOf? globals name with
      | some v => { task := { t with stack := v :: below }, globals, result := .ok v }
      | none =>
        { task := { t with stack := below }, globals
          result := .error (.undefinedVariable name) } := by
  have seen : { t with stack := below }.valueOf? globals name = t.valueOf? globals name := rfl
  simp only [fetch, Task.pop, stack, Value.asName, seen]
  cases t.valueOf? globals name <;> rfl

end Effect

namespace Machine

def engaged (m : Machine) (id : TaskId) (t : Task) (globals : Variables) : Machine :=
  { m with active := some id, tasks := m.tasks.insert id t, globals }

def handing (m : Machine) (id : TaskId) (stack : List Value) : Machine :=
  { m with active := some id }.updateTask id fun t => { t with stack }

def told (id : TaskId) : Outcome Machine Value → Option (Except Halt Value × Option (List Value))
  | .ok v m => some (.ok v, (m.task? id).map (·.stack))
  | .halt why m => some (.error why, (m.task? id).map (·.stack))
  | .exhausted => none

def answer (name : Text) (below : List Value) :
    Option Value → Option (Except Halt Value × Option (List Value))
  | some v => some (.ok v, some (v :: below))
  | none => some (.error (.fault (.undefinedVariable name)), some below)

/-- What a task is told that looks up a name, with a stack below the name. -/
def toldBy (m : Machine) (id : TaskId) (arg : Operand) (name : Text) (below : List Value) :
    Option (Except Halt Value × Option (List Value)) :=
  told id (runBuiltin .fetch arg (m.handing id (.text name :: below)))

section Engaged

variable {m : Machine} {id : TaskId} {t : Task} {globals : Variables}

theorem engaged_task? (r : TaskId) :
    (m.engaged id t globals).task? r = if r = id then some t else m.task? r :=
  Table.get?_insert ..

theorem engaged_activeTask? : (m.engaged id t globals).activeTask? = some (id, t) := by
  have active : (m.engaged id t globals).active = some id := rfl
  rw [activeTask?, active, Option.bind_some, engaged_task?, if_pos rfl]
  rfl

theorem handing_eq (known : m.task? id = some t) (stack : List Value) :
    m.handing id stack = m.engaged id { t with stack } m.globals := by
  have known : { m with active := some id }.task? id = some t := known
  rw [handing, updateTask, known]
  rfl

theorem engaged_engaged (u : Task) (globals' : Variables) :
    (m.engaged id t globals).engaged id u globals' = m.engaged id u globals' := by
  simp [engaged]

theorem write_nil (m : Machine) : write [] m = .ok () m := by
  have taken : m.strict.refusal? [] = none := m.strict.refusal?_ascii fun c member => by cases member
  have same : { m with output := m.output ++ [] } = m := by rw [List.append_nil]
  rw [write, taken, same]

theorem runBuiltin_engaged {b : Builtin} {arg : Operand}
    (silent : (b.effect arg t globals).output = []) :
    runBuiltin b arg (m.engaged id t globals) =
      Action.ofExcept (b.effect arg t globals).result
        (m.engaged id (b.effect arg t globals).task (b.effect arg t globals).globals) := by
  have shared : (m.engaged id t globals).globals = globals := rfl
  simp only [runBuiltin, Action.get, Action.modify, Action.bind_apply, engaged_activeTask?, shared,
    silent, write_nil]
  simp [setTask, engaged]

theorem toldBy_eq (known : m.task? id = some t) (arg : Operand) (name : Text) (below : List Value) :
    m.toldBy id arg name below = answer name below (t.valueOf? m.globals name) := by
  have effect : Builtin.effect .fetch arg { t with stack := .text name :: below } m.globals =
      Effect.fetch { t with stack := .text name :: below } m.globals := rfl
  have seen : { t with stack := .text name :: below }.valueOf? m.globals name =
      t.valueOf? m.globals name := rfl
  rw [toldBy, handing_eq known, runBuiltin_engaged] <;> rw [effect, Effect.fetch_eq rfl, seen]
  · cases t.valueOf? m.globals name <;>
      simp [told, answer, Action.ofExcept, Action.fail, Action.halt, Action.pure_apply, engaged_task?]
  · cases t.valueOf? m.globals name <;> rfl

theorem store_handing (known : m.task? id = some t) (arg : Operand) (name : Text) (v : Value)
    (rest : List Value) :
    let written := { t with stack := rest }.assign m.globals name v
    runBuiltin .store arg (m.handing id (.text name :: v :: rest)) =
      .ok v (m.engaged id written.1 written.2) := by
  intro written
  have effect : Builtin.effect .store arg { t with stack := .text name :: v :: rest } m.globals =
      { task := written.1, globals := written.2, result := .ok v } :=
    Effect.store_eq t m.globals name v rest
  rw [handing_eq known, runBuiltin_engaged] <;> rw [effect]
  rfl

theorem store_engaged (known : m.task? id = some t) (arg : Operand) (name : Text) (v w : Value)
    (rest rest' : List Value) :
    let written := { t with stack := rest }.assign m.globals name v
    runBuiltin .store arg ((m.engaged id written.1 written.2).handing id
        (.text name :: w :: rest')) =
      runBuiltin .store arg (m.handing id (.text name :: w :: rest')) := by
  intro written
  have here : (m.engaged id written.1 written.2).task? id = some written.1 := by
    rw [engaged_task?, if_pos rfl]
  have again : { written.1 with stack := rest' }.assign written.2 name w =
      { t with stack := rest' }.assign m.globals name w :=
    Task.assign_assign { t with stack := rest } m.globals name v w rest'
  have shared : (m.engaged id written.1 written.2).globals = written.2 := rfl
  rw [store_handing here, store_handing known, shared, again, engaged_engaged]

theorem store_handing_of_lacking (known : m.task? id = some t) (arg : Operand)
    {stack : List Value} (lacking : ∀ name v rest, stack ≠ .text name :: v :: rest) :
    ∃ fault, runBuiltin .store arg (m.handing id stack) =
      .halt (.fault fault) (m.handing id stack) := by
  obtain ⟨fault, effect⟩ : ∃ fault, Builtin.effect .store arg { t with stack } m.globals =
      { task := { t with stack }, globals := m.globals, result := .error fault } :=
    Effect.store_of_lacking lacking
  refine ⟨fault, ?_⟩
  rw [handing_eq known, runBuiltin_engaged] <;> rw [effect]
  rfl

end Engaged

/-- What a task leaves that has written a variable, and what the tasks are told from then on: it
itself the new value under that name, another task the new value only if the name is a global variable
for both of them, and everyone under every other name what they were told before. -/
structure Stored (m : Machine) (id : TaskId) (t : Task) (name : Text) (v : Value)
    (rest : List Value) (m' : Machine) : Prop where
  frame : m' = { m with active := some id, tasks := m'.tasks, globals := m'.globals }
  task : m'.task? id = some { t with
    stack := rest
    locals := if t.writesGlobal m.globals name then t.locals else t.locals.insert name v }
  globals : m'.globals =
    if t.writesGlobal m.globals name then m.globals.insert name v else m.globals
  others : ∀ r ≠ id, m'.task? r = m.task? r
  told : ∀ arg key below, m'.toldBy id arg key below =
    if key = name then some (.ok v, some (v :: below)) else m.toldBy id arg key below
  toldOthers : ∀ r ≠ id, ∀ u, m.task? r = some u → ∀ arg key below, m'.toldBy r arg key below =
    if key = name ∧ t.writesGlobal m.globals name ∧ u.locals.contains name = false then
      some (.ok v, some (v :: below))
    else m.toldBy r arg key below

theorem stored_of_known {m : Machine} {id : TaskId} {t : Task} (known : m.task? id = some t)
    (name : Text) (v : Value) (rest : List Value) :
    let written := { t with stack := rest }.assign m.globals name v
    Stored m id t name v rest (m.engaged id written.1 written.2) := by
  intro written
  have split : written = if t.writesGlobal m.globals name then
      ({ t with stack := rest }, m.globals.insert name v)
    else ({ t with stack := rest, locals := t.locals.insert name v }, m.globals) :=
    Task.assign_eq { t with stack := rest } m.globals name v
  have shared : (m.engaged id written.1 written.2).globals = written.2 := rfl
  have here : (m.engaged id written.1 written.2).task? id = some written.1 := by
    rw [engaged_task?, if_pos rfl]
  have there : ∀ r ≠ id, (m.engaged id written.1 written.2).task? r = m.task? r := fun r other => by
    rw [engaged_task?, if_neg other]
  refine ⟨rfl, ?_, ?_, there, fun arg key below => ?_, fun r other u known' arg key below => ?_⟩
  · rw [here, split]
    by_cases global : t.writesGlobal m.globals name <;> simp [global]
  · rw [shared, split]
    by_cases global : t.writesGlobal m.globals name <;> simp [global]
  · have seen : written.1.valueOf? written.2 key =
        if key = name then some v else t.valueOf? m.globals key :=
      Task.valueOf?_of_assign { t with stack := rest } m.globals name key v
    rw [toldBy_eq here, toldBy_eq known, shared, seen]
    by_cases same : key = name
    · rw [if_pos same, if_pos same]
      rfl
    · rw [if_neg same, if_neg same]
  · have seen : u.valueOf? written.2 key =
        if key = name ∧ t.writesGlobal m.globals name ∧ u.locals.contains name = false then some v
        else u.valueOf? m.globals key :=
      Task.valueOf?_of_other { t with stack := rest } u m.globals name key v
    rw [toldBy_eq ((there r other).trans known'), toldBy_eq known', shared, seen]
    by_cases both : key = name ∧ t.writesGlobal m.globals name ∧ u.locals.contains name = false
    · rw [if_pos both, if_pos both]
      rfl
    · rw [if_neg both, if_neg both]

/-- What is written is read. A task has a name on its data stack and a value below it: then a write
takes these two and no more, and succeeds. The value goes to the task's own variable of that name if
there is one, else to the global one if there is one, else to a new one of the task. From then on the
task reads this value under the name; another task reads it if the name was global and not the
writer's own, and is not its own either; in all other cases a task reads what it would have read
before, or fails as it would have. After a write under the same name has been written over, nothing
is left of it. Without a name and a value the write fails and the machine is as before. -/
theorem store_then_fetch {m : Machine} {id : TaskId} {t : Task} (known : m.task? id = some t)
    (arg : Operand) :
    (∀ name v rest, ∃ m', runBuiltin .store arg (m.handing id (.text name :: v :: rest)) = .ok v m' ∧
      Stored m id t name v rest m' ∧
      ∀ w rest', runBuiltin .store arg (m'.handing id (.text name :: w :: rest')) =
        runBuiltin .store arg (m.handing id (.text name :: w :: rest'))) ∧
    ∀ stack, (∀ name v rest, stack ≠ .text name :: v :: rest) →
      ∃ fault, runBuiltin .store arg (m.handing id stack) =
        .halt (.fault fault) (m.handing id stack) := by
  refine ⟨fun name v rest => ?_, fun stack => store_handing_of_lacking known arg⟩
  exact ⟨_, store_handing known arg name v rest, stored_of_known known name v rest,
    fun w rest' => store_engaged known arg name v w rest rest'⟩

theorem store_then_fetch_shared :
    let word := Word.ofBuiltin ":=" 4 .store
    let t : Task := { name := "writer", entry := word }
    let u : Task := { name := "reader", entry := word, locals := ⟨[("y", .int 5)]⟩ }
    let m : Machine :=
      { tasks := ⟨[(0, t), (1, u)]⟩, nextTask := 2, globals := ⟨[("x", .int 2), ("y", .int 3)]⟩ }
    m.task? 0 = some t ∧
      (∃ m', runBuiltin .store .absent (m.handing 0 [.text "x", .int 7, .null]) = .ok (.int 7) m' ∧
        Stored m 0 t "x" (.int 7) [.null] m' ∧
        m'.toldBy 1 .absent "x" [] = some (.ok (.int 7), some [.int 7])) ∧
      (∃ m', runBuiltin .store .absent (m.handing 0 [.text "y", .int 7]) = .ok (.int 7) m' ∧
        m'.toldBy 1 .absent "y" [] = some (.ok (.int 5), some [.int 5])) ∧
      ∃ fault, runBuiltin .store .absent (m.handing 0 [.text "x"]) =
        .halt (.fault fault) (m.handing 0 [.text "x"]) := by
  intro word t u m
  have known : m.task? 0 = some t := rfl
  have reader : m.task? 1 = some u := rfl
  have laws := store_then_fetch known .absent
  obtain ⟨first, stored, written, -⟩ := laws.1 "x" (.int 7) [.null]
  obtain ⟨second, stored', written', -⟩ := laws.1 "y" (.int 7) []
  refine ⟨known, ⟨first, stored, written, ?_⟩, ⟨second, stored', ?_⟩, laws.2 _ ?_⟩
  · exact written.toldOthers 1 (by decide) u reader .absent "x" []
  · exact written'.toldOthers 1 (by decide) u reader .absent "y" []
  · intro name v rest same
    cases same

end Machine

end ThreadedCode
