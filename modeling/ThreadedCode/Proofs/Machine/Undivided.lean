import ThreadedCode.Proofs.Dictionary.Stepwise
import ThreadedCode.Proofs.Machine.Lifting

/-!
The operations that a machine has beside running: definitions, vocabularies, look-ups and new tasks.
Each does all that it is for or, with a fault, nothing at all.
-/

namespace ThreadedCode

theorem Action.halt_of_bind_pure {σ α β : Type} {x : Action σ α} {b : β} {s s' : σ} {why : Halt}
    (halted : (x >>= fun _ => pure b) s = .halt why s') : x s = .halt why s' := by
  rw [bind_apply] at halted
  cases run : x s <;> rw [run] at halted <;> cases halted
  rfl

namespace Machine

/-- An operation on the dictionary; what it has written before a fault stays written. -/
def onDictionary {α : Type} (x : Action Dictionary α) : Action Machine α :=
  x.within dictionary fun m d => { m with built := some d }

theorem onDictionary_atOnce {α : Type} (f : Dictionary → Except Fault (α × Dictionary)) :
    onDictionary (Action.atOnce f) = changeDictionary f := by
  funext m
  simp only [onDictionary, Action.within, Action.atOnce, changeDictionary, Action.bind_apply,
    useDictionary]
  cases f m.dictionary <;> rfl

inductive Operation where
  | define (name : Text) (items : List (Text × Operand)) (composite : Option Bool)
  | addVocabulary (name : Text)
  | searchIn (name : Text)
  | defineIn (name : Text)
  | use (name : Text)
  | find (name : Text)
  | spawn (name entry : Text)

namespace Operation

def perform : Operation → Action Machine Unit
  | define name items composite => do
    let _ ← Machine.define name items composite
    pure ()
  | addVocabulary name => changeDictionary (Dictionary.changing (·.addVocabulary name))
  | searchIn name => changeDictionary (Dictionary.changing (·.searchIn name))
  | defineIn name => changeDictionary (Dictionary.changing (·.defineIn name))
  | use name => changeDictionary (Dictionary.changing (·.use name))
  | find name => do
    let d ← useDictionary
    let _ ← Action.ofExcept (d.find name)
    pure ()
  | spawn name entry => do
    let _ ← spawnNamed name entry
    pure ()

def stepwise : Operation → Action Machine Unit
  | define name items composite => do
    let _ ← onDictionary (Dictionary.Stepwise.compile name items composite)
    pure ()
  | addVocabulary name => onDictionary (Dictionary.Stepwise.addVocabulary name)
  | searchIn name => onDictionary (Dictionary.Stepwise.searchIn name)
  | defineIn name => onDictionary (Dictionary.Stepwise.defineIn name)
  | use name => onDictionary (Dictionary.Stepwise.use name)
  | find name => do
    let _ ← onDictionary (Dictionary.Stepwise.find name)
    pure ()
  | spawn name entry => do
    let w ← onDictionary (Dictionary.Stepwise.find entry)
    let m ← Action.get
    Action.modify fun m => { m with
      tasks := m.tasks.insert m.nextTask { name, entry := w }
      nextTask := m.nextTask + 1 }
    Action.modify fun now => { now with registry := now.registry.insert name m.nextTask }

theorem stepwise_eq (o : Operation) : o.stepwise = o.perform := by
  cases o with
  | define name items composite =>
    rw [stepwise, Dictionary.Stepwise.compile_eq, onDictionary_atOnce]
    rfl
  | addVocabulary name =>
    rw [stepwise, Dictionary.Stepwise.addVocabulary_eq, onDictionary_atOnce, perform]
  | searchIn name =>
    rw [stepwise, Dictionary.Stepwise.searchIn_eq, onDictionary_atOnce, perform]
  | defineIn name =>
    rw [stepwise, Dictionary.Stepwise.defineIn_eq, onDictionary_atOnce, perform]
  | use name => rw [stepwise, Dictionary.Stepwise.use_eq, onDictionary_atOnce, perform]
  | find name =>
    rw [stepwise, Dictionary.Stepwise.find_eq, onDictionary_atOnce]
    funext m
    simp only [perform, changeDictionary, Action.bind_apply, useDictionary]
    cases m.dictionary.find name <;> rfl
  | spawn name entry =>
    rw [stepwise, Dictionary.Stepwise.find_eq, onDictionary_atOnce]
    funext m
    simp only [perform, spawnNamed, changeDictionary, Action.bind_apply, useDictionary]
    cases m.dictionary.find entry <;> rfl

theorem changeDictionary_halt {α : Type} {f : Dictionary → Except Fault (α × Dictionary)}
    {m m' : Machine} {why : Halt} (halted : changeDictionary f m = .halt why m') :
    m' = m.ready := by
  simp only [changeDictionary, Action.bind_apply, useDictionary] at halted
  cases changed : f m.dictionary with
  | error fault =>
    rw [changed] at halted
    cases halted
    rfl
  | ok result =>
    rw [changed] at halted
    cases halted

theorem perform_halt {o : Operation} {m m' : Machine} {why : Halt}
    (halted : o.perform m = .halt why m') : m' = m.ready := by
  cases o with
  | define name items composite =>
    exact changeDictionary_halt (Action.halt_of_bind_pure halted)
  | addVocabulary name | searchIn name | defineIn name | use name =>
    exact changeDictionary_halt halted
  | find name =>
    simp only [perform, Action.bind_apply, useDictionary] at halted
    cases found : m.dictionary.find name <;> rw [found] at halted <;> cases halted
    rfl
  | spawn name entry =>
    simp only [perform, spawnNamed, Action.bind_apply, useDictionary] at halted
    cases found : m.dictionary.find entry <;> rw [found] at halted <;> cases halted
    rfl

end Operation

theorem ready_of_built {m : Machine} {d : Dictionary} (built : m.built = some d) :
    m.ready = m := by
  rw [ready, dictionary, built, Option.getD_some, ← built]

theorem define_error {m : Machine} {d : Dictionary} {name : Text} {items : List (Text × Operand)}
    {composite : Option Bool} {fault : Fault} (built : m.built = some d)
    (failed : d.compile name items composite = .error fault) :
    define name items composite m = .halt (.fault fault) m := by
  have same : m.dictionary = d := by rw [dictionary, built, Option.getD_some]
  have still := ready_of_built built
  rw [ready, same] at still
  simp only [define, changeDictionary, Action.bind_apply, useDictionary, same, failed, still]
  rfl

theorem define_ok {m : Machine} {d d' : Dictionary} {name : Text} {items : List (Text × Operand)}
    {composite : Option Bool} {w : Word} (built : m.built = some d)
    (done : d.compile name items composite = .ok (w, d')) :
    define name items composite m = .ok w { m with built := some d' } := by
  have same : m.dictionary = d := by rw [dictionary, built, Option.getD_some]
  simp only [define, changeDictionary, Action.bind_apply, useDictionary, same, done]
  rfl

/-- All or nothing. A definition by names fails at the first name that denotes no word, and then the
machine is as before; or it adds one word, on top of the current vocabulary, whose instructions are
for the words that the names denote before, so that its own name still means an older word. And an
operation that fails leaves the machine as before, which is no matter of writing everything at once:
check by check and write by write it does the same. -/
theorem operations_undivided {m : Machine} {rs : List Dictionary.Request}
    (built : m.built = some (Dictionary.initial.performAll rs)) :
    let d := Dictionary.initial.performAll rs
    (∀ name items composite,
      (∃ unknown, d.FirstUnknown items unknown ∧
          define name items composite m = .halt (.fault (.undefinedWord unknown)) m) ∨
        ∃ w d', define name items composite m = .ok w { m with built := some d' } ∧
          d.Gains d' w ∧ w.name = name ∧ List.Forall₂ d.Binds items w.body ∧
          ∀ i ∈ w.body, i.token ≠ w.token) ∧
      ∀ o : Operation, o.stepwise m = o.perform m ∧
        ∀ why m', o.perform m = .halt why m' → m' = m := by
  intro d
  have ordered : d.Ordered := Dictionary.performAll_induction Dictionary.Layered.initial.ordered
    (fun _ r _ h => h.apply r) rs
  refine ⟨fun name items composite => ?_, fun o => ⟨congrFun o.stepwise_eq m, ?_⟩⟩
  · rcases ordered.compile_cases name items composite with
      ⟨unknown, first, failed⟩ | ⟨w, d', done, gains, named, bound, own⟩
    · exact .inl ⟨unknown, first, define_error built failed⟩
    · exact .inr ⟨w, d', define_ok built done, gains, named, bound, own⟩
  · intro why m' halted
    rw [Operation.perform_halt halted, ready_of_built built]

theorem operations_undivided_redefined :
    let rs : List Dictionary.Request :=
      [.addVocabulary "app", .use "app", .definePrimitive "cr" (.foreign "bell") [],
        .setNextToken 3]
    let d := Dictionary.initial.performAll rs
    let m : Machine := { built := some d, nextTask := 1, registry := ⟨[("main", 0)]⟩ }
    m.built = some d ∧
      (∃ w d', define "cr" [("cr", .absent)] none m = .ok w { m with built := some d' } ∧
        w.body = [{ token := 9 }] ∧ w.token ≠ 9) ∧
      define "x" [("cr", .absent), ("y", .absent), ("z", .absent)] none m =
        .halt (.fault (.undefinedWord "y")) m ∧
      (∃ m', (Operation.use "lib").perform m = .halt (.fault (.unknownVocabulary "lib")) m' ∧
        m' = m) ∧
      ∃ m', (Operation.spawn "main" "y").perform m = .halt (.fault (.undefinedWord "y")) m' ∧
        m' = m := by
  intro rs d m
  have built : m.built = some d := rfl
  have denoted : (d.find? "cr").map (Option.map (·.token)) = .ok (some 9) := by decide +kernel
  have failed : d.compile "x" [("cr", .absent), ("y", .absent), ("z", .absent)] none =
      .error (.undefinedWord "y") := by decide +kernel
  have unused : (Operation.use "lib").perform m =
      .halt (.fault (.unknownVocabulary "lib")) m := by decide +kernel
  have unspawned : (Operation.spawn "main" "y").perform m =
      .halt (.fault (.undefinedWord "y")) m := by decide +kernel
  obtain ⟨defines, changes⟩ := operations_undivided built
  clear_value m
  refine ⟨built, ?_, define_error built failed, ⟨m, unused, (changes _).2 _ m unused⟩,
    ⟨m, unspawned, (changes _).2 _ m unspawned⟩⟩
  rcases defines "cr" [("cr", .absent)] none with
    ⟨unknown, ⟨known, arg, rest, split, none, -⟩, -⟩ | ⟨w, d', done, -, -, bound, own⟩
  · have member : (unknown, arg) ∈ [(("cr" : Text), Operand.absent)] := by rw [split]; simp
    cases List.mem_singleton.mp member
    rw [none] at denoted
    cases denoted
  · obtain ⟨i, rest, ⟨u, found, rfl⟩, tail, body⟩ := List.forall₂_cons_left_iff.mp bound
    rw [found] at denoted
    have token : u.token = 9 := by simpa [Except.map] using denoted
    rw [List.forall₂_nil_left_iff.mp tail, token] at body
    rw [body] at own
    exact ⟨w, d', done, body, fun same => own _ (List.mem_singleton_self _) same.symm⟩

end Machine

end ThreadedCode
