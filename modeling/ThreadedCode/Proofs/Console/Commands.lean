import ThreadedCode.Proofs.Console.Sturdy

/-!
How each command of a console ends. Faults of the dictionary are reported in a line, and so are
files that cannot be opened. What gets through is the wish to quit, and the failure to read a file
that is there or to name one.
-/

namespace ThreadedCode

namespace ShellWords

theorem inWord_ne_between (taken : Text) (c : CodePoint) : inWord taken c ≠ .between := by
  unfold inWord
  split
  · simp
  · split <;> simp

theorem splitFrom_eq_nil {state : State} {t : Text} (none : splitFrom state t = .ok []) :
    state = .between ∧ ∀ c ∈ t, isBlank c = true := by
  fun_induction splitFrom state t with
  | case1 => exact ⟨rfl, by simp⟩
  | case2 | case3 | case4 | case5 => cases none
  | case6 c rest blank ih => exact ⟨rfl, List.forall_mem_cons.mpr ⟨blank, (ih none).2⟩⟩
  | case7 c rest dark ih => exact absurd (ih none).1 (inWord_ne_between _ _)
  | case8 taken c rest blank ih =>
    cases more : splitFrom .between rest <;> rw [more] at none <;> cases none
  | case9 taken c rest dark ih => exact absurd (ih none).1 (inWord_ne_between _ _)
  | case10 _ _ _ ih | case11 _ _ _ _ _ _ ih | case12 _ _ _ _ _ _ ih | case13 _ _ _ ih
  | case14 _ _ _ _ ih => cases (ih none).1

theorem isBlank_of_isBlank {c : CodePoint} (blank : isBlank c = true) :
    CodePoint.isBlank c = true := by
  simp only [isBlank, Bool.or_eq_true, decide_eq_true_eq] at blank
  rcases blank with ((rfl | rfl) | rfl) | rfl <;> decide

theorem split_ne_nil {line : Text} (named : Command.isCommandLine line) : split line ≠ .ok [] := by
  intro none
  have blank : line.trimLeft = [] := List.dropWhile_eq_nil_iff.mpr fun c member =>
    isBlank_of_isBlank ((splitFrom_eq_nil none).2 c member)
  rw [Command.isCommandLine, Text.firstWord?, blank] at named
  cases named

end ShellWords

def Halt.escapes : Halt → Bool
  | fault reason => !reason.ofDictionary
  | _ => true

/-- A command that halts for this reason, or for none but a fault of the dictionary. -/
abbrev Outcome.Escapes {σ α : Type} (fate : Option Halt) (P : σ → Prop) (o : Outcome σ α) : Prop :=
  o.Ends (fun why => why.filter Halt.escapes = fate) P

namespace Outcome

variable {σ α : Type} {kind next : Option Halt → Prop} {P : σ → Prop} {x : Action σ α} {s : σ}

theorem Succeeds.escapes {o : Outcome σ α} (h : o.Succeeds P) : o.Escapes none P :=
  Ends.mono h fun why none => by rw [none]; rfl

theorem Ends.catchFault {handler : Fault → Action σ α} (h : (x s).Ends kind P)
    (passed : ∀ why, kind why → (∀ fault, why ≠ some (.fault fault)) → next why)
    (handled : ∀ fault s, kind (some (.fault fault)) → P s → (handler fault s).Ends next P) :
    ((x.catchFault handler) s).Ends next P := by
  rw [Action.catchFault]
  cases hx : x s with
  | ok a s =>
    rw [hx] at h
    exact ⟨passed none h.1 (by simp), h.2⟩
  | halt why s =>
    rw [hx] at h
    cases why with
    | fault fault => exact handled fault s h.1 h.2
    | malformed word => exact ⟨passed _ h.1 (by simp), h.2⟩
    | quit => exact ⟨passed _ h.1 (by simp), h.2⟩
  | exhausted =>
    rw [hx] at h
    exact h

theorem Escapes.reported {x : Action σ Unit} {fate : Option Halt} {report : Fault → Action σ Unit}
    (h : (x s).Escapes fate P) (reports : ∀ fault s, P s → (report fault s).Succeeds P) :
    ((x.catchFault fun fault =>
      if fault.ofDictionary then report fault else Action.fail fault) s).EndsBy fate P := by
  refine Ends.catchFault h (fun why ended free => ?_) fun fault s ended kept => ?_
  -- of the ends that are no faults nothing is left out
  · cases why with
    | none => exact ended
    | some halt =>
      cases halt with
      | fault fault => exact absurd rfl (free fault)
      | malformed word => exact ended
      | quit => exact ended
  · rw [Option.filter_some, Halt.escapes] at ended
    by_cases known : fault.ofDictionary = true
    · rw [if_pos known]
      rw [known] at ended
      exact Ends.mono (reports fault s kept) fun why none => none.trans ended
    · rw [if_neg known]
      rw [Bool.not_eq_true] at known
      rw [known] at ended
      exact ⟨ended, kept⟩

end Outcome

theorem Action.ofExcept_succeeds {σ α : Type} {P : σ → Prop} {r : Except Fault α} {s : σ}
    (ok : ∃ a, r = .ok a) (h : P s) : (Action.ofExcept r s).Succeeds P := by
  obtain ⟨a, rfl⟩ := ok
  exact ⟨rfl, h⟩

def Fault.ofReading : Fault → Bool
  | unencodable _ | embeddedNull | undecodable _ => true
  | _ => false

/-- Why a file cannot be read, if there is one to open or no way to name it. -/
def Disk.readFailure? (disk : Disk) (path : Text) : Option Fault :=
  match Disk.pathBytes path with
  | .error fault => some fault
  | .ok bytes =>
    match disk bytes with
    | .error _ => none
    | .ok content => (Source.ofBytes content).failure

def Command.fate (disk : Disk) : Command → List Text → Option Halt
  | .bye, _ => some .quit
  | .readFrom, path :: _ => (disk.readFailure? path).map .fault
  | _, _ => none

def Command.lineFate (disk : Disk) (line : Text) : Option Halt :=
  match ShellWords.split line with
  | .ok (name :: args) => (Command.ofName? name).bind fun command => command.fate disk args
  | _ => none

section Reading

variable {disk : Disk} {path : Text} {fault : Fault}

theorem Disk.pathBytes_fault (failed : Disk.pathBytes path = .error fault) :
    fault.ofReading = true := by
  unfold Disk.pathBytes at failed
  split at failed
  · cases failed
    rfl
  · dsimp only at failed
    split at failed <;> cases failed
    rfl

theorem Source.ofChunks_fault {before : Text} {left : Bytes} {cs : List Bytes}
    (failed : (Source.ofChunks before left cs).failure = some fault) : fault.ofReading = true := by
  induction cs generalizing before left with
  | nil =>
    unfold Source.ofChunks at failed
    split at failed <;> cases failed
    rfl
  | cons chunk rest ih =>
    unfold Source.ofChunks at failed
    split at failed
    · exact ih failed
    · cases failed
      rfl

theorem Disk.readFailure?_fault (failed : disk.readFailure? path = some fault) :
    fault.ofReading = true := by
  unfold Disk.readFailure? at failed
  split at failed
  next unnamed =>
    cases failed
    exact pathBytes_fault unnamed
  · split at failed
    · cases failed
    · exact Source.ofChunks_fault failed

theorem Command.lineFate_cases {line : Text} {why : Halt}
    (fate : Command.lineFate disk line = some why) :
    why = .quit ∨ ∃ fault, why = .fault fault ∧ fault.ofReading = true := by
  unfold Command.lineFate at fate
  split at fate
  next name args _ =>
    obtain ⟨command, -, fate⟩ := Option.bind_eq_some_iff.mp fate
    unfold Command.fate at fate
    split at fate
    · cases fate
      exact .inl rfl
    next path rest =>
      obtain ⟨fault, failed, rfl⟩ := Option.map_eq_some_iff.mp fate
      exact .inr ⟨fault, rfl, Disk.readFailure?_fault failed⟩
    · cases fate
  next => cases fate

theorem Fault.ofDictionary_of_ofReading (reading : fault.ofReading = true) :
    fault.ofDictionary = false := by
  cases fault <;> first | rfl | cases reading

theorem Source.ofFile_failure (disk : Disk) (path : Text) :
    (∃ failure, (Source.ofFile disk path).failure = some (.cannotOpen failure path) ∧
        disk.readFailure? path = none) ∨
      (Source.ofFile disk path).failure = disk.readFailure? path := by
  unfold Source.ofFile Disk.read Disk.readFailure?
  cases Disk.pathBytes path with
  | error fault => exact .inr rfl
  | ok bytes =>
    simp only [bind, Except.bind]
    cases disk bytes with
    | error failure => exact .inl ⟨failure, rfl, rfl⟩
    | ok content => exact .inr rfl

end Reading

namespace Dictionary

variable {d : Dictionary} {name : Text} {fault : Fault}

theorem use_fault (failed : d.use name = .error fault) : fault.ofDictionary = true := by
  unfold use searchIn defineIn vocabulary at failed
  cases known : d.vocabularies.get? name with
  | none =>
    rw [known] at failed
    cases failed
    rfl
  | some v =>
    simp only [known, bind, Except.bind] at failed
    cases failed

theorem addVocabulary_fault (failed : d.addVocabulary name = .error fault) :
    fault.ofDictionary = true := by
  unfold addVocabulary currentVocabulary at failed
  cases current : d.current with
  | none =>
    rw [current] at failed
    cases failed
    rfl
  | some n =>
    simp only [current, bind, Except.bind] at failed
    split at failed <;> cases failed
    rfl

end Dictionary

namespace Console

variable {c : Console} {setting : Setting}

section Changes

variable {change : Dictionary → Except Fault Dictionary} {d : Dictionary} {fault : Fault}

theorem changeDictionary_ok (changed : change c.machine.dictionary = .ok d) :
    changeDictionary change c =
      .ok () { c with machine := { c.machine with built := some d } } := by
  simp only [changeDictionary, atMachine, Action.within, Machine.changeDictionary,
    Action.bind_apply, Machine.useDictionary, changed]
  rfl

theorem changeDictionary_error (failed : change c.machine.dictionary = .error fault) :
    changeDictionary change c = .halt (.fault fault) { c with machine := c.machine.ready } := by
  simp only [changeDictionary, atMachine, Action.within, Machine.changeDictionary,
    Action.bind_apply, Machine.useDictionary, failed]
  rfl

theorem Sturdy.withDictionary (h : Sturdy c) (ordered : d.Ordered)
    (words : ∀ w ∈ d.words.values, w ∈ c.machine.dictionary.words.values) :
    Sturdy { c with machine := { c.machine with built := some d } } where
  lenient := h.lenient
  ordered := ordered
  own w member := h.own w (words w member)
  writable := h.writable

theorem halt_escapes (h : Sturdy c) (reported : fault.ofDictionary = true) :
    (Outcome.halt (.fault fault) c : Outcome Console Unit).Escapes none Sturdy :=
  ⟨by simp [Halt.escapes, reported], h⟩

theorem changeDictionary_escapes (h : Sturdy c)
    (reported : ∀ fault, change c.machine.dictionary = .error fault → fault.ofDictionary = true)
    (ordered : ∀ d, change c.machine.dictionary = .ok d → d.Ordered)
    (words : ∀ d, change c.machine.dictionary = .ok d →
      ∀ w ∈ d.words.values, w ∈ c.machine.dictionary.words.values) :
    (changeDictionary change c).Escapes none Sturdy := by
  cases he : change c.machine.dictionary with
  | ok d =>
    rw [changeDictionary_ok he]
    exact ⟨rfl, h.withDictionary (ordered d he) (words d he)⟩
  | error fault =>
    rw [changeDictionary_error he]
    exact halt_escapes h.ready (reported fault he)

theorem useCommand_escapes (h : Sturdy c) (name : Text) :
    (changeDictionary (·.use name) c).Escapes none Sturdy := by
  refine changeDictionary_escapes h (fun _ => Dictionary.use_fault) (fun _ => h.ordered.use) ?_
  intro d used w member
  obtain ⟨-, rfl⟩ := Dictionary.use_eq_ok.mp used
  exact member

theorem forgetCommand_escapes (h : Sturdy c) (name : Text) :
    (changeDictionary (·.forget name) c).Escapes none Sturdy := by
  refine changeDictionary_escapes h (fun fault failed => ?_) (fun _ => h.ordered.forget)
    fun d forgotten w => h.ordered.mem_of_forget forgotten
  obtain ⟨d, forgotten⟩ := h.ordered.forget_ok name
  cases forgotten.symm.trans failed

theorem addVocabularyCommand_escapes (h : Sturdy c) (name : Text) :
    (addVocabularyCommand name c).Escapes none Sturdy := by
  unfold addVocabularyCommand
  cases he : c.machine.dictionary.addVocabulary name with
  | error fault =>
    rw [Action.bind_of_halt (changeDictionary_error he)]
    exact halt_escapes h.ready (Dictionary.addVocabulary_fault he)
  | ok d =>
    have sturdy := h.withDictionary (h.ordered.addVocabulary he) fun w member => by
      obtain ⟨parent, -, -, rfl⟩ := Dictionary.addVocabulary_eq_ok.mp he
      exact member
    have there : ∃ v, d.vocabulary name = .ok v := by
      obtain ⟨parent, -, -, rfl⟩ := Dictionary.addVocabulary_eq_ok.mp he
      exact ⟨_, Dictionary.vocabulary_eq_ok.mpr ((Table.get?_insert ..).trans (if_pos rfl))⟩
    rw [Action.bind_of_eq (changeDictionary_ok he), Action.bind_of_eq (dictionary_eq _)]
    exact (Action.ofExcept_succeeds there sturdy.ready).bind fun _ _ h =>
      (printLine_succeeds h _).escapes

end Changes

section Shown

theorem mapM_displayed {values : List Value} (writable : ∀ v ∈ values, v.isWritable = true) :
    values.mapM displayed = .ok (values.map Value.display) := by
  induction values with
  | nil => rfl
  | cons v values ih =>
    rw [List.forall_mem_cons] at writable
    rw [List.mapM_cons, displayed, if_pos writable.1, ih writable.2]
    rfl

theorem stackLine_ok (h : Sturdy c) : ∃ t, stackLine c.pending = .ok t := by
  have writable : ∀ v ∈ c.pending.reverse, v.isWritable = true := fun v member =>
    h.writable v (Holdings.mem_values.mpr (.inl (List.mem_reverse.mp member)))
  rw [stackLine, mapM_displayed writable]
  exact ⟨_, rfl⟩

theorem vocabularyLine_ok {d : Dictionary} (ordered : d.Ordered) (v : Vocabulary) :
    ∃ t, vocabularyLine d v = .ok t := by
  obtain ⟨n, _, context, -⟩ := ordered.context
  obtain ⟨m, _, current, -⟩ := ordered.current
  rw [vocabularyLine, Dictionary.contextVocabulary_eq_ok.mpr context,
    Dictionary.currentVocabulary_eq_ok.mpr current]
  exact ⟨_, rfl⟩

theorem listVocabularies_succeeds {d : Dictionary} (ordered : d.Ordered) (h : Sturdy c)
    (vs : List Vocabulary) : (listVocabularies d vs c).Succeeds Sturdy := by
  induction vs generalizing c with
  | nil => exact ⟨rfl, h⟩
  | cons v vs ih =>
    exact (Action.ofExcept_succeeds (vocabularyLine_ok ordered v) h).bind fun _ _ h =>
      (printLine_succeeds h _).bind fun _ _ h => ih h

theorem listVariables_succeeds (h : Sturdy c) (kind : Text) {entries : List (Text × Value)}
    (writable : ∀ e ∈ entries, e.2.isWritable = true) :
    (listVariables kind entries c).Succeeds Sturdy := by
  induction entries generalizing c with
  | nil => exact ⟨rfl, h⟩
  | cons e entries ih =>
    rw [List.forall_mem_cons] at writable
    exact (Action.ofExcept_succeeds ⟨_, if_pos writable.1⟩ h).bind fun _ _ h =>
      (printLine_succeeds h _).bind fun _ _ h => ih h writable.2

theorem mem_sortedEntries {table : Variables} {e : Text × Value}
    (member : e ∈ sortedEntries table) : e.2 ∈ table.values :=
  List.mem_map_of_mem (List.mem_mergeSort.mp member)

end Shown

theorem withArgument_escapes (h : Sturdy c) (command : Command) (args : List Text)
    {body : Text → Action Console Unit} (run : ∀ arg, (body arg c).Escapes none Sturdy) :
    (withArgument command args body c).Escapes none Sturdy := by
  cases args with
  | nil => exact (printLine_succeeds h _).escapes
  | cons arg args => exact run arg

theorem seeCommand_succeeds (h : Sturdy c) (name : Text) :
    (seeCommand name c).Succeeds Sturdy := by
  rw [seeCommand, Action.bind_of_eq (dictionary_eq c)]
  refine (Action.ofExcept_succeeds (h.ordered.find?_ok _) h.ready).bind fun found _ h => ?_
  cases found with
  | none => exact printLine_succeeds h _
  | some w => exact printLine_succeeds h _

theorem globalCommand_succeeds (h : Sturdy c) (name : Text) :
    (globalCommand name c).Succeeds Sturdy := by
  unfold globalCommand
  rw [Action.bind_of_eq (show Action.get c = .ok c c from rfl)]
  cases pending : c.pending with
  | nil => exact printLine_succeeds h _
  | cons v rest =>
    refine ⟨rfl, h.of_values rfl rfl fun u member => .inl ?_⟩
    simp only [Holdings.mem_values, holdings, pending, List.mem_cons] at member ⊢
    rcases member with waiting | returned | own | shared
    · exact .inl (.inr waiting)
    · exact .inr (.inl returned)
    · exact .inr (.inr (.inl own))
    · rcases Table.mem_values_insert shared with rfl | before
      · exact .inl (.inl rfl)
      · exact .inr (.inr (.inr before))

theorem readFromCommand_ends (h : Sturdy c) (fuel : 0 < setting.fuel) (path : Text) :
    (readFromCommand setting path c).EndsBy ((setting.disk.readFailure? path).map .fault)
      Sturdy := by
  rcases Source.ofFile_failure setting.disk path with ⟨failure, failed, none⟩ | same
  · refine (enterSource_ends h fuel _).catchFault (fun why ended free => ?_)
      fun fault s ended h => ?_
    · rw [failed] at ended
      exact absurd ended (free _)
    · cases ended.trans (congrArg _ failed)
      rw [none]
      exact printLine_succeeds h _
  · refine (enterSource_ends h fuel _).catchFault (fun why ended _ => same ▸ ended)
      fun fault s ended h => ?_
    rw [same] at ended
    have reading : fault.ofReading = true := by
      obtain ⟨fault', failed, rest⟩ := Option.map_eq_some_iff.mp ended.symm
      cases rest
      exact Disk.readFailure?_fault failed
    split
    · cases reading
    · exact ⟨ended, h⟩

theorem runCommand_escapes (h : Sturdy c) (fuel : 0 < setting.fuel) (command : Command)
    (args : List Text) :
    (runCommand setting command args c).Escapes (command.fate setting.disk args) Sturdy := by
  cases command with
  | help => exact (printLines_succeeds h _).escapes
  | stack => exact (Action.ofExcept_succeeds (stackLine_ok h) h).bind fun _ _ h =>
      (printLine_succeeds h _).escapes
  | words => exact (Action.ofExcept_succeeds h.ordered.wordsInScope_ok h.ready).bind fun _ _ h =>
      (printLine_succeeds h _).escapes
  | vocabularies => exact (listVocabularies_succeeds h.ordered h.ready _).escapes
  | use => exact withArgument_escapes h _ args (useCommand_escapes h)
  | addVocabulary => exact withArgument_escapes h _ args (addVocabularyCommand_escapes h)
  | forget => exact withArgument_escapes h _ args fun name => forgetCommand_escapes h name.lower
  | see => exact withArgument_escapes h _ args fun name => (seeCommand_succeeds h name).escapes
  | global =>
    exact withArgument_escapes h _ args fun name => (globalCommand_succeeds h name).escapes
  | vars =>
    refine (listVariables_succeeds h "global" fun e member => ?_).bind fun _ _ later =>
      (listVariables_succeeds later "local " fun e member => ?_).escapes
    · exact h.writable e.2 (Holdings.mem_values.mpr (.inr (.inr (.inr (mem_sortedEntries member)))))
    · exact h.writable e.2 (Holdings.mem_values.mpr (.inr (.inr (.inl (mem_sortedEntries member)))))
  | tasks =>
    rw [runCommand, Action.bind_of_eq (show Action.get c = .ok c c from rfl)]
    by_cases empty : c.machine.registry.isEmpty
    · rw [if_pos empty]
      exact (printLine_succeeds h _).escapes
    · rw [if_neg empty]
      exact (printLines_succeeds h _).escapes
  | readFrom =>
    cases args with
    | nil => exact (printLine_succeeds h _).escapes
    | cons path args =>
      refine Outcome.Ends.mono (readFromCommand_ends h fuel path) fun why ended => ?_
      rw [ended, Command.fate]
      cases failed : setting.disk.readFailure? path with
      | none => rfl
      | some fault =>
        simp [Halt.escapes, Fault.ofDictionary_of_ofReading (Disk.readFailure?_fault failed)]
  | bye => exact (printLine_succeeds h _).bind fun _ _ h => ⟨rfl, h⟩

theorem commandLine_ends (h : Sturdy c) (fuel : 0 < setting.fuel) {line : Text}
    (named : Command.isCommandLine line) :
    (commandLine setting line c).EndsBy (Command.lineFate setting.disk line) Sturdy := by
  unfold commandLine Command.lineFate
  cases cut : ShellWords.split line with
  | error defect => exact printLine_succeeds h _
  | ok words =>
    cases words with
    | nil => exact absurd cut (ShellWords.split_ne_nil named)
    | cons name args =>
      dsimp only
      cases Command.ofName? name with
      | none => exact printLine_succeeds h _
      | some command =>
        exact Outcome.Escapes.reported (runCommand_escapes h fuel command args) fun _ _ h =>
          printLine_succeeds h _

end Console

end ThreadedCode
