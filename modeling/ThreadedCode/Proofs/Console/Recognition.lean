import ThreadedCode.Console.Entry
import ThreadedCode.Proofs.Console.Commands

/-!
Two cuts of a command line. A line is known for a command line by its first word between white space
of any kind, and is then split as a shell does, whose blanks are four of these white space code
points. The two agree on the first word exactly if what sets this word apart are blanks of the shell.
-/

namespace ThreadedCode

namespace ShellWords

def isPlain (c : CodePoint) : Bool :=
  !isBlank c && c ≠ .backslash && c ≠ .singleQuote && c ≠ .doubleQuote

def State.taken : State → Text
  | .between => []
  | .word taken => taken
  | .quotes _ taken => taken
  | .escape taken => taken
  | .escapeInQuotes taken => taken

section Words

variable {c : CodePoint} {taken w t : Text} {words : List Text} {state : State}

theorem dark_of_plain (plain : isPlain c = true) : ¬ isBlank c = true := by
  simp only [isPlain, Bool.and_eq_true, Bool.not_eq_true'] at plain
  simp [plain.1.1.1]

theorem inWord_plain (plain : isPlain c = true) (taken : Text) :
    inWord taken c = .word (taken ++ [c]) := by
  simp only [isPlain, Bool.and_eq_true, decide_eq_true_eq] at plain
  obtain ⟨⟨⟨-, notBackslash⟩, notSingle⟩, notDouble⟩ := plain
  rw [inWord, if_neg notBackslash, if_neg (by simp [notSingle, notDouble])]

theorem inWord_taken (taken : Text) (c : CodePoint) :
    ∃ more, (inWord taken c).taken = taken ++ more := by
  unfold inWord
  split
  · exact ⟨[], (List.append_nil _).symm⟩
  · split
    · exact ⟨[], (List.append_nil _).symm⟩
    · exact ⟨[c], rfl⟩

theorem splitFrom_skip {lead : Text} (blanks : ∀ c ∈ lead, isBlank c = true) (t : Text) :
    splitFrom .between (lead ++ t) = splitFrom .between t := by
  induction lead with
  | nil => rfl
  | cons c lead ih =>
    rw [List.forall_mem_cons] at blanks
    rw [List.cons_append, splitFrom, if_pos blanks.1, ih blanks.2]

theorem splitFrom_take (plain : ∀ c ∈ w, isPlain c = true) (taken t : Text) :
    splitFrom (.word taken) (w ++ t) = splitFrom (.word (taken ++ w)) t := by
  induction w generalizing taken with
  | nil => rw [List.nil_append, List.append_nil]
  | cons c w ih =>
    rw [List.forall_mem_cons] at plain
    rw [List.cons_append, splitFrom, if_neg (dark_of_plain plain.1), inWord_plain plain.1,
      ih plain.2, List.append_assoc, List.singleton_append]

theorem splitFrom_start (plain : ∀ c ∈ w, isPlain c = true) (filled : w ≠ []) (t : Text) :
    splitFrom .between (w ++ t) = splitFrom (.word w) t := by
  cases w with
  | nil => exact absurd rfl filled
  | cons c w =>
    rw [List.forall_mem_cons] at plain
    rw [List.cons_append, splitFrom, if_neg (dark_of_plain plain.1), inWord_plain plain.1,
      splitFrom_take plain.2]
    rfl

theorem splitFrom_stop (stop : ∀ c ∈ t.head?, isBlank c = true) (taken : Text) :
    splitFrom (.word taken) t = (splitFrom .between t).map (taken :: ·) := by
  cases t with
  | nil => rfl
  | cons c t =>
    have blank : isBlank c = true := stop c rfl
    rw [splitFrom, splitFrom, if_pos blank, if_pos blank]

theorem splitFrom_begins (inside : state ≠ .between) (cut : splitFrom state t = .ok words) :
    ∃ more rest, words = (state.taken ++ more) :: rest := by
  fun_induction splitFrom state t with
  | case1 | case6 | case7 => exact absurd rfl inside
  | case2 taken =>
    cases cut
    exact ⟨[], [], by rw [List.append_nil]; rfl⟩
  | case3 | case4 | case5 => cases cut
  | case8 taken c rest =>
    cases next : splitFrom .between rest with
    | error defect =>
      rw [next] at cut
      cases cut
    | ok more =>
      rw [next] at cut
      cases cut
      exact ⟨[], more, by rw [List.append_nil]; rfl⟩
  | case9 taken c rest dark ih =>
    obtain ⟨more, rest, rfl⟩ := ih (inWord_ne_between taken c) cut
    obtain ⟨own, same⟩ := inWord_taken taken c
    exact ⟨own ++ more, rest, by rw [same, List.append_assoc]; rfl⟩
  | case10 _ _ _ ih | case11 _ _ _ _ _ _ ih => exact ih (by simp) cut
  | case12 quote taken c rest _ _ ih =>
    obtain ⟨more, rest, rfl⟩ := ih (by simp) cut
    exact ⟨c :: more, rest, by simp [State.taken]⟩
  | case13 taken c rest ih =>
    obtain ⟨more, rest, rfl⟩ := ih (by simp) cut
    exact ⟨c :: more, rest, by simp [State.taken]⟩
  | case14 taken c rest literal ih =>
    obtain ⟨more, rest, rfl⟩ := ih (by simp) cut
    exact ⟨_, rest, by rw [State.taken, State.taken, List.append_assoc]⟩

theorem split_takes {lead : Text} (blanks : ∀ c ∈ lead, isBlank c = true)
    (plain : ∀ c ∈ w, isPlain c = true) (member : c ∈ w)
    (cut : split (lead ++ (w ++ t)) = .ok words) :
    ∃ name args, words = name :: args ∧ c ∈ name := by
  rw [split, splitFrom_skip blanks, splitFrom_start plain (List.ne_nil_of_mem member)] at cut
  obtain ⟨more, args, rfl⟩ := splitFrom_begins (by simp) cut
  exact ⟨_, args, rfl, List.mem_append_left more member⟩

end Words

theorem isPlain_of_white {c : CodePoint} (white : c.isBlank = true) (dark : isBlank c = false) :
    isPlain c = true := by
  have other : ∀ d : CodePoint, d.isBlank = false → c ≠ d := fun d visible same => by
    rw [same, visible] at white
    cases white
  simp [isPlain, dark, other .backslash (by decide), other .singleQuote (by decide),
    other .doubleQuote (by decide)]

end ShellWords

namespace Text

def afterFirstWord (line : Text) : Text := line.trimLeft.dropWhile fun c => !c.isBlank

/-- Whether blanks of the shell set the first word of a line apart: there is no other white space
before it, and after it comes one of them or nothing. -/
def isSetApart (line : Text) : Bool :=
  (line.takeWhile CodePoint.isBlank).all ShellWords.isBlank &&
    line.afterFirstWord.head?.all ShellWords.isBlank

theorem eq_of_firstWord? {line w : Text} (first : line.firstWord? = some w) :
    line = line.takeWhile CodePoint.isBlank ++ (w ++ line.afterFirstWord) := by
  have word : w = line.trimLeft.takeWhile fun c => !c.isBlank := by
    unfold firstWord? at first
    split at first
    · cases first
    · exact (Option.some.inj first).symm
  rw [word, afterFirstWord, List.takeWhile_append_dropWhile, trimLeft,
    List.takeWhile_append_dropWhile]

theorem isBlank_of_afterFirstWord {line : Text} {c : CodePoint}
    (next : line.afterFirstWord.head? = some c) : c.isBlank = true := by
  have stop := List.head?_dropWhile_not (fun c : CodePoint => !c.isBlank) line.trimLeft
  rw [afterFirstWord] at next
  simpa [next] using stop

end Text

namespace Command

theorem name_all (command : Command) :
    (command.name.all fun c => !c.isBlank && ShellWords.isPlain c) = true := by
  cases command <;> decide

theorem name_ne_nil (command : Command) : command.name ≠ [] := by
  cases command <;> decide

theorem ofName?_name (command : Command) : ofName? command.name = some command := by
  cases command <;> decide

theorem ofName?_eq_none {name : Text} {c : CodePoint} (member : c ∈ name)
    (white : c.isBlank = true) : ofName? name = none := by
  cases found : ofName? name with
  | none => rfl
  | some command =>
    have same : command.name = name := by simpa using List.find?_some found
    have visible := List.all_eq_true.mp command.name_all c (same ▸ member)
    simp [white] at visible

theorem isCommandLine_of_first {line : Text} {command : Command}
    (first : line.firstWord? = some command.name) : isCommandLine line = true := by
  rw [isCommandLine, first]
  exact Option.isSome_of_mem (ofName?_name command)

end Command

namespace ShellWords

variable {line : Text} {command : Command} {words : List Text}

theorem split_of_isSetApart (first : line.firstWord? = some command.name)
    (apart : line.isSetApart = true) :
    split line = (split line.afterFirstWord).map (command.name :: ·) := by
  obtain ⟨before, after⟩ := Bool.and_eq_true_iff.mp apart
  have plain : ∀ c ∈ command.name, isPlain c = true := fun c member =>
    (Bool.and_eq_true_iff.mp (List.all_eq_true.mp command.name_all c member)).2
  have stop : ∀ c ∈ line.afterFirstWord.head?, isBlank c = true := fun c next => by
    rw [Option.mem_def.mp next] at after
    exact after
  calc split line
      = splitFrom .between
          (line.takeWhile CodePoint.isBlank ++ (command.name ++ line.afterFirstWord)) :=
        congrArg split (Text.eq_of_firstWord? first)
    _ = splitFrom .between (command.name ++ line.afterFirstWord) :=
        splitFrom_skip (List.all_eq_true.mp before) _
    _ = splitFrom (.word command.name) line.afterFirstWord :=
        splitFrom_start plain command.name_ne_nil _
    _ = (split line.afterFirstWord).map (command.name :: ·) := splitFrom_stop stop _

theorem white_of_not_isSetApart (first : line.firstWord? = some command.name)
    (joined : line.isSetApart = false) (cut : split line = .ok words) :
    ∃ name args, words = name :: args ∧
      ∃ c ∈ name, c.isBlank = true ∧ isBlank c = false := by
  rw [Text.eq_of_firstWord? first] at cut
  cases before : (line.takeWhile CodePoint.isBlank).find? fun c => !isBlank c with
  | some c =>
    obtain ⟨dark, lead, rest, here, blanks⟩ := List.find?_eq_some_iff_append.mp before
    have dark : isBlank c = false := by simpa using dark
    have white : c.isBlank = true :=
      List.mem_takeWhile_imp (List.mem_of_find?_eq_some before)
    rw [here, List.append_assoc, ← List.singleton_append, List.append_assoc] at cut
    obtain ⟨name, args, rfl, member⟩ := split_takes (by simpa using blanks)
      (by simpa using isPlain_of_white white dark) (List.mem_singleton_self c) cut
    exact ⟨name, args, rfl, c, member, white, dark⟩
  | none =>
    have blanks : ∀ c ∈ line.takeWhile CodePoint.isBlank, isBlank c = true := by
      simpa using List.find?_eq_none.mp before
    rw [Text.isSetApart, List.all_eq_true.mpr blanks, Bool.true_and] at joined
    cases after : line.afterFirstWord with
    | nil =>
      rw [after] at joined
      cases joined
    | cons c rest =>
      have dark : isBlank c = false := by rwa [after] at joined
      have white : c.isBlank = true := Text.isBlank_of_afterFirstWord (congrArg List.head? after)
      have plain : ∀ d ∈ command.name ++ [c], isPlain d = true := fun d member => by
        rcases List.mem_append.mp member with named | last
        · exact (Bool.and_eq_true_iff.mp (List.all_eq_true.mp command.name_all d named)).2
        · rw [List.mem_singleton.mp last]
          exact isPlain_of_white white dark
      rw [after, ← List.singleton_append, ← List.append_assoc command.name] at cut
      obtain ⟨name, args, rfl, member⟩ := split_takes blanks plain
        (List.mem_append_right _ (List.mem_singleton_self c)) cut
      exact ⟨name, args, rfl, c, member, white, dark⟩

end ShellWords

namespace Console

/-- Runs the command of a line with its arguments. A fault of the dictionary is reported. -/
def performCommand (setting : Setting) (command : Command) (args : List Text) :
    Action Console Unit :=
  Action.catchFault (runCommand setting command args) fun fault =>
    if fault.ofDictionary then
      printLine (Text.concat [command.name, ": ", fault.kind, ": ", fault.message])
    else Action.fail fault

variable {setting : Setting} {line : Text} {command : Command} {args : List Text}

theorem commandLine_error {defect : ShellWords.Defect}
    (cut : ShellWords.split line = .error defect) :
    commandLine setting line =
      printLine (Text.concat ["parse error in dot-command: ", defect.message]) := by
  rw [commandLine, cut]

theorem commandLine_name (cut : ShellWords.split line = .ok (command.name :: args)) :
    commandLine setting line = performCommand setting command args := by
  rw [commandLine, cut]
  simp only [Command.ofName?_name]
  rfl

theorem commandLine_unknown {name : Text} (cut : ShellWords.split line = .ok (name :: args))
    (unknown : Command.ofName? name = none) :
    commandLine setting line = printLine (Text.concat ["unknown dot-command: ", name.quoted]) := by
  rw [commandLine, cut]
  simp only [unknown]

/-- What becomes of a line whose first word is the name of a command, by how the shell splits it. If
it cannot be split that is reported. Else the line runs this very command on the other words if blanks
of the shell set the name apart; and else, and only else, no command is run: the shell's first word
then holds other white space and so is the name of none. -/
theorem commandLine_of_named (setting : Setting)
    (named : line.firstWord? = some command.name) :
    Command.isCommandLine line = true ∧
      ((∃ defect, ShellWords.split line = .error defect ∧
          commandLine setting line =
            printLine (Text.concat ["parse error in dot-command: ", defect.message])) ∨
        (line.isSetApart = true ∧ ∃ args, ShellWords.split line.afterFirstWord = .ok args ∧
          ShellWords.split line = .ok (command.name :: args) ∧
          commandLine setting line = performCommand setting command args) ∨
        (line.isSetApart = false ∧ ∃ name args, ShellWords.split line = .ok (name :: args) ∧
          (∃ c ∈ name, c.isBlank = true ∧ ShellWords.isBlank c = false) ∧
          Command.ofName? name = none ∧
          commandLine setting line =
            printLine (Text.concat ["unknown dot-command: ", name.quoted]))) := by
  refine ⟨Command.isCommandLine_of_first named, ?_⟩
  cases cut : ShellWords.split line with
  | error defect => exact .inl ⟨defect, rfl, commandLine_error cut⟩
  | ok words =>
    right
    cases apart : line.isSetApart with
    | true =>
      have same := (ShellWords.split_of_isSetApart named apart).symm.trans cut
      cases after : ShellWords.split line.afterFirstWord with
      | error defect =>
        rw [after] at same
        cases same
      | ok args =>
        rw [after] at same
        cases same
        exact .inl ⟨rfl, args, rfl, rfl, commandLine_name cut⟩
    | false =>
      obtain ⟨name, args, rfl, c, member, white, dark⟩ :=
        ShellWords.white_of_not_isSetApart named apart cut
      have unknown := Command.ofName?_eq_none member white
      exact .inr ⟨rfl, name, args, rfl, ⟨c, member, white, dark⟩, unknown,
        commandLine_unknown cut unknown⟩

theorem commandLine_of_named_quoted :
    let setting : Setting :=
      { host := fun _ _ _ => pure .null, disk := Disk.ofTree [], fuel := 1 }
    let line : Text := "\t.use 'a b' c"
    line.firstWord? = some Command.use.name ∧
      commandLine setting line = performCommand setting .use ["a b", "c"] := by
  intro setting line
  have named : line.firstWord? = some Command.use.name := by decide
  have apart : line.isSetApart = true := by decide
  have cut : ShellWords.split line = .ok [Command.use.name, "a b", "c"] := by decide
  refine ⟨named, ?_⟩
  obtain ⟨-, ⟨defect, failed, -⟩ | ⟨-, args, -, found, run⟩ | ⟨joined, -⟩⟩ :=
    commandLine_of_named setting named
  · cases failed.symm.trans cut
  · cases found.symm.trans cut
    exact run
  · cases joined.symm.trans apart

/-- With a no-break space after its name the command is recognized and then not known. -/
theorem noBreakSpace_after_command :
    let setting : Setting :=
      { host := fun _ _ _ => pure .null, disk := Disk.ofTree [], fuel := 1 }
    let c : Console := { machine := { built := some .initial }, taskName := defaultTaskName }
    let line : Text := ".stack\u00a0"
    let said : Text := "unknown dot-command: '.stack\\xa0'\n"
    line.firstWord? = some Command.stack.name ∧ Command.isCommandLine line = true ∧
      ShellWords.split line = .ok [line] ∧
      commandLine setting line c =
        .ok () { c with machine := { c.machine with output := said } } ∧
      ∀ args, commandLine setting line c ≠ performCommand setting .stack args c := by
  intro setting c line said
  have differs : commandLine setting line c ≠ performCommand setting .stack [] c := by
    decide +kernel
  exact ⟨by decide, by decide, by decide, by decide +kernel, fun _ => differs⟩

end Console

end ThreadedCode
