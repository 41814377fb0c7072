import ThreadedCode.Proofs.Console.Recognition
import ThreadedCode.Proofs.Console.SingleLine
import ThreadedCode.Proofs.Text.Decimal

/-!
Integers as they are printed, entered at the console. They wait on the pending stack as they were,
so what the console shows of a stack of integers makes this stack again.
-/

namespace ThreadedCode

theorem Text.lines_command (command : Command) : lines command.name = [command.name] := by
  cases command <;> rfl

namespace Console

open Lexer

def IsGap (gap : Text) : Prop := gap ≠ [] ∧ ∀ c ∈ gap, c.isBlank ∧ ¬ c.isLineBreak

/-- Integers on a line as they are printed, with a gap between each two. -/
inductive Printed : List Int → Text → Prop
  | none : Printed [] []
  | one (i : Int) : Printed [i] (Value.int i).display
  | more (i j : Int) {is : List Int} {gap line : Text} (apart : IsGap gap)
      (rest : Printed (j :: is) line) :
      Printed (i :: j :: is) ((Value.int i).display ++ gap ++ line)

section Numerals

variable {i : Int} {is : List Int} {line : Text}

theorem display_bareWord (i : Int) : ∃ w : BareWord, w.text = (Value.int i).display := by
  have first : ∀ c, (Value.int i).display.head? = some c → c ≠ .doubleQuote ∧ c ≠ .numberSign :=
    fun c head => Text.forall_mem_ofInt (P := fun c => c ≠ .doubleQuote ∧ c ≠ .numberSign)
      (by decide) (by decide) i c (List.mem_of_head? head)
  exact BareWord.exists_text (Text.ofInt_ne_nil i) (fun quote => (first _ quote).1 rfl)
    (fun sign => (first _ sign).2 rfl) (Text.forall_mem_ofInt (by decide) (by decide) i)

theorem display_not_string (i : Int) : (Value.int i).display.isString = false := by
  have notQuote : (Value.int i).display.head? ≠ some .doubleQuote := fun quote =>
    Text.forall_mem_ofInt (P := fun c => c ≠ .doubleQuote) (by decide) (by decide) i _
      (List.mem_of_head? quote) rfl
  simp [Text.isString, notQuote]

theorem Printed.forall_mem {P : CodePoint → Prop} (printed : Printed is line) (minus : P '-')
    (digits : ∀ n, P (.digit n)) (white : ∀ c : CodePoint, c.isBlank → ¬ c.isLineBreak → P c) :
    ∀ c ∈ line, P c := by
  induction printed with
  | none => exact fun c member => absurd member List.not_mem_nil
  | one i => exact Text.forall_mem_ofInt minus digits i
  | more i j apart rest ih =>
    intro c member
    rw [List.mem_append, List.mem_append] at member
    rcases member with (own | gap) | later
    · exact Text.forall_mem_ofInt minus digits i c own
    · exact white c (apart.2 c gap).1 (apart.2 c gap).2
    · exact ih c later

theorem Printed.not_isCommandLine (printed : Printed is line) : ¬ Command.isCommandLine line := by
  have numeral (i : Int) (rest : Text) :
      ¬ Command.isCommandLine ((Value.int i).display ++ rest) := by
    have first : ∀ c ∈ (Value.int i).display, ¬ c.isBlank ∧ c ≠ '.' :=
      Text.forall_mem_ofInt (by decide) (by decide) i
    obtain ⟨c, more, same⟩ := List.exists_cons_of_ne_nil (Text.ofInt_ne_nil i)
    rw [Value.display, same] at first
    have head := first c List.mem_cons_self
    rw [Value.display, same]
    exact Command.not_isCommandLine head.1 head.2 (more ++ rest)
  cases printed with
  | none => decide
  | one i => exact List.append_nil (Value.int i).display ▸ numeral i []
  | more i j apart rest =>
    rw [List.append_assoc]
    exact numeral i _

theorem Printed.rendersLine (printed : Printed is line) : ∃ items, RendersLine true items line ∧
    items.map Item.token = is.map fun i => (Value.int i).display := by
  have token {i : Int} {w : BareWord} (same : w.text = (Value.int i).display) :
      (Item.word w).token = (Value.int i).display := by
    rw [Item.token, same]
    exact Text.lower_ofInt _
  induction printed with
  | none => exact ⟨[], .done true, rfl⟩
  | one i =>
    obtain ⟨w, same⟩ := display_bareWord i
    have written : RendersLine true [.word w] (w.text ++ []) := .item (.word w) (.done false)
    rw [List.append_nil, same] at written
    exact ⟨[.word w], written, congrArg (fun t => [t]) (token same)⟩
  | @more i j is gap line apart rest ih =>
    obtain ⟨w, same⟩ := display_bareWord i
    obtain ⟨items, written, tokens⟩ := ih
    have before := written.after_blanks apart.1 fun c member => (apart.2 c member).1
    have whole : RendersLine true (.word w :: items) (w.text ++ (gap ++ line)) :=
      .item (.word w) before
    rw [same, ← List.append_assoc] at whole
    refine ⟨.word w :: items, whole, ?_⟩
    rw [List.map_cons, List.map_cons, token same, tokens]

end Numerals

section Entry

variable (setting : Setting) {is : List Int}

theorem enterToken_display {i : Int} (numeral : Text.hasNumeral i) :
    enterToken setting (Value.int i).display = pushPending (.int i) := by
  rw [enterToken, display_not_string, Value.display, Text.integer?_ofInt numeral]
  rfl

theorem enterTokens_display (numerals : ∀ i ∈ is, Text.hasNumeral i) (c : Console) :
    enterTokens setting (is.map fun i => (Value.int i).display) c =
      .ok () { c with pending := (is.map Value.int).reverse ++ c.pending } := by
  induction is generalizing c with
  | nil => rfl
  | cons i is ih =>
    rw [List.forall_mem_cons] at numerals
    rw [List.map_cons, enterTokens, enterToken_display setting numerals.1, List.map_cons,
      List.reverse_cons, List.append_assoc]
    exact ih numerals.2 _

theorem enterText_printed (numerals : ∀ i ∈ is, Text.hasNumeral i) {line : Text}
    (printed : Printed is line) (c : Console) :
    enterText setting line c =
      .ok () { c with pending := (is.map Value.int).reverse ++ c.pending } := by
  obtain ⟨items, written, tokens⟩ := printed.rendersLine
  have unbroken : ∀ c ∈ line, ¬ c.isLineBreak :=
    printed.forall_mem (by decide) (by decide) fun _ _ unbroken => unbroken
  rw [enterText_items setting written unbroken printed.not_isCommandLine, tokens,
    enterTokens_display setting numerals]

end Entry

section Answer

variable (setting : Setting) {is : List Int} {c : Console}

theorem join_cons_cons (separator t u : Text) (rest : List Text) :
    Text.join separator (t :: u :: rest) = t ++ separator ++ Text.join separator (u :: rest) := by
  simp only [Text.join, List.intersperse_cons_cons, List.flatten_cons, List.append_assoc]

def shownIntegers (is : List Int) : Text := Text.join " " (is.map fun i => (Value.int i).display)

theorem printed_shownIntegers (is : List Int) : Printed is (shownIntegers is) := by
  induction is with
  | nil => exact .none
  | cons i is ih =>
    cases is with
    | nil =>
      rw [shownIntegers, List.map_singleton, Text.join, List.intersperse_singleton,
        List.flatten_singleton]
      exact .one i
    | cons j is =>
      have apart : IsGap " " := by
        refine ⟨List.cons_ne_nil _ _, fun c member => ?_⟩
        obtain rfl := List.mem_singleton.mp member
        decide
      rw [shownIntegers, List.map_cons, List.map_cons, join_cons_cons]
      exact .more i j apart ih

theorem display_ascii (i : Int) : ∀ c ∈ (Value.int i).display, c.val < 0x80 :=
  Text.forall_mem_ofInt (by decide) (by decide) i

theorem shownIntegers_ascii (is : List Int) : ∀ c ∈ shownIntegers is, c.val < 0x80 := by
  induction is with
  | nil => exact fun c member => absurd member List.not_mem_nil
  | cons i is ih =>
    cases is with
    | nil =>
      rw [shownIntegers, List.map_singleton, Text.join, List.intersperse_singleton,
        List.flatten_singleton]
      exact display_ascii i
    | cons j is =>
      have space : ∀ c ∈ (" " : Text), c.val < 0x80 := List.forall_mem_singleton.mpr (by decide)
      rw [shownIntegers, List.map_cons, List.map_cons, join_cons_cons]
      exact List.forall_mem_append.mpr ⟨List.forall_mem_append.mpr ⟨display_ascii i, space⟩, ih⟩

theorem stackLine_integers (numerals : ∀ i ∈ is, Text.hasNumeral i) :
    stackLine (is.map Value.int).reverse =
      .ok (Text.concat ["<", Text.ofNat is.length, "> ", shownIntegers is]) := by
  have writable : ∀ v ∈ is.map Value.int, v.isWritable = true := List.forall_mem_map.mpr numerals
  rw [stackLine, List.reverse_reverse, mapM_displayed writable, List.map_map, List.length_reverse,
    List.length_map]
  rfl

theorem stackLine_ascii (is : List Int) :
    ∀ d ∈ Text.concat ["<", Text.ofNat is.length, "> ", shownIntegers is], d.val < 0x80 := by
  have number : ∀ d ∈ Text.ofNat is.length, d.val < 0x80 := display_ascii is.length
  have opening : ∀ d ∈ ("<" : Text), d.val < 0x80 := List.forall_mem_singleton.mpr (by decide)
  have closing : ∀ d ∈ ("> " : Text), d.val < 0x80 :=
    List.forall_mem_cons.mpr ⟨by decide, List.forall_mem_singleton.mpr (by decide)⟩
  intro d member
  obtain ⟨part, listed, inside⟩ := List.mem_flatten.mp member
  simp only [List.mem_cons, List.not_mem_nil, or_false] at listed
  rcases listed with rfl | rfl | rfl | rfl
  · exact opening d inside
  · exact number d inside
  · exact closing d inside
  · exact shownIntegers_ascii is d inside

def showing (c : Console) (t : Text) : Console :=
  { c with machine := { c.machine with output := c.machine.output ++ t } }

theorem printLine_ascii {t : Text} (ascii : ∀ d ∈ t, d.val < 0x80) (c : Console) :
    printLine t c = .ok () (c.showing (t ++ [.lineFeed])) := by
  have writes (t : Text) (ascii : ∀ d ∈ t, d.val < 0x80) (m : Machine) :
      Machine.write t m = .ok () { m with output := m.output ++ t } := by
    rw [Machine.write, m.strict.refusal?_ascii ascii]
  have feed : ∀ d ∈ [CodePoint.lineFeed], d.val < 0x80 :=
    List.forall_mem_singleton.mpr (by decide)
  simp only [printLine, Action.bind_apply, atMachine, Action.within, writes t ascii,
    writes [.lineFeed] feed, showing, List.append_assoc]

theorem enterText_stack {shown : Text} (line : stackLine c.pending = .ok shown)
    (ascii : ∀ d ∈ shown, d.val < 0x80) :
    enterText setting Command.stack.name c = .ok () (c.showing (shown ++ [.lineFeed])) := by
  have named : Command.isCommandLine Command.stack.name = true := by decide
  have cut : ShellWords.split Command.stack.name = .ok [Command.stack.name] := by decide
  have alone : enterText setting Command.stack.name = performCommand setting .stack [] := by
    rw [enterText, Text.lines_command, enterLines, if_pos named, commandLine_name cut]
    exact (pure_bind _ _).trans bind_pure_unit
  have here : (Action.get : Action Console Console) c = .ok c c := rfl
  have answers : runCommand setting .stack [] c = .ok () (c.showing (shown ++ [.lineFeed])) := by
    rw [runCommand, Action.bind_of_eq here, line]
    exact printLine_ascii ascii c
  rw [alone, performCommand, Action.catchFault, answers]

end Answer

/-- Integers that have numerals are read back as they are printed. On one line, with any white space
between them that does not end the line, they go to the pending stack in order. And where they are
the pending stack, what its line shows after their number, entered at a console that has no pending
values, makes this stack again. -/
theorem printed_integers_read_back (setting : Setting) (is : List Int)
    (numerals : ∀ i ∈ is, Text.hasNumeral i) (c : Console) :
    (∀ line, Printed is line →
      enterText setting line c =
        .ok () { c with pending := (is.map Value.int).reverse ++ c.pending }) ∧
      (c.pending = (is.map Value.int).reverse → ∃ shown : Text,
        enterText setting Command.stack.name c =
          .ok () (c.showing (Text.concat ["<", Text.ofNat is.length, "> ", shown, "\n"])) ∧
        ∀ empty : Console, empty.pending = [] →
          enterText setting shown empty = .ok () { empty with pending := c.pending }) := by
  refine ⟨fun line printed => enterText_printed setting numerals printed c, fun whole => ?_⟩
  have line : stackLine c.pending =
      .ok (Text.concat ["<", Text.ofNat is.length, "> ", shownIntegers is]) := by
    rw [whole, stackLine_integers numerals]
  refine ⟨shownIntegers is, ?_, fun empty none_ => ?_⟩
  · have whole : Text.concat ["<", Text.ofNat is.length, "> ", shownIntegers is] ++ [.lineFeed] =
        Text.concat ["<", Text.ofNat is.length, "> ", shownIntegers is, "\n"] :=
      (List.flatten_concat (L := ["<", Text.ofNat is.length, "> ", shownIntegers is])).symm
    rw [enterText_stack setting line (stackLine_ascii is), whole]
  · rw [enterText_printed setting numerals (printed_shownIntegers is), none_, List.append_nil,
      whole]

theorem printed_integers_read_back_gaps :
    let setting : Setting :=
      { host := fun _ _ _ => pure .null, disk := fun _ => .error .missing, fuel := 100 }
    let stack : List Value := [.int 40, .int 0, .int (-12)]
    let c : Console := { machine := {}, taskName := defaultTaskName, pending := stack }
    (∀ i ∈ [-12, 0, 40], Text.hasNumeral i) ∧ Printed [-12, 0, 40] "-12\t\u00a00\x1f40" ∧
      enterText setting "-12\t\u00a00\x1f40" c = .ok () { c with pending := stack ++ stack } ∧
      ∃ shown : Text,
        enterText setting Command.stack.name c =
          .ok () (c.showing (Text.concat ["<", Text.ofNat 3, "> ", shown, "\n"])) ∧
        enterText setting shown { c with pending := [] } = .ok () c := by
  intro setting stack c
  have numerals : ∀ i ∈ [-12, 0, 40], Text.hasNumeral i := by decide +kernel
  have first : IsGap "\t\u00a0" := by
    refine ⟨List.cons_ne_nil _ _, List.forall_mem_cons.mpr ⟨by decide, ?_⟩⟩
    exact List.forall_mem_singleton.mpr (by decide)
  have second : IsGap "\x1f" :=
    ⟨List.cons_ne_nil _ _, List.forall_mem_singleton.mpr (by decide)⟩
  have printed : Printed [-12, 0, 40] "-12\t\u00a00\x1f40" :=
    .more (-12) 0 first (.more 0 40 second (.one 40))
  obtain ⟨reads, answer⟩ := printed_integers_read_back setting [-12, 0, 40] numerals c
  obtain ⟨shown, printedStack, again⟩ := answer rfl
  exact ⟨numerals, printed, reads _ printed, shown, printedStack,
    again { c with pending := [] } rfl⟩

end Console

end ThreadedCode
