import ThreadedCode.Proofs.Console.SingleLine
import ThreadedCode.Proofs.Lexer.Spots

/-!
A string literal over several lines, entered at the console. The lexer takes it as one token, and the
string waits on the pending stack, so long as the console has not taken one of its lines for a
command before the lexer sees them.
-/

namespace ThreadedCode

open CodePoint

namespace Lexer

variable {s : Text}

theorem spotTokens_inString (quoteless : doubleQuote ∉ s) (escapeless : backslash ∉ s)
    (feeds : ∀ c ∈ s, c.isLineBreak → c = lineFeed) {p : Spot} {taken : Text}
    (meets : p.state? = some (.string taken)) :
    spotTokens isLineBreak p (s ++ [doubleQuote]) = [taken ++ s ++ [doubleQuote]] := by
  induction s generalizing p taken with
  | nil =>
    have plain : ¬ doubleQuote.isLineBreak := by decide
    have closes : step (.string taken) doubleQuote = .token (taken ++ [doubleQuote]) := rfl
    simp only [List.nil_append, List.append_nil, spotTokens, Spot.next, meets, if_neg plain, closes]
    rfl
  | cons c s ih =>
    rw [List.mem_cons, not_or] at quoteless escapeless
    have ih := @ih quoteless.2 escapeless.2 fun d member => feeds d (List.mem_cons_of_mem c member)
    have joined : taken ++ c :: s = taken ++ [c] ++ s := by simp
    rw [List.cons_append, spotTokens, joined]
    by_cases breaking : c.isLineBreak
    · obtain rfl := feeds c List.mem_cons_self breaking
      simp only [Spot.next, meets, if_pos breaking]
      exact ih rfl
    · have takes : step (.string taken) c = .advance (.string (taken ++ [c])) := by
        rw [step, stepString, if_neg (Ne.symm escapeless.1), if_neg (Ne.symm quoteless.1)]
      simp only [Spot.next, meets, if_neg breaking, takes]
      exact ih rfl

theorem tokens_string (quoteless : doubleQuote ∉ s) (escapeless : backslash ∉ s)
    (feeds : ∀ c ∈ s, c.isLineBreak → c = lineFeed) :
    tokens (Text.lines (doubleQuote :: s ++ [doubleQuote])) =
      [doubleQuote :: s ++ [doubleQuote]] := by
  have single : carriageReturn ∉ doubleQuote :: s ++ [doubleQuote] := by
    have inner : carriageReturn ∉ s := fun member => by
      have same := feeds _ member (by decide)
      exact absurd same (by decide)
    simp only [List.cons_append, List.mem_cons, List.mem_append, List.not_mem_nil, or_false, inner]
    decide
  have opened := spotTokens_inString quoteless escapeless feeds
    (p := .inside (.string [doubleQuote])) rfl
  rw [tokens_lines, Text.unifyBreaks_of_not_mem single]
  exact opened

end Lexer

namespace Console

open Lexer

variable (setting : Setting)

theorem quoted_lines (t : Text) :
    ∃ first more, Text.lines (doubleQuote :: t) = (doubleQuote :: first) :: more := by
  rw [Text.lines_of_other (by decide)]
  cases Text.lines t with
  | nil => exact ⟨[], [], rfl⟩
  | cons line lines => exact ⟨line, lines, rfl⟩

theorem not_isCommandLine_quoted (rest : Text) :
    ¬ Command.isCommandLine (doubleQuote :: rest) :=
  Command.not_isCommandLine (by decide) (by decide) rest

theorem enterTokens_string (c : Console) (s : Text) :
    enterTokens setting [doubleQuote :: s ++ [doubleQuote]] c =
      .ok () { c with pending := .text s :: c.pending } := by
  obtain ⟨taken, inner⟩ := Item.readsAs_token (.string s)
  have reads : enterToken setting (doubleQuote :: s ++ [doubleQuote]) = pushPending (.text s) := by
    rw [enterToken]
    exact (if_pos taken).trans (congrArg (fun t => pushPending (.text t)) inner)
  rw [enterTokens, reads]
  rfl

/-- A string literal waits on the pending stack with all the lines it has, if none of them is for a
command. The double quote keeps the first line from being for one. -/
theorem enterText_string (c : Console) {s : Text} (quoteless : doubleQuote ∉ s)
    (escapeless : backslash ∉ s) (feeds : ∀ d ∈ s, d.isLineBreak → d = lineFeed)
    (plain : ∀ line ∈ (Text.lines (doubleQuote :: s ++ [doubleQuote])).tail,
      ¬ Command.isCommandLine line) :
    enterText setting (doubleQuote :: s ++ [doubleQuote]) c =
      .ok () { c with pending := .text s :: c.pending } := by
  obtain ⟨first, more, cut⟩ := quoted_lines (s ++ [doubleQuote])
  have all : ∀ line ∈ Text.lines (doubleQuote :: s ++ [doubleQuote]),
      ¬ Command.isCommandLine line := by
    rw [List.cons_append, cut] at plain ⊢
    exact List.forall_mem_cons.mpr ⟨not_isCommandLine_quoted first, plain⟩
  have waiting := enterLines_plain setting all [] []
  rw [List.append_nil, List.nil_append, enterLines, tokens_string quoteless escapeless feeds]
    at waiting
  rw [enterText, waiting, enterTokens_string]

theorem enterText_string_indented :
    let setting : Setting :=
      { host := fun _ _ _ => pure .null, disk := fun _ => .error .missing, fuel := 100 }
    let c : Console := { machine := {}, taskName := defaultTaskName, pending := [.int 1] }
    let s : Text := "two\n\n  # .stack\n .stacks\t"
    doubleQuote ∉ s ∧ backslash ∉ s ∧ (∀ d ∈ s, d.isLineBreak → d = lineFeed) ∧
      (∀ line ∈ (Text.lines (doubleQuote :: s ++ [doubleQuote])).tail,
        ¬ Command.isCommandLine line) ∧
      enterText setting (doubleQuote :: s ++ [doubleQuote]) c =
        .ok () { c with pending := [.text s, .int 1] } := by
  intro setting c s
  have quoteless : doubleQuote ∉ s := by decide
  have escapeless : backslash ∉ s := by decide
  have feeds : ∀ d ∈ s, d.isLineBreak → d = lineFeed := by
    have all : (s.all fun d => !d.isLineBreak || d = lineFeed) = true := by decide
    intro d member breaks
    simpa [breaks] using List.all_eq_true.mp all d member
  have plain : ∀ line ∈ (Text.lines (doubleQuote :: s ++ [doubleQuote])).tail,
      ¬ Command.isCommandLine line := by decide
  exact ⟨quoteless, escapeless, feeds, plain,
    enterText_string setting c quoteless escapeless feeds plain⟩

/-- The law does not hold of every string: a line inside one that begins like a command is taken for
the command, and the string falls into two words. -/
theorem string_cut_by_command :
    let setting : Setting :=
      { host := fun _ _ _ => pure .null, disk := fun _ => .error .missing, fuel := 100 }
    let c : Console := { machine := { built := some .initial }, taskName := defaultTaskName }
    let s : Text := "a\n.stack\nb"
    let said : Text := "undefined word: \"a\n<0> \nundefined word: b\"\n"
    doubleQuote ∉ s ∧ backslash ∉ s ∧ (∀ d ∈ s, d.isLineBreak → d = lineFeed) ∧
      enterText setting (doubleQuote :: s ++ [doubleQuote]) c =
        .ok () { c with machine := { c.machine with output := said } } ∧
      enterText setting (doubleQuote :: s ++ [doubleQuote]) c ≠
        .ok () { c with pending := .text s :: c.pending } := by
  intro setting c s said
  have feeds : (s.all fun d => !d.isLineBreak || d = lineFeed) = true := by decide
  have result : enterText setting (doubleQuote :: s ++ [doubleQuote]) c =
      .ok () { c with machine := { c.machine with output := said } } := by
    set_option maxRecDepth 1000 in decide +kernel
  refine ⟨by decide, by decide, fun d member breaks => ?_, result, ?_⟩
  · simpa [breaks] using List.all_eq_true.mp feeds d member
  · rw [result]
    intro same
    injection same with _ state
    injection state with _ _ pending
    cases pending

end Console

end ThreadedCode
