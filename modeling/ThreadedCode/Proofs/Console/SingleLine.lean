import ThreadedCode.Proofs.Console.Joining
import ThreadedCode.Proofs.Lexer.Rendering

/-!
Text of a single line, entered at the console. Unless the line is for a command, its tokens are
entered in order.
-/

namespace ThreadedCode

theorem CodePoint.isBlank_of_isLineBreak {c : CodePoint} (breaks : c.isLineBreak) : c.isBlank := by
  simp only [isLineBreak, isBlank, inRanges] at breaks ⊢
  grind

theorem Text.lines_unbroken {t : Text} (filled : t ≠ []) (unbroken : ∀ c ∈ t, ¬ c.isLineBreak) :
    lines t = [t] := by
  induction t with
  | nil => exact absurd rfl filled
  | cons c t ih =>
    rw [List.forall_mem_cons] at unbroken
    rw [lines_of_other unbroken.1]
    cases t with
    | nil => rfl
    | cons d t =>
      rw [ih (List.cons_ne_nil d t) unbroken.2]
      rfl

namespace Command

theorem head?_name (command : Command) : command.name.head? = some '.' := by
  cases command <;> rfl

theorem not_isCommandLine {c : CodePoint} (dark : ¬ c.isBlank) (other : c ≠ '.') (rest : Text) :
    ¬ isCommandLine (c :: rest) := by
  have first : Text.firstWord? (c :: rest) = some (c :: rest.takeWhile fun c => !c.isBlank) := by
    rw [Text.firstWord?, Text.trimLeft, List.dropWhile_cons_of_neg dark]
    simp [dark]
  have none_ : ofName? (c :: rest.takeWhile fun c => !c.isBlank) = none := by
    refine List.find?_eq_none.mpr fun command _ same => other ?_
    have heads := congrArg List.head? (of_decide_eq_true same)
    rw [head?_name] at heads
    exact (Option.some.inj heads).symm
  rw [isCommandLine, first]
  simp only [none_]
  decide

theorem isCommandLine_word {t : Text} (filled : t ≠ []) (dark : ∀ c ∈ t, ¬ c.isBlank) :
    isCommandLine t = (ofName? t).isSome := by
  obtain ⟨c, rest, rfl⟩ := List.exists_cons_of_ne_nil filled
  have all : (c :: rest).takeWhile (fun c => !c.isBlank) = c :: rest :=
    List.takeWhile_eq_self_iff.mpr fun d member => by simp [dark d member]
  have first : Text.firstWord? (c :: rest) = some (c :: rest) := by
    rw [Text.firstWord?, Text.trimLeft, List.dropWhile_cons_of_neg (dark c List.mem_cons_self)]
    exact congrArg some all
  rw [isCommandLine, first]

end Command

namespace Lexer

theorem BareWord.exists_text {t : Text} (filled : t ≠ []) (notString : t.head? ≠ some .doubleQuote)
    (notComment : t.head? ≠ some .numberSign) (dark : ∀ c ∈ t, ¬ c.isBlank) :
    ∃ w : BareWord, w.text = t := by
  obtain ⟨first, rest, rfl⟩ := List.exists_cons_of_ne_nil filled
  have unbroken : ∀ c ∈ first :: rest, Grammar.isWordChar c := fun c member => by
    simp [Grammar.isWordChar, dark c member]
  exact ⟨⟨first, rest, fun same => notString (congrArg some same),
    fun same => notComment (congrArg some same), unbroken⟩, rfl⟩

theorem RendersLine.after_blanks {gap line : Text} {items : List Item} (filled : gap ≠ [])
    (white : ∀ c ∈ gap, c.isBlank) (more : RendersLine true items line) :
    RendersLine false items (gap ++ line) := by
  have all : ∀ gap : Text, (∀ c ∈ gap, c.isBlank) → RendersLine true items (gap ++ line) := by
    intro gap white
    induction gap with
    | nil => exact more
    | cons c gap ih =>
      rw [List.forall_mem_cons] at white
      exact .blank true white.1 (ih white.2)
  obtain ⟨c, gap, rfl⟩ := List.exists_cons_of_ne_nil filled
  rw [List.forall_mem_cons] at white
  exact .blank false white.1 (all gap white.2)

end Lexer

namespace Console

open Lexer

theorem enterText_line (setting : Setting) {line : Text} (unbroken : ∀ c ∈ line, ¬ c.isLineBreak)
    (plain : ¬ Command.isCommandLine line) :
    enterText setting line = enterTokens setting (lineTokens line) := by
  by_cases filled : line = []
  · rw [filled]
    rfl
  · rw [enterText, Text.lines_unbroken filled unbroken, enterLines, if_neg plain, enterLines]
    rfl

theorem enterText_items (setting : Setting) {items : List Item} {line : Text}
    (written : RendersLine true items line) (unbroken : ∀ c ∈ line, ¬ c.isLineBreak)
    (plain : ¬ Command.isCommandLine line) :
    enterText setting line = enterTokens setting (items.map Item.token) := by
  have whole : Renders (items ++ []) [line] := .line written .nil
  rw [enterText_line setting unbroken plain, lineTokens, tokens_of_renders whole, List.append_nil]

end Console

end ThreadedCode
