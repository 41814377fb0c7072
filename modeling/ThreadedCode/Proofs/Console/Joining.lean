import Mathlib.Data.List.DropRight
import ThreadedCode.Console.Entry
import ThreadedCode.Proofs.Text.Lines

/-!
Text that is entered in parts. Between two command lines the lines of a text are one source for the
lexer, and a command line ends the source. So a text can be cut at the end of any line at which the
lexer is outside strings, and its parts be entered one after the other, to the same effect.
-/

namespace ThreadedCode

namespace Lexer

theorem tokens_append {first : List Text} (closed : (lexLines .outside first).2 = .outside)
    (more : List Text) : tokens (first ++ more) = tokens first ++ tokens more := by
  simp only [tokens, lexLines_append, closed, Carry.partialToken, Option.toList_none,
    List.append_nil, List.append_assoc]

theorem lexLines_empty {seam : List Text} (empty : ∀ line ∈ seam, line = []) :
    lexLines .outside seam = ([], .outside) := by
  induction seam with
  | nil => rfl
  | cons line seam ih =>
    obtain rfl := empty line List.mem_cons_self
    exact congrArg (fun lexed => ([] ++ lexed.1, lexed.2))
      (ih fun line member => empty line (List.mem_cons_of_mem _ member))

end Lexer

namespace Console

open Lexer

variable (setting : Setting)

theorem enterTokens_eq_forM (tokens : List Text) :
    enterTokens setting tokens = forM tokens (enterToken setting) := by
  induction tokens with
  | nil => rfl
  | cons token tokens ih => rw [enterTokens, ih, List.forM_cons]

theorem enterTokens_append (first more : List Text) :
    enterTokens setting (first ++ more) = (do
      enterTokens setting first
      enterTokens setting more) := by
  simp only [enterTokens_eq_forM, List.forM_append]

section Lines

variable {source lines : List Text}

theorem enterLines_source (closed : (lexLines .outside source).2 = .outside)
    (source' lines : List Text) :
    enterLines setting (source ++ source') lines = (do
      enterTokens setting (tokens source)
      enterLines setting source' lines) := by
  induction lines generalizing source' with
  | nil => rw [enterLines, tokens_append closed, enterTokens_append, enterLines]
  | cons line lines ih =>
    by_cases command : Command.isCommandLine line
    · simp only [enterLines, if_pos command, tokens_append closed, enterTokens_append,
        bind_assoc]
    · rw [enterLines, if_neg command, List.append_assoc, ih, enterLines, if_neg command]

theorem enterLines_plain (plain : ∀ line ∈ lines, ¬ Command.isCommandLine line)
    (source more : List Text) :
    enterLines setting source (lines ++ more) = enterLines setting (source ++ lines) more := by
  induction lines generalizing source with
  | nil => rw [List.nil_append, List.append_nil]
  | cons line lines ih =>
    rw [List.cons_append, enterLines, if_neg (plain line List.mem_cons_self),
      ih fun line member => plain line (List.mem_cons_of_mem _ member), List.append_assoc,
      List.singleton_append]

theorem enterLines_command {command : Text} (named : Command.isCommandLine command)
    (source before more : List Text) :
    enterLines setting source (before ++ command :: more) = (do
      enterLines setting source (before ++ [command])
      enterLines setting [] more) := by
  induction before generalizing source with
  | nil =>
    simp only [List.nil_append, enterLines, if_pos named, bind_assoc]
    rfl
  | cons line before ih =>
    by_cases other : Command.isCommandLine line
    · simp only [List.cons_append, enterLines, if_pos other, ih, bind_assoc]
    · simp only [List.cons_append, enterLines, if_neg other, ih]

/-- The lines that are still a source at the end: those after the last command line. -/
def openLines (lines : List Text) : List Text :=
  lines.rtakeWhile fun line => !Command.isCommandLine line

theorem openLines_plain {line : Text} (member : line ∈ openLines lines) :
    ¬ Command.isCommandLine line := by
  simpa using List.mem_rtakeWhile_imp member

theorem eq_openLines_or (lines : List Text) :
    lines = openLines lines ∨ ∃ before command, Command.isCommandLine command ∧
      lines = before ++ command :: openLines lines := by
  let plain : Text → Bool := fun line => !Command.isCommandLine line
  have whole : lines.rdropWhile plain ++ openLines lines = lines :=
    List.rdropWhile_append_rtakeWhile
  rcases List.eq_nil_or_concat (lines.rdropWhile plain) with none_ | ⟨before, command, last⟩
  · rw [none_, List.nil_append] at whole
    exact .inl whole.symm
  · have some_ : lines.rdropWhile plain ≠ [] := by simp [last]
    have named : ¬ plain ((lines.rdropWhile plain).getLast some_) :=
      List.rdropWhile_last_not plain lines some_
    refine .inr ⟨before, command, by simpa [last, plain] using named, ?_⟩
    rw [last, List.concat_append] at whole
    exact whole.symm

theorem enterLines_append_of_plain (plain : ∀ line ∈ lines, ¬ Command.isCommandLine line)
    (closed : (lexLines .outside lines).2 = .outside) (more : List Text) :
    enterLines setting [] (lines ++ more) = (do
      enterLines setting [] lines
      enterLines setting [] more) := by
  have alone : enterLines setting [] lines = enterTokens setting (tokens lines) := by
    have waiting := enterLines_plain setting plain [] []
    rwa [List.append_nil, List.nil_append] at waiting
  have first := enterLines_source setting closed [] more
  rw [List.append_nil] at first
  rw [enterLines_plain setting plain, List.nil_append, first, alone]

theorem enterLines_append (closed : (lexLines .outside (openLines lines)).2 = .outside)
    (more : List Text) :
    enterLines setting [] (lines ++ more) = (do
      enterLines setting [] lines
      enterLines setting [] more) := by
  have last := enterLines_append_of_plain setting (fun _ => openLines_plain) closed more
  rcases eq_openLines_or lines with whole | ⟨before, command, named, whole⟩
  · rwa [← whole] at last
  · have cut := enterLines_command setting named [] before
    calc enterLines setting [] (lines ++ more)
        = enterLines setting [] (before ++ command :: (openLines lines ++ more)) := by
          rw [← List.cons_append, ← List.append_assoc, ← whole]
      _ = (do
          enterLines setting [] (before ++ command :: openLines lines)
          enterLines setting [] more) := by
          rw [cut (openLines lines ++ more), last, cut (openLines lines), bind_assoc]
      _ = _ := by rw [← whole]

end Lines

/-- A text after a line feed is entered after the text before it, so long as this one leaves no
string open: in the lines after its last command line the lexer comes to its end outside strings. -/
theorem enterText_append (t u : Text)
    (closed : (lexLines .outside (openLines (Text.lines t))).2 = .outside) :
    enterText setting (t ++ .lineFeed :: u) = (do
      enterText setting t
      enterText setting u) := by
  obtain ⟨seam, empty, joined⟩ := Text.lines_append_lineFeed t u
  have plain : ∀ line ∈ seam, ¬ Command.isCommandLine line := by
    intro line member
    obtain rfl := empty line member
    decide
  have nothing : enterLines setting [] seam = pure () := by
    have waiting := enterLines_plain setting plain [] []
    rw [List.append_nil, List.nil_append, enterLines, tokens, lexLines_empty empty] at waiting
    exact waiting
  have after := enterLines_append_of_plain setting plain
    (congrArg Prod.snd (lexLines_empty empty)) (Text.lines u)
  rw [nothing, pure_bind] at after
  rw [enterText, joined, List.append_assoc, enterLines_append setting closed, after]
  rfl

/-- The first text cuts a string with a command, and closes another one over two lines before a
comment that ends in a carriage return; the second one quits in its second line. -/
theorem enterText_append_mixed :
    let setting : Setting :=
      { host := fun _ _ _ => pure .null, disk := fun _ => .error .missing, fuel := 100 }
    let t : Text := "\"cut\n .stack\n\"a\nb\" # open \"\r"
    let u : Text := "cr # \"\n.bye\n1"
    openLines (Text.lines t) = ["\"a", "b\" # open \""] ∧
      (lexLines .outside (openLines (Text.lines t))).2 = .outside ∧
      enterText setting (t ++ .lineFeed :: u) = (do
        enterText setting t
        enterText setting u) := by
  intro setting t u
  have closed : (lexLines .outside (openLines (Text.lines t))).2 = .outside := by decide
  exact ⟨by decide, closed, enterText_append setting t u closed⟩

end Console

end ThreadedCode
