import ThreadedCode.Lexer.Token
import ThreadedCode.Proofs.Lexer.Descent

/-!
Which tokens are taken for strings. The grammar knows of each of its tokens whether it is a word, a
string that a double quote closes, or a string that the source leaves open. The text of the token
tells the closed strings from the words. From the open strings it does not tell them: the content of
one may end in a double quote that an escape stands for.
-/

namespace ThreadedCode

namespace CodePoint

theorem simpleLower_ne_doubleQuote {c : CodePoint} (h : c ≠ .doubleQuote) :
    c.simpleLower ≠ .doubleQuote := by
  have past : LowerCaseRun.table.all fun run => decide (0x22 < run.first + run.shift) := by
    decide +kernel
  unfold simpleLower
  cases found : LowerCaseRun.table.find? (·.covers c) with
  | none => exact h
  | some run =>
    have covered := List.find?_some found
    have shifted := of_decide_eq_true (List.all_eq_true.mp past run (List.mem_of_find?_eq_some found))
    simp only [LowerCaseRun.covers, Bool.and_eq_true, decide_eq_true_eq] at covered
    intro same
    dsimp only [ofNat?] at same
    split at same
    next bound =>
      have value : (c.val + run.shift).toNat = 0x22 := congrArg Fin.val same
      omega
    next => exact h same

end CodePoint

theorem Text.head?_lowerAt {c : CodePoint} (h : c ≠ .doubleQuote) (before after : Text) :
    ∃ d, (lowerAt before c after).head? = some d ∧ d ≠ .doubleQuote := by
  unfold lowerAt
  split
  · split
    · exact ⟨.finalSigma, rfl, by decide⟩
    · exact ⟨.smallSigma, rfl, by decide⟩
  · split
    · exact ⟨0x69, rfl, by decide⟩
    · exact ⟨c.simpleLower, rfl, CodePoint.simpleLower_ne_doubleQuote h⟩

theorem Text.head?_lower_ne {c : CodePoint} (h : c ≠ .doubleQuote) (rest : Text) :
    (Text.lower (c :: rest)).head? ≠ some .doubleQuote := by
  obtain ⟨d, first, other⟩ := head?_lowerAt h [] rest
  rw [lower, lowerAfter, List.head?_append, first]
  exact fun same => other (Option.some.inj same)

namespace Lexer

/-- A token by what it is in the source: a bare word, a string that a double quote closes, or what has
been taken of a string that the end of the source leaves open. -/
inductive Lexeme where
  | word (first : CodePoint) (rest : Text)
  | closed (content : Text)
  | unclosed (taken : Text)
deriving DecidableEq

def Lexeme.token : Lexeme → Text
  | word first rest => Text.lower (first :: rest)
  | closed content => .doubleQuote :: content ++ [.doubleQuote]
  | unclosed taken => taken

namespace Grammar

def lexemes : Text → List Text → List Lexeme
  | [], [] => []
  | [], line :: lines => lexemes line lines
  | c :: line, lines =>
    if c.isBlank then lexemes line lines
    else if c = .numberSign then lexemes [] lines
    else if c = .doubleQuote then
      match read : content line lines with
      | ⟨text, some (line, lines)⟩ => .closed text :: lexemes line lines
      | ⟨text, none⟩ => [.unclosed ([.doubleQuote] ++ text)]
    else .word c (line.takeWhile isWordChar) :: lexemes (line.dropWhile isWordChar) lines
termination_by line lines => Place.size (line, lines)
decreasing_by
  · simp only [Place.size, linesSize, List.length_nil]
    omega
  · simp only [Place.size, List.length_cons]
    omega
  · simp only [Place.size, List.length_cons, List.length_nil]
    omega
  · have := content_size_le _ _ (line, lines) (by rw [read])
    simp only [Place.size, List.length_cons] at this ⊢
    omega
  · have := (List.dropWhile_sublist isWordChar (l := line)).length_le
    simp only [Place.size, List.length_cons] at this ⊢
    omega

theorem program_eq_map_lexemes (line : Text) (lines : List Text) :
    program line lines = (lexemes line lines).map Lexeme.token := by
  fun_induction lexemes line lines with
  | case1 => exact program.eq_1
  | case2 line lines ih => rw [program, ih]
  | case3 c line lines blank ih => rw [program_blank blank, ih]
  | case4 line lines blank ih => rw [program_comment, ih]
  | case5 line lines text line' lines' read blank sign ih =>
    rw [program_string read, List.map_cons, ← ih]
    rfl
  | case6 line lines text read blank sign => exact program_string read
  | case7 c line lines blank sign quote ih =>
    rw [program_bare blank sign quote, ih]
    rfl

theorem first_ne_doubleQuote {line : Text} {lines : List Text} {first : CodePoint} {rest : Text}
    (member : .word first rest ∈ lexemes line lines) : first ≠ .doubleQuote := by
  fun_induction lexemes line lines with
  | case1 => cases member
  | case2 line lines ih => exact ih member
  | case3 c line lines blank ih => exact ih member
  | case4 line lines blank ih => exact ih member
  | case5 line lines text line' lines' read blank sign ih =>
    exact ih ((List.mem_cons.mp member).resolve_left nofun)
  | case6 line lines text read blank sign =>
    exact absurd (List.mem_singleton.mp member) nofun
  | case7 c line lines blank sign quote ih =>
    rcases List.mem_cons.mp member with same | later
    · cases same
      exact quote
    · exact ih later

end Grammar

theorem isString_iff {token : Text} :
    token.isString ↔ ∃ inner, token = .doubleQuote :: inner ++ [.doubleQuote] := by
  simp only [Text.isString, Bool.and_eq_true, decide_eq_true_eq]
  constructor
  · rintro ⟨⟨long, first⟩, last⟩
    obtain ⟨rest, rfl⟩ := List.head?_eq_some_iff.mp first
    rcases rest.eq_nil_or_concat with rfl | ⟨inner, c, rfl⟩
    · simp at long
    · rw [List.concat_eq_append, ← List.cons_append, List.getLast?_concat] at last
      cases last
      exact ⟨inner, by rw [List.concat_eq_append, List.cons_append]⟩
  · rintro ⟨inner, rfl⟩
    exact ⟨⟨by simp, rfl⟩, List.getLast?_concat⟩

def lexemes (lines : List Text) : List Lexeme := Grammar.lexemes [] (lines.map Text.chomp)

/-- A token is taken for a string exactly if a double quote closes it, or if it is what there is of an
open string and the content ends in a double quote. The latter is one that an escape stands for, as
any other would have closed the string. Words are never taken for strings. -/
theorem isString_iff_closed (lines : List Text) :
    tokens lines = (lexemes lines).map Lexeme.token ∧
      ∀ x ∈ lexemes lines, x.token.isString ↔
        (∃ content, x = .closed content) ∨
          ∃ content, x = .unclosed (.doubleQuote :: content ++ [.doubleQuote]) := by
  refine ⟨by rw [tokens_eq_program, Grammar.program_eq_map_lexemes, lexemes], fun x member => ?_⟩
  rw [isString_iff]
  cases x with
  | word first rest =>
    have other := Text.head?_lower_ne (Grammar.first_ne_doubleQuote member) rest
    constructor
    · rintro ⟨inner, same⟩
      exact absurd (congrArg List.head? same) other
    · rintro (⟨_, same⟩ | ⟨_, same⟩)
      · cases same
      · cases same
  | closed content => exact iff_of_true ⟨content, rfl⟩ (Or.inl ⟨content, rfl⟩)
  | unclosed taken => simp [Lexeme.token]

theorem isString_iff_closed_mixed :
    let lines : List Text := ["Dup \"a b\" \"c\\\""]
    let word : Lexeme := .word 'D' ['u', 'p']
    let closed : Lexeme := .closed "a b"
    let unclosed : Lexeme := .unclosed "\"c\""
    lexemes lines = [word, closed, unclosed] ∧
      ¬ word.token.isString ∧ closed.token.isString ∧ unclosed.token.isString := by
  intro lines word closed unclosed
  have known : lexemes lines = [word, closed, unclosed] := by decide +kernel
  have taken : ∀ x ∈ [word, closed, unclosed], x.token.isString ↔ _ := fun x member =>
    (isString_iff_closed lines).2 x (known ▸ member)
  refine ⟨known, ?_, (taken closed (by simp)).mpr (Or.inl ⟨_, rfl⟩),
    (taken unclosed (by simp)).mpr (Or.inr ⟨['c'], rfl⟩)⟩
  rw [taken word (by simp)]
  rintro (⟨_, same⟩ | ⟨_, same⟩)
  · exact Lexeme.noConfusion same
  · exact Lexeme.noConfusion same

/-- The one line of this source is a string with an escaped quote at its end, and no quote to close
it. The token reads like the string of a single letter. -/
theorem unclosed_taken_for_string :
    let lines : List Text := ["\"a\\\""]
    let token : Text := "\"a\""
    lexemes lines = [.unclosed token] ∧ tokens lines = [token] ∧ token.isString ∧
      token.unquote = "a" := by
  intro lines token
  exact ⟨by decide +kernel, by decide, by decide, by decide⟩

end Lexer

end ThreadedCode
