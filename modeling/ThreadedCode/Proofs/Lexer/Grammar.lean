import ThreadedCode.Lexer.Basic

/-!
The grammar of the source text by recursive descent, on lines whose ends are cut off. A reader of
the grammar takes a whole token at once, a string with its escapes over as many lines as it needs.
Main statement: the lexer, which goes from code point to code point, gives the same tokens.
-/

namespace ThreadedCode.Lexer.Grammar

def digits (digit? : CodePoint → Option Nat) (limit : Nat) (line : Text) : Text :=
  (line.takeWhile fun c => (digit? c).isSome).take limit

def charOr (literal : Text) (number : Nat) : Text :=
  match CodePoint.ofNat? number with
  | some c => [c]
  | none => literal

/-- What the escape of a backslash, `c` and `line` stands for, and the line after the escape. -/
def escape (c : CodePoint) (line : Text) : Text × Text :=
  match simpleEscape? c, octalDigit? c, HexForm.ofLetter? c with
  | some meaning, _, _ => ([meaning], line)
  | none, some _, _ =>
    let more := digits octalDigit? 2 line
    (charOr (.backslash :: c :: more) (numberOf 8 octalDigit? (c :: more)),
      line.drop more.length)
  | none, none, some form =>
    let ds := digits hexDigit? form.width line
    let literal := .backslash :: c :: ds
    (if ds.length = form.width then charOr literal (numberOf 16 hexDigit? ds) else literal,
      line.drop ds.length)
  | none, none, none => ([.backslash, c], line)

abbrev Place := Text × List Text

def linesSize : List Text → Nat
  | [] => 0
  | line :: lines => line.length + 1 + linesSize lines

def Place.size (p : Place) : Nat := p.1.length + linesSize p.2

theorem escape_length_le (c : CodePoint) (line : Text) :
    (escape c line).2.length ≤ line.length := by
  unfold escape
  split
  · exact Nat.le_refl _
  · exact List.length_drop ▸ Nat.sub_le _ _
  · exact List.length_drop ▸ Nat.sub_le _ _
  · exact Nat.le_refl _

structure Reading where
  text : Text
  next : Option Place

def Reading.after (text : Text) (r : Reading) : Reading := ⟨text ++ r.text, r.next⟩

/-- Reads a string from a place inside it on. -/
def content : Text → List Text → Reading
  | [], [] => ⟨[], none⟩
  | [], line :: lines => (content line lines).after [.lineFeed]
  | c :: line, lines =>
    if c = .doubleQuote then ⟨[], some (line, lines)⟩
    else if c = .backslash then
      match line, lines with
      | [], [] => ⟨[], none⟩
      | [], line :: lines => content line lines
      | e :: line, lines => (content (escape e line).2 lines).after (escape e line).1
    else (content line lines).after [c]
termination_by line lines => Place.size (line, lines)
decreasing_by
  · simp only [Place.size, linesSize, List.length_nil]
    omega
  · simp only [Place.size, linesSize, List.length_cons]
    omega
  · have := escape_length_le e line
    simp only [Place.size, List.length_cons]
    omega
  · simp only [Place.size, List.length_cons]
    omega

theorem content_size_le (line : Text) (lines : List Text) (p : Place)
    (h : (content line lines).next = some p) : p.size ≤ Place.size (line, lines) := by
  fun_induction content line lines with
  | case1 => simp at h
  | case2 line lines ih =>
    have := ih h
    simp only [Place.size, linesSize, List.length_nil] at this ⊢
    omega
  | case3 line lines =>
    obtain rfl := Option.some.inj h
    simp [Place.size]
  | case4 => simp at h
  | case5 line lines _ ih =>
    have := ih h
    simp only [Place.size, linesSize] at this ⊢
    omega
  | case6 e line lines _ ih =>
    have size := ih h
    have := escape_length_le e line
    simp only [Place.size, List.length_cons] at size ⊢
    omega
  | case7 c line lines _ _ ih =>
    have := ih h
    simp only [Place.size, List.length_cons] at this ⊢
    omega

def isWordChar (c : CodePoint) : Bool := !c.isBlank

def program : Text → List Text → List Text
  | [], [] => []
  | [], line :: lines => program line lines
  | c :: line, lines =>
    if c.isBlank then program line lines
    else if c = .numberSign then program [] lines
    else if c = .doubleQuote then
      match h : content line lines with
      | ⟨text, some (line, lines)⟩ =>
        (.doubleQuote :: text ++ [.doubleQuote]) :: program line lines
      | ⟨text, none⟩ => [.doubleQuote :: text]
    else
      Text.lower (c :: line.takeWhile isWordChar) :: program (line.dropWhile isWordChar) lines
termination_by line lines => Place.size (line, lines)
decreasing_by
  · simp only [Place.size, linesSize, List.length_nil]
    omega
  · simp only [Place.size, List.length_cons]
    omega
  · simp only [Place.size, List.length_cons, List.length_nil]
    omega
  · have := content_size_le _ _ (line, lines) (by rw [h])
    simp only [Place.size, List.length_cons] at this ⊢
    omega
  · have := (List.dropWhile_sublist isWordChar (l := line)).length_le
    simp only [Place.size, List.length_cons] at this ⊢
    omega

section Equations

variable {lines : List Text}

theorem content_quote (line : Text) :
    content (.doubleQuote :: line) lines = ⟨[], some (line, lines)⟩ := by
  rw [content.eq_def]
  exact if_pos rfl

theorem content_backslash (e : CodePoint) (line : Text) :
    content (.backslash :: e :: line) lines =
      (content (escape e line).2 lines).after (escape e line).1 := by
  have quote : CodePoint.backslash ≠ .doubleQuote := by decide
  rw [content.eq_def]
  exact (if_neg quote).trans (if_pos rfl)

theorem content_literal {c : CodePoint} (quote : c ≠ .doubleQuote) (backslash : c ≠ .backslash)
    (line : Text) : content (c :: line) lines = (content line lines).after [c] := by
  rw [content.eq_def]
  exact (if_neg quote).trans (if_neg backslash)

theorem program_blank {c : CodePoint} (white : c.isBlank) (line : Text) :
    program (c :: line) lines = program line lines := by
  rw [program, if_pos white]

theorem program_comment (remark : Text) :
    program (.numberSign :: remark) lines = program [] lines := by
  have dark : ¬ CodePoint.numberSign.isBlank := by decide
  rw [program, if_neg dark, if_pos rfl]

theorem program_string {line text : Text} {next : Option Place}
    (read : content line lines = ⟨text, next⟩) :
    program (.doubleQuote :: line) lines =
      match next with
      | some (line, lines) => (.doubleQuote :: text ++ [.doubleQuote]) :: program line lines
      | none => [.doubleQuote :: text] := by
  have dark : ¬ CodePoint.doubleQuote.isBlank := by decide
  have sign : CodePoint.doubleQuote ≠ .numberSign := by decide
  rw [program, if_neg dark, if_neg sign, if_pos rfl]
  split
  next h =>
    rw [read] at h
    cases h
    rfl
  next h =>
    rw [read] at h
    cases h
    rfl

theorem program_bare {c : CodePoint} (dark : ¬ c.isBlank) (sign : c ≠ .numberSign)
    (quote : c ≠ .doubleQuote) (line : Text) :
    program (c :: line) lines =
      Text.lower (c :: line.takeWhile isWordChar) ::
        program (line.dropWhile isWordChar) lines := by
  rw [program, if_neg dark, if_neg sign, if_neg quote]

end Equations

end ThreadedCode.Lexer.Grammar
