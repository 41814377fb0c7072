import ThreadedCode.Proofs.Lexer.Grammar

/-!
The lexer goes from code point to code point and keeps what it has of a token and of an escape; the
grammar takes whole tokens. Both give the same tokens of every source. The lemmas say, for each state
of the lexer, where it stands after the token or the escape that the state is in the middle of.
-/

namespace ThreadedCode.Lexer

open Grammar

def runLines : Carry → List Text → List Text
  | carry, [] => carry.partialToken.toList
  | carry, line :: lines =>
    (lexRest (startLine carry) line).1 ++ runLines (lexRest (startLine carry) line).2 lines

def resume (s : State) (line : Text) (lines : List Text) : List Text :=
  (lexRest s line).1 ++ runLines (lexRest s line).2 lines

theorem resume_cons (s : State) (c : CodePoint) (line : Text) (lines : List Text) :
    resume s (c :: line) lines =
      match step s c with
      | .advance s => resume s line lines
      | .token t => t :: resume .space line lines
      | .comment => resume .space [] lines := by
  cases h : step s c <;> simp [resume, lexRest, h, endLine]

theorem resume_nil (s : State) (line : Text) (lines : List Text) :
    resume s [] (line :: lines) =
      (endLine s).1.toList ++ resume (startLine (endLine s).2) line lines := rfl

theorem resume_end (s : State) :
    resume s [] [] = (endLine s).1.toList ++ (endLine s).2.partialToken.toList := rfl

theorem resume_nil_congr {s t : State} (h : endLine s = endLine t) (lines : List Text) :
    resume s [] lines = resume t [] lines := by
  cases lines <;> simp only [resume_nil, resume_end, h]

theorem lexLines_eq_runLines (carry : Carry) (lines : List Text) :
    (lexLines carry lines).1 ++ (lexLines carry lines).2.partialToken.toList =
      runLines carry (lines.map Text.chomp) := by
  induction lines generalizing carry with
  | nil => rfl
  | cons line lines ih =>
    rw [List.map_cons, runLines, ← ih]
    exact List.append_assoc _ _ _

theorem tokens_eq_resume (lines : List Text) :
    tokens lines = resume .space [] (lines.map Text.chomp) :=
  lexLines_eq_runLines .outside lines

theorem resume_word (taken line : Text) (lines : List Text) :
    resume (.word taken) line lines =
      (taken ++ line.takeWhile isWordChar).lower ::
        resume .space (line.dropWhile isWordChar) lines := by
  induction line generalizing taken with
  | nil => cases lines <;> simp [resume_nil, resume_end, endLine, startLine]
  | cons c line ih =>
    rw [resume_cons]
    by_cases hc : c.isBlank
    · simp [step, hc, isWordChar, resume_cons]
    · simp [step, hc, isWordChar, ih]

section Digits

variable (digit? : CodePoint → Option Nat)

@[simp]
theorem digits_nil (limit : Nat) : digits digit? limit [] = [] := by simp [digits]

theorem digits_cons_of_digit (limit : Nat) {c : CodePoint} (line : Text)
    (hc : (digit? c).isSome) :
    digits digit? (limit + 1) (c :: line) = c :: digits digit? limit line := by
  simp [digits, hc]

theorem digits_cons_of_other (limit : Nat) {c : CodePoint} (line : Text)
    (hc : (digit? c).isSome = false) : digits digit? limit (c :: line) = [] := by
  simp [digits, hc]

/-- An escape with digits takes all that it can. This covers octal and hexadecimal ones: `pending`
says which, and the two hypotheses are what the lexer does with either. -/
theorem resume_digits (pending : Text → Pending) (limit : Nat)
    (step_eq : ∀ taken ds c, stepEscape taken c (pending ds) =
      if (digit? c).isSome then
        if ds.length + 1 = limit then .advance (.string (taken ++ (pending (ds ++ [c])).resolve))
        else .advance (.escape taken (pending (ds ++ [c])))
      else stepString (taken ++ (pending ds).resolve) c)
    (end_eq : ∀ taken ds, endLine (.escape taken (pending ds)) =
      (none, .inString (taken ++ (pending ds).resolve) true))
    (taken ds line : Text) (lines : List Text) (room : ds.length < limit) :
    resume (.escape taken (pending ds)) line lines =
      resume
        (.string (taken ++ (pending (ds ++ digits digit? (limit - ds.length) line)).resolve))
        (line.drop (digits digit? (limit - ds.length) line).length) lines := by
  -- on the line, with the digits that are taken so far
  induction line generalizing ds with
  | nil =>
    rw [digits_nil, List.append_nil]
    exact resume_nil_congr (end_eq taken ds) lines
  | cons c line ih =>
    obtain ⟨left, hleft⟩ : ∃ k, limit - ds.length = k + 1 := ⟨limit - ds.length - 1, by omega⟩
    rw [resume_cons, step, step_eq, hleft]
    cases hc : (digit? c).isSome with
    | true =>
      rw [digits_cons_of_digit digit? left line hc, if_pos rfl]
      by_cases full : ds.length + 1 = limit
      · obtain rfl : left = 0 := by omega
        simp [full, digits]
      · have ih := ih (ds ++ [c]) (by simp; omega)
        have hlen : limit - (ds ++ [c]).length = left := by
          simp only [List.length_append, List.length_singleton]
          omega
        rw [hlen, List.append_assoc, List.singleton_append] at ih
        rw [if_neg full]
        exact ih
    | false =>
      rw [digits_cons_of_other digit? (left + 1) line hc, List.append_nil]
      simp only [List.length_nil, List.drop_zero, resume_cons, step]
      rfl

end Digits

theorem length_digits_le (digit? : CodePoint → Option Nat) (limit : Nat) (line : Text) :
    (digits digit? limit line).length ≤ limit :=
  List.length_take_le _ _

theorem octalDigit?_le (c : CodePoint) : (octalDigit? c).getD 0 ≤ 7 := by
  unfold octalDigit?
  split
  next h =>
    simp only [Bool.and_eq_true, decide_eq_true_eq] at h
    simp only [Option.getD_some]
    omega
  next => exact Nat.zero_le 7

theorem numberOf_octal_lt (ds : Text) (few : ds.length ≤ 3) : numberOf 8 octalDigit? ds < 512 := by
  match ds, few with
  | [], _ => decide
  | [a], _ =>
    have ha := octalDigit?_le a
    simp only [numberOf, List.foldl]
    omega
  | [a, b], _ =>
    have ha := octalDigit?_le a
    have hb := octalDigit?_le b
    simp only [numberOf, List.foldl]
    omega
  | [a, b, c], _ =>
    have ha := octalDigit?_le a
    have hb := octalDigit?_le b
    have hc := octalDigit?_le c
    simp only [numberOf, List.foldl]
    omega
  | _ :: _ :: _ :: _ :: _, few => exact absurd few (by simp)

theorem resolve_octal (literal : Text) {ds : Text} (few : ds.length ≤ 3) :
    Pending.resolve (.octal ds) = charOr literal (numberOf 8 octalDigit? ds) := by
  have small : numberOf 8 octalDigit? ds < 0x110000 :=
    Nat.lt_of_lt_of_le (numberOf_octal_lt ds few) (by decide)
  simp [Pending.resolve, charOr, CodePoint.ofNat?, small]

theorem resolve_hex {form : HexForm} {ds : Text} (few : ds.length ≤ form.width) :
    Pending.resolve (.hex form ds) =
      if ds.length = form.width then
        charOr (.backslash :: form.letter :: ds) (numberOf 16 hexDigit? ds)
      else .backslash :: form.letter :: ds := by
  unfold Pending.resolve charOr
  dsimp only
  by_cases full : ds.length = form.width
  · have done : ¬ ds.length < form.width := by omega
    exact (if_neg done).trans (if_pos full).symm
  · have cut : ds.length < form.width := by omega
    exact (if_pos cut).trans (if_neg full).symm

theorem letter_of_ofLetter? {c : CodePoint} {form : HexForm}
    (h : HexForm.ofLetter? c = some form) : form.letter = c := by
  simpa using List.find?_some h

theorem resume_escape (taken : Text) (c : CodePoint) (line : Text) (lines : List Text) :
    resume (.escape taken .start) (c :: line) lines =
      resume (.string (taken ++ (escape c line).1)) (escape c line).2 lines := by
  rw [resume_cons, step]
  cases hs : simpleEscape? c with
  | some meaning => simp only [stepEscape, escape, hs]
  | none =>
  cases ho : octalDigit? c with
  | some d =>
    have few : ([c] ++ digits octalDigit? 2 line).length ≤ 3 :=
      Nat.succ_le_succ (length_digits_le octalDigit? 2 line)
    have taken3 := resume_digits octalDigit? .octal 3
      (fun _ _ _ => rfl) (fun _ _ => rfl) taken [c] line lines (by simp)
    simp only [stepEscape, escape, hs, ho]
    rw [taken3, List.length_singleton,
      resolve_octal (.backslash :: c :: digits octalDigit? 2 line) few]
    rfl
  | none =>
  cases hx : HexForm.ofLetter? c with
  | some form =>
    have few := length_digits_le hexDigit? form.width line
    have takenAll := resume_digits hexDigit? (.hex form) form.width
      (fun _ _ _ => rfl) (fun _ _ => rfl) taken [] line lines (by cases form <;> decide)
    simp only [stepEscape, escape, hs, ho, hx]
    rw [takenAll, List.length_nil, Nat.sub_zero, List.nil_append, resolve_hex few,
      letter_of_ofLetter? hx]
  | none => simp only [stepEscape, escape, hs, ho, hx]

/-- The tokens after a string of which `taken` and the reading are the two parts. -/
def close (taken : Text) : Reading → List Text
  | ⟨text, some (line, lines)⟩ =>
    (taken ++ text ++ [.doubleQuote]) :: resume .space line lines
  | ⟨text, none⟩ => [taken ++ text]

theorem close_after (taken text : Text) (r : Reading) :
    close taken (r.after text) = close (taken ++ text) r := by
  obtain ⟨rest, next⟩ := r
  cases next <;> simp [close, Reading.after]

theorem resume_string (taken line : Text) (lines : List Text) :
    resume (.string taken) line lines = close taken (content line lines) := by
  fun_induction content line lines generalizing taken with
  | case1 => simp [resume_end, endLine, Carry.partialToken, close]
  | case2 line lines ih =>
    rw [close_after, ← ih]
    rfl
  | case3 line lines =>
    have quote : CodePoint.doubleQuote ≠ .backslash := by decide
    simp [resume_cons, step, stepString, close, quote]
  | case4 => simp [resume_cons, resume_end, step, stepString, endLine, Carry.partialToken, close]
  | case5 line lines _ ih =>
    rw [← ih, resume_cons]
    rfl
  | case6 e line lines _ ih =>
    rw [close_after, ← ih, ← resume_escape, resume_cons]
    rfl
  | case7 c line lines quote backslash ih =>
    rw [close_after, ← ih, resume_cons]
    simp [step, stepString, quote, backslash]

theorem resume_space (line : Text) (lines : List Text) :
    resume .space line lines = program line lines := by
  fun_induction program line lines with
  | case1 => rfl
  | case2 line lines ih => exact ih
  | case3 c line lines blank ih =>
    rw [← ih, resume_cons]
    simp [step, blank]
  | case4 line lines blank ih =>
    rw [← ih, resume_cons]
    simp [step, blank]
  | case5 line lines text line' lines' h blank sign ih =>
    rw [resume_cons]
    simp [step, blank, sign, resume_string, h, close, ih]
  | case6 line lines text h blank sign =>
    rw [resume_cons]
    simp [step, blank, sign, resume_string, h, close]
  | case7 c line lines blank sign quote ih =>
    rw [resume_cons]
    simp [step, blank, sign, quote, resume_word, ih]

/-- The lexer gives the tokens of the grammar. -/
theorem tokens_eq_program (lines : List Text) :
    tokens lines = program [] (lines.map Text.chomp) := by
  rw [tokens_eq_resume, resume_space]

end ThreadedCode.Lexer
