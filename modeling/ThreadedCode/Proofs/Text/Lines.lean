import ThreadedCode.Text.Lines

/-!
The lines of a text block and of a file, as the pieces of one text between its breaks. Once every
carriage return, alone or before a line feed, is a line feed, a file breaks at line feeds only, and a
text block at all line breaks.
-/

namespace ThreadedCode.Text

open CodePoint

/-- The pieces of a text between its breaks; a break at the end begins no further piece. -/
def linesAt (breaks : CodePoint → Bool) : Text → List Text
  | [] => []
  | c :: rest => if breaks c then [] :: linesAt breaks rest else consFirst c (linesAt breaks rest)

theorem unifyBreaks_other {c : CodePoint} (rest : Text) (other : c ≠ carriageReturn) :
    unifyBreaks (c :: rest) = c :: unifyBreaks rest := by
  rw [unifyBreaks, if_neg other]
  rintro more rfl -
  exact other rfl

theorem unifyBreaks_of_not_mem {t : Text} (single : carriageReturn ∉ t) : unifyBreaks t = t := by
  induction t with
  | nil => rfl
  | cons c rest ih =>
    rw [List.mem_cons, not_or] at single
    rw [unifyBreaks_other rest (Ne.symm single.1), ih single.2]

theorem not_mem_unifyBreaks (t : Text) : carriageReturn ∉ unifyBreaks t := by
  fun_induction unifyBreaks t with
  | case1 => exact List.not_mem_nil
  | case2 rest ih =>
    rw [List.mem_cons, not_or]
    exact ⟨by decide, ih⟩
  | case3 c rest single ih =>
    rw [List.mem_cons, not_or]
    refine ⟨?_, ih⟩
    split
    · decide
    next other => exact Ne.symm other

theorem lines_eq_linesAt (t : Text) : lines t = linesAt isLineBreak (unifyBreaks t) := by
  fun_induction lines t with
  | case1 => rfl
  | case2 rest ih => rw [unifyBreaks, linesAt, if_pos (by decide), ih]
  | case3 c rest single breaks ih =>
    have unified : ∃ d, unifyBreaks (c :: rest) = d :: unifyBreaks rest ∧ d.isLineBreak := by
      rw [unifyBreaks]
      · split
        · exact ⟨lineFeed, rfl, by decide⟩
        · exact ⟨c, rfl, breaks⟩
      · exact single
    obtain ⟨d, unified, still⟩ := unified
    rw [unified, linesAt, if_pos still, ih]
  | case4 c rest single plain ih =>
    have other : c ≠ carriageReturn := by
      rintro rfl
      exact plain (by decide)
    rw [unifyBreaks_other rest other, linesAt, if_neg plain, ih]

section Chomp

theorem chomp_cons {c : CodePoint} (rest : Text) (feed : c ≠ lineFeed) (ret : c ≠ carriageReturn) :
    chomp (c :: rest) = c :: chomp rest := by
  have kept : ∀ t : Text, (t ++ [c]).dropWhile (fun c => c = lineFeed || c = carriageReturn) =
      t.dropWhile (fun c => c = lineFeed || c = carriageReturn) ++ [c] := by
    intro t
    induction t with
    | nil => simp [feed, ret]
    | cons d t ih =>
      by_cases ends : d = lineFeed ∨ d = carriageReturn
      · simpa [ends] using ih
      · simp [ends]
  rw [chomp, List.reverse_cons, kept, List.reverse_append, chomp]
  rfl

theorem map_chomp_consFirst {c : CodePoint} (lines : List Text) (feed : c ≠ lineFeed)
    (ret : c ≠ carriageReturn) :
    (consFirst c lines).map chomp = consFirst c (lines.map chomp) := by
  cases lines with
  | nil => exact congrArg (fun line => [line]) (chomp_cons [] feed ret)
  | cons line lines => exact congrArg (· :: lines.map chomp) (chomp_cons line feed ret)

theorem map_chomp_linesAt {breaks : CodePoint → Bool} (feed : breaks lineFeed) {t : Text}
    (single : carriageReturn ∉ t) : (linesAt breaks t).map chomp = linesAt breaks t := by
  induction t with
  | nil => rfl
  | cons c rest ih =>
    rw [List.mem_cons, not_or] at single
    rw [linesAt]
    split
    next => rw [List.map_cons, ih single.2]; rfl
    next plain =>
      have other : c ≠ lineFeed := by
        rintro rfl
        exact plain feed
      rw [map_chomp_consFirst _ other (Ne.symm single.1), ih single.2]

theorem map_chomp_linesKept {t : Text} (single : carriageReturn ∉ t) :
    (linesKept t).map chomp = linesAt (· = lineFeed) t := by
  induction t with
  | nil => rfl
  | cons c rest ih =>
    rw [List.mem_cons, not_or] at single
    by_cases feed : c = lineFeed
    · rw [linesKept, if_pos feed, List.map_cons, ih single.2, linesAt, if_pos (by simpa using feed)]
      rfl
    · rw [linesKept, if_neg feed, map_chomp_consFirst _ feed (Ne.symm single.1), ih single.2, linesAt,
        if_neg (by simpa using feed)]

theorem map_chomp_lines (t : Text) :
    (lines t).map chomp = linesAt isLineBreak (unifyBreaks t) := by
  rw [lines_eq_linesAt, map_chomp_linesAt (by decide) (not_mem_unifyBreaks t)]

theorem map_chomp_fileLines (t : Text) :
    (fileLines t).map chomp = linesAt (· = lineFeed) (unifyBreaks t) :=
  map_chomp_linesKept (not_mem_unifyBreaks t)

end Chomp

section Joined

theorem lines_of_break {c : CodePoint} {rest : Text} (breaks : c.isLineBreak)
    (single : c = carriageReturn → rest.head? ≠ some lineFeed) :
    lines (c :: rest) = [] :: lines rest := by
  rw [lines, if_pos breaks]
  rintro more rfl rfl
  exact single rfl rfl

theorem lines_of_other {c : CodePoint} {rest : Text} (plain : ¬ c.isLineBreak) :
    lines (c :: rest) = consFirst c (lines rest) := by
  rw [lines, if_neg plain]
  rintro more rfl -
  exact plain (by decide)

theorem lines_lineFeed (rest : Text) : lines (lineFeed :: rest) = [] :: lines rest :=
  lines_of_break (by decide) fun same => absurd same (by decide)

theorem lines_ne_nil {t : Text} (some_ : t ≠ []) : lines t ≠ [] := by
  fun_cases lines t with
  | case1 => exact absurd rfl some_
  | case2 rest => exact List.cons_ne_nil _ _
  | case3 c rest _ breaks => exact List.cons_ne_nil _ _
  | case4 c rest _ plain =>
    cases lines rest <;> exact List.cons_ne_nil _ _

theorem lines_append_lineFeed (t u : Text) :
    ∃ seam, (∀ line ∈ seam, line = []) ∧
      lines (t ++ lineFeed :: u) = lines t ++ seam ++ lines u := by
  fun_induction lines t with
  | case1 => exact ⟨[[]], by simp, lines_lineFeed u⟩
  | case2 rest ih =>
    obtain ⟨seam, empty, joined⟩ := ih
    exact ⟨seam, empty, congrArg ([] :: ·) joined⟩
  | case3 c rest single breaks ih =>
    by_cases pair : c = carriageReturn ∧ rest = []
    · obtain ⟨rfl, rfl⟩ := pair
      exact ⟨[], by simp, rfl⟩
    · have apart : c = carriageReturn → (rest ++ lineFeed :: u).head? ≠ some lineFeed := by
        intro ret feed
        cases rest with
        | nil => exact pair ⟨ret, rfl⟩
        | cons d rest => exact single rest ret (congrArg (· :: rest) (Option.some.inj feed))
      obtain ⟨seam, empty, joined⟩ := ih
      rw [List.cons_append, lines_of_break breaks apart, joined]
      exact ⟨seam, empty, rfl⟩
  | case4 c rest _ plain ih =>
    obtain ⟨seam, empty, joined⟩ := ih
    rw [List.cons_append, lines_of_other plain]
    cases rest with
    | nil => exact ⟨[], by simp, by simp [lines_lineFeed, consFirst, lines]⟩
    | cons d rest =>
      obtain ⟨line, more, first⟩ :=
        List.exists_cons_of_ne_nil (lines_ne_nil (List.cons_ne_nil d rest))
      rw [joined, first]
      exact ⟨seam, empty, rfl⟩

end Joined

end ThreadedCode.Text
