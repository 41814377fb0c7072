import ThreadedCode.Lexer.Reader

/-!
Tokens on demand are the tokens of the whole source. A reader suspends the lexer right after a token,
somewhere in a line, and goes on from there. The lemmas keep track of where it stands: which part of
the source it has used up, and how many tokens that part has ended. So the answers are the tokens in
order, however the requests are grouped, and no line is taken before it is needed.
-/

namespace ThreadedCode.Lexer

theorem lexRest_eq_scan (s : State) (line : Text) :
    lexRest s line =
      match scan s line with
      | .token t rest => (t :: (lexRest .space rest).1, (lexRest .space rest).2)
      | .lineEnd carry => ([], carry) := by
  induction line generalizing s with
  | nil =>
    cases s with
    | space | word | string => rfl
    | escape taken pending => cases pending <;> rfl
  | cons c line ih =>
    rw [lexRest, scan]
    cases step s c with
    | advance s => exact ih s
    | token t => rfl
    | comment => rfl

theorem lexLines_concat (carry : Carry) (lines : List Text) (line : Text) :
    lexLines carry (lines ++ [line]) =
      ((lexLines carry lines).1 ++ (lexLine (lexLines carry lines).2 line).1,
        (lexLine (lexLines carry lines).2 line).2) := by
  rw [lexLines_append]
  simp only [lexLines, List.append_nil]

theorem length_lexLines_take_le (carry : Carry) (lines : List Text) (i : Nat) :
    (lexLines carry (lines.take i)).1.length ≤ (lexLines carry lines).1.length := by
  have parts := lexLines_append carry (lines.take i) (lines.drop i)
  rw [List.take_append_drop] at parts
  rw [parts, List.length_append]
  exact Nat.le_add_right _ _

theorem tokens_eq_append (lines : List Text) :
    tokens lines =
      (lexLines .outside lines).1 ++ (lexLines .outside lines).2.partialToken.toList := rfl

theorem tokens_of_outside {lines : List Text} (left : (lexLines .outside lines).2 = .outside) :
    tokens lines = (lexLines .outside lines).1 := by
  rw [tokens_eq_append, left]
  exact List.append_nil _

theorem tokens_of_inString {lines : List Text} {taken : Text} {newline : Bool}
    (left : (lexLines .outside lines).2 = .inString taken newline) :
    tokens lines = (lexLines .outside lines).1 ++ [taken] := by
  rw [tokens_eq_append, left]
  rfl

/-- The `k`-th token of a source ends on its `j`-th line: with that line there are `k` tokens, and
with fewer lines there are not. -/
structure EndsOn (lines : List Text) (k j : Nat) : Prop where
  inside : j ≤ lines.length
  ended : k ≤ (lexLines .outside (lines.take j)).1.length
  before : ∀ i < j, (lexLines .outside (lines.take i)).1.length < k

namespace Reader

/-- Where the reader of a source is after `k` requests. In a line, it has the tokens `done` of that
line behind it and those of `rest` before it. -/
inductive Stands (lines : List Text) : Nat → Reader → Prop
  | unread (carry : Carry) : Stands lines 0 ⟨carry, .unread lines, 0⟩
  | inLine {before later done : List Text} {line rest : Text}
      (split : lines = before ++ line :: later)
      (lexed : lexLine (lexLines .outside before).2 line =
        (done ++ (lexRest .space rest).1, (lexRest .space rest).2))
      (given : done ≠ []) :
      Stands lines ((lexLines .outside before).1.length + done.length)
        ⟨.outside, .inLine rest later, before.length + 1⟩
  | afterPartial {taken : Text} {newline : Bool}
      (left : (lexLines .outside lines).2 = .inString taken newline) :
      Stands lines ((lexLines .outside lines).1.length + 1)
        ⟨.inString taken newline, .afterPartial, lines.length⟩
  | ended {k : Nat} (all : (tokens lines).length < k) :
      Stands lines k ⟨.outside, .ended, lines.length⟩

variable {lines before later : List Text} {k : Nat} {r : Reader}

theorem tokens_split (before later : List Text) (line : Text) :
    ∃ more, tokens (before ++ line :: later) =
      (lexLines .outside before).1 ++ ((lexLine (lexLines .outside before).2 line).1 ++ more) := by
  simp only [tokens, lexLines_append, lexLines, List.append_assoc]
  exact ⟨_, rfl⟩

theorem getElem?_tokens (done : List Text) {more : List Text} {line t : Text}
    (lexed : (lexLine (lexLines .outside before).2 line).1 = done ++ t :: more) :
    (tokens (before ++ line :: later))[(lexLines .outside before).1.length + done.length]? =
      some t := by
  obtain ⟨rest, split⟩ := tokens_split before later line
  rw [split, lexed, List.getElem?_append_right (Nat.le_add_right _ _), Nat.add_sub_cancel_left,
    List.append_assoc, List.getElem?_append_right (Nat.le_refl _), Nat.sub_self]
  rfl

/-- Lines that are taken until one of them ends a token. The lines `before` are used up. -/
theorem pull_stands (before later : List Text) (split : lines = before ++ later) :
    (pull (lexLines .outside before).2 later before.length).1 =
        (tokens lines)[(lexLines .outside before).1.length]? ∧
      Stands lines ((lexLines .outside before).1.length + 1)
        (pull (lexLines .outside before).2 later before.length).2 := by
  induction later generalizing before with
  | nil =>
    obtain rfl : lines = before := by rw [split, List.append_nil]
    cases left : (lexLines .outside lines).2 with
    | outside =>
      have all := tokens_of_outside left
      rw [pull, all, List.getElem?_eq_none (Nat.le_refl _)]
      exact ⟨rfl, .ended (by rw [all]; exact Nat.lt_succ_self _)⟩
    | inString taken newline =>
      rw [pull, tokens_of_inString left, List.getElem?_concat_length]
      exact ⟨rfl, .afterPartial left⟩
  | cons line later ih =>
    have lexed : lexLine (lexLines .outside before).2 line = _ :=
      lexRest_eq_scan (startLine (lexLines .outside before).2) line.chomp
    rw [pull]
    cases found : scan (startLine (lexLines .outside before).2) line.chomp with
    | token t rest =>
      rw [found] at lexed
      have stands : Stands lines ((lexLines .outside before).1.length + [t].length) _ :=
        .inLine split lexed (List.cons_ne_nil t [])
      refine ⟨?_, stands⟩
      rw [split]
      exact (getElem?_tokens [] (congrArg Prod.fst lexed)).symm
    | lineEnd carry =>
      -- A line without a token joins the lines that are used up, and their tokens stay the same.
      rw [found] at lexed
      have used := lexLines_concat .outside before line
      rw [lexed, List.append_nil] at used
      have further := ih (before ++ [line]) (split.trans (List.append_cons before line later))
      rwa [used, List.length_append] at further

theorem next_stands (h : Stands lines k r) :
    r.next.1 = (tokens lines)[k]? ∧ Stands lines (k + 1) r.next.2 := by
  cases h with
  | unread carry => exact pull_stands [] lines rfl
  | @inLine before later done line rest split lexed given =>
    have ahead := lexRest_eq_scan .space rest
    rw [next]
    dsimp only
    cases found : scan .space rest with
    | token t rest' =>
      rw [found] at ahead
      rw [ahead] at lexed
      have more : Stands lines ((lexLines .outside before).1.length + (done ++ [t]).length)
          ⟨.outside, .inLine rest' later, before.length + 1⟩ :=
        .inLine split (by rw [lexed, List.append_assoc, List.singleton_append]) (by simp)
      rw [List.length_append, ← Nat.add_assoc] at more
      refine ⟨?_, more⟩
      rw [split]
      exact (getElem?_tokens done (congrArg Prod.fst lexed)).symm
    | lineEnd carry =>
      -- The line has no token left, so it is used up with those it gave.
      rw [found] at ahead
      simp only [ahead, List.append_nil] at lexed
      have used := lexLines_concat .outside before line
      rw [lexed] at used
      have further := pull_stands (before ++ [line]) later
        (split.trans (List.append_cons before line later))
      rwa [used, List.length_append, List.length_append] at further
  | afterPartial left =>
    have all : (tokens lines).length = (lexLines .outside lines).1.length + 1 := by
      rw [tokens_of_inString left, List.length_append]
      rfl
    rw [List.getElem?_eq_none (Nat.le_of_eq all)]
    exact ⟨rfl, .ended (by omega)⟩
  | ended all =>
    rw [List.getElem?_eq_none (Nat.le_of_lt all)]
    exact ⟨rfl, .ended (Nat.lt_succ_of_lt all)⟩

theorem take_stands (h : Stands lines k r) (n : Nat) :
    (take n r).1 = (List.range' k n).map (fun i => (tokens lines)[i]?) ∧
      Stands lines (k + n) (take n r).2 := by
  induction n generalizing k r with
  | zero => exact ⟨rfl, h⟩
  | succ n ih =>
    have first := next_stands h
    have rest := ih first.2
    rw [Nat.add_assoc, Nat.add_comm 1 n] at rest
    refine ⟨?_, rest.2⟩
    rw [List.range'_succ, List.map_cons, ← first.1, ← rest.1]
    rfl

def takeEach : List Nat → Reader → List (List (Option Text)) × Reader
  | [], r => ([], r)
  | n :: groups, r =>
    let (answers, r) := take n r
    let (rest, r) := takeEach groups r
    (answers :: rest, r)

theorem takeEach_stands (h : Stands lines k r) (groups : List Nat) :
    (takeEach groups r).1.map List.length = groups ∧
      (takeEach groups r).1.flatten =
        (List.range' k (takeEach groups r).1.flatten.length).map (fun i => (tokens lines)[i]?) ∧
      Stands lines (k + (takeEach groups r).1.flatten.length) (takeEach groups r).2 := by
  induction groups generalizing k r with
  | nil => exact ⟨rfl, rfl, h⟩
  | cons n groups ih =>
    obtain ⟨answers, stands⟩ := take_stands h n
    obtain ⟨sizes, rest, after⟩ := ih stands
    have size : (take n r).1.length = n := by rw [answers, List.length_map, List.length_range']
    simp only [takeEach, List.map_cons, List.flatten_cons, List.length_append, size]
    refine ⟨by rw [sizes], ?_, by rwa [← Nat.add_assoc]⟩
    rw [← List.range'_append_1, List.map_append, ← answers, ← rest]

section Place

theorem lexLines_take {done : List Text} {line rest : Text}
    (split : lines = before ++ line :: later)
    (lexed : lexLine (lexLines .outside before).2 line =
      (done ++ (lexRest .space rest).1, (lexRest .space rest).2)) :
    (lexLines .outside (lines.take (before.length + 1))).1 =
      (lexLines .outside before).1 ++ (done ++ (lexRest .space rest).1) := by
  have now : lines.take (before.length + 1) = before ++ [line] := by
    rw [split, List.append_cons]
    exact List.take_left' List.length_append
  rw [now, lexLines_concat, lexed]

/-- As long as the lines have tokens to give, the reader is outside tokens, and it has taken no line
after that of the last one. -/
theorem Stands.endsOn (h : Stands lines k r) (asked : 0 < k)
    (few : k ≤ (lexLines .outside lines).1.length) :
    r.carry = .outside ∧ EndsOn lines k r.pulled := by
  cases h with
  | unread carry => exact absurd asked (Nat.lt_irrefl 0)
  | @inLine before later done line rest split lexed given =>
    have some : 0 < done.length := List.length_pos_iff.mpr given
    refine ⟨rfl, by simp [split], ?_, fun i earlier => ?_⟩
    · rw [lexLines_take split lexed, List.length_append, List.length_append]
      omega
    · have prior : lines.take i = before.take i := by
        rw [split, List.take_append_of_le_length (Nat.le_of_lt_succ earlier)]
      have le := length_lexLines_take_le .outside before i
      rw [prior]
      omega
  | afterPartial left => exact absurd few (Nat.not_succ_le_self _)
  | ended all =>
    rw [tokens_eq_append, List.length_append] at all
    omega

theorem Stands.pulled_all (h : Stands lines k r)
    (many : (lexLines .outside lines).1.length < k) :
    r.pulled = lines.length ∧
      r.carry =
        if k = (lexLines .outside lines).1.length + 1 then (lexLines .outside lines).2
        else .outside := by
  cases h with
  | unread carry => exact absurd many (Nat.not_lt_zero _)
  | @inLine before later done line rest split lexed given =>
    have le := length_lexLines_take_le .outside lines (before.length + 1)
    rw [lexLines_take split lexed, List.length_append, List.length_append] at le
    omega
  | afterPartial left => exact ⟨rfl, by rw [if_pos rfl, left]⟩
  | ended all =>
    refine ⟨rfl, ?_⟩
    split
    next last =>
      cases left : (lexLines .outside lines).2 with
      | outside => rfl
      | inString taken newline =>
        rw [tokens_of_inString left, List.length_append, last] at all
        exact absurd all (Nat.lt_irrefl _)
    next => rfl

end Place

/-- A reader that is given a source, whatever it has done before, answers the requests for tokens, in
any groups, with the tokens of the whole source in order and then with none for ever. After the
`k`-th token it has taken the lines up to the one on which that token ends, and no other, and the
lexer is outside tokens. After a last string that the source leaves open it has taken all lines, and
the lexer is inside that string. -/
theorem takeEach_load (r : Reader) (lines : List Text) (groups : List Nat) :
    let answers := (takeEach groups (r.load lines)).1
    let r' := (takeEach groups (r.load lines)).2
    let complete := (lexLines .outside lines).1.length
    let k := answers.flatten.length
    answers.map List.length = groups ∧
      answers.flatten = (List.range k).map (fun i => (tokens lines)[i]?) ∧
      (0 < k → k ≤ complete → r'.carry = .outside ∧ EndsOn lines k r'.pulled) ∧
      (complete < k → r'.pulled = lines.length ∧
        r'.carry = if k = complete + 1 then (lexLines .outside lines).2 else .outside) := by
  intro answers r' complete k
  obtain ⟨sizes, given, stands⟩ := takeEach_stands (.unread r.carry) groups
  rw [Nat.zero_add] at stands
  rw [← List.range_eq_range'] at given
  exact ⟨sizes, given, stands.endsOn, stands.pulled_all⟩

theorem takeEach_load_resumed :
    let r : Reader := (take 1 (load {} ["left \"over", "and"])).2
    let lines : List Text := ["One \"two", "three\"#four", "# five", "", "\"six\\", "seven"]
    let all : List Text := ["one", "\"two\nthree\"", "\"sixseven"]
    let second := takeEach [1, 0, 1] (r.load lines)
    let last := takeEach [2, 1] (r.load lines)
    second.1.flatten = (all.take 2).map some ∧ second.2.carry = .outside ∧ second.2.pulled = 2 ∧
      EndsOn lines 2 second.2.pulled ∧
      last.1.flatten = all.map some ∧ last.2.carry = .inString "\"sixseven" true ∧
      last.2.pulled = lines.length := by
  intro r lines all second last
  obtain ⟨-, -, inLine, -⟩ := takeEach_load r lines [1, 0, 1]
  obtain ⟨-, -, -, atEnd⟩ := takeEach_load r lines [2, 1]
  obtain ⟨outside, ends⟩ := inLine (by decide) (by decide)
  obtain ⟨pulled, -⟩ := atEnd (by decide)
  exact ⟨by decide, outside, by decide, ends, by decide, by decide, pulled⟩

end Reader

end ThreadedCode.Lexer
