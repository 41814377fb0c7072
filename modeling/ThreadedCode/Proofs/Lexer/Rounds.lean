import ThreadedCode.Proofs.Lexer.Registers

/-!
The lexer as a loop over its registers. Each round looks at one code point, and now and then two
rounds look at the same one. Main statement: the registers keep their shape in every round and
between lines, no round fails, and the loop gives the tokens of the lexer after two rounds for each
code point at most.
-/

namespace ThreadedCode.Lexer

namespace Registers

theorem mode_of_finishOctal {r r' : Registers} (done : r.finishOctal = some r') :
    r'.mode = .string := by
  obtain ⟨n, -, done⟩ := Option.bind_eq_some_iff.mp done
  obtain ⟨c, -, done⟩ := Option.bind_eq_some_iff.mp done
  obtain rfl := Option.some.inj done
  rfl

theorem elim_advance {o : Option Registers} {r : Registers} :
    o.elim .failed .advance ≠ Turn.again r := by
  cases o <;> exact Turn.noConfusion

theorem lookInEscape_again {r r' : Registers} {c : CodePoint}
    (again : r.lookInEscape c = .again r') : r'.mode = .string := by
  unfold lookInEscape at again
  split at again
  · split at again <;> cases again
  next mark digits spelled =>
    split at again
    · split at again
      · dsimp only at again
        split at again
        · exact absurd again elim_advance
        · cases again
      · cases done : r.finishOctal with
        | none =>
          rw [done] at again
          cases again
        | some r'' =>
          rw [done] at again
          cases again
          exact mode_of_finishOctal done
    · split at again
      · dsimp only at again
        split at again
        · cases again
        · split at again
          · exact absurd again elim_advance
          · cases again
      · cases again
        rfl

theorem look_again {r r' : Registers} {c : CodePoint} (again : r.look c = .again r') :
    r.mode = .escape ∧ r'.mode = .string := by
  unfold look at again
  split at again
  · split at again
    · cases again
    · split at again <;> cases again
  · split at again <;> cases again
  · split at again
    · cases again
    · split at again <;> cases again
  next mode => exact ⟨mode, lookInEscape_again again⟩

end Registers

/-- What a line does: the registers and the rest of the line at the head of each round, the tokens,
and the registers after it, unless a round fails. -/
structure Pass where
  heads : List (Registers × Text) := []
  tokens : List Text := []
  left : Option Registers

def Pass.after (head : Registers × Text) (t : Option Text) (pass : Pass) : Pass :=
  { pass with heads := head :: pass.heads, tokens := t.toList ++ pass.tokens }

def rounds (r : Registers) (line : Text) : Pass :=
  match line with
  | [] => { tokens := (r.endOfLine.bind (·.1)).toList, left := r.endOfLine.map (·.2) }
  | c :: rest =>
    match _turn : r.look c with
    | .advance r' => (rounds r' rest).after (r, c :: rest) none
    | .token t r' => (rounds r' rest).after (r, c :: rest) (some t)
    | .again r' => (rounds r' (c :: rest)).after (r, c :: rest) none
    | .comment => { heads := [(r, c :: rest)], left := some r }
    | .failed => { heads := [(r, c :: rest)], left := none }
termination_by (line.length, if r.mode = .escape then 1 else 0)
decreasing_by
  · exact Prod.Lex.left _ _ (Nat.lt_succ_self _)
  · exact Prod.Lex.left _ _ (Nat.lt_succ_self _)
  · obtain ⟨before, after⟩ := Registers.look_again _turn
    rw [if_pos before, after]
    exact Prod.Lex.right _ Nat.zero_lt_one

def feedLine (r : Registers) (line : Text) : Pass := rounds r.startOfLine line

def feed (r : Registers) : List Text → Option (List Text × Registers)
  | [] => some ([], r)
  | line :: lines => do
    let r' ← (feedLine r line).left
    let (more, r'') ← feed r' lines
    some ((feedLine r line).tokens ++ more, r'')

theorem rounds_advance {r r' : Registers} {c : CodePoint} {rest : Text}
    (turn : r.look c = .advance r') :
    rounds r (c :: rest) = (rounds r' rest).after (r, c :: rest) none := by
  rw [rounds]
  split <;> simp_all

theorem rounds_again {r r' : Registers} {c : CodePoint} {rest : Text}
    (turn : r.look c = .again r') :
    rounds r (c :: rest) = (rounds r' (c :: rest)).after (r, c :: rest) none := by
  rw [rounds]
  split <;> simp_all

section Rounds

variable {r : Registers} {s : State}

/-- The registers keep their shape in all rounds, none of which fails, and the rounds give the
tokens of the lexer. The induction is on the rounds, a second look included. -/
theorem Holds.rounds (holds : Holds r s) (line : Text) :
    (∀ head ∈ (rounds r line).heads, ∃ s', Holds head.1 s') ∧
      (rounds r line).tokens = (lexRest s line).1 ∧
      ∃ r', (rounds r line).left = some r' ∧ Carries r' (lexRest s line).2 := by
  fun_induction Lexer.rounds r line generalizing s with
  | case1 r =>
    obtain ⟨r', ends, carries⟩ := holds.endOfLine
    rw [ends]
    refine ⟨fun head member => absurd member List.not_mem_nil, rfl, r', rfl, carries⟩
  | case2 r c rest r' turn ih =>
    have mirrors := turn ▸ holds.look c
    cases mirrors with
    | advance steps after =>
      obtain ⟨heads, tokens, left⟩ := ih after
      rw [lexRest, steps]
      exact ⟨List.forall_mem_cons.mpr ⟨⟨s, holds⟩, heads⟩, tokens, left⟩
  | case3 r c rest t r' turn ih =>
    have mirrors := turn ▸ holds.look c
    cases mirrors with
    | token steps =>
      obtain ⟨heads, tokens, left⟩ := ih .space
      rw [lexRest, steps]
      exact ⟨List.forall_mem_cons.mpr ⟨⟨s, holds⟩, heads⟩, congrArg (t :: ·) tokens, left⟩
  | case4 r c rest r' turn ih =>
    have mirrors := turn ▸ holds.look c
    cases mirrors with
    | again steps after =>
      obtain ⟨heads, tokens, left⟩ := ih after
      rw [lexRest] at tokens left ⊢
      rw [steps]
      exact ⟨List.forall_mem_cons.mpr ⟨⟨s, holds⟩, heads⟩, tokens, left⟩
  | case5 r c rest turn =>
    have mirrors := turn ▸ holds.look c
    cases mirrors with
    | comment outside steps =>
      subst outside
      cases holds
      rw [lexRest, steps]
      exact ⟨List.forall_mem_singleton.mpr ⟨_, .space⟩, rfl, _, rfl, .outside⟩
  | case6 r c rest turn =>
    have mirrors := turn ▸ holds.look c
    cases mirrors

theorem Carries.feed {carry : Carry} (carries : Carries r carry) (lines : List Text) :
    ∃ tokens r' carry', Lexer.feed r lines = some (tokens, r') ∧ Carries r' carry' ∧
      ∀ sources : List Text, lines = sources.map Text.chomp →
        lexLines carry sources = (tokens, carry') := by
  induction lines generalizing r carry with
  | nil =>
    refine ⟨[], r, carry, rfl, carries, fun sources same => ?_⟩
    rw [List.map_eq_nil_iff.mp same.symm]
    rfl
  | cons line lines ih =>
    obtain ⟨-, first, r', left, after⟩ := carries.startOfLine.rounds line
    obtain ⟨more, r'', carry', fed, last, lexed⟩ := ih after
    refine ⟨(feedLine r line).tokens ++ more, r'', carry', ?_, last, fun sources same => ?_⟩
    · rw [Lexer.feed, feedLine, left]
      simp only [Option.bind_eq_bind, Option.bind_some, fed]
    · obtain ⟨source, sources, rfl, rfl, rest⟩ := List.map_eq_cons_iff.mp same.symm
      have both : lexLines carry (source :: sources) =
          ((lexRest (startLine carry) source.chomp).1 ++
            (lexLines (lexRest (startLine carry) source.chomp).2 sources).1,
            (lexLines (lexRest (startLine carry) source.chomp).2 sources).2) := rfl
      rw [both, lexed sources rest.symm, feedLine, first]

end Rounds

section Looks

def Pass.roundsAt (pass : Pass) (n : Nat) : Nat := pass.heads.countP fun head => head.2.length = n

/-- The most rounds that a line takes: two for each code point, of which the first is one where no
escape is to be read on. -/
def Registers.mostRounds (r : Registers) (line : Text) : Nat :=
  2 * line.length - if r.mode = .escape then 0 else 1

variable {head : Registers × Text} {t : Option Text} {pass : Pass} {n : Nat}

theorem roundsAt_after : (pass.after head t).roundsAt n =
    pass.roundsAt n + if head.2.length = n then 1 else 0 := by
  rw [Pass.roundsAt, Pass.after, List.countP_cons]
  simp only [decide_eq_true_eq]
  rfl

theorem roundsAt_of_shorter (shorter : ∀ head ∈ pass.heads, head.2.length < n) :
    pass.roundsAt n = 0 := by
  refine List.countP_eq_zero.mpr fun head member => ?_
  have less := shorter head member
  simp only [decide_eq_true_eq]
  omega

/-- Rounds go on in the line, and at most two in a row begin at one code point. -/
structure Pass.Within (pass : Pass) (r : Registers) (line : Text) : Prop where
  onward : ∀ head ∈ pass.heads, head.2 <:+ line
  twice : ∀ n, pass.roundsAt n ≤ 2
  once : r.mode ≠ .escape → pass.roundsAt line.length ≤ 1
  few : pass.heads.length ≤ r.mostRounds line

theorem Pass.Within.next {r r' : Registers} {c : CodePoint} {rest : Text}
    (within : pass.Within r' rest) : (pass.after (r, c :: rest) t).Within r (c :: rest) := by
  have none_ : pass.roundsAt (c :: rest).length = 0 := roundsAt_of_shorter fun head member =>
    Nat.lt_succ_of_le (within.onward head member).length_le
  refine ⟨List.forall_mem_cons.mpr ⟨List.suffix_refl _, fun head member =>
    (within.onward head member).trans (List.suffix_cons c rest)⟩, fun n => ?_, fun _ => ?_, ?_⟩
  · rw [roundsAt_after]
    split
    next same =>
      subst same
      rw [none_]
      decide
    next => exact within.twice n
  · have one : (pass.after (r, c :: rest) t).roundsAt (c :: rest).length = 0 + 1 := by
      rw [roundsAt_after, none_, if_pos rfl]
    exact Nat.le_of_eq one
  · have few := within.few
    simp only [Registers.mostRounds, Pass.after, List.length_cons] at few ⊢
    split <;> omega

theorem Pass.Within.again {r r' : Registers} {c : CodePoint} {rest : Text}
    (within : pass.Within r' (c :: rest)) (before : r.mode = .escape) (after : r'.mode = .string) :
    (pass.after (r, c :: rest) t).Within r (c :: rest) := by
  have outside : r'.mode ≠ .escape := by
    rw [after]
    decide
  refine ⟨List.forall_mem_cons.mpr ⟨List.suffix_refl _, within.onward⟩, fun n => ?_,
    fun other => absurd before other, ?_⟩
  · rw [roundsAt_after]
    split
    next same =>
      subst same
      exact Nat.succ_le_succ (within.once outside)
    next => exact within.twice n
  · have few := within.few
    simp only [Registers.mostRounds, Pass.after, List.length_cons, if_neg outside, if_pos before]
      at few ⊢
    omega

theorem rounds_within (r : Registers) (line : Text) : (rounds r line).Within r line := by
  have none_ (tokens : List Text) (left : Option Registers) (r : Registers) (line : Text) :
      Pass.Within { tokens, left } r line :=
    ⟨fun head member => absurd member List.not_mem_nil, fun _ => Nat.zero_le 2,
      fun _ => Nat.zero_le 1, Nat.zero_le _⟩
  fun_induction rounds r line with
  | case1 r => exact none_ _ _ r []
  | case2 r c rest r' turn ih => exact ih.next
  | case3 r c rest t r' turn ih => exact ih.next
  | case4 r c rest r' turn ih =>
    obtain ⟨before, after⟩ := Registers.look_again turn
    exact ih.again before after
  | case5 r c rest turn => exact (none_ [] (some r) r rest).next (t := none)
  | case6 r c rest turn => exact (none_ [] none r rest).next (t := none)

end Looks

/-- The registers keep their shape. After any lines, at the head of each round over another line the
buffer is empty outside tokens alone and begins with a double quote in strings and escapes, and an
escape is spelled only in the mode for escapes and is not finished. No conversion fails, neither in
the lines before nor in this one, and each code point is looked at twice at most. Between lines the
lexer is outside tokens with nothing in its registers or in a string with no escape, and only there
a line feed is due; so the source ends in no bare word and in no escape, and its tokens are those of
the lexer. -/
theorem registers_keep_shape (lines : List Text) :
    (∃ tokens r, feed {} lines = some (tokens, r) ∧ r.BetweenLines ∧
      ∀ line, let pass := feedLine r line
        (∃ r', pass.left = some r') ∧
          (∀ head ∈ pass.heads, head.1.AtHead ∧ head.2 <:+ line) ∧
          (∀ n, pass.roundsAt n ≤ 2) ∧ pass.heads.length ≤ 2 * line.length) ∧
      ∃ complete r, feed {} (lines.map Text.chomp) = some (complete, r) ∧
        tokens lines = complete ++ r.partialToken.toList := by
  constructor
  · obtain ⟨tokens, r, carry, fed, carries, -⟩ := Carries.outside.feed lines
    refine ⟨tokens, r, fed, carries.betweenLines, fun line => ?_⟩
    obtain ⟨heads, -, r', left, -⟩ := carries.startOfLine.rounds line
    have within := rounds_within r.startOfLine line
    refine ⟨⟨r', left⟩, fun head member => ?_, within.twice, Nat.le_trans within.few ?_⟩
    · obtain ⟨s, holds⟩ := heads head member
      exact ⟨holds.atHead, within.onward head member⟩
    · exact Nat.sub_le _ _
  · obtain ⟨complete, r, carry, fed, carries, lexed⟩ :=
      Carries.outside.feed (lines.map Text.chomp)
    refine ⟨complete, r, fed, ?_⟩
    rw [tokens, lexed lines rfl, carries.partialToken_eq]

theorem registers_keep_shape_cut :
    let opened : Registers := { mode := .string, buffer := ["\""] }
    let escaped : Registers := { opened with mode := .escape }
    let marked : Registers := { escaped with escape := "x" }
    let digit : Registers := { escaped with escape := "x4" }
    let closed : Registers := { opened with buffer := ["\"", "\\x4"] }
    let heads : List (Registers × Text) :=
      [({}, "\"\\x4g"), (opened, "\\x4g"), (escaped, "x4g"), (marked, "4g"), (digit, "g"),
        (closed, "g")]
    (feedLine {} "\"\\x4g").heads = heads ∧ ∀ head ∈ heads, head.1.AtHead := by
  intro opened escaped marked digit closed heads
  have first : Registers.look {} .doubleQuote = .advance opened := by decide
  have second : opened.look .backslash = .advance escaped := by decide
  have third : escaped.look 'x' = .advance marked := by decide
  have fourth : marked.look '4' = .advance digit := by decide
  have fifth : digit.look 'g' = .again closed := by decide
  have sixth : closed.look 'g' = .advance (closed.put "g") := by decide
  have whole : (feedLine {} "\"\\x4g").heads = heads := by
    have start : feedLine {} "\"\\x4g" =
        rounds {} [.doubleQuote, .backslash, .ofChar 'x', .ofChar '4', .ofChar 'g'] := rfl
    rw [start, rounds_advance first, rounds_advance second, rounds_advance third,
      rounds_advance fourth, rounds_again fifth, rounds_advance sixth, rounds]
    rfl
  refine ⟨whole, ?_⟩
  obtain ⟨⟨tokens, r, fed, -, passes⟩, -⟩ := registers_keep_shape []
  cases fed
  obtain ⟨-, shaped, -⟩ := passes "\"\\x4g"
  rw [whole] at shaped
  exact fun head member => (shaped head member).1

end ThreadedCode.Lexer
