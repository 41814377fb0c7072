import ThreadedCode.Proofs.Lexer.Spots
import ThreadedCode.Proofs.Text.Chunks
import ThreadedCode.Proofs.Text.Utf8

/-!
The same text as a text block and as a file. A text block ends its lines at more code points than a
file does. Between tokens such a further break is white space to both. Inside a string it is content
to the one and the end of a line to the other, and the two come to different tokens.
-/

namespace ThreadedCode.Lexer

open CodePoint

variable {c : CodePoint} {t u : Text}

section LineBreaks

def lineBreaks : List CodePoint :=
  [0x0A, 0x0B, 0x0C, 0x0D, 0x1C, 0x1D, 0x1E, 0x85, 0x2028, 0x2029]

theorem mem_lineBreaks (breaks : c.isLineBreak) : c ∈ lineBreaks := by
  have number : c.val ∈ lineBreaks.map Fin.val := by
    show c.val ∈ [0x0A, 0x0B, 0x0C, 0x0D, 0x1C, 0x1D, 0x1E, 0x85, 0x2028, 0x2029]
    simp only [isLineBreak, inRanges] at breaks
    simp only [List.mem_cons, List.not_mem_nil, or_false]
    grind
  obtain ⟨d, member, same⟩ := List.mem_map.mp number
  rwa [← Fin.ext same]

/-- What the lexer sees in a line break where it does not take it for one. -/
structure Inert (c : CodePoint) : Prop where
  blank : c.isBlank
  quote : c ≠ doubleQuote
  backslash : c ≠ backslash
  simple : simpleEscape? c = none
  octal : octalDigit? c = none
  hex : hexDigit? c = none
  letter : HexForm.ofLetter? c = none

theorem inert_of_isLineBreak (breaks : c.isLineBreak) : Inert c := by
  have all : lineBreaks.all (fun d =>
      d.isBlank && d ≠ doubleQuote && d ≠ .backslash && simpleEscape? d = none &&
        octalDigit? d = none && hexDigit? d = none && HexForm.ofLetter? d = none) = true := by
    decide
  have here := List.all_eq_true.mp all c (mem_lineBreaks breaks)
  simp only [Bool.and_eq_true, decide_eq_true_eq] at here
  obtain ⟨⟨⟨⟨⟨⟨blank, quote⟩, backslash⟩, simple⟩, octal⟩, hex⟩, letter⟩ := here
  exact ⟨blank, quote, backslash, simple, octal, hex, letter⟩

/-- The breaks of a text block that are none of a file, once every carriage return has become a line
feed. -/
def isFurtherBreak (c : CodePoint) : Bool := c.isLineBreak && c ≠ lineFeed

theorem isFurtherBreak_iff : isFurtherBreak c ↔ c.isLineBreak ∧ c ≠ lineFeed := by
  simp [isFurtherBreak]

def furtherBreaks (t : Text) : Nat := t.countP isFurtherBreak

theorem furtherBreaks_append (t u : Text) :
    furtherBreaks (t ++ u) = furtherBreaks t + furtherBreaks u :=
  List.countP_append

end LineBreaks

section Inside

/-- Two states inside one string that differ only in that the string has been `t` to the one and `u`
to the other some way back. -/
inductive Alike (t u : Text) : State → State → Prop
  | string (x : Text) : Alike t u (.string (t ++ x)) (.string (u ++ x))
  | escape (x : Text) (pending : Pending) :
      Alike t u (.escape (t ++ x) pending) (.escape (u ++ x) pending)

variable {s s' : State}

inductive AlikeStep (t u : Text) : Step → Step → Prop
  | advance {s s' : State} (alike : Alike t u s s') : AlikeStep t u (.advance s) (.advance s')
  | token (x : Text) : AlikeStep t u (.token (t ++ x)) (.token (u ++ x))

theorem stepString_alike (x : Text) (c : CodePoint) :
    AlikeStep t u (stepString (t ++ x) c) (stepString (u ++ x) c) := by
  unfold stepString
  split
  · exact .advance (.escape x .start)
  split
  · rw [List.append_assoc, List.append_assoc]
    exact .token (x ++ [c])
  · rw [List.append_assoc, List.append_assoc]
    exact .advance (.string (x ++ [c]))

theorem stepEscape_alike (x : Text) (c : CodePoint) (pending : Pending) :
    AlikeStep t u (stepEscape (t ++ x) c pending) (stepEscape (u ++ x) c pending) := by
  have grown : ∀ more, AlikeStep t u (.advance (.string (t ++ x ++ more)))
      (.advance (.string (u ++ x ++ more))) := by
    intro more
    rw [List.append_assoc, List.append_assoc]
    exact .advance (.string (x ++ more))
  have plain : ∀ more, AlikeStep t u (stepString (t ++ x ++ more) c)
      (stepString (u ++ x ++ more) c) := by
    intro more
    rw [List.append_assoc, List.append_assoc]
    exact stepString_alike (x ++ more) c
  cases pending with
  | start =>
    simp only [stepEscape]
    split
    · exact grown _
    · exact .advance (.escape x _)
    · exact .advance (.escape x _)
    · exact grown _
  | octal digits =>
    simp only [stepEscape]
    split
    · split
      · exact grown _
      · exact .advance (.escape x _)
    · exact plain _
  | hex form digits =>
    simp only [stepEscape]
    split
    · split
      · exact grown _
      · exact .advance (.escape x _)
    · exact plain _

theorem step_alike (alike : Alike t u s s') (c : CodePoint) :
    AlikeStep t u (step s c) (step s' c) := by
  cases alike with
  | string x => exact stepString_alike x c
  | escape x pending => exact stepEscape_alike x c pending

theorem endLine_alike (alike : Alike t u s s') :
    ∃ x newline, endLine s = (none, .inString (t ++ x) newline) ∧
      endLine s' = (none, .inString (u ++ x) newline) := by
  cases alike with
  | string x => exact ⟨x, true, rfl, rfl⟩
  | escape x pending =>
    cases pending with
    | start => exact ⟨x, false, rfl, rfl⟩
    | octal digits =>
      exact ⟨x ++ Pending.resolve (.octal digits), true, by simp [endLine], by simp [endLine]⟩
    | hex form digits =>
      exact ⟨x ++ Pending.resolve (.hex form digits), true, by simp [endLine], by simp [endLine]⟩

theorem stepString_inert (inert : Inert c) (taken : Text) :
    stepString taken c = .advance (.string (taken ++ [c])) := by
  rw [stepString, if_neg inert.backslash, if_neg inert.quote]

theorem further_alike (alike : Alike t u s s') (further : isFurtherBreak c) :
    ∃ x newline y, endLine s = (none, .inString (t ++ x) newline) ∧
      step s' c = .advance (.string (u ++ y)) ∧ furtherBreaks x < furtherBreaks y := by
  have inert := inert_of_isLineBreak (isFurtherBreak_iff.mp further).1
  have one : furtherBreaks [c] = 1 := List.countP_singleton.trans (if_pos further)
  have more : ∀ x, furtherBreaks x < furtherBreaks (x ++ [c]) := by
    intro x
    rw [furtherBreaks_append, one]
    exact Nat.lt_succ_self _
  cases alike with
  | string x =>
    refine ⟨x, true, x ++ [c], rfl, ?_, more x⟩
    rw [step, stepString_inert inert, List.append_assoc]
  | escape x pending =>
    cases pending with
    | start =>
      refine ⟨x, false, x ++ [.backslash, c], rfl, ?_, ?_⟩
      · simp [step, stepEscape, inert.simple, inert.octal, inert.letter]
      · have split : x ++ [.backslash, c] = x ++ [.backslash] ++ [c] := by simp
        rw [split, furtherBreaks_append, furtherBreaks_append, one]
        omega
    | octal digits =>
      refine ⟨x ++ Pending.resolve (.octal digits), true, _, by simp [endLine], ?_, more _⟩
      simp [step, stepEscape, inert.octal, stepString_inert inert]
    | hex form digits =>
      refine ⟨x ++ Pending.resolve (.hex form digits), true, _, by simp [endLine], ?_, more _⟩
      simp [step, stepEscape, inert.hex, stepString_inert inert]

end Inside

section Apart

/-- The lexers of the text block and of the file are in one string, of which the file's lexer has
taken more further breaks. -/
def Apart (p q : Spot) : Prop :=
  ∃ t u s s', p.state? = some s ∧ q.state? = some s' ∧ Alike t u s s' ∧
    furtherBreaks t < furtherBreaks u

variable {p q : Spot} {s s' : State}

theorem Apart.of_strings (left : p.state? = some (.string t)) (right : q.state? = some (.string u))
    (fewer : furtherBreaks t < furtherBreaks u) : Apart p q := by
  have alike := Alike.string (t := t) (u := u) []
  rw [List.append_nil, List.append_nil] at alike
  exact ⟨t, u, _, _, left, right, alike, fewer⟩

theorem furtherBreaks_startLine (taken : Text) (newline : Bool) :
    ∃ t, startLine (.inString taken newline) = .string t ∧
      furtherBreaks t = furtherBreaks taken := by
  cases newline with
  | false => exact ⟨taken, rfl, rfl⟩
  | true => exact ⟨taken ++ [.lineFeed], rfl, furtherBreaks_append taken [.lineFeed]⟩

/-- A further break in a string sets the two lexers apart. -/
theorem further_apart (left : p.state? = some s) (right : q.state? = some s')
    (alike : Alike t u s s') (le : furtherBreaks t ≤ furtherBreaks u)
    (further : isFurtherBreak c) :
    ∃ p' q', p.next isLineBreak c = (none, p') ∧ q.next (· = lineFeed) c = (none, q') ∧
      Apart p' q' := by
  obtain ⟨breaks, other⟩ := isFurtherBreak_iff.mp further
  obtain ⟨x, newline, y, ended, taken, fewer⟩ := further_alike alike further
  obtain ⟨t', starts, same⟩ := furtherBreaks_startLine (t ++ x) newline
  refine ⟨.between (.inString (t ++ x) newline), .inside (.string (u ++ y)), ?_, ?_,
    .of_strings (congrArg some starts) rfl ?_⟩
  · simp only [Spot.next, left, if_pos breaks, ended]
  · simp [Spot.next, right, other, taken]
  · rw [same, furtherBreaks_append, furtherBreaks_append]
    omega

theorem Apart.next (apart : Apart p q) (c : CodePoint) :
    (∃ p' q', p.next isLineBreak c = (none, p') ∧ q.next (· = lineFeed) c = (none, q') ∧
      Apart p' q') ∨
    ∃ x y, (p.next isLineBreak c).1 = some x ∧ (q.next (· = lineFeed) c).1 = some y ∧
      furtherBreaks x < furtherBreaks y := by
  obtain ⟨t, u, s, s', left, right, alike, fewer⟩ := apart
  by_cases further : isFurtherBreak c
  · exact Or.inl (further_apart left right alike (Nat.le_of_lt fewer) further)
  by_cases feed : c = lineFeed
  · have breaks : c.isLineBreak := feed ▸ by decide
    obtain ⟨x, newline, ended, ended'⟩ := endLine_alike alike
    obtain ⟨t', starts, same⟩ := furtherBreaks_startLine (t ++ x) newline
    obtain ⟨u', starts', same'⟩ := furtherBreaks_startLine (u ++ x) newline
    refine Or.inl ⟨.between (.inString (t ++ x) newline), .between (.inString (u ++ x) newline),
      ?_, ?_, .of_strings (congrArg some starts) (congrArg some starts') ?_⟩
    · simp only [Spot.next, left, if_pos breaks, ended]
    · simp [Spot.next, right, feed, ended']
    · rw [same, same', furtherBreaks_append, furtherBreaks_append]
      omega
  · have plain : ¬ c.isLineBreak := fun breaks => further (isFurtherBreak_iff.mpr ⟨breaks, feed⟩)
    simp only [Spot.next, left, right, if_neg plain, decide_eq_true_eq, if_neg feed]
    have stepped := step_alike alike c
    generalize step s c = left, step s' c = right at stepped ⊢
    cases stepped with
    | advance alike => exact Or.inl ⟨_, _, rfl, rfl, t, u, _, _, rfl, rfl, alike, fewer⟩
    | token x =>
      refine Or.inr ⟨_, _, rfl, rfl, ?_⟩
      rw [furtherBreaks_append, furtherBreaks_append]
      omega

theorem atEnd_eq (at_ : p.state? = some s) {newline : Bool}
    (ended : endLine s = (none, .inString t newline)) :
    ∃ x, p.atEnd = [x] ∧ furtherBreaks x = furtherBreaks t := by
  cases p with
  | between carry =>
    cases carry with
    | outside =>
      cases at_
      cases ended
    | inString taken newline =>
      cases at_
      obtain ⟨t', starts, same⟩ := furtherBreaks_startLine taken newline
      rw [starts] at ended
      cases ended
      exact ⟨taken, rfl, same.symm⟩
  | inside s =>
    cases at_
    exact ⟨t, by rw [Spot.atEnd, ended]; rfl, rfl⟩
  | comment => cases at_

theorem Apart.heads (apart : Apart p q) (rest : Text) :
    ∃ x y, (spotTokens isLineBreak p rest).head? = some x ∧
      (spotTokens (· = lineFeed) q rest).head? = some y ∧ furtherBreaks x < furtherBreaks y := by
  induction rest generalizing p q with
  | nil =>
    obtain ⟨t, u, s, s', left, right, alike, fewer⟩ := apart
    obtain ⟨w, newline, ended, ended'⟩ := endLine_alike alike
    obtain ⟨x, tokens, same⟩ := atEnd_eq left ended
    obtain ⟨y, tokens', same'⟩ := atEnd_eq right ended'
    refine ⟨x, y, congrArg List.head? tokens, congrArg List.head? tokens', ?_⟩
    rw [same, same', furtherBreaks_append, furtherBreaks_append]
    omega
  | cons c rest ih =>
    rw [spotTokens, spotTokens]
    rcases apart.next c with ⟨p', q', left, right, apart⟩ | ⟨x, y, left, right, fewer⟩
    · rw [left, right]
      exact ih apart
    · rw [left, right]
      exact ⟨x, y, rfl, rfl, fewer⟩

theorem Apart.spotTokens_ne (apart : Apart p q) (rest : Text) :
    spotTokens isLineBreak p rest ≠ spotTokens (· = lineFeed) q rest := by
  obtain ⟨x, y, left, right, fewer⟩ := apart.heads rest
  intro same
  rw [same, right] at left
  cases left
  exact Nat.lt_irrefl _ fewer

end Apart

section Agreement

def Spot.isInString (p : Spot) : Bool :=
  match p.state? with
  | some (.string _) => true
  | some (.escape _ _) => true
  | _ => false

theorem next_eq (plain : ¬ isFurtherBreak c) (p : Spot) :
    p.next isLineBreak c = p.next (· = lineFeed) c := by
  have same : c.isLineBreak = decide (c = lineFeed) := by
    by_cases feed : c = lineFeed
    · subst feed
      decide
    · have other : ¬ c.isLineBreak := fun breaks => plain (isFurtherBreak_iff.mpr ⟨breaks, feed⟩)
      rw [Bool.not_eq_true] at other
      rw [other, decide_eq_false feed]
  simp only [Spot.next, same]

theorem spotTokens_outside (breaks : CodePoint → Bool) (t : Text) :
    spotTokens breaks (.between .outside) t = spotTokens breaks (.inside .space) t := by
  cases t <;> rfl

theorem Spot.eq_comment {p : Spot} (none_ : p.state? = none) : p = .comment := by
  cases p with
  | between carry => cases none_
  | inside s => cases none_
  | comment => rfl

theorem alike_self {p : Spot} {s : State} (at_ : p.state? = some s) (inString : p.isInString) :
    ∃ t, Alike t t s s := by
  rw [Spot.isInString, at_] at inString
  cases s with
  | space => cases inString
  | word taken => cases inString
  | string taken =>
    have alike := Alike.string (t := taken) (u := taken) []
    rw [List.append_nil] at alike
    exact ⟨taken, alike⟩
  | escape taken pending =>
    have alike := Alike.escape (t := taken) (u := taken) [] pending
    rw [List.append_nil] at alike
    exact ⟨taken, alike⟩

theorem next_outside {p : Spot} {s : State} (at_ : p.state? = some s) (out : ¬ p.isInString)
    (further : isFurtherBreak c) :
    ∃ token, p.next isLineBreak c = (token, .between .outside) ∧
      p.next (· = lineFeed) c = (token, .inside .space) := by
  obtain ⟨breaks, other⟩ := isFurtherBreak_iff.mp further
  have blank := (inert_of_isLineBreak breaks).blank
  cases s with
  | space => exact ⟨none, by simp [Spot.next, at_, breaks, endLine],
      by simp [Spot.next, at_, other, step, blank]⟩
  | word taken => exact ⟨some taken.lower, by simp [Spot.next, at_, breaks, endLine],
      by simp [Spot.next, at_, other, step, blank]⟩
  | string taken => exact absurd (by rw [Spot.isInString, at_]) out
  | escape taken pending => exact absurd (by rw [Spot.isInString, at_]) out

/-- Where no comment holds a further break, the two lexers agree exactly if no string does. -/
theorem spotTokens_eq_iff (p : Spot) (t : Text)
    (bare : ∀ e ∈ spots (· = lineFeed) p t, isFurtherBreak e.2 → e.1 ≠ .comment) :
    spotTokens isLineBreak p t = spotTokens (· = lineFeed) p t ↔
      ∀ e ∈ spots (· = lineFeed) p t, isFurtherBreak e.2 → ¬ e.1.isInString := by
  induction t generalizing p with
  | nil => exact iff_of_true rfl fun e member => absurd member List.not_mem_nil
  | cons c rest ih =>
    rw [spots, List.forall_mem_cons] at bare
    obtain ⟨here, later⟩ := bare
    have ih := ih _ later
    rw [spots, List.forall_mem_cons, spotTokens, spotTokens, ← ih]
    by_cases further : isFurtherBreak c
    · cases at_ : p.state? with
      | none => exact absurd (Spot.eq_comment at_) (here further)
      | some s =>
        by_cases inString : p.isInString
        · -- from here on the lexers are apart, and the string ends in different tokens
          obtain ⟨t, alike⟩ := alike_self at_ inString
          obtain ⟨p', q', left, right, apart⟩ :=
            further_apart at_ at_ alike (Nat.le_refl _) further
          rw [left, right]
          exact iff_of_false (apart.spotTokens_ne rest) fun both => both.1 further inString
        · obtain ⟨token, left, right⟩ := next_outside at_ inString further
          rw [left, right, spotTokens_outside, List.append_right_inj]
          exact (and_iff_right fun _ => inString).symm
    · rw [next_eq further, List.append_right_inj]
      exact (and_iff_right fun other => absurd other further).symm

def fileSpots (t : Text) : List (Spot × CodePoint) :=
  spots (· = lineFeed) (.between .outside) (Text.unifyBreaks t)

theorem tokensOfAll_singleton (lines : List Text) :
    tokensOfAll [{ lines }] = (tokens lines, none) := by
  simp only [tokensOfAll, sourceTokens, List.append_nil]

theorem ofFile_encoded {bytes : Bytes} (encoded : Utf8.encode t = .ok bytes) {disk : Disk}
    {path : Text} (stored : disk.read path = .ok bytes) :
    Source.ofFile disk path = { lines := Text.fileLines t } := by
  simp only [Source.ofFile, stored, Source.ofBytes_of_decode (Utf8.decode_encode encoded)]

/-- A text and the file that holds it in UTF-8 give the same tokens exactly if no string of the file
holds a further break. This is so wherever no comment of the file holds one: there the text block
has its lines end, and what is left of the comment becomes code. -/
theorem tokens_ofText_eq_ofFile_iff {bytes : Bytes} (encoded : Utf8.encode t = .ok bytes)
    {disk : Disk} {path : Text} (stored : disk.read path = .ok bytes)
    (bare : ∀ e ∈ fileSpots t, isFurtherBreak e.2 → e.1 ≠ .comment) :
    tokensOfAll [.ofText t] = tokensOfAll [.ofFile disk path] ↔
      ∀ e ∈ fileSpots t, isFurtherBreak e.2 → ¬ e.1.isInString := by
  rw [ofFile_encoded encoded stored, Source.ofText, tokensOfAll_singleton, tokensOfAll_singleton,
    Prod.mk.injEq, and_iff_left rfl, tokens_lines, tokens_fileLines]
  exact spotTokens_eq_iff (.between .outside) (Text.unifyBreaks t) bare

theorem tokens_ofText_eq_ofFile_spaced :
    let t : Text := "a\x0cb \"c\r\nd\" # e\rf"
    let bytes : Bytes := t.flatMap Utf8.encodeOne
    let disk : Disk := fun _ => .ok bytes
    Utf8.encode t = .ok bytes ∧ disk.read "f" = .ok bytes ∧
      (∀ e ∈ fileSpots t, isFurtherBreak e.2 → e.1 ≠ .comment) ∧
      (∀ e ∈ fileSpots t, isFurtherBreak e.2 → ¬ e.1.isInString) ∧
      tokensOfAll [.ofText t] = tokensOfAll [.ofFile disk "f"] := by
  intro t bytes disk
  have encoded : Utf8.encode t = .ok bytes := rfl
  have stored : disk.read "f" = .ok bytes := rfl
  have bare : ∀ e ∈ fileSpots t, isFurtherBreak e.2 → e.1 ≠ .comment := by decide
  have outside : ∀ e ∈ fileSpots t, isFurtherBreak e.2 → ¬ e.1.isInString := by decide
  exact ⟨encoded, stored, bare, outside,
    (tokens_ofText_eq_ofFile_iff encoded stored bare).mpr outside⟩

/-- A form feed inside a string makes the text block and the file come to different tokens. -/
theorem formFeed_in_string :
    let t : Text := [doubleQuote, 0x0C, doubleQuote]
    let bytes : Bytes := [0x22, 0x0C, 0x22]
    let disk : Disk := fun _ => .ok bytes
    Utf8.encode t = .ok bytes ∧ disk.read "f" = .ok bytes ∧
      tokensOfAll [.ofText t] = ([[doubleQuote, lineFeed, doubleQuote]], none) ∧
      tokensOfAll [.ofFile disk "f"] = ([[doubleQuote, 0x0C, doubleQuote]], none) ∧
      tokensOfAll [.ofText t] ≠ tokensOfAll [.ofFile disk "f"] := by
  intro t bytes disk
  have text : tokensOfAll [.ofText t] = ([[doubleQuote, lineFeed, doubleQuote]], none) := by decide
  have file : tokensOfAll [.ofFile disk "f"] = ([[doubleQuote, 0x0C, doubleQuote]], none) := by
    decide
  refine ⟨rfl, rfl, text, file, ?_⟩
  rw [text, file]
  decide

end Agreement

end ThreadedCode.Lexer
