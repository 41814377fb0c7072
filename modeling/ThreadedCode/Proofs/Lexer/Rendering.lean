import Mathlib.Data.List.Forall2
import Mathlib.Data.List.Induction
import ThreadedCode.Lexer.Token
import ThreadedCode.Proofs.Lexer.Descent

/-!
Source text that is written item by item. An item is a bare word or a string of any code points. Each
code point of a string has several spellings, and between items there may be white space, line ends
and comments in any number. Main statement: however items are written, the lexer gives one token for
each, the words in lower case and the strings as they were.
-/

namespace ThreadedCode.Lexer

open Grammar

/-- A word that is neither a string nor a comment nor several words. -/
structure BareWord where
  first : CodePoint
  rest : Text
  notString : first ≠ .doubleQuote
  notComment : first ≠ .numberSign
  unbroken : ∀ c ∈ first :: rest, isWordChar c

def BareWord.text (w : BareWord) : Text := w.first :: w.rest

inductive Item where
  | word (w : BareWord)
  | string (s : Text)

inductive Spells (c : CodePoint) : Text → Prop
  | literal (quote : c ≠ .doubleQuote) (backslash : c ≠ .backslash) : Spells c [c]
  | simple {e : CodePoint} (stands : (e, c) ∈ simpleEscapes) : Spells c [.backslash, e]
  | octal {ds : Text} (digits : ∀ d ∈ ds, (octalDigit? d).isSome) (three : ds.length = 3)
      (denotes : numberOf 8 octalDigit? ds = c.val) : Spells c (.backslash :: ds)
  | hex (form : HexForm) {ds : Text} (digits : ∀ d ∈ ds, (hexDigit? d).isSome)
      (full : ds.length = form.width) (denotes : numberOf 16 hexDigit? ds = c.val) :
      Spells c (.backslash :: form.letter :: ds)

inductive SpellsAll : Text → Text → Prop
  | nil : SpellsAll [] []
  | cons {c : CodePoint} {s t u : Text} (head : Spells c t) (tail : SpellsAll s u) :
      SpellsAll (c :: s) (t ++ u)

inductive Item.Renders : Item → Text → Prop
  | word (w : BareWord) : Renders (.word w) w.text
  | string {s t : Text} (spelled : SpellsAll s t) :
      Renders (.string s) (.doubleQuote :: t ++ [.doubleQuote])

/-- The items on a line or the rest of one. Where `free` is false an item has just ended: the next
item, or a comment, begins only after white space. -/
inductive RendersLine : (free : Bool) → List Item → Text → Prop
  | done (free : Bool) : RendersLine free [] []
  | blank (free : Bool) {c : CodePoint} {items : List Item} {line : Text} (white : c.isBlank)
      (more : RendersLine true items line) : RendersLine free items (c :: line)
  | comment (remark : Text) : RendersLine true [] (.numberSign :: remark)
  | item {i : Item} {items : List Item} {t line : Text} (head : i.Renders t)
      (more : RendersLine false items line) : RendersLine true (i :: items) (t ++ line)

inductive Renders : List Item → List Text → Prop
  | nil : Renders [] []
  | line {here below : List Item} {line : Text} {lines : List Text}
      (head : RendersLine true here line) (tail : Renders below lines) :
      Renders (here ++ below) (line :: lines)

def Item.ReadsAs : Item → Text → Prop
  | word w, token => token = w.text.lower
  | string s, token => token.isString ∧ token.unquote = s

def Item.token : Item → Text
  | word w => w.text.lower
  | string s => .doubleQuote :: s ++ [.doubleQuote]

theorem Item.readsAs_token (i : Item) : i.ReadsAs i.token := by
  cases i with
  | word w => rfl
  | string s =>
    have last : (.doubleQuote :: s ++ [.doubleQuote] : Text).getLast? = some .doubleQuote :=
      List.getLast?_concat
    constructor
    · rw [token, Text.isString, decide_eq_true last]
      simp
    · simp [token, Text.unquote]

section Escapes

variable {c : CodePoint}

theorem digits_append {digit? : CodePoint → Option Nat} {ds : Text}
    (all : ∀ d ∈ ds, (digit? d).isSome) (rest : Text) :
    digits digit? ds.length (ds ++ rest) = ds := by
  rw [digits, List.takeWhile_append_of_pos all, List.take_left]

theorem charOr_val (literal : Text) : charOr literal c.val = [c] := by
  simp [charOr, CodePoint.ofNat?]

theorem simpleEscape?_of_mem {e : CodePoint} (stands : (e, c) ∈ simpleEscapes) :
    simpleEscape? e = some c := by
  have table : simpleEscapes.all fun entry => simpleEscape? entry.1 = some entry.2 := by decide
  exact of_decide_eq_true (List.all_eq_true.mp table (e, c) stands)

theorem simpleEscape?_of_octal (digit : (octalDigit? c).isSome) : simpleEscape? c = none := by
  have table : simpleEscapes.all fun entry => octalDigit? entry.1 = none := by decide
  rw [simpleEscape?, Option.map_eq_none_iff, List.find?_eq_none]
  intro entry member same
  have other := of_decide_eq_true (List.all_eq_true.mp table entry member)
  rw [← of_decide_eq_true same, other] at digit
  cases digit

theorem escape_simple {e : CodePoint} (stands : (e, c) ∈ simpleEscapes) (rest : Text) :
    escape e rest = ([c], rest) := by
  rw [escape, simpleEscape?_of_mem stands]

theorem escape_octal {d : CodePoint} {ds : Text}
    (all : ∀ e ∈ d :: ds, (octalDigit? e).isSome) (two : ds.length = 2)
    (denotes : numberOf 8 octalDigit? (d :: ds) = c.val) (rest : Text) :
    escape d (ds ++ rest) = ([c], rest) := by
  have first := all d List.mem_cons_self
  obtain ⟨n, value⟩ := Option.isSome_iff_exists.mp first
  have more : digits octalDigit? 2 (ds ++ rest) = ds :=
    two ▸ digits_append (fun e member => all e (List.mem_cons_of_mem d member)) rest
  rw [escape, simpleEscape?_of_octal first, value]
  simp [more, denotes, charOr_val]

theorem escape_hex (form : HexForm) {ds : Text} (all : ∀ d ∈ ds, (hexDigit? d).isSome)
    (full : ds.length = form.width) (denotes : numberOf 16 hexDigit? ds = c.val) (rest : Text) :
    escape form.letter (ds ++ rest) = ([c], rest) := by
  have simple : simpleEscape? form.letter = none := by cases form <;> decide
  have octal : octalDigit? form.letter = none := by cases form <;> decide
  have letter : HexForm.ofLetter? form.letter = some form := by cases form <;> decide
  have taken : digits hexDigit? form.width (ds ++ rest) = ds := full ▸ digits_append all rest
  simp [escape, simple, octal, letter, taken, full, denotes, charOr_val]

end Escapes

section Contents

variable {lines : List Text}

theorem content_spelled {c : CodePoint} {t : Text} (spelled : Spells c t) (rest : Text) :
    content (t ++ rest) lines = (content rest lines).after [c] := by
  cases spelled with
  | literal quote backslash =>
    rw [List.singleton_append, content_literal quote backslash]
  | simple stands =>
    rw [List.cons_append, List.singleton_append, content_backslash, escape_simple stands]
  | @octal ds all three denotes =>
    obtain ⟨d, more, rfl⟩ := List.exists_cons_of_length_eq_add_one three
    have two : more.length = 2 := Nat.succ.inj three
    rw [List.cons_append, List.cons_append, content_backslash, escape_octal all two denotes]
  | hex form all full denotes =>
    rw [List.cons_append, List.cons_append, content_backslash, escape_hex form all full denotes]

theorem content_spelledAll {s t : Text} (spelled : SpellsAll s t) (rest : Text) :
    content (t ++ .doubleQuote :: rest) lines = ⟨s, some (rest, lines)⟩ := by
  induction spelled with
  | nil => exact content_quote rest
  | cons head tail ih =>
    rw [List.append_assoc, content_spelled head, ih]
    rfl

end Contents

section Lines

variable {lines : List Text}

theorem program_spelled {s t : Text} (spelled : SpellsAll s t) (line : Text) :
    program (.doubleQuote :: t ++ [.doubleQuote] ++ line) lines =
      (.doubleQuote :: s ++ [.doubleQuote]) :: program line lines := by
  rw [List.append_assoc, List.cons_append, List.singleton_append]
  exact program_string (content_spelledAll spelled line)

theorem program_word (w : BareWord) {line : Text} (ended : ∀ c ∈ line.head?, c.isBlank) :
    program (w.text ++ line) lines = w.text.lower :: program line lines := by
  have stop : line.takeWhile isWordChar = [] ∧ line.dropWhile isWordChar = line := by
    cases line with
    | nil => exact ⟨rfl, rfl⟩
    | cons c line =>
      have white := ended c rfl
      simp [isWordChar, white]
  have inner : ∀ c ∈ w.rest, isWordChar c := fun c member =>
    w.unbroken c (List.mem_cons_of_mem _ member)
  have first : ¬ w.first.isBlank := by
    simpa [isWordChar] using w.unbroken w.first List.mem_cons_self
  rw [BareWord.text, List.cons_append, program_bare first w.notComment w.notString,
    List.takeWhile_append_of_pos inner, List.dropWhile_append_of_pos inner, stop.1, stop.2,
    List.append_nil]

theorem RendersLine.head_blank {items : List Item} {line : Text}
    (h : RendersLine false items line) : ∀ c ∈ line.head?, c.isBlank := by
  cases h with
  | done => simp
  | blank _ white more => simpa using white

theorem program_line {free : Bool} {items : List Item} {line : Text}
    (h : RendersLine free items line) :
    program line lines = items.map Item.token ++ program [] lines := by
  induction h with
  | done => rfl
  | blank _ white _ ih => rw [program_blank white, ih]
  | comment remark => exact program_comment remark
  | item head more ih =>
    cases head with
    | word w =>
      rw [program_word w more.head_blank, ih]
      rfl
    | string spelled =>
      rw [program_spelled spelled, ih]
      rfl

end Lines

section Chomp

variable {c : CodePoint}

def isLineEnd (c : CodePoint) : Bool := c = .lineFeed || c = .carriageReturn

theorem isBlank_of_isLineEnd (h : isLineEnd c) : c.isBlank := by
  rcases (Bool.or_eq_true _ _).mp h with feed | ret
  · rw [of_decide_eq_true feed]
    decide
  · rw [of_decide_eq_true ret]
    decide

theorem Item.Renders.last_not_lineEnd {i : Item} {t : Text} (h : i.Renders t) :
    ∀ c ∈ t.getLast?, ¬ isLineEnd c := by
  intro c last ends
  cases h with
  | word w =>
    have dark := w.unbroken c (List.mem_of_getLast? last)
    rw [isWordChar, isBlank_of_isLineEnd ends] at dark
    cases dark
  | string _ =>
    rw [List.getLast?_concat] at last
    cases last
    exact absurd ends (by decide)

theorem Item.Renders.ne_nil {i : Item} {t : Text} (h : i.Renders t) : t ≠ [] := by
  cases h <;> exact List.cons_ne_nil _ _

theorem RendersLine.eq_nil {free : Bool} {items : List Item} {line : Text}
    (h : RendersLine free items line) (empty : line = []) : items = [] := by
  cases h with
  | done => rfl
  | blank => cases empty
  | comment => cases empty
  | item head => exact absurd (List.append_eq_nil_iff.mp empty).1 head.ne_nil

theorem RendersLine.dropLast {free : Bool} {items : List Item} {text line : Text}
    (h : RendersLine free items text) (split : text = line ++ [c]) (ends : isLineEnd c) :
    RendersLine free items line := by
  induction h generalizing line with
  | done => simp at split
  | blank free white more ih =>
    cases line with
    | nil =>
      cases split
      obtain rfl := more.eq_nil rfl
      exact .done free
    | cons d line =>
      cases split
      exact .blank free white (ih rfl)
  | comment remark =>
    cases line with
    | nil =>
      cases split
      exact absurd ends (by decide)
    | cons d line =>
      cases split
      exact .comment line
  | @item i items t rest head more ih =>
    rcases rest.eq_nil_or_concat with rfl | ⟨rest, d, rfl⟩
    · have last : c ∈ t.getLast? := by
        rw [← List.append_nil t, split, List.getLast?_concat]
        exact rfl
      exact absurd ends (head.last_not_lineEnd c last)
    · rw [List.concat_eq_append, ← List.append_assoc] at split
      obtain ⟨rfl, same⟩ := List.append_inj' split rfl
      cases same
      exact .item head (ih List.concat_eq_append)

theorem chomp_concat (line : Text) :
    Text.chomp (line ++ [c]) = if isLineEnd c then Text.chomp line else line ++ [c] := by
  have cut : ∀ t : Text, t.chomp = (t.reverse.dropWhile isLineEnd).reverse := fun _ => rfl
  rw [cut, cut, List.reverse_append, List.reverse_singleton, List.singleton_append]
  by_cases ends : isLineEnd c
  · rw [if_pos ends, List.dropWhile_cons_of_pos ends]
  · rw [if_neg ends, List.dropWhile_cons_of_neg ends, List.reverse_cons, List.reverse_reverse]

theorem RendersLine.chomp {free : Bool} {items : List Item} {line : Text}
    (h : RendersLine free items line) : RendersLine free items line.chomp := by
  induction line using List.reverseRecOn with
  | nil => exact h
  | append_singleton line c ih =>
    rw [chomp_concat]
    by_cases ends : isLineEnd c
    · rw [if_pos ends]
      exact ih (h.dropLast rfl ends)
    · rw [if_neg ends]
      exact h

end Chomp

theorem tokens_of_renders {items : List Item} {lines : List Text} (h : Renders items lines) :
    tokens lines = items.map Item.token := by
  rw [tokens_eq_program]
  induction h with
  | nil => exact program.eq_1
  | line head _ ih => rw [List.map_cons, program, program_line head.chomp, ih, List.map_append]

section Existence

def plainSpelling (c : CodePoint) : Text :=
  if c = .doubleQuote ∨ c = .backslash then [.backslash, c] else [c]

theorem spells_plainSpelling (c : CodePoint) : Spells c (plainSpelling c) := by
  unfold plainSpelling
  split
  next special =>
    refine .simple ?_
    rcases special with rfl | rfl
    · decide
    · decide
  next plain =>
    obtain ⟨quote, backslash⟩ := not_or.mp plain
    exact .literal quote backslash

theorem spellsAll_flatMap (s : Text) : SpellsAll s (s.flatMap plainSpelling) := by
  induction s with
  | nil => exact .nil
  | cons c s ih => exact .cons (spells_plainSpelling c) ih

theorem Item.exists_renders (i : Item) : ∃ t, i.Renders t := by
  cases i with
  | word w => exact ⟨w.text, .word w⟩
  | string s => exact ⟨_, .string (spellsAll_flatMap s)⟩

theorem exists_renders (items : List Item) : ∃ lines, Renders items lines := by
  induction items with
  | nil => exact ⟨[], .nil⟩
  | cons i items ih =>
    obtain ⟨t, head⟩ := i.exists_renders
    obtain ⟨lines, tail⟩ := ih
    exact ⟨(t ++ []) :: lines, .line (.item head (.done false)) tail⟩

end Existence

/-- Any items can be written, and however they are written they are read back. There is one token for
each item, in order: for a word the word in lower case, for a string a token that is taken for a
string and holds its code points. -/
theorem written_items_read_back (items : List Item) :
    (∃ lines, Renders items lines) ∧
      ∀ lines, Renders items lines → List.Forall₂ Item.ReadsAs items (tokens lines) := by
  refine ⟨exists_renders items, fun lines rendered => ?_⟩
  rw [tokens_of_renders rendered, List.forall₂_map_right_iff]
  exact List.forall₂_same.mpr fun i _ => i.readsAs_token

theorem written_items_read_back_mixed :
    let dup : BareWord := ⟨'D', ['u', 'p'], by decide, by decide, List.all_eq_true.mp rfl⟩
    let mark : BareWord :=
      ⟨'X', [.numberSign, .doubleQuote], by decide, by decide, List.all_eq_true.mp rfl⟩
    let items : List Item := [.word dup, .string ['a', .doubleQuote, .lineFeed, 0xD800], .word mark]
    let lines : List Text :=
      ["Dup # \"none\r\n", " \"\\141\\\"\n\\ud800\"\tX#\""]
    Renders items lines ∧ List.Forall₂ Item.ReadsAs items (tokens lines) := by
  intro dup mark items lines
  have first : RendersLine true [.word dup] "Dup # \"none\r\n" :=
    .item (.word dup) (.blank false (by decide) (.comment " \"none\r\n"))
  have spelled : SpellsAll ['a', .doubleQuote, .lineFeed, 0xD800] "\\141\\\"\n\\ud800" :=
    .cons (t := "\\141") (.octal (List.all_eq_true.mp rfl) rfl rfl)
      (.cons (t := "\\\"") (.simple (by decide))
        (.cons (t := "\n") (.literal (by decide) (by decide))
          (.cons (t := "\\ud800") (.hex .four (List.all_eq_true.mp rfl) rfl rfl) .nil)))
  have second : RendersLine true (items.drop 1) " \"\\141\\\"\n\\ud800\"\tX#\"" :=
    .blank true (by decide)
      (.item (.string spelled) (.blank false (by decide) (.item (.word mark) (.done false))))
  have written : Renders items lines := .line first (.line second .nil)
  exact ⟨written, (written_items_read_back items).2 lines written⟩

end ThreadedCode.Lexer
