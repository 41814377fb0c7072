import ThreadedCode.Proofs.Console.OneByOne
import ThreadedCode.Proofs.Console.SingleLine
import ThreadedCode.Proofs.Dictionary.Named
import ThreadedCode.Proofs.Lexer.Closing

/-!
Listed words, entered by name. A word gets its name in the dictionary as it is, and the console asks
for the name in lower case. So the words in scope whose names are in lower case can be run by their
names, and those with other names cannot.
-/

namespace ThreadedCode

/-- A single token that is no string, no comment, no integer and no command. -/
structure Text.IsBareToken (name : Text) : Prop where
  filled : name ≠ []
  dark : ∀ c ∈ name, ¬ c.isBlank
  notString : name.head? ≠ some .doubleQuote
  notComment : name.head? ≠ some .numberSign
  notInteger : name.integer? = none
  notCommand : Command.ofName? name = none

theorem Text.isBareToken_iff {name : Text} :
    name ≠ [] ∧ (name.all fun c => !c.isBlank) ∧ name.head? ≠ some .doubleQuote ∧
      name.head? ≠ some .numberSign ∧ name.integer? = none ∧ Command.ofName? name = none ↔
        name.IsBareToken := by
  constructor
  · rintro ⟨filled, dark, notString, notComment, notInteger, notCommand⟩
    exact ⟨filled, by simpa using dark, notString, notComment, notInteger, notCommand⟩
  · rintro ⟨filled, dark, notString, notComment, notInteger, notCommand⟩
    exact ⟨filled, by simpa using dark, notString, notComment, notInteger, notCommand⟩

instance (name : Text) : Decidable name.IsBareToken := decidable_of_iff _ Text.isBareToken_iff

namespace Console

open Lexer

variable (setting : Setting) {c : Console} {name : Text}

theorem enterText_bareToken (bare : name.IsBareToken) :
    enterText setting name = enterToken setting name.lower := by
  obtain ⟨w, same⟩ := BareWord.exists_text bare.filled bare.notString bare.notComment bare.dark
  have written : RendersLine true [.word w] (w.text ++ []) := .item (.word w) (.done false)
  rw [List.append_nil, same] at written
  have unbroken : ∀ d ∈ name, ¬ d.isLineBreak := fun d member breaks =>
    bare.dark d member (CodePoint.isBlank_of_isLineBreak breaks)
  have plain : ¬ Command.isCommandLine name := by
    rw [Command.isCommandLine_word bare.filled bare.dark, bare.notCommand]
    decide
  rw [enterText_items setting written unbroken plain, List.map_singleton, Item.token, same]
  exact bind_pure_unit

theorem lower_not_string (bare : name.IsBareToken) : name.lower.isString = false := by
  obtain ⟨first, rest, rfl⟩ := List.exists_cons_of_ne_nil bare.filled
  have other : first ≠ .doubleQuote := fun same => bare.notString (congrArg some same)
  simp [Text.isString, Text.head?_lower_ne other rest]

/-- Every word in scope can be run by its name, if the name is a single bare token in lower case.
The dictionary comes of any history that does not turn to the vocabulary with an empty name. A bare
token on a line of its own is entered in lower case; where that is the name itself, the word that is
run is this very word, shadowed words and other vocabularies notwithstanding. Where it is not, the
word is not run, for what the lower case denotes has another name. -/
theorem listed_word_runs (firstToken : Token) (rs : List Dictionary.Request) (c : Console) :
    let d := (Dictionary.empty firstToken).performAll rs
    (∀ r ∈ rs, r.isNamed) → c.machine.dictionary = d →
      ∃ listed, d.wordsInScope = .ok listed ∧ ∀ w ∈ listed, w.name.IsBareToken →
        enterText setting w.name c = enterToken setting w.name.lower c ∧
          (w.name.lower = w.name → d.findToken? w.token = some w ∧
            enterText setting w.name c = runWord setting w { c with machine := c.machine.ready }) ∧
          (w.name.lower ≠ w.name → ∀ u, d.find? w.name.lower = .ok (some u) → u ≠ w) := by
  intro d named here
  have ordered : d.Ordered := .performAll firstToken rs
  obtain ⟨listed, scope, denoted⟩ := Dictionary.find?_of_listed firstToken named
  refine ⟨listed, scope, fun w member bare => ⟨?_, fun lower => ⟨?_, ?_⟩, fun other u found => ?_⟩⟩
  · rw [enterText_bareToken setting bare]
  · obtain ⟨token, live⟩ := Dictionary.find?_live (denoted w member)
    obtain ⟨-, rfl⟩ := ordered.get?_eq_some.mp live
    exact live
  · have denotes : Denotes c.machine.dictionary w.name w :=
      ⟨lower ▸ lower_not_string bare, bare.notInteger, here ▸ denoted w member⟩
    rw [enterText_bareToken setting bare, lower, denotes.enterToken_eq]
  · obtain ⟨start, _, context, -⟩ := ordered.context
    rw [ordered.find?_eq context] at found
    have called : u.name = w.name.lower := by simpa using List.find?_some (Except.ok.inj found)
    rintro rfl
    exact other called.symm

theorem listed_word_runs_shadowing :
    let setting : Setting :=
      { host := fun _ _ _ => pure .null, disk := fun _ => .error .missing, fuel := 100 }
    let word (name : Text) (body : List Instruction) : Dictionary.Definition :=
      { name, kind := .atomic, body }
    let rs : List Dictionary.Request :=
      [.definePrimitive "cr" (.builtin .newline) "", .use "user", .define (word "go" []),
        .define (word "go" [⟨1, .absent⟩]), .define (word "past" []), .define (word "go" []),
        .forget "past", .addVocabulary "", .addVocabulary "app", .use "app"]
    let d := (Dictionary.empty 1).performAll rs
    let w : Word :=
      { Word.secondary "go" 3 .atomic [⟨1, .absent⟩] with
        vocabulary := "user", older := some 2, shadowed := some 2 }
    let c : Console := { machine := { built := some d }, taskName := defaultTaskName }
    (∀ r ∈ rs, r.isNamed) ∧ c.machine.dictionary = d ∧
      (∃ listed, d.wordsInScope = .ok listed ∧ w ∈ listed) ∧ w.name.IsBareToken ∧
      w.name.lower = w.name ∧
      enterText setting "go" c = runWord setting w { c with machine := c.machine.ready } ∧
      ∃ left, enterText setting "go" c = .ok () left ∧ left.machine.output = "\n" := by
  intro setting word rs d w c
  have named : ∀ r ∈ rs, r.isNamed := by decide
  have here : c.machine.dictionary = d := Option.getD_some
  have bare : w.name.IsBareToken := by decide +kernel
  have lower : w.name.lower = w.name := by decide +kernel
  obtain ⟨listed, scope, each⟩ := listed_word_runs setting 1 rs c named here
  have inside : d.wordsInScope.toOption.map (fun words => decide (w ∈ words)) = some true := by
    decide +kernel
  rw [scope] at inside
  have member : w ∈ listed := of_decide_eq_true (Option.some.inj inside)
  obtain ⟨-, runs, -⟩ := each w member bare
  have shown : (enterText setting "go" c).mapState (fun left => left.machine.output) =
      .ok () "\n" := by decide +kernel
  exact ⟨named, here, ⟨listed, scope, member⟩, bare, lower, (runs lower).2,
    Outcome.mapState_eq_ok.mp shown⟩

/-- A name with a capital letter: the word is listed and can run, but its name is entered for
another one, which there is not. -/
theorem listed_word_not_run :
    let setting : Setting :=
      { host := fun _ _ _ => pure .null, disk := fun _ => .error .missing, fuel := 100 }
    let rs : List Dictionary.Request :=
      [.definePrimitive "cr" (.builtin .newline) "", .use "user",
        .define { name := "A", kind := .atomic, body := [⟨1, .absent⟩] }]
    let d := (Dictionary.empty 1).performAll rs
    let w : Word := { Word.secondary "A" 2 .atomic [⟨1, .absent⟩] with vocabulary := "user" }
    let cr := Word.ofBuiltin "cr" 1 .newline
    let c : Console := { machine := { built := some d }, taskName := defaultTaskName }
    (∀ r ∈ rs, r.isNamed) ∧ d.wordsInScope = .ok [w, cr] ∧ w.name.IsBareToken ∧
      enterText setting w.name c =
        .ok () { c with machine := { c.machine with output := "undefined word: a\n" } } ∧
      enterText setting w.name c ≠ runWord setting w { c with machine := c.machine.ready } := by
  intro setting rs d w cr c
  have scope : d.wordsInScope = .ok [w, cr] := by decide +kernel
  have said : enterText setting w.name c =
      .ok () { c with machine := { c.machine with output := "undefined word: a\n" } } := by
    decide +kernel
  have run : (runWord setting w { c with machine := c.machine.ready }).mapState
      (fun left => left.machine.output) = .ok () "\n" := by decide +kernel
  refine ⟨by decide, scope, by decide +kernel, said, fun same => ?_⟩
  rw [← same, said] at run
  exact absurd run (by decide)

end Console

end ThreadedCode
