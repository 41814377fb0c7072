import ThreadedCode.Machine.Interpreter

/-!
Line feeds in messages. Numerals have none and quoted texts have none, so that a message can only
have those of a text that it shows as it is.
-/

namespace ThreadedCode

def Text.OneLine (t : Text) : Prop := CodePoint.lineFeed ∉ t

instance (t : Text) : Decidable t.OneLine := inferInstanceAs (Decidable (CodePoint.lineFeed ∉ t))

namespace Text

namespace OneLine

variable {s t : Text}

theorem nil : OneLine [] := List.not_mem_nil

theorem cons {c : CodePoint} (h : c ≠ CodePoint.lineFeed) (rest : t.OneLine) : OneLine (c :: t) :=
  List.not_mem_cons_of_ne_of_not_mem h.symm rest

theorem append (h : s.OneLine) (k : t.OneLine) : OneLine (s ++ t) :=
  List.not_mem_append h k

theorem concat_nil : (concat []).OneLine := nil

theorem concat_cons {parts : List Text} (h : t.OneLine) (rest : (concat parts).OneLine) :
    (concat (t :: parts)).OneLine :=
  append h rest

theorem mem_concat_cons {parts : List Text} (h : t.OneLine) :
    CodePoint.lineFeed ∈ concat (t :: parts) ↔ CodePoint.lineFeed ∈ concat parts := by
  rw [concat, List.flatten_cons, List.mem_append]
  exact or_iff_right h

end OneLine

theorem oneLine_ofNat (n : Nat) : (ofNat n).OneLine := by
  intro member
  obtain ⟨c, digit, same⟩ := List.mem_map.mp member
  have isDigit := Nat.isDigit_of_mem_toDigits (by decide) (by decide) digit
  have value : c.toNat = 0x0A := congrArg Fin.val same
  simp only [Char.isDigit, Bool.and_eq_true, decide_eq_true_eq, UInt32.le_iff_toNat_le] at isDigit
  have lower : 48 ≤ c.toNat := isDigit.1
  omega

theorem oneLine_ofInt (i : Int) : (ofInt i).OneLine := by
  cases i with
  | ofNat n => exact oneLine_ofNat n
  | negSucc n => exact .cons (by decide) (oneLine_ofNat (n + 1))

theorem oneLine_hexText (width n : Nat) : (hexText width n).OneLine := by
  induction width generalizing n with
  | zero => exact .nil
  | succ width ih =>
    have digits : ∀ k < 16, hexDigit k ≠ CodePoint.lineFeed := by decide
    exact (ih _).append (.cons (digits _ (Nat.mod_lt _ (by decide))) .nil)

end Text

theorem CodePoint.oneLine_escaped (c : CodePoint) : c.escaped.OneLine := by
  unfold escaped
  split
  next => exact .cons (by decide) (.cons (by decide) (Text.oneLine_hexText 2 _))
  split
  next => exact .cons (by decide) (.cons (by decide) (Text.oneLine_hexText 4 _))
  next => exact .cons (by decide) (.cons (by decide) (Text.oneLine_hexText 8 _))

theorem CodePoint.oneLine_quoted {quote : CodePoint} (h : quote ≠ lineFeed) (c : CodePoint) :
    (CodePoint.quoted quote c).OneLine := by
  unfold CodePoint.quoted
  split
  next same =>
    have other : c ≠ lineFeed := by
      rintro rfl
      rw [Bool.or_eq_true, decide_eq_true_eq, decide_eq_true_eq] at same
      exact same.elim h.symm (by decide)
    exact .cons (by decide) (.cons other .nil)
  split
  next => decide
  split
  next => decide
  next other =>
  split
  next => decide
  split
  next => exact .cons other .nil
  next => exact c.oneLine_escaped

theorem Text.oneLine_quoted (t : Text) : t.quoted.OneLine := by
  have quote : quoteFor t ≠ CodePoint.lineFeed := by
    unfold quoteFor
    split <;> decide
  refine .append (.cons quote fun member => ?_) (.cons quote .nil)
  obtain ⟨c, _, inside⟩ := List.mem_flatMap.mp member
  exact CodePoint.oneLine_quoted quote c inside

theorem Value.oneLine_quoted (v : Value) : v.quoted.OneLine := by
  cases v with
  | int i => exact Text.oneLine_ofInt i
  | text t => exact Text.oneLine_quoted t
  | flag b => cases b <;> decide
  | null => decide

mutual

theorem Operand.oneLine_quoted : (arg : Operand) → arg.quoted.OneLine
  | .value v => v.oneLine_quoted
  | .list items => by
    rw [Operand.quoted]
    exact .concat_cons (by decide) (.concat_cons (oneLine_quotedItems items) (by decide))

theorem Operand.oneLine_quotedItems : (items : List Operand) → (quotedItems items).OneLine
  | [] => .nil
  | [item] => item.oneLine_quoted
  | item :: next :: rest =>
    (item.oneLine_quoted.append (by decide : Text.OneLine ", ")).append
      (oneLine_quotedItems (next :: rest))

end

theorem oneLine_placeText {kind single : Text} (h : kind.OneLine) (k : single.OneLine)
    (position length : Nat) : (placeText kind single position length).OneLine := by
  have number := Text.oneLine_ofNat
  unfold placeText
  split
  · exact .concat_cons h (.concat_cons (by decide) (.concat_cons k (.concat_cons (by decide)
      (.concat_cons (number _) .concat_nil))))
  · exact .concat_cons h (.concat_cons (by decide) (.concat_cons (number _)
      (.concat_cons (by decide) (.concat_cons (number _) .concat_nil))))

theorem EncodeFailure.oneLine_message (failure : EncodeFailure) : failure.message.OneLine := by
  have character : (Text.concat ["'", failure.first.escaped, "'"]).OneLine :=
    .concat_cons (by decide) (.concat_cons failure.first.oneLine_escaped (by decide))
  exact .concat_cons (by decide) (.concat_cons failure.encoding.name_line (.concat_cons (by decide)
    (.concat_cons (oneLine_placeText (by decide) character _ _)
      (.concat_cons (by decide) (.concat_cons failure.encoding.reason_line .concat_nil)))))

theorem Utf8.DecodeFailure.oneLine_message (failure : DecodeFailure) : failure.message.OneLine := by
  have byte : (Text.concat ["0x", hexText 2 (failure.bytes.head?.getD 0).toNat]).OneLine :=
    .concat_cons (by decide) (.concat_cons (Text.oneLine_hexText 2 _) .concat_nil)
  have defect : failure.defect.message.OneLine := by cases failure.defect <;> decide
  exact .concat_cons (by decide) (.concat_cons (oneLine_placeText (by decide) byte _ _)
    (.concat_cons (by decide) (.concat_cons defect .concat_nil)))

namespace Fault

/-- What the kind and the message of a fault show as it is. -/
def verbatim : Fault → Text
  | undefinedVariable name | undefinedWord name => name
  | duplicateVocabulary name | unknownVocabulary name => name
  | foreign kind message => kind ++ message
  | _ => []

theorem oneLine_kind {fault : Fault} (h : fault.verbatim = []) : fault.kind.OneLine := by
  cases fault with
  | foreign kind message =>
    obtain ⟨rfl, -⟩ := List.append_eq_nil_iff.mp h
    exact .nil
  | cannotOpen failure path =>
    simp only [kind]
    cases failure <;> decide
  | _ =>
    simp only [kind]
    decide

theorem oneLine_message {fault : Fault} (h : fault.verbatim = []) : fault.message.OneLine := by
  cases fault with
  | undefinedVariable name | undefinedWord name | duplicateVocabulary name
  | unknownVocabulary name =>
    cases h
    exact .nil
  | foreign kind message =>
    obtain ⟨-, rfl⟩ := List.append_eq_nil_iff.mp h
    exact .nil
  | notAVariableName v => exact .append (by decide) v.oneLine_quoted
  | danglingToken token => exact .append (by decide) (Text.oneLine_ofInt token)
  | badOffset offset => exact .append (by decide) offset.oneLine_quoted
  | jumpBeforeStart offset => exact .append (by decide) (Text.oneLine_ofInt offset)
  | missingPosition level => exact Text.oneLine_ofInt level
  | missingWord token => exact Text.oneLine_ofInt token
  | tooManyDigits => exact .append (by decide) (by decide)
  | unencodable failure => exact failure.oneLine_message
  | undecodable failure => exact failure.oneLine_message
  | cannotOpen failure path =>
    have reason : failure.message.OneLine := by cases failure <;> decide
    exact .concat_cons reason (.concat_cons (by decide)
      (.concat_cons path.oneLine_quoted .concat_nil))
  | _ =>
    simp only [message]
    decide

/-- A fault that shows nothing as it is but the name of a variable that is not there. -/
def Plain (fault : Fault) : Prop := fault.verbatim = [] ∨ ∃ name, fault = undefinedVariable name

theorem Plain.kind {fault : Fault} (h : fault.Plain) : fault.kind.OneLine := by
  rcases h with quiet | ⟨name, rfl⟩
  · exact oneLine_kind quiet
  · exact (by decide : Text.OneLine "UndefinedVariable")

theorem Plain.lineFeed_mem_message {fault : Fault} (h : fault.Plain) :
    CodePoint.lineFeed ∈ fault.message ↔
      ∃ name, fault = undefinedVariable name ∧ CodePoint.lineFeed ∈ name := by
  rcases h with quiet | ⟨name, rfl⟩
  · constructor
    · exact fun member => absurd member (oneLine_message quiet)
    · rintro ⟨name, rfl, member⟩
      cases quiet
      cases member
  · exact ⟨fun member => ⟨name, rfl, member⟩, fun ⟨_, same, member⟩ => by cases same; exact member⟩

end Fault

end ThreadedCode
