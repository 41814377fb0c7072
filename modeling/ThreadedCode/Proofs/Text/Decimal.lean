import ThreadedCode.Text.LowerCase
import ThreadedCode.Proofs.Text.Numeral

/-!
The numeral of an integer, as it is written, is read as that integer. It consists of ASCII digits
and a minus sign, which have no case and are no white space.
-/

namespace ThreadedCode

namespace CodePoint

def digit (n : Fin 10) : CodePoint := ⟨0x30 + n.val, by omega⟩

theorem decimalDigit?_digit (n : Fin 10) : (digit n).decimalDigit? = some n.val := by
  revert n
  decide

theorem exists_digit {c : Char} (isDigit : c.isDigit) :
    ∃ n : Fin 10, ofChar c = digit n ∧ c.toNat - '0'.toNat = n.val := by
  have low : 0x30 ≤ c.toNat := by
    have least := (Bool.and_eq_true _ _).mp isDigit |>.1
    exact UInt32.le_iff_toNat_le.mp (of_decide_eq_true least)
  have high : c.toNat ≤ 0x39 := by
    have most := (Bool.and_eq_true _ _).mp isDigit |>.2
    exact UInt32.le_iff_toNat_le.mp (of_decide_eq_true most)
  refine ⟨⟨c.toNat - 0x30, by omega⟩, Fin.ext ?_, rfl⟩
  simp only [ofChar, digit]
  omega

end CodePoint

namespace Text

open CodePoint (digit)

section Lower

variable {t : Text}

theorem lowerAfter_eq_self (same : ∀ c ∈ t, ∀ before after, lowerAt before c after = [c])
    (before : Text) : lowerAfter before t = t := by
  induction t generalizing before with
  | nil => rfl
  | cons c t ih =>
    rw [List.forall_mem_cons] at same
    rw [lowerAfter, same.1, ih same.2]
    rfl

theorem lowerAt_of_simple {c : CodePoint} (sigma : c ≠ .capitalSigma) (dotted : c ≠ .dottedCapitalI)
    (simple : c.simpleLower = c) (before after : Text) : lowerAt before c after = [c] := by
  rw [lowerAt, if_neg sigma, if_neg dotted, simple]

end Lower

theorem exists_digits (n : Nat) : ∃ ds : List (Fin 10),
    ds ≠ [] ∧ ofNat n = ds.map digit ∧ ofDigits (ds.map Fin.val) = n := by
  have each : ∀ l : List Char, (∀ c ∈ l, c.isDigit) → ∃ ds : List (Fin 10),
      l.map CodePoint.ofChar = ds.map digit ∧
        l.map (fun c => c.toNat - '0'.toNat) = ds.map Fin.val := by
    intro l
    induction l with
    | nil => exact fun _ => ⟨[], rfl, rfl⟩
    | cons c l ih =>
      intro all
      rw [List.forall_mem_cons] at all
      obtain ⟨d, written, value⟩ := CodePoint.exists_digit all.1
      obtain ⟨ds, more, values⟩ := ih all.2
      refine ⟨d :: ds, ?_, ?_⟩
      · rw [List.map_cons, List.map_cons, written, more]
      · rw [List.map_cons, List.map_cons, value, values]
  obtain ⟨ds, written, values⟩ := each (Nat.toDigits 10 n) fun c member =>
    Nat.isDigit_of_mem_toDigits (by decide) (by decide) member
  refine ⟨ds, ?_, written, ?_⟩
  · rintro rfl
    exact Nat.toDigits_ne_nil (List.map_eq_nil_iff.mp written)
  · rw [← values, ofDigits, List.foldl_map]
    exact Nat.ofDigitChars_eq_foldl.symm.trans Nat.ofDigitChars_ten_toDigits

theorem digits?_digits {ds : List (Fin 10)} (some_ : ds ≠ []) :
    digits? (ds.map digit) = some (ds.map Fin.val) := by
  induction ds with
  | nil => exact absurd rfl some_
  | cons d ds ih =>
    cases ds with
    | nil => simp only [List.map_cons, List.map_nil, digits?, CodePoint.decimalDigit?_digit,
        Option.map_some]
    | cons e ds =>
      have apart : ∀ e, digit e ≠ 0x5F := by decide
      have more := ih (List.cons_ne_nil e ds)
      rw [List.map_cons, List.map_cons] at more ⊢
      rw [digits?, more, CodePoint.decimalDigit?_digit]
      · rfl
      · exact List.cons_ne_nil _ _
      · exact fun rest same => apart e (List.cons.inj same).1

theorem natural?_ofNat {n : Nat} (short : (ofNat n).length ≤ digitLimit) :
    natural? (ofNat n) = some n := by
  obtain ⟨ds, some_, written, value⟩ := exists_digits n
  rw [written, List.length_map] at short
  rw [natural?, written, digits?_digits some_]
  simp only [Option.bind_eq_bind, Option.bind_some, List.length_map, if_pos short, value]

section Integers

variable {i : Int}

theorem forall_mem_ofInt {P : CodePoint → Prop} (minus : P '-') (digits : ∀ n, P (digit n))
    (i : Int) : ∀ c ∈ ofInt i, P c := by
  have unsigned (n : Nat) : ∀ c ∈ ofNat n, P c := by
    obtain ⟨ds, -, written, -⟩ := exists_digits n
    rw [written]
    exact List.forall_mem_map.mpr fun n _ => digits n
  cases i with
  | ofNat n => exact unsigned n
  | negSucc n => exact List.forall_mem_cons.mpr ⟨minus, unsigned (n + 1)⟩

theorem ofInt_ne_nil (i : Int) : ofInt i ≠ [] := by
  cases i with
  | ofNat n =>
    obtain ⟨ds, some_, written, -⟩ := exists_digits n
    rw [ofInt, written]
    exact mt List.map_eq_nil_iff.mp some_
  | negSucc n => exact List.cons_ne_nil _ _

theorem trimNumeral_eq_self {t : Text} (dark : ∀ c ∈ t, isNumeralBlank c = false) :
    trimNumeral t = t := by
  have stays : ∀ u : Text, (∀ c ∈ u, isNumeralBlank c = false) →
      u.dropWhile isNumeralBlank = u := by
    intro u dark
    cases u with
    | nil => rfl
    | cons c u => exact List.dropWhile_cons_of_neg (by simp [dark c List.mem_cons_self])
  have reversed : ∀ c ∈ t.reverse, isNumeralBlank c = false := fun c member =>
    dark c (List.mem_reverse.mp member)
  rw [trimNumeral, stays t dark, stays t.reverse reversed, List.reverse_reverse]

theorem trimNumeral_ofInt (i : Int) : trimNumeral (ofInt i) = ofInt i :=
  trimNumeral_eq_self (forall_mem_ofInt (by decide) (by decide) i)

theorem integer?_ofInt (numeral : hasNumeral i) : integer? (ofInt i) = some i := by
  have short : (ofNat i.natAbs).length ≤ digitLimit := of_decide_eq_true numeral
  rw [integer?, trimNumeral_ofInt]
  cases i with
  | ofNat n =>
    obtain ⟨ds, some_, written, -⟩ := exists_digits n
    obtain ⟨d, ds, rfl⟩ := List.exists_cons_of_ne_nil some_
    have unsigned : ∀ d, digit d ≠ 0x2D ∧ digit d ≠ 0x2B := by decide
    have read := natural?_ofNat short
    rw [Int.ofNat_eq_natCast, Int.natAbs_natCast] at read
    rw [ofInt]
    split
    next rest same =>
      rw [written] at same
      exact absurd (List.cons.inj same).1 (unsigned d).1
    next rest same =>
      rw [written] at same
      exact absurd (List.cons.inj same).1 (unsigned d).2
    next => rw [read]; rfl
  | negSucc n =>
    change Option.map (fun k : Int => -k) (do return ((← natural? (ofNat (n + 1)) : Nat) : Int)) = _
    have read : natural? (ofNat (n + 1)) = some (n + 1) := natural?_ofNat short
    rw [read]
    rfl

theorem lower_ofInt (i : Int) : lower (ofInt i) = ofInt i := by
  refine lowerAfter_eq_self (forall_mem_ofInt ?_ ?_ i) []
  · exact lowerAt_of_simple (by decide) (by decide) (by decide)
  · have plain : ∀ n, digit n ≠ .capitalSigma ∧ digit n ≠ .dottedCapitalI ∧
        (digit n).simpleLower = digit n := by decide
    intro n
    obtain ⟨sigma, dotted, simple⟩ := plain n
    exact lowerAt_of_simple sigma dotted simple

end Integers

end Text

end ThreadedCode
