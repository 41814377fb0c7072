import Mathlib.Data.Nat.Digits.Defs
import ThreadedCode.Text.Numeral

/-!
An integer that was read from a numeral has a numeral: it has no more digits than were read, and as
many may be written.
-/

namespace ThreadedCode

theorem CodePoint.decimalDigit?_lt {c : CodePoint} {n : Nat} (h : c.decimalDigit? = some n) :
    n < 10 := by
  obtain ⟨first, found, rfl⟩ := Option.map_eq_some_iff.mp h
  have inRun := List.find?_some found
  simp only [Bool.and_eq_true, decide_eq_true_eq] at inRun
  omega

namespace Text

theorem lt_of_mem_digits {c : CodePoint} {rest : List Nat} {k : Nat}
    (read : c.decimalDigit? = some k) (below : ∀ n ∈ rest, n < 10) : ∀ n ∈ k :: rest, n < 10 := by
  intro n member
  rcases List.mem_cons.mp member with rfl | later
  · exact c.decimalDigit?_lt read
  · exact below n later

theorem digits?_lt {t : Text} {ds : List Nat} (h : digits? t = some ds) : ∀ n ∈ ds, n < 10 := by
  fun_induction digits? t generalizing ds with
  | case1 => cases h
  | case2 c =>
    obtain ⟨n, read, rfl⟩ := Option.map_eq_some_iff.mp h
    exact lt_of_mem_digits read fun _ none => absurd none List.not_mem_nil
  | case3 c rest ih =>
    obtain ⟨n, read, h⟩ := Option.bind_eq_some_iff.mp h
    obtain ⟨tail, later, same⟩ := Option.bind_eq_some_iff.mp h
    obtain rfl := Option.some.inj same
    exact lt_of_mem_digits read (ih later)
  | case4 c rest _ _ ih =>
    obtain ⟨n, read, h⟩ := Option.bind_eq_some_iff.mp h
    obtain ⟨tail, later, same⟩ := Option.bind_eq_some_iff.mp h
    obtain rfl := Option.some.inj same
    exact lt_of_mem_digits read (ih later)

theorem ofDigits_lt {ds : List Nat} (digits : ∀ n ∈ ds, n < 10) :
    ofDigits ds < 10 ^ ds.length := by
  have from_ : ∀ start, ds.foldl (fun n d => 10 * n + d) start < (start + 1) * 10 ^ ds.length := by
    induction ds with
    | nil => simp
    | cons d ds ih =>
      intro start
      have small := digits d List.mem_cons_self
      have rest := ih (fun n member => digits n (List.mem_cons_of_mem d member)) (10 * start + d)
      refine Nat.lt_of_lt_of_le rest ?_
      rw [List.length_cons, Nat.pow_succ, ← Nat.mul_assoc, Nat.mul_right_comm]
      exact Nat.mul_le_mul_right _ (by omega)
  have whole := from_ 0
  rwa [Nat.zero_add, Nat.one_mul] at whole

theorem natural?_lt {t : Text} {n : Nat} (h : natural? t = some n) : n < 10 ^ digitLimit := by
  obtain ⟨ds, read, within⟩ := Option.bind_eq_some_iff.mp h
  split at within
  next le =>
    obtain rfl := Option.some.inj within
    exact Nat.lt_of_lt_of_le (ofDigits_lt (digits?_lt read)) (Nat.pow_le_pow_right (by omega) le)
  next => cases within

theorem hasNumeral_of_lt {i : Int} (small : i.natAbs < 10 ^ digitLimit) : hasNumeral i = true := by
  have short := Nat.toDigits_length 10 i.natAbs digitLimit (by decide) small
  rw [hasNumeral, ofNat, List.length_map]
  exact decide_eq_true short

theorem hasNumeral_of_integer? {t : Text} {i : Int} (h : t.integer? = some i) :
    hasNumeral i = true := by
  have unsigned : ∀ {t : Text} {f : Int → Int}, (∀ k : Nat, (f k).natAbs = k) →
      Option.map f (do return ((← natural? t : Nat) : Int)) = some i → hasNumeral i = true := by
    intro t f size signed
    obtain ⟨n, lifted, rfl⟩ := Option.map_eq_some_iff.mp signed
    obtain ⟨k, read, same⟩ := Option.bind_eq_some_iff.mp lifted
    obtain rfl := Option.some.inj same
    refine hasNumeral_of_lt ?_
    rw [size]
    exact natural?_lt read
  unfold integer? at h
  split at h
  all_goals exact unsigned (fun k => by simp) h

end Text

end ThreadedCode
