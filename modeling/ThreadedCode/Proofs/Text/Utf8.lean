import ThreadedCode.Source

/-!
What UTF-8 has encoded is decoded to the same text. A lead byte holds the highest bits of a code
point and bounds the byte after it; the bounds leave in what the encoder writes there.
-/

namespace ThreadedCode.Utf8

variable {c : CodePoint} {n : Nat}

theorem toNat_ofNat_byte (small : n < 0x100) : (UInt8.ofNat n).toNat = n := by
  rw [UInt8.toNat_ofNat']
  exact Nat.mod_eq_of_lt small

section Lead

theorem lead?_ofNat (small : n < 0x100) :
    lead? (.ofNat n) =
      if 0xC2 ≤ n ∧ n ≤ 0xDF then some ⟨n - 0xC0, 0x80, 0xBF, 0⟩
      else if n = 0xE0 then some ⟨0, 0xA0, 0xBF, 1⟩
      else if n = 0xED then some ⟨0xD, 0x80, 0x9F, 1⟩
      else if 0xE1 ≤ n ∧ n ≤ 0xEF then some ⟨n - 0xE0, 0x80, 0xBF, 1⟩
      else if n = 0xF0 then some ⟨0, 0x90, 0xBF, 2⟩
      else if 0xF1 ≤ n ∧ n ≤ 0xF3 then some ⟨n - 0xF0, 0x80, 0xBF, 2⟩
      else if n = 0xF4 then some ⟨4, 0x80, 0x8F, 2⟩
      else none := by
  simp only [lead?, toNat_ofNat_byte small, Bool.and_eq_true, decide_eq_true_eq]

theorem lead?_two (low : 0x80 ≤ n) (high : n < 0x800) :
    lead? (.ofNat (0xC0 + n / 0x40)) = some ⟨n / 0x40, 0x80, 0xBF, 0⟩ := by
  rw [lead?_ofNat (by omega), if_pos (by omega), Nat.add_sub_cancel_left]

theorem lead?_three (low : 0x800 ≤ n) (high : n < 0x10000)
    (plain : ¬ (0xD800 ≤ n ∧ n ≤ 0xDFFF)) :
    ∃ first last, lead? (.ofNat (0xE0 + n / 0x1000)) = some ⟨n / 0x1000, first, last, 1⟩ ∧
      first ≤ 0x80 + n / 0x40 % 0x40 ∧ 0x80 + n / 0x40 % 0x40 ≤ last := by
  rw [lead?_ofNat (by omega), if_neg (by omega)]
  by_cases least : n / 0x1000 = 0
  · rw [if_pos (by omega), least]
    exact ⟨0xA0, 0xBF, rfl, by omega, by omega⟩
  by_cases surrogates : n / 0x1000 = 0xD
  · rw [if_neg (by omega), if_pos (by omega), surrogates]
    exact ⟨0x80, 0x9F, rfl, by omega, by omega⟩
  · rw [if_neg (by omega), if_neg (by omega), if_pos (by omega), Nat.add_sub_cancel_left]
    exact ⟨0x80, 0xBF, rfl, by omega, by omega⟩

theorem lead?_four (low : 0x10000 ≤ n) (high : n < 0x110000) :
    ∃ first last, lead? (.ofNat (0xF0 + n / 0x40000)) = some ⟨n / 0x40000, first, last, 2⟩ ∧
      first ≤ 0x80 + n / 0x1000 % 0x40 ∧ 0x80 + n / 0x1000 % 0x40 ≤ last := by
  rw [lead?_ofNat (by omega), if_neg (by omega), if_neg (by omega), if_neg (by omega),
    if_neg (by omega)]
  by_cases least : n / 0x40000 = 0
  · rw [if_pos (by omega), least]
    exact ⟨0x90, 0xBF, rfl, by omega, by omega⟩
  by_cases greatest : n / 0x40000 = 4
  · rw [if_neg (by omega), if_neg (by omega), if_pos (by omega), greatest]
    exact ⟨0x80, 0x8F, rfl, by omega, by omega⟩
  · rw [if_neg (by omega), if_pos (by omega), Nat.add_sub_cancel_left]
    exact ⟨0x80, 0xBF, rfl, by omega, by omega⟩

end Lead

section Steps

variable (position : Nat) (rest : Bytes)

theorem decodeFrom_ascii (small : c.val < 0x80) :
    decodeFrom position .between (.ofNat c.val :: rest) =
      (c :: (decodeFrom (position + 1) .between rest).1,
        (decodeFrom (position + 1) .between rest).2) := by
  have byte : (UInt8.ofNat c.val).toNat = c.val := toNat_ofNat_byte (by omega)
  rw [decodeFrom, dif_pos (by omega)]
  simp only [byte, Fin.eta]

theorem decodeFrom_lead {bits low high more : Nat} (notAscii : 0x80 ≤ n) (small : n < 0x100)
    (leads : lead? (.ofNat n) = some ⟨bits, low, high, more⟩) :
    decodeFrom position .between (.ofNat n :: rest) =
      decodeFrom (position + 1) (.inside [.ofNat n] bits low high more) rest := by
  have byte : (UInt8.ofNat n).toNat = n := toNat_ofNat_byte small
  rw [decodeFrom, dif_neg (by omega), leads]

variable (seen : List UInt8) (bits : Nat) {low high : Nat}

theorem decodeFrom_tail (more : Nat) (least : low ≤ 0x80 + n) (most : 0x80 + n ≤ high)
    (small : n < 0x40) :
    decodeFrom position (.inside seen bits low high (more + 1)) (.ofNat (0x80 + n) :: rest) =
      decodeFrom (position + 1)
        (.inside (.ofNat (0x80 + n) :: seen) (bits * 0x40 + n) 0x80 0xBF more) rest := by
  have byte : (UInt8.ofNat (0x80 + n)).toNat = 0x80 + n := toNat_ofNat_byte (by omega)
  have bounded : (decide (low ≤ 0x80 + n) && decide (0x80 + n ≤ high)) = true := by
    simp [least, most]
  rw [decodeFrom, byte, if_pos bounded, Nat.add_sub_cancel_left]

theorem decodeFrom_last (least : low ≤ 0x80 + n) (most : 0x80 + n ≤ high) (small : n < 0x40)
    (whole : bits * 0x40 + n = c.val) :
    decodeFrom position (.inside seen bits low high 0) (.ofNat (0x80 + n) :: rest) =
      (c :: (decodeFrom (position + 1) .between rest).1,
        (decodeFrom (position + 1) .between rest).2) := by
  have byte : (UInt8.ofNat (0x80 + n)).toNat = 0x80 + n := toNat_ofNat_byte (by omega)
  have bounded : (decide (low ≤ 0x80 + n) && decide (0x80 + n ≤ high)) = true := by
    simp [least, most]
  have found : CodePoint.ofNat? c.val = some c := dif_pos c.isLt
  rw [decodeFrom, byte, if_pos bounded, Nat.add_sub_cancel_left]
  simp only [whole, found, Option.toList_some, List.singleton_append]

end Steps

theorem decodeFrom_encodeOne (plain : ¬ c.isSurrogate) (position : Nat) (rest : Bytes) :
    ∃ next, decodeFrom position .between (encodeOne c ++ rest) =
      (c :: (decodeFrom next .between rest).1, (decodeFrom next .between rest).2) := by
  have bound := c.isLt
  have outside : ¬ (0xD800 ≤ c.val ∧ c.val ≤ 0xDFFF) := by
    simpa [CodePoint.isSurrogate] using plain
  unfold encodeOne
  dsimp only
  split
  next one => exact ⟨_, decodeFrom_ascii position rest one⟩
  split
  next more two =>
    simp only [List.cons_append, List.nil_append]
    rw [decodeFrom_lead position _ (by omega) (by omega) (lead?_two (by omega) two)]
    exact ⟨_, decodeFrom_last _ rest _ _ (by omega) (by omega) (by omega) (by omega)⟩
  split
  next more three =>
    obtain ⟨first, last, leads, least, most⟩ := lead?_three (by omega) three outside
    simp only [List.cons_append, List.nil_append]
    rw [decodeFrom_lead position _ (by omega) (by omega) leads,
      decodeFrom_tail _ _ _ _ _ least most (by omega)]
    exact ⟨_, decodeFrom_last _ rest _ _ (by omega) (by omega) (by omega) (by omega)⟩
  next more =>
    obtain ⟨first, last, leads, least, most⟩ := lead?_four (by omega) bound
    simp only [List.cons_append, List.nil_append]
    rw [decodeFrom_lead position _ (by omega) (by omega) leads,
      decodeFrom_tail _ _ _ _ _ least most (by omega),
      decodeFrom_tail _ _ _ _ _ (by omega) (by omega) (by omega)]
    exact ⟨_, decodeFrom_last _ rest _ _ (by omega) (by omega) (by omega) (by omega)⟩

theorem decodeFrom_flatMap {t : Text} (plain : ∀ c ∈ t, ¬ c.isSurrogate) (position : Nat) :
    decodeFrom position .between (t.flatMap encodeOne) = (t, none) := by
  induction t generalizing position with
  | nil => rfl
  | cons c t ih =>
    obtain ⟨next, first⟩ :=
      decodeFrom_encodeOne (plain c List.mem_cons_self) position (t.flatMap encodeOne)
    rw [List.flatMap_cons, first, ih fun d member => plain d (List.mem_cons_of_mem c member)]

theorem decode_encode {t : Text} {bytes : Bytes} (encoded : encode t = .ok bytes) :
    decode bytes = (t, none) := by
  unfold encode at encoded
  split at encoded
  next => cases encoded
  next none_ =>
    cases encoded
    have plain := Encoding.refusalFrom_eq_none_iff.mp none_
    exact decodeFrom_flatMap (fun c member => lacks_eq_isSurrogate c ▸ plain c member) 0

end ThreadedCode.Utf8
