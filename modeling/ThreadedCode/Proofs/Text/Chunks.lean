import ThreadedCode.Source

/-!
Files in chunks. A character may begin in one chunk and end in the next; its bytes are kept and decoded
again with those that follow. So wherever the chunks end, a file fails exactly if it is not UTF-8, and
otherwise gives the lines of its text.
-/

namespace ThreadedCode

namespace Utf8

def after (t : Text) (r : Text × Option DecodeFailure) : Text × Option DecodeFailure :=
  (t ++ r.1, r.2)

theorem after_nil (r : Text × Option DecodeFailure) : after [] r = r := rfl

theorem after_after (t u : Text) (r : Text × Option DecodeFailure) :
    after t (after u r) = after (t ++ u) r := by
  simp [after]

def Progress.seen : Progress → Bytes
  | between => []
  | inside seen _ _ _ _ => seen

theorem Progress.seen_between : between.seen = [] := rfl

/-- A decoder has come to a point by the bytes that it has seen of a character. -/
def Progress.Resumes (p : Progress) : Prop :=
  ∀ start rest, decodeFrom start .between (p.seen.reverse ++ rest) =
    decodeFrom (start + p.seen.length) p rest

theorem Progress.resumes_between : Resumes .between := fun _ _ => rfl

theorem decodeFrom_cons (p : Progress) (b : UInt8) :
    (∃ t p', (t = [] ∧ p'.seen = b :: p.seen ∨ p' = .between) ∧ ∀ position rest,
        decodeFrom position p (b :: rest) = after t (decodeFrom (position + 1) p' rest)) ∨
      ∃ bytes defect, defect ≠ .unexpectedEnd ∧ ∀ position rest,
        decodeFrom position p (b :: rest) =
          ([], some ⟨bytes, position - p.seen.length, defect⟩) := by
  cases p with
  | between =>
    by_cases ascii : b.toNat < 0x80
    · refine .inl ⟨[⟨b.toNat, by omega⟩], .between, .inr rfl, fun position rest => ?_⟩
      rw [decodeFrom, dif_pos ascii]
      rfl
    · cases leads : lead? b with
      | none =>
        refine .inr ⟨[b], .invalidStart, by decide, fun position rest => ?_⟩
        rw [decodeFrom, dif_neg ascii, leads]
        rfl
      | some lead =>
        refine .inl ⟨[], .inside [b] lead.bits lead.low lead.high lead.more, .inl ⟨rfl, rfl⟩, ?_⟩
        intro position rest
        rw [decodeFrom, dif_neg ascii, leads]
        rfl
  | inside seen bits low high more =>
    by_cases bounded : (decide (low ≤ b.toNat) && decide (b.toNat ≤ high)) = true
    · cases more with
      | zero =>
        refine .inl ⟨(CodePoint.ofNat? (bits * 0x40 + (b.toNat - 0x80))).toList, .between, .inr rfl, ?_⟩
        intro position rest
        rw [decodeFrom, if_pos bounded]
        rfl
      | succ more =>
        refine .inl ⟨[], .inside (b :: seen) (bits * 0x40 + (b.toNat - 0x80)) 0x80 0xBF more,
          .inl ⟨rfl, rfl⟩, fun position rest => ?_⟩
        rw [decodeFrom, if_pos bounded]
        rfl
    · refine .inr ⟨seen.reverse, .invalidContinuation, by decide, fun position rest => ?_⟩
      rw [decodeFrom, if_neg bounded]
      rfl

theorem decodeFrom_shift {p : Progress} {position : Nat} {bytes : Bytes}
    (whole : (decodeFrom position p bytes).2 = none) (position' : Nat) :
    decodeFrom position' p bytes = decodeFrom position p bytes := by
  induction bytes generalizing p position position' with
  | nil =>
    cases p with
    | between => rfl
    | inside => cases whole
  | cons b rest ih =>
    rcases decodeFrom_cons p b with ⟨t, p', -, step⟩ | ⟨bytes, defect, -, failed⟩
    · rw [step] at whole
      rw [step, step, ih whole (position' + 1)]
    · rw [failed] at whole
      cases whole

theorem Progress.Resumes.step {p p' : Progress} {b : UInt8} {t : Text} (h : p.Resumes)
    (moved : t = [] ∧ p'.seen = b :: p.seen ∨ p' = .between)
    (step : ∀ position rest,
      decodeFrom position p (b :: rest) = after t (decodeFrom (position + 1) p' rest)) :
    p'.Resumes := by
  rcases moved with ⟨rfl, seen⟩ | rfl
  · intro start rest
    have from_ := h start (b :: rest)
    rw [step] at from_
    rw [seen, List.reverse_cons, List.append_assoc, List.singleton_append, from_, List.length_cons,
      ← Nat.add_assoc]
    rfl
  · exact resumes_between

theorem start_le_position {p : Progress} (start : Nat) {bytes : Bytes} {failure : DecodeFailure}
    (failed : (decodeFrom (start + p.seen.length) p bytes).2 = some failure) :
    start ≤ failure.position := by
  induction bytes generalizing p start with
  | nil =>
    cases p with
    | between => cases failed
    | inside seen =>
      cases failed
      exact Nat.le_sub_of_add_le (Nat.le_refl _)
  | cons b rest ih =>
    rcases decodeFrom_cons p b with ⟨t, p', moved, step⟩ | ⟨bytes, defect, -, stopped⟩
    · rw [step] at failed
      rcases moved with ⟨-, seen⟩ | rfl
      · refine ih (p := p') start ?_
        rw [seen, List.length_cons, ← Nat.add_assoc]
        exact failed
      · have later := ih (p := .between) (start + p.seen.length + 1) failed
        omega
    · rw [stopped] at failed
      cases failed
      simp

theorem drop_seen (p : Progress) (b : UInt8) (first : Bytes) {start position : Nat}
    (later : start + p.seen.length + 1 ≤ position) :
    (p.seen.reverse ++ b :: first).drop (position - start) =
      first.drop (position - (start + p.seen.length + 1)) := by
  have gap : position - start =
      p.seen.reverse.length + (position - (start + p.seen.length + 1) + 1) := by
    rw [List.length_reverse]
    omega
  rw [gap, List.drop_length_add_append, List.drop_succ_cons]

/-- Bytes that follow others are decoded after them, beginning with those that the end of the first
leaves unfinished. -/
theorem decodeFrom_append {p : Progress} (resumes : p.Resumes) (start : Nat) (first next : Bytes) :
    decodeFrom (start + p.seen.length) p (first ++ next) =
      match decodeFrom (start + p.seen.length) p first with
      | (t, none) => after t (decodeFrom (start + p.seen.length + first.length) .between next)
      | (t, some failure) =>
        if failure.defect = .unexpectedEnd then
          let left := (p.seen.reverse ++ first).drop (failure.position - start)
          after t (decodeFrom failure.position .between (left ++ next))
        else (t, some failure) := by
  -- on the first bytes; what has been seen of a character under way is decoded again with the next
  induction first generalizing p start with
  | nil =>
    cases p with
    | between => rfl
    | inside seen bits low high more =>
      have here := resumes start next
      simp only [Progress.seen] at here ⊢
      simp only [List.nil_append, decodeFrom, Nat.add_sub_cancel, Nat.sub_self, List.drop_zero,
        List.append_nil, if_true, here]
      rfl
  | cons b first ih =>
    rcases decodeFrom_cons p b with ⟨t, p', moved, step⟩ | ⟨bytes, defect, other, stopped⟩
    · have resumes' := resumes.step moved step
      have one : start + p.seen.length + (b :: first).length =
          start + p.seen.length + 1 + first.length := by
        rw [List.length_cons]
        omega
      rw [List.cons_append, step, step, one]
      rcases moved with ⟨rfl, seen⟩ | rfl
      · -- the character goes on
        have rest := ih resumes' start
        rw [seen, List.length_cons, ← Nat.add_assoc, List.reverse_cons, List.append_assoc,
          List.singleton_append] at rest
        rw [after_nil, after_nil, rest]
      · -- a new character begins
        have rest := ih resumes' (start + p.seen.length + 1)
        simp only [Progress.seen_between, List.length_nil, Nat.add_zero, List.reverse_nil,
          List.nil_append] at rest
        rw [rest]
        rcases found : decodeFrom (start + p.seen.length + 1) .between first with ⟨u, _ | failure⟩
        · exact after_after t u _
        · have left := drop_seen p b first
            (start_le_position (p := .between) _ (congrArg Prod.snd found))
          simp only [after, left]
          split
          · simp
          · rfl
    · rw [List.cons_append, stopped, stopped]
      simp only [other, if_false]

theorem decode_append (first next : Bytes) :
    decode (first ++ next) =
      match decode first with
      | (t, none) => after t (decodeFrom first.length .between next)
      | (t, some failure) =>
        if failure.defect = .unexpectedEnd then
          after t (decodeFrom failure.position .between (first.drop failure.position ++ next))
        else (t, some failure) := by
  have split := decodeFrom_append Progress.resumes_between 0 first next
  simp only [Progress.seen_between, List.length_nil, Nat.add_zero, Nat.zero_add, List.reverse_nil,
    List.nil_append, Nat.sub_zero] at split
  exact split

/-- The two bytes that begin the form of a surrogate never become a character. -/
theorem decode_unfinished {left : Bytes} {defect : Defect} (unfinished : isUnfinished left defect)
    (other : defect ≠ .unexpectedEnd) (next : Bytes) : (decode (left ++ next)).2 ≠ none := by
  unfold isUnfinished at unfinished
  split at unfinished
  next => exact absurd rfl other
  next second =>
    simp only [Bool.and_eq_true, decide_eq_true_eq] at unfinished
    have high : ¬ second.toNat ≤ 0x9F := by
      have := UInt8.le_iff_toNat_le.mp unfinished.1
      simp at this
      omega
    have leads : lead? 0xED = some ⟨0xD, 0x80, 0x9F, 1⟩ := rfl
    have notAscii : ¬ (0xED : UInt8).toNat < 0x80 := by decide
    simp [decode, decodeFrom, leads, high]
  next => cases unfinished

theorem after_decodeFrom_eq {t t₁ : Text} {position : Nat} {bytes : Bytes} :
    after t₁ (decodeFrom position .between bytes) = (t, none) ↔
      ∃ t₂, decode bytes = (t₂, none) ∧ t = t₁ ++ t₂ := by
  constructor
  · intro decoded
    obtain ⟨rfl, whole⟩ := Prod.mk.inj decoded
    refine ⟨_, ?_, rfl⟩
    rw [decode, decodeFrom_shift whole 0]
    exact Prod.ext rfl whole
  · rintro ⟨t₂, decoded, rfl⟩
    rw [decodeFrom_shift (congrArg Prod.snd decoded) position]
    exact congrArg (after t₁) decoded

theorem decode_append_eq {first next : Bytes} {t : Text} :
    decode (first ++ next) = (t, none) ↔
      ∃ t₁ left, decodePart first = .ok (t₁, left) ∧
        ∃ t₂, decode (left ++ next) = (t₂, none) ∧ t = t₁ ++ t₂ := by
  rw [decode_append, decodePart]
  rcases decode first with ⟨t₁, _ | failure⟩
  · refine after_decodeFrom_eq.trans ⟨fun rest => ⟨t₁, [], rfl, rest⟩, ?_⟩
    rintro ⟨u, left, same, rest⟩
    cases same
    exact rest
  · dsimp only
    by_cases ends : failure.defect = .unexpectedEnd
    · rw [if_pos ends, if_pos (by rw [ends]; simp [isUnfinished])]
      refine after_decodeFrom_eq.trans ⟨fun rest => ⟨t₁, _, rfl, rest⟩, ?_⟩
      rintro ⟨u, left, same, rest⟩
      cases same
      exact rest
    · rw [if_neg ends]
      refine iff_of_false (fun whole => nomatch (Prod.mk.inj whole).2) ?_
      split
      next unfinished =>
        rintro ⟨u, left, same, t₂, decoded, -⟩
        cases same
        exact decode_unfinished unfinished ends next (congrArg Prod.snd decoded)
      next =>
        rintro ⟨u, left, same, -⟩
        cases same

end Utf8

namespace Source

theorem flatten_chunks (bytes : Bytes) : (chunks bytes).flatten = bytes := by
  have taken : ∀ n, ((List.range n).map fun k =>
      (bytes.drop (k * chunkSize)).take chunkSize).flatten = bytes.take (n * chunkSize) := by
    intro n
    induction n with
    | zero => simp
    | succ n ih =>
      rw [List.range_succ, List.map_append, List.flatten_append, ih, List.map_singleton,
        List.flatten_singleton, ← List.take_add, Nat.succ_mul]
  have enough : bytes.length ≤ (bytes.length + chunkSize - 1) / chunkSize * chunkSize := by
    unfold chunkSize
    omega
  rw [chunks, taken, List.take_of_length_le enough]

theorem ofChunks_of_decode {cs : List Bytes} {before t : Text} {left : Bytes}
    (decoded : Utf8.decode (left ++ cs.flatten) = (t, none)) :
    ofChunks before left cs = { lines := Text.fileLines (before ++ t) } := by
  induction cs generalizing before t left with
  | nil =>
    rw [List.flatten_nil, List.append_nil] at decoded
    rw [ofChunks, decoded]
  | cons chunk rest ih =>
    rw [List.flatten_cons, ← List.append_assoc, Utf8.decode_append_eq] at decoded
    obtain ⟨t₁, left', part, t₂, decoded, rfl⟩ := decoded
    rw [ofChunks, part]
    dsimp only
    rw [ih decoded, List.append_assoc]

theorem decode_of_ofChunks {cs : List Bytes} {before : Text} {left : Bytes}
    (whole : (ofChunks before left cs).failure = none) :
    ∃ t, Utf8.decode (left ++ cs.flatten) = (t, none) := by
  induction cs generalizing before left with
  | nil =>
    rw [List.flatten_nil, List.append_nil]
    rw [ofChunks] at whole
    rcases decoded : Utf8.decode left with ⟨t, _ | failure⟩
    · exact ⟨t, rfl⟩
    · rw [decoded] at whole
      cases whole
  | cons chunk rest ih =>
    rw [ofChunks] at whole
    cases part : Utf8.decodePart (left ++ chunk) with
    | error failure =>
      rw [part] at whole
      cases whole
    | ok done =>
      obtain ⟨t₁, left'⟩ := done
      rw [part] at whole
      obtain ⟨t₂, decoded⟩ := ih whole
      refine ⟨t₁ ++ t₂, ?_⟩
      rw [List.flatten_cons, ← List.append_assoc, Utf8.decode_append_eq]
      exact ⟨t₁, left', part, t₂, decoded, rfl⟩

theorem ofBytes_of_decode {bytes : Bytes} {t : Text} (decoded : Utf8.decode bytes = (t, none)) :
    ofBytes bytes = { lines := Text.fileLines t } := by
  rw [ofBytes, ofChunks_of_decode (t := t)]
  · rfl
  · rwa [flatten_chunks]

/-- A file fails exactly if it is not UTF-8. -/
theorem ofBytes_failure_eq_none {bytes : Bytes} :
    (ofBytes bytes).failure = none ↔ (Utf8.decode bytes).2 = none := by
  constructor
  · intro whole
    obtain ⟨t, decoded⟩ := decode_of_ofChunks whole
    rw [flatten_chunks] at decoded
    exact congrArg Prod.snd decoded
  · intro whole
    rw [ofBytes_of_decode (t := (Utf8.decode bytes).1) (Prod.ext rfl whole)]

end Source

end ThreadedCode
