import ThreadedCode.Text.Encoding

/-!
UTF-8 in both directions. Encoding refuses surrogates and names the first run of them. Decoding
stops at the first sequence that is not UTF-8 and tells a malformed one from one that the end of
the input cuts short. Bytes that come in parts are decoded part by part, with what is left of one
part in front of the next.
-/

namespace ThreadedCode

namespace Utf8

def encodeOne (c : CodePoint) : List UInt8 :=
  let n := c.val
  if n < 0x80 then [.ofNat n]
  else if n < 0x800 then [.ofNat (0xC0 + n / 0x40), .ofNat (0x80 + n % 0x40)]
  else if n < 0x10000 then
    [.ofNat (0xE0 + n / 0x1000), .ofNat (0x80 + n / 0x40 % 0x40), .ofNat (0x80 + n % 0x40)]
  else
    [.ofNat (0xF0 + n / 0x40000), .ofNat (0x80 + n / 0x1000 % 0x40),
      .ofNat (0x80 + n / 0x40 % 0x40), .ofNat (0x80 + n % 0x40)]

def encoding : Encoding :=
  { name := "utf-8", lacking := [(0xD800, 0xDFFF)], reason := "surrogates not allowed" }

theorem lacks_eq_isSurrogate (c : CodePoint) : encoding.lacks c = c.isSurrogate := by
  simp only [Encoding.lacks, encoding, CodePoint.inRanges, CodePoint.isSurrogate]
  split <;> simp_all

def encode (t : Text) : Except EncodeFailure (List UInt8) :=
  match encoding.refusal? t with
  | some failure => .error failure
  | none => .ok (t.flatMap encodeOne)

inductive Defect where
  | invalidStart
  | invalidContinuation
  | unexpectedEnd
deriving DecidableEq

structure DecodeFailure where
  bytes : List UInt8
  position : Nat
  defect : Defect
deriving DecidableEq

/-- What a lead byte promises: the bits it holds, the bounds of the second byte, and how many more
bytes follow that one. -/
structure Lead where
  bits : Nat
  low : Nat
  high : Nat
  more : Nat

/-- The bounds of the second byte keep out overlong forms, surrogates and numbers past the last
code point. -/
def lead? (b : UInt8) : Option Lead :=
  let n := b.toNat
  if 0xC2 ≤ n && n ≤ 0xDF then some ⟨n - 0xC0, 0x80, 0xBF, 0⟩
  else if n = 0xE0 then some ⟨0, 0xA0, 0xBF, 1⟩
  else if n = 0xED then some ⟨0xD, 0x80, 0x9F, 1⟩
  else if 0xE1 ≤ n && n ≤ 0xEF then some ⟨n - 0xE0, 0x80, 0xBF, 1⟩
  else if n = 0xF0 then some ⟨0, 0x90, 0xBF, 2⟩
  else if 0xF1 ≤ n && n ≤ 0xF3 then some ⟨n - 0xF0, 0x80, 0xBF, 2⟩
  else if n = 0xF4 then some ⟨4, 0x80, 0x8F, 2⟩
  else none

/-- Where a decoder stands: between characters, or inside one, with the bytes of it so far (latest
first), its bits so far, the bounds of the next byte, and the number of bytes after that one. -/
inductive Progress where
  | between
  | inside (seen : List UInt8) (bits low high more : Nat)

def decodeFrom (position : Nat) : Progress → List UInt8 → Text × Option DecodeFailure
  | .between, [] => ([], none)
  | .inside seen _ _ _ _, [] =>
    ([], some ⟨seen.reverse, position - seen.length, .unexpectedEnd⟩)
  | .between, b :: rest =>
    if h : b.toNat < 0x80 then
      let (t, failure) := decodeFrom (position + 1) .between rest
      (⟨b.toNat, by omega⟩ :: t, failure)
    else
      match lead? b with
      | none => ([], some ⟨[b], position, .invalidStart⟩)
      | some lead =>
        decodeFrom (position + 1) (.inside [b] lead.bits lead.low lead.high lead.more) rest
  | .inside seen bits low high more, b :: rest =>
    if low ≤ b.toNat && b.toNat ≤ high then
      let bits := bits * 0x40 + (b.toNat - 0x80)
      match more with
      | 0 =>
        let (t, failure) := decodeFrom (position + 1) .between rest
        ((CodePoint.ofNat? bits).toList ++ t, failure)
      | more + 1 => decodeFrom (position + 1) (.inside (b :: seen) bits 0x80 0xBF more) rest
    else ([], some ⟨seen.reverse, position - seen.length, .invalidContinuation⟩)

def decode (bytes : List UInt8) : Text × Option DecodeFailure := decodeFrom 0 .between bytes

/-- Whether bytes that are not UTF-8 may still become a character with more bytes after them. The
two bytes that begin the form of a surrogate count among these: only the third one settles them. -/
def isUnfinished : List UInt8 → Defect → Bool
  | _, .unexpectedEnd => true
  | [0xED, second], .invalidContinuation => 0xA0 ≤ second && second ≤ 0xBF
  | _, _ => false

/-- Decodes bytes that may go on. What is left of them is not a character yet. -/
def decodePart (bytes : List UInt8) : Except DecodeFailure (Text × List UInt8) :=
  match decode bytes with
  | (t, none) => .ok (t, [])
  | (t, some failure) =>
    let left := bytes.drop failure.position
    if isUnfinished left failure.defect then .ok (t, left) else .error failure

def Defect.message : Defect → Text
  | .invalidStart => "invalid start byte"
  | .invalidContinuation => "invalid continuation byte"
  | .unexpectedEnd => "unexpected end of data"

def DecodeFailure.message (failure : DecodeFailure) : Text :=
  let first := (failure.bytes.head?.getD 0).toNat
  Text.concat ["'utf-8' codec can't decode ",
    placeText "byte" (Text.concat ["0x", hexText 2 first]) failure.position failure.bytes.length,
    ": ", failure.defect.message]

end Utf8

end ThreadedCode
