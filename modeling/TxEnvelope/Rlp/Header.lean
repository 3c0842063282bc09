import TxEnvelope.Bytes

/-! Item headers of the recursive length prefix format.

A header says whether an item is a string or a list and how many payload bytes
follow. A one-byte string below `0x80` is its own header. Only the shortest
header for a length is accepted.
-/

set_option autoImplicit false

namespace TxEnvelope.Rlp

inductive Error where
  | inputTooShort
  | leadingZero
  | nonCanonicalSize
  | nonCanonicalSingleByte
  | overflow
  | unexpectedList
  | unexpectedString
  | unexpectedLength
  | listLengthMismatch (expected got : Nat)
  | invalidBool
  | unexpectedTypeFlag
  deriving DecidableEq, Repr

def Error.message : Error → String
  | .inputTooShort => "input too short"
  | .leadingZero => "leading zero"
  | .nonCanonicalSize => "non-canonical size"
  | .nonCanonicalSingleByte => "non-canonical single byte"
  | .overflow => "overflow"
  | .unexpectedList => "unexpected list"
  | .unexpectedString => "unexpected string"
  | .unexpectedLength => "unexpected length"
  | .listLengthMismatch expected got =>
    "unexpected list length (got " ++ toString got ++ ", expected " ++ toString expected ++ ")"
  | .invalidBool => "invalid bool value, must be 0 or 1"
  | .unexpectedTypeFlag => "Unexpected type flag"

/-- The announcement of an item: its sort and the number of its payload bytes. -/
structure Header where
  isList : Bool
  payload : Nat
  deriving DecidableEq, Repr

namespace Header

/-- The code of an empty item of the sort; short payload lengths are added to it. -/
def base (isList : Bool) : Nat :=
  if isList then 0xc0 else 0x80

/-- The bytes in front of a payload. A length below 56 goes into the first byte; a longer one
follows it, and the first byte says how many bytes it takes. -/
def encode (header : Header) : Bytes :=
  if header.payload < 56 then
    [UInt8.ofNat (base header.isList + header.payload)]
  else
    let width := Bytes.ofNat header.payload
    UInt8.ofNat (base header.isList + 55 + width.length) :: width

def size (payload : Nat) : Nat :=
  if payload < 56 then 1 else 1 + (payload.log2 / 8 + 1)

def fits (header : Header) (rest : Bytes) : Except Error (Header × Bytes) :=
  if rest.length < header.payload then .error .inputTooShort else .ok (header, rest)

/-- A string of up to 55 bytes. A single byte below `0x80` has a shorter form. -/
def decodeShortString (payload : Nat) (rest : Bytes) : Except Error (Header × Bytes) :=
  if payload = 1 then
    match rest with
    | [] => .error .inputTooShort
    | byte :: _ =>
      if byte < 0x80 then .error .nonCanonicalSingleByte else fits ⟨false, payload⟩ rest
  else fits ⟨false, payload⟩ rest

def decodeLong (isList : Bool) (width : Nat) (rest : Bytes) : Except Error (Header × Bytes) :=
  if rest.length < width then .error .inputTooShort
  -- A zero in front would spell the same length in more bytes than it needs.
  else if rest.head? = some 0 then .error .leadingZero
  else
    let payload := Bytes.toNat (rest.take width)
    if payload < 56 then .error .nonCanonicalSize
    else fits ⟨isList, payload⟩ (rest.drop width)

/-- Reads a header and leaves the payload and what follows it. A byte below `0x80` stays, being
its own payload. -/
def decode : Bytes → Except Error (Header × Bytes)
  | [] => .error .inputTooShort
  | byte :: rest =>
    -- Own payload, short string, long string, short list, long list.
    let code := byte.toNat
    if code < 0x80 then .ok (⟨false, 1⟩, byte :: rest)
    else if code < 0xb8 then decodeShortString (code - 0x80) rest
    else if code < 0xc0 then decodeLong false (code - 0xb7) rest
    else if code < 0xf8 then fits ⟨true, code - 0xc0⟩ rest
    else decodeLong true (code - 0xf7) rest

theorem fits_eq_ok {header found : Header} {rest left : Bytes}
    (h : fits header rest = .ok (found, left)) :
    found = header ∧ left = rest ∧ header.payload ≤ rest.length := by
  unfold fits at h
  split at h
  · simp at h
  · simp only [Except.ok.injEq, Prod.mk.injEq] at h
    exact ⟨h.1.symm, h.2.symm, by omega⟩

theorem decode_bounds {input left : Bytes} {header : Header}
    (h : decode input = .ok (header, left)) :
    header.payload ≤ left.length ∧ left.length ≤ input.length
      ∧ left.length < input.length + header.payload := by
  cases input with
  | nil => simp [decode] at h
  | cons byte rest =>
    -- Every way to a header but the first ends in the check that its payload is there.
    have step : ∀ {asked : Header} {rest' : Bytes}, rest'.length ≤ rest.length →
        fits asked rest' = .ok (header, left) →
        header.payload ≤ left.length ∧ left.length ≤ rest.length := by
      intro asked rest' le h
      obtain ⟨rfl, rfl, fit⟩ := fits_eq_ok h
      exact ⟨fit, le⟩
    have long : ∀ {isList : Bool} {width : Nat},
        decodeLong isList width rest = .ok (header, left) →
        header.payload ≤ left.length ∧ left.length ≤ rest.length := by
      intro isList width h
      unfold decodeLong at h
      split at h
      · simp at h
      · split at h
        · simp at h
        · dsimp only at h
          split at h
          · simp at h
          · exact step (by simp) h
    have short : ∀ {payload : Nat}, decodeShortString payload rest = .ok (header, left) →
        header.payload ≤ left.length ∧ left.length ≤ rest.length := by
      intro payload h
      unfold decodeShortString at h
      repeat' split at h
      all_goals first
        | exact step (Nat.le_refl _) h
        | simp at h
    -- The first byte is gone then, so something is consumed even by an empty payload.
    have after : header.payload ≤ left.length ∧ left.length ≤ rest.length →
        header.payload ≤ left.length ∧ left.length ≤ (byte :: rest).length
          ∧ left.length < (byte :: rest).length + header.payload := by
      intro ⟨fit, le⟩
      simp only [List.length_cons]
      omega
    simp only [decode] at h
    split at h
    · simp only [Except.ok.injEq, Prod.mk.injEq] at h
      obtain ⟨rfl, rfl⟩ := h
      simp
    · split at h
      · exact after (short h)
      · split at h
        · exact after (long h)
        · split at h
          · exact after (step (Nat.le_refl _) h)
          · exact after (long h)

end Header

end TxEnvelope.Rlp
