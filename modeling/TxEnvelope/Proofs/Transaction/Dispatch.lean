import TxEnvelope.Network
import TxEnvelope.Proofs.Reader
import TxEnvelope.Proofs.Rlp.Header

/-! What the first byte of canonical bytes decides.

A byte below `0x80` is a type byte: it picks the body of its kind, or is refused if no kind
is written with it. Any other byte starts an RLP item, which is read as a legacy body. From
`0x80` to `0xbf` that item is a string, so it is always refused, but as an item and not as
a type.
-/

set_option autoImplicit false

namespace TxEnvelope

namespace Rlp

namespace Header

theorem Announces.isString {byte : UInt8} {rest left : Bytes} {header : Header}
    (announced : Announces (byte :: rest) header left) (below : byte < 0xc0) :
    header.isList = false := by
  generalize start : byte :: rest = input at announced
  cases announced with
  | own => rfl
  | spelled small =>
    obtain ⟨first, tail, spelled, least⟩ := encode_eq_cons small
    rw [spelled, List.cons_append] at start
    obtain ⟨rfl, -⟩ := List.cons.inj start
    have code : byte.toNat < 0xc0 := UInt8.lt_iff_toNat_lt.1 below
    -- The code of a list starts at `0xc0`.
    cases sort : header.isList with
    | false => rfl
    | true =>
      rw [sort] at least
      exact absurd least (Nat.not_le_of_lt code)

def refusals : List Error :=
  [.inputTooShort, .nonCanonicalSingleByte, .leadingZero, .nonCanonicalSize]

theorem fits_refusal {header : Header} {rest : Bytes} {e : Error}
    (failed : fits header rest = .error e) : e ∈ refusals := by
  unfold fits at failed
  split at failed <;> cases failed
  decide

theorem decodeShortString_refusal {payload : Nat} {rest : Bytes} {e : Error}
    (failed : decodeShortString payload rest = .error e) : e ∈ refusals := by
  unfold decodeShortString at failed
  split at failed
  · split at failed
    · cases failed
      decide
    · split at failed
      · cases failed
        decide
      · exact fits_refusal failed
  · exact fits_refusal failed

theorem decodeLong_refusal {isList : Bool} {width : Nat} {rest : Bytes} {e : Error}
    (failed : decodeLong isList width rest = .error e) : e ∈ refusals := by
  unfold decodeLong at failed
  split at failed
  · cases failed
    decide
  · split at failed
    · cases failed
      decide
    · dsimp only at failed
      split at failed
      · cases failed
        decide
      · exact fits_refusal failed

theorem decode_refusal {input : Bytes} {e : Error} (failed : decode input = .error e) :
    e ∈ refusals := by
  cases input with
  | nil =>
    cases failed
    decide
  | cons byte rest =>
    rcases code_cases byte with own | ⟨isList, payload, short, rfl⟩ | ⟨isList, width, pos, le, rfl⟩
    · rw [decode_self own] at failed
      cases failed
    · rw [decode_short short] at failed
      cases isList with
      | false => exact decodeShortString_refusal failed
      | true => exact fits_refusal failed
    · rw [decode_long pos le] at failed
      exact decodeLong_refusal failed

end Header

theorem payloadReader_list_of_lt {byte : UInt8} (below : byte < 0xc0) (rest : Bytes) :
    ∃ e ∈ Error.unexpectedString :: Header.refusals,
      (payloadReader true).read (byte :: rest) = .error e := by
  cases found : Header.decode (byte :: rest) with
  | error e =>
    refine ⟨e, List.mem_cons_of_mem _ (Header.decode_refusal found), ?_⟩
    simp only [payloadReader, found]
  | ok result =>
    obtain ⟨header, left⟩ := result
    have string := (Header.decode_eq_ok_iff.1 found).isString below
    refine ⟨.unexpectedString, List.mem_cons_self, ?_⟩
    simp [payloadReader, found, string]

end Rlp

namespace Kind

def typeBytes : List (UInt8 × Kind) :=
  [(0x01, .accessList), (0x02, .dynamicFee), (0x03, .blob), (0x7d, .offchain), (0x7e, .deposit)]

theorem mem_typeBytes_iff {byte : UInt8} {kind : Kind} :
    (byte, kind) ∈ typeBytes ↔ kind.isTyped = true ∧ kind.byte = byte := by
  have table : typeBytes = (all.filter isTyped).map fun kind => (kind.byte, kind) := rfl
  rw [table]
  constructor
  · intro mem
    obtain ⟨other, found, same⟩ := List.mem_map.1 mem
    cases same
    exact ⟨(List.mem_filter.1 found).2, rfl⟩
  · rintro ⟨typed, rfl⟩
    exact List.mem_map_of_mem (List.mem_filter.2 ⟨mem_all kind, typed⟩)

theorem le_of_mem_typeBytes {byte : UInt8} {kind : Kind} (mem : (byte, kind) ∈ typeBytes) :
    byte ≤ 0x7f := by
  obtain ⟨-, rfl⟩ := mem_typeBytes_iff.1 mem
  cases kind <;> decide

end Kind

namespace Transaction

theorem decodeTyped_of_mem {byte : UInt8} {kind : Kind} (mem : (byte, kind) ∈ Kind.typeBytes)
    (body : Bytes) : decodeTyped byte body = (decodeBody kind body).mapError .rlp := by
  obtain ⟨typed, rfl⟩ := Kind.mem_typeBytes_iff.1 mem
  rw [decodeTyped, Kind.ofByte?_byte]
  cases kind with
  | legacy => simp [Kind.isTyped] at typed
  | _ => rfl

theorem decodeTyped_of_not_mem {byte : UInt8} (unknown : ∀ kind, (byte, kind) ∉ Kind.typeBytes)
    (body : Bytes) : decodeTyped byte body = .error (.unexpectedType byte) := by
  unfold decodeTyped
  split
  · rfl
  · rfl
  · next kind untyped found =>
    have typed : kind.isTyped = true := bne_iff_ne.2 untyped
    exact absurd (Kind.mem_typeBytes_iff.2 ⟨typed, Kind.byte_of_ofByte? found⟩) (unknown kind)

theorem decodeBody_of_lt {byte : UInt8} (below : byte < 0xc0) (kind : Kind) (rest : Bytes) :
    ∃ e ∈ Rlp.Error.unexpectedString :: Rlp.Header.refusals,
      decodeBody kind (byte :: rest) = .error e := by
  obtain ⟨e, mem, failed⟩ := Rlp.payloadReader_list_of_lt below rest
  exact ⟨e, mem, Reader.map_eq_error_iff.2 (Reader.refine_eq_error_iff.2 (.inl failed))⟩

theorem decode_of_high {byte : UInt8} (high : 0x80 ≤ byte) (rest : Bytes) :
    decode (byte :: rest) = (decodeBody .legacy (byte :: rest)).mapError .rlp :=
  decode_of_not_le (UInt8.not_le.2 (UInt8.lt_of_lt_of_le (by decide) high)) rest

/-- The first byte decides how bytes are read. From `0xc0` on, all of them are read as a legacy
body. A type byte has the rest read as a body of its kind. Any other byte below `0x80` is refused
as an unsupported type, whatever follows it. A byte in between is read as a legacy body too, and
that always fails: because the item is a string, or because it is none. -/
theorem first_byte_decides (byte : UInt8) (rest : Bytes) :
    (0xc0 ≤ byte →
      decode (byte :: rest) = (decodeBody .legacy (byte :: rest)).mapError .rlp) ∧
    (∀ kind, (byte, kind) ∈ Kind.typeBytes →
      decode (byte :: rest) = (decodeBody kind rest).mapError .rlp) ∧
    (byte < 0x80 → (∀ kind, (byte, kind) ∉ Kind.typeBytes) →
      decode (byte :: rest) = .error (.unexpectedType byte) ∧
      (DecodeError.unexpectedType byte).toError = .unsupportedType byte.toUInt64) ∧
    (0x80 ≤ byte → byte < 0xc0 →
      decode (byte :: rest) = (decodeBody .legacy (byte :: rest)).mapError .rlp ∧
      ∃ e ∈ Rlp.Error.unexpectedString :: Rlp.Header.refusals,
        decode (byte :: rest) = .error (.rlp e)) := by
  refine ⟨fun list => ?_, fun kind mem => ?_, fun low unknown => ⟨?_, rfl⟩, fun high below => ?_⟩
  · exact decode_of_high (UInt8.le_trans (by decide) list) rest
  · rw [decode_of_le (Kind.le_of_mem_typeBytes mem), decodeTyped_of_mem mem]
  · have flag : byte ≤ 0x7f :=
      UInt8.le_iff_toNat_le.2 (Nat.le_of_lt_succ (UInt8.lt_iff_toNat_lt.1 low))
    rw [decode_of_le flag, decodeTyped_of_not_mem unknown]
  · obtain ⟨e, mem, failed⟩ := decodeBody_of_lt below .legacy rest
    refine ⟨decode_of_high high rest, e, mem, ?_⟩
    rw [decode_of_high high, failed]
    rfl

/-- A list, a dynamic fee body, the byte of the legacy kind and one of no kind in front of bytes that
would be refused on their own, and a string that ends before its payload does. -/
theorem first_byte_decides_each :
    decode [0xc1, 0x80] = (decodeBody .legacy [0xc1, 0x80]).mapError .rlp ∧
      decode [0x02, 0xc1, 0x00] = (decodeBody .dynamicFee [0xc1, 0x00]).mapError .rlp ∧
      decode [0x00, 0xf8] = .error (.unexpectedType 0x00) ∧
      decode [0x7f, 0xf8] = .error (.unexpectedType 0x7f) ∧
      ∃ e ∈ Rlp.Error.unexpectedString :: Rlp.Header.refusals,
        decode [0xb7, 0x01] = .error (.rlp e) :=
  ⟨(first_byte_decides 0xc1 [0x80]).1 (by decide),
    (first_byte_decides 0x02 [0xc1, 0x00]).2.1 .dynamicFee (by decide),
    ((first_byte_decides 0x00 [0xf8]).2.2.1 (by decide) fun kind => by cases kind <;> decide).1,
    ((first_byte_decides 0x7f [0xf8]).2.2.1 (by decide) fun kind => by cases kind <;> decide).1,
    ((first_byte_decides 0xb7 [0x01]).2.2.2 (by decide) (by decide)).2⟩

/-- Not every byte below `0xc0` without a kind is refused as a type: the empty string `0x80` is
refused for being a string. Behind the header of a wrapper the same byte is refused as a type. -/
theorem string_byte_not_refused_as_type :
    (¬ ∀ (byte : UInt8) (rest : Bytes), byte < 0xc0 → (∀ kind, (byte, kind) ∉ Kind.typeBytes) →
      (decode (byte :: rest)).mapError DecodeError.toError
        = .error (.unsupportedType byte.toUInt64)) ∧
    decode [0x80] = .error (.rlp .unexpectedString) ∧
    decodeNetwork [0x81, 0x80] = .error (.unexpectedType 0x80) := by
  refine ⟨fun refused => ?_, rfl, rfl⟩
  have unsupported := refused 0x80 [] (by decide) fun kind => by cases kind <;> decide
  cases unsupported

end Transaction

end TxEnvelope
