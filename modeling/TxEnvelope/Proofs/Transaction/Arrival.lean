import TxEnvelope.Proofs.Rlp.Arrival
import TxEnvelope.Proofs.Transaction.Canonical

/-! Transactions of which some bytes are missing, or too many are there.

Reading a transaction is steady: bytes behind it change its answer only where it says
that the input is too short, and it says so of canonical bytes that are cut off anywhere.
A body is read from its payload alone. One that goes on behind its fields is reported with
both lengths, and one that ends before they do is too short, even if the missing bytes
follow it.
-/

set_option autoImplicit false

namespace TxEnvelope

open Rlp.Codec

theorem AccessList.codec_steady : Steady .inputTooShort AccessList.codec.read :=
  list_steady _

theorem Signature.fields_steady {α : Type} {scalar : Rlp.Codec α}
    (steady : Steady .inputTooShort scalar.read) :
    Steady .inputTooShort (Signature.fields scalar).read :=
  (steady.both (steady.both steady)).map _

theorem LegacyTx.fields_steady : Steady .inputTooShort LegacyTx.fields.read :=
  (uint64_steady.both <| quantity_steady.both <| uint64_steady.both <|
    optionalAddress_steady.both <| quantity_steady.both <| bytes_steady.both <|
    Signature.fields_steady quantity_steady).map _

theorem AccessListTx.fields_steady : Steady .inputTooShort AccessListTx.fields.read :=
  (quantity_steady.both <| uint64_steady.both <| quantity_steady.both <| uint64_steady.both <|
    optionalAddress_steady.both <| quantity_steady.both <| bytes_steady.both <|
    AccessList.codec_steady.both <| Signature.fields_steady quantity_steady).map _

theorem DynamicFeeTx.fields_steady : Steady .inputTooShort DynamicFeeTx.fields.read :=
  (quantity_steady.both <| uint64_steady.both <| quantity_steady.both <| quantity_steady.both <|
    uint64_steady.both <| optionalAddress_steady.both <| quantity_steady.both <|
    bytes_steady.both <| AccessList.codec_steady.both <|
    Signature.fields_steady quantity_steady).map _

theorem BlobTx.fields_steady : Steady .inputTooShort BlobTx.fields.read :=
  (uint256_steady.both <| uint64_steady.both <| uint256_steady.both <| uint256_steady.both <|
    uint64_steady.both <| optionalAddress_steady.both <| uint256_steady.both <|
    bytes_steady.both <| AccessList.codec_steady.both <| uint256_steady.both <|
    (list_steady (fixedBytes 32)).both <| Signature.fields_steady uint256_steady).map _

theorem SystemTx.fields_steady : Steady .inputTooShort SystemTx.fields.read :=
  ((fixedBytes_steady 32).both <| (fixedBytes_steady 20).both <| optionalAddress_steady.both <|
    optionalQuantity_steady.both <| quantity_steady.both <| uint64_steady.both <|
    flag_steady.both bytes_steady).map _

theorem Kind.fields_steady (kind : Kind) : Steady .inputTooShort kind.fields.read := by
  cases kind with
  | legacy => exact LegacyTx.fields_steady
  | accessList => exact AccessListTx.fields_steady
  | dynamicFee => exact DynamicFeeTx.fields_steady
  | blob => exact BlobTx.fields_steady
  | offchain => exact SystemTx.fields_steady
  | deposit => exact SystemTx.fields_steady

namespace Transaction

theorem decodeBody_steady (kind : Kind) : Steady .inputTooShort (decodeBody kind) :=
  (enclosed_steady kind.fields).map (ofContent kind)

theorem decodeUntyped_steady : Steady (.rlp .inputTooShort) decodeUntyped :=
  (decodeBody_steady .legacy).mapError DecodeError.rlp

theorem decodeTyped_steady (byte : UInt8) : Steady (.rlp .inputTooShort) (decodeTyped byte) := by
  unfold decodeTyped
  cases Kind.ofByte? byte with
  | none => exact .refuse _
  | some kind =>
    cases kind with
    | legacy => exact .refuse _
    | _ => exact (decodeBody_steady _).mapError DecodeError.rlp

theorem decode_steady : Steady (.rlp .inputTooShort) decode := by
  refine .of_cons rfl fun byte => ?_
  by_cases flag : byte ≤ 0x7f
  · simp only [decode_of_le flag]
    exact decodeTyped_steady byte
  · simp only [decode_of_not_le flag]
    exact decodeUntyped_steady.behind byte

/-- A transaction is read, or refused, no matter what comes behind its bytes: a value stays read,
with more bytes left over, and a refusal stays the same, unless it says that the input is too
short. That is always said of a transaction whose bytes have not all arrived, and of no bytes at
all. So a refusal that more bytes can lift is of that sort. -/
theorem only_shortage_curable :
    (∀ (input more rest : Bytes) (tx : Transaction), decode input = .ok (tx, rest) →
      decode (input ++ more) = .ok (tx, rest ++ more)) ∧
    (∀ (input more : Bytes) (e : DecodeError), decode input = .error e → e ≠ .rlp .inputTooShort →
      decode (input ++ more) = .error e) ∧
    (∀ (tx : Transaction) (part : Bytes), tx.encode.length < 2 ^ 64 → part <+: tx.encode →
      part ≠ tx.encode → decode part = .error (.rlp .inputTooShort)) ∧
    decode [] = .error (.rlp .inputTooShort) ∧
    ∀ (input more : Bytes) (e : DecodeError) (result : Transaction × Bytes),
      decode input = .error e → decode (input ++ more) = .ok result → e = .rlp .inputTooShort := by
  refine ⟨fun input more rest tx read => decode_steady.ok read more,
    fun input more e failed other => decode_steady.error failed other more,
    fun tx part small start strict => ?_, rfl, fun input more e result failed read => ?_⟩
  · have whole := decode_encode_append small []
    rw [List.append_nil] at whole
    exact decode_steady.read_of_cut whole start strict
  · refine Decidable.byContradiction fun other => ?_
    have later := decode_steady.error failed other more
    rw [read] at later
    cases later

/-- The body of a legacy transaction with a byte behind it, a leading zero in the body of an access
list transaction, and a deposit that has arrived into its sender. -/
theorem only_shortage_curable_deposit :
    let plain : Transaction := .legacy ⟨0, 0, 0, none, 0, [], .zero⟩
    let call : Transaction := .annotatedDeposit
      ⟨.zero 32, .zero 20, none, some 0, 7, 21000, true, List.replicate 60 1⟩ 5
    let part : Bytes := call.encode.take 40
    decode (plain.encode ++ [5]) = .ok (plain, [5]) ∧
      decode (plain.encode ++ [5] ++ [6]) = .ok (plain, [5, 6]) ∧
      decode [1, 0xc1, 0] = .error (.rlp .leadingZero) ∧
      decode ([1, 0xc1, 0] ++ [0x80]) = .error (.rlp .leadingZero) ∧
      call.encode.length < 2 ^ 64 ∧ part <+: call.encode ∧ part ≠ call.encode ∧
      decode part = .error (.rlp .inputTooShort) ∧
      decode (part ++ call.encode.drop 40) = .ok (call.normalise, []) ∧
      ∀ e, decode part = .error e → e = .rlp .inputTooShort := by
  intro plain call part
  obtain ⟨kept, refused, cut, -, curable⟩ := only_shortage_curable
  have read : decode (plain.encode ++ [5]) = .ok (plain, [5]) :=
    decode_encode_append (by decide +kernel) [5]
  have zero : decode [1, 0xc1, 0] = .error (.rlp .leadingZero) := rfl
  have small : call.encode.length < 2 ^ 64 := by decide +kernel
  have start : part <+: call.encode := List.take_prefix 40 call.encode
  have strict : part ≠ call.encode := by decide +kernel
  have whole := decode_encode_append small []
  rw [List.append_nil, ← List.take_append_drop 40 call.encode] at whole
  exact ⟨read, kept _ [6] _ _ read, zero, refused _ [0x80] _ zero nofun, small, start, strict,
    cut call part small start strict, whole, fun e failed => curable part _ e _ failed whole⟩

theorem decodeBody_eq_error_iff {kind : Kind} {input : Bytes} {e : Rlp.Error} :
    decodeBody kind input = .error e ↔ kind.fields.enclosed.read input = .error e :=
  Reader.map_eq_error_iff

/-- A body whose header does not name the length of its fields is refused for just that. If bytes
follow the fields inside the payload, whichever they are, both lengths are reported; if the payload
ends inside the fields, the input is too short, whatever follows the payload. -/
theorem wrong_payload_length_reported (tx : Transaction) :
    (∀ surplus rest : Bytes, surplus ≠ [] → tx.encodeFields.length + surplus.length < 2 ^ 64 →
      decodeBody tx.kind
          ((Rlp.Header.mk true (tx.encodeFields.length + surplus.length)).encode
            ++ (tx.encodeFields ++ surplus ++ rest))
        = .error (.listLengthMismatch (tx.encodeFields.length + surplus.length)
            tx.encodeFields.length)) ∧
    ∀ part rest : Bytes, tx.encodeFields.length < 2 ^ 64 → part <+: tx.encodeFields →
      part ≠ tx.encodeFields →
      decodeBody tx.kind ((Rlp.Header.mk true part.length).encode ++ (part ++ rest))
        = .error .inputTooShort := by
  have laws := tx.kind.fields_lawful
  constructor
  · intro surplus rest more small
    rw [← List.length_append] at small ⊢
    exact decodeBody_eq_error_iff.2 (enclosed_of_surplus laws tx.content more small rest)
  · intro part rest small start strict
    exact decodeBody_eq_error_iff.2
      (enclosed_of_cut laws tx.kind.fields_steady small start strict rest)

/-- A blob transaction with a header of a long list behind its fields, and one whose payload ends
inside the hash list while the rest of it follows. -/
theorem wrong_payload_length_reported_nested :
    let tx : Transaction := .blob ⟨1, 0, 2, 3, 21000, none, 4, [5, 6],
      [⟨.zero 20, [.zero 32]⟩], 7, [.zero 32], ⟨0, 1, 1⟩⟩
    let fields := tx.encodeFields
    fields.length = 108 ∧ [0xf8] ≠ ([] : Bytes) ∧ fields.length + [0xf8].length < 2 ^ 64 ∧
      decodeBody .blob ((Rlp.Header.mk true 109).encode ++ (fields ++ [0xf8] ++ [9]))
        = .error (.listLengthMismatch 109 108) ∧
      fields.take 90 <+: fields ∧ fields.take 90 ≠ fields ∧
      decodeBody .blob ((Rlp.Header.mk true 90).encode ++ (fields.take 90 ++ fields.drop 90))
        = .error .inputTooShort := by
  intro tx fields
  have length : fields.length = 108 := by decide +kernel
  have start : fields.take 90 <+: fields := List.take_prefix 90 fields
  have strict : fields.take 90 ≠ fields := by decide +kernel
  obtain ⟨surplus, cut⟩ := wrong_payload_length_reported tx
  have long := surplus [0xf8] [9] (by decide) (by decide +kernel)
  have short := cut (fields.take 90) (fields.drop 90) (by decide +kernel) start strict
  have taken : (fields.take 90).length = 90 := by decide +kernel
  rw [show tx.encodeFields.length = 108 from length] at long
  rw [taken] at short
  exact ⟨length, by decide, by decide +kernel, long, start, strict, short⟩

end Transaction

end TxEnvelope
