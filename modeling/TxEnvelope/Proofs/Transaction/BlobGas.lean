import TxEnvelope.Proofs.Transaction.Size

/-! The blob gas of what is read does not wrap.

Blob gas is a 64-bit product, which is exact for fewer than 2^47 hashes and for no others. A
transaction that is read has brought 33 bytes for each of its hashes, so there are not that
many of them in a buffer of less than 2^52 bytes.
-/

set_option autoImplicit false

namespace TxEnvelope.Transaction

open Rlp.Codec

theorem toNat_blobGas (tx : Transaction) :
    tx.blobGas.toNat = 131072 * tx.blobHashes.length % 2 ^ 64 := by
  rw [blobGas, UInt64.toNat_mul, UInt64.toNat_ofNat', gasPerBlob]
  exact Nat.mul_mod_mod 131072 tx.blobHashes.length (2 ^ 64)

theorem toNat_blobGas_eq_iff (tx : Transaction) :
    tx.blobGas.toNat = 131072 * tx.blobHashes.length ↔ tx.blobHashes.length < 2 ^ 47 := by
  rw [toNat_blobGas]
  omega

theorem length_hashes (hashes : List Hash) :
    ((fixedBytes 32).listFrame hashes).payload.length = 33 * hashes.length := by
  calc ((fixedBytes 32).listFrame hashes).payload.length
      = (fixedBytes 32).totalLength hashes := (fixedBytes_lawful 32).length_flatMap hashes
    _ = 33 * hashes.length := Rlp.Codec.totalLength_const
        (@Rlp.Codec.length_fixedBytes 32 (by decide) (by decide)) hashes

theorem length_hashes_le (tx : Transaction) : 33 * tx.blobHashes.length ≤ tx.encode.length := by
  cases tx with
  | blob content =>
    have listed : (fixedBytes 32).listFrame content.blobHashes ∈ (blob content).frames := by
      simp [frames]
    have inFields := frame_length_le _ _ listed
    have inBytes := fieldsLength_le (blob content)
    rw [length_hashes] at inFields
    rw [← length_encodeFields] at inBytes
    exact Nat.le_trans inFields inBytes
  | _ => exact Nat.zero_le _

theorem length_encode_le_of_read {input rest : Bytes} {tx : Transaction}
    (read : decode input = .ok (tx, rest) ∨ decodeNetwork input = .ok (tx, rest)) :
    tx.encode.length ≤ input.length := by
  rcases read with canonical | network
  · obtain ⟨-, -, rfl⟩ := decode_eq_ok_iff.1 canonical
    rw [List.length_append]
    exact Nat.le_add_right _ _
  · obtain ⟨-, -, wrapper, -, rfl⟩ := decodeNetwork_eq_ok_iff.1 network
    rw [List.length_append, List.length_append]
    omega

/-- A transaction that is read from fewer than 2^52 bytes, in canonical or in network form, has
brought 33 of them for each of its versioned hashes, and its blob gas is exactly 131072 for each
of them. -/
theorem blob_gas_exact {input rest : Bytes} {tx : Transaction} (short : input.length < 2 ^ 52)
    (read : decode input = .ok (tx, rest) ∨ decodeNetwork input = .ok (tx, rest)) :
    tx.blobGas.toNat = 131072 * tx.blobHashes.length ∧
      33 * tx.blobHashes.length ≤ input.length := by
  have brought : 33 * tx.blobHashes.length ≤ input.length :=
    Nat.le_trans tx.length_hashes_le (length_encode_le_of_read read)
  refine ⟨?_, brought⟩
  rw [toNat_blobGas_eq_iff]
  omega

/-- Two hashes in canonical form with a byte behind it, and in network form. -/
theorem blob_gas_exact_two :
    let tx : Transaction := .blob ⟨1, 0, 2, 3, 21000, none, 4, [5, 6], [], 7,
      [.zero 32, .zero 32], ⟨0, 1, 1⟩⟩
    (tx.encode ++ [9]).length < 2 ^ 52 ∧ decode (tx.encode ++ [9]) = .ok (tx, [9]) ∧
      tx.encodeNetwork.length < 2 ^ 52 ∧ decodeNetwork tx.encodeNetwork = .ok (tx, []) ∧
      tx.blobGas.toNat = 131072 * 2 ∧ 33 * 2 ≤ (tx.encode ++ [9]).length ∧
      33 * 2 ≤ tx.encodeNetwork.length := by
  intro tx
  have small : tx.encode.length < 2 ^ 64 := by decide +kernel
  have short : (tx.encode ++ [9]).length < 2 ^ 52 := by decide +kernel
  have shortNetwork : tx.encodeNetwork.length < 2 ^ 52 := by decide +kernel
  have canonical : decode (tx.encode ++ [9]) = .ok (tx, [9]) := decode_encode_append small [9]
  have network := decodeNetwork_encodeNetwork_append small []
  rw [List.append_nil] at network
  obtain ⟨gas, brought⟩ := blob_gas_exact short (.inl canonical)
  exact ⟨short, canonical, shortNetwork, network, gas, brought,
    (blob_gas_exact shortNetwork (.inr network)).2⟩

end TxEnvelope.Transaction
