import TxEnvelope.Proofs.Rlp.Scalar
import TxEnvelope.Transaction.Body

/-! The body of every kind is lawful, because its fields are.

Only the system kinds have a value that does not come back as it was: a mint of
zero.
-/

set_option autoImplicit false

namespace TxEnvelope

open Rlp.Codec

theorem AccessEntry.fields_lawful : AccessEntry.fields.Lawful id :=
  ((fixedBytes_lawful 20).both (fixedBytes_lawful 32).list_id).convert (fun _ => rfl) fun _ => rfl

theorem AccessList.codec_lawful : AccessList.codec.Lawful id :=
  AccessEntry.fields_lawful.measured.list_id

theorem Signature.fields_lawful {α : Type} {scalar : Rlp.Codec α} (laws : scalar.Lawful id) :
    (Signature.fields scalar).Lawful id :=
  (laws.both (laws.both laws)).convert (fun _ => rfl) fun _ => rfl

theorem LegacyTx.fields_lawful : LegacyTx.fields.Lawful id :=
  (uint64_lawful.both <| quantity_lawful.both <| uint64_lawful.both <|
    optionalAddress_lawful.both <| quantity_lawful.both <| bytes_lawful.both <|
    Signature.fields_lawful quantity_lawful).convert (fun _ => rfl) fun _ => rfl

theorem AccessListTx.fields_lawful : AccessListTx.fields.Lawful id :=
  (quantity_lawful.both <| uint64_lawful.both <| quantity_lawful.both <| uint64_lawful.both <|
    optionalAddress_lawful.both <| quantity_lawful.both <| bytes_lawful.both <|
    AccessList.codec_lawful.both <| Signature.fields_lawful quantity_lawful).convert
    (fun _ => rfl) fun _ => rfl

theorem DynamicFeeTx.fields_lawful : DynamicFeeTx.fields.Lawful id :=
  (quantity_lawful.both <| uint64_lawful.both <| quantity_lawful.both <| quantity_lawful.both <|
    uint64_lawful.both <| optionalAddress_lawful.both <| quantity_lawful.both <|
    bytes_lawful.both <| AccessList.codec_lawful.both <|
    Signature.fields_lawful quantity_lawful).convert (fun _ => rfl) fun _ => rfl

theorem BlobTx.fields_lawful : BlobTx.fields.Lawful id :=
  (uint256_lawful.both <| uint64_lawful.both <| uint256_lawful.both <| uint256_lawful.both <|
    uint64_lawful.both <| optionalAddress_lawful.both <| uint256_lawful.both <|
    bytes_lawful.both <| AccessList.codec_lawful.both <| uint256_lawful.both <|
    (fixedBytes_lawful 32).list_id.both <| Signature.fields_lawful uint256_lawful).convert
    (fun _ => rfl) fun _ => rfl

theorem SystemTx.fields_lawful : SystemTx.fields.Lawful SystemTx.withoutZeroMint :=
  ((fixedBytes_lawful 32).both <| (fixedBytes_lawful 20).both <| optionalAddress_lawful.both <|
    optionalQuantity_lawful.both <| quantity_lawful.both <| uint64_lawful.both <|
    flag_lawful.both bytes_lawful).convert (fun _ => rfl) fun _ => rfl

def Kind.normalise : (kind : Kind) → kind.Content → kind.Content
  | .legacy, tx => tx
  | .accessList, tx => tx
  | .dynamicFee, tx => tx
  | .blob, tx => tx
  | .offchain, tx => tx.withoutZeroMint
  | .deposit, tx => tx.withoutZeroMint

theorem Kind.fields_lawful (kind : Kind) : kind.fields.Lawful kind.normalise := by
  cases kind with
  | legacy => exact LegacyTx.fields_lawful
  | accessList => exact AccessListTx.fields_lawful
  | dynamicFee => exact DynamicFeeTx.fields_lawful
  | blob => exact BlobTx.fields_lawful
  | offchain => exact SystemTx.fields_lawful
  | deposit => exact SystemTx.fields_lawful

/-- What stands behind the type byte, header included. -/
theorem Kind.body_lawful (kind : Kind) : kind.body.Lawful kind.normalise :=
  kind.fields_lawful.enclosed

end TxEnvelope
