import TxEnvelope.Rlp.Scalar
import TxEnvelope.Transaction.Basic

/-! The RLP body of each kind: a list of its fields in a fixed order. -/

set_option autoImplicit false

namespace TxEnvelope

open Rlp.Codec

def AccessEntry.fields : Rlp.Codec AccessEntry :=
  ((fixedBytes 20).both (fixedBytes 32).list).convert
    (fun (address, storageKeys) => { address, storageKeys })
    fun entry => (entry.address, entry.storageKeys)

def AccessList.codec : Rlp.Codec AccessList :=
  AccessEntry.fields.measured.list

def Signature.fields {α : Type} (scalar : Rlp.Codec α) : Rlp.Codec (Signature α) :=
  (scalar.both <| scalar.both scalar).convert
    (fun (v, r, s) => { v, r, s })
    fun signature => (signature.v, signature.r, signature.s)

def LegacyTx.fields : Rlp.Codec LegacyTx :=
  (uint64.both <| quantity.both <| uint64.both <| optionalAddress.both <| quantity.both <|
      bytes.both <| Signature.fields quantity).convert
    (fun (nonce, gasPrice, gasLimit, recipient, value, input, signature) =>
      { nonce, gasPrice, gasLimit, recipient, value, input, signature })
    fun tx => (tx.nonce, tx.gasPrice, tx.gasLimit, tx.recipient, tx.value, tx.input, tx.signature)

def AccessListTx.fields : Rlp.Codec AccessListTx :=
  (quantity.both <| uint64.both <| quantity.both <| uint64.both <| optionalAddress.both <|
      quantity.both <| bytes.both <| AccessList.codec.both <| Signature.fields quantity).convert
    (fun (chainId, nonce, gasPrice, gasLimit, recipient, value, input, accessList, signature) =>
      { chainId, nonce, gasPrice, gasLimit, recipient, value, input, accessList, signature })
    fun tx =>
      (tx.chainId, tx.nonce, tx.gasPrice, tx.gasLimit, tx.recipient, tx.value, tx.input,
        tx.accessList, tx.signature)

def DynamicFeeTx.fields : Rlp.Codec DynamicFeeTx :=
  (quantity.both <| uint64.both <| quantity.both <| quantity.both <| uint64.both <|
      optionalAddress.both <| quantity.both <| bytes.both <| AccessList.codec.both <|
      Signature.fields quantity).convert
    (fun (chainId, nonce, tipCap, feeCap, gasLimit, recipient, value, input, accessList,
        signature) =>
      { chainId, nonce, tipCap, feeCap, gasLimit, recipient, value, input, accessList, signature })
    fun tx =>
      (tx.chainId, tx.nonce, tx.tipCap, tx.feeCap, tx.gasLimit, tx.recipient, tx.value, tx.input,
        tx.accessList, tx.signature)

def BlobTx.fields : Rlp.Codec BlobTx :=
  (uint256.both <| uint64.both <| uint256.both <| uint256.both <| uint64.both <|
      optionalAddress.both <| uint256.both <| bytes.both <| AccessList.codec.both <| uint256.both <|
      (fixedBytes 32).list.both <| Signature.fields uint256).convert
    (fun (chainId, nonce, tipCap, feeCap, gasLimit, recipient, value, input, accessList, blobFeeCap,
        blobHashes, signature) =>
      { chainId, nonce, tipCap, feeCap, gasLimit, recipient, value, input, accessList, blobFeeCap,
        blobHashes, signature })
    fun tx =>
      (tx.chainId, tx.nonce, tx.tipCap, tx.feeCap, tx.gasLimit, tx.recipient, tx.value, tx.input,
        tx.accessList, tx.blobFeeCap, tx.blobHashes, tx.signature)

/-- A zero mint is written like an absent one, and reads back as absent. -/
def SystemTx.fields : Rlp.Codec SystemTx :=
  ((fixedBytes 32).both <| (fixedBytes 20).both <| optionalAddress.both <| optionalQuantity.both <|
      quantity.both <| uint64.both <| flag.both bytes).convert
    (fun (sourceHash, sender, recipient, mint, value, gasLimit, isSystem, input) =>
      { sourceHash, sender, recipient, mint, value, gasLimit, isSystem, input })
    fun tx =>
      (tx.sourceHash, tx.sender, tx.recipient, tx.mint, tx.value, tx.gasLimit, tx.isSystem,
        tx.input)

def Kind.fields : (kind : Kind) → Rlp.Codec kind.Content
  | .legacy => LegacyTx.fields
  | .accessList => AccessListTx.fields
  | .dynamicFee => DynamicFeeTx.fields
  | .blob => BlobTx.fields
  | .offchain => SystemTx.fields
  | .deposit => SystemTx.fields

def Kind.body (kind : Kind) : Rlp.Codec kind.Content :=
  kind.fields.enclosed

namespace Transaction

def encodeFields (tx : Transaction) : Bytes :=
  tx.kind.fields.encode tx.content

def fieldsLength (tx : Transaction) : Nat :=
  tx.kind.fields.length tx.content

def encodeBody (tx : Transaction) : Bytes :=
  tx.kind.body.encode tx.content

def bodyLength (tx : Transaction) : Nat :=
  tx.kind.body.length tx.content

def decodeFields (kind : Kind) (input : Bytes) : Except Rlp.Error (Transaction × Bytes) :=
  (kind.fields.map (ofContent kind)).read input

/-- Reads the body of a kind off the front. Signatures are not checked. -/
def decodeBody (kind : Kind) (input : Bytes) : Except Rlp.Error (Transaction × Bytes) :=
  (kind.body.map (ofContent kind)).read input

end Transaction

end TxEnvelope
