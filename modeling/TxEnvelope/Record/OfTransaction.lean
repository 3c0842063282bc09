import TxEnvelope.Record.Basic
import TxEnvelope.Transaction.Accessors

/-! The record of a transaction: exactly the fields of its kind, and its digest. -/

set_option autoImplicit false

namespace TxEnvelope.Record

def withSignature (record : Record) (signature : Signature Quantity) : Record :=
  { record with v := some signature.v, r := some signature.r, s := some signature.s }

def withCall (record : Record) (tx : SystemTx) : Record :=
  { record with
    recipient := tx.recipient
    gas := some tx.gasLimit
    value := some tx.value
    sourceHash := some tx.sourceHash
    sender := some tx.sender
    mint := tx.mint
    isSystemTx := some tx.isSystem }

def ofTransaction (tx : Transaction) (digest : Hash) : Record :=
  -- An absent recipient or mint stays absent; everything else of the kind is written, zero or not.
  let base : Record := { type := tx.kind.code, hash := some digest }
  match tx with
  | .legacy inner =>
    { base with
      nonce := some inner.nonce
      recipient := inner.recipient
      gas := some inner.gasLimit
      gasPrice := some inner.gasPrice
      value := some inner.value
      input := some inner.input }.withSignature inner.signature
  | .accessList inner =>
    { base with
      chainId := some inner.chainId
      nonce := some inner.nonce
      recipient := inner.recipient
      gas := some inner.gasLimit
      gasPrice := some inner.gasPrice
      value := some inner.value
      input := some inner.input
      accessList := some inner.accessList }.withSignature inner.signature
  | .dynamicFee inner =>
    { base with
      chainId := some inner.chainId
      nonce := some inner.nonce
      recipient := inner.recipient
      gas := some inner.gasLimit
      maxPriorityFeePerGas := some inner.tipCap
      maxFeePerGas := some inner.feeCap
      value := some inner.value
      input := some inner.input
      accessList := some inner.accessList }.withSignature inner.signature
  | .blob inner =>
    { base with
      chainId := some (.ofUInt256 inner.chainId)
      nonce := some inner.nonce
      recipient := inner.recipient
      gas := some inner.gasLimit
      maxPriorityFeePerGas := some (.ofUInt256 inner.tipCap)
      maxFeePerGas := some (.ofUInt256 inner.feeCap)
      maxFeePerDataGas := some (.ofUInt256 inner.blobFeeCap)
      value := some (.ofUInt256 inner.value)
      input := some inner.input
      accessList := some inner.accessList
      blobVersionedHashes := some inner.blobHashes }.withSignature
        (inner.signature.map .ofUInt256)
  | .deposit inner => { base.withCall inner with input := some inner.input }
  | .annotatedDeposit inner nonce =>
    { base.withCall inner with input := some inner.input, nonce := some nonce }
  | .offchain inner => { base.withCall inner with data := some inner.input }

end TxEnvelope.Record
