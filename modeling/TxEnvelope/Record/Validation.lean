import TxEnvelope.Record.Basic

/-! Turning a record into a transaction of its kind.

Every rule of a kind is checked in a fixed order and the first violation is
reported. A signed kind requires its fields and a sane signature, unless the
triple is all zero. A system kind first refuses the fields that only signed
kinds have.
-/

set_option autoImplicit false

namespace TxEnvelope

/-- An all-zero triple marks an unsigned transaction and needs no check. -/
def Signature.validate (rule : SignatureRule) (signature : Signature Quantity) :
    Except Error Unit :=
  if signature.isUnsigned then .ok () else (signature.check rule).mapError .invalidSignature

namespace Record

variable (record : Record)

def require (field : Field) : Except Error field.Value :=
  match record.get field with
  | none => .error (.missingField field)
  | some value => .ok value

def forbid (field : Field) : Except Error Unit :=
  match record.get field with
  | none => .ok ()
  | some _ => .error (.unexpectedField field)

/-- A quantity that must not be there unless it is zero. -/
def forbidNonzero (field : Field) (value : Option Quantity) : Except Error Unit :=
  match value with
  | none => .ok ()
  | some q => if q = 0 then .ok () else .error (.unexpectedField field)

def narrow (field : Field) (q : Quantity) : Except Error UInt256 :=
  q.narrow field.name

def requireSignature : Except Error (Signature Quantity) := do
  let v ← record.require .v
  let r ← record.require .r
  let s ← record.require .s
  return { v, r, s }

def toLegacy : Except Error LegacyTx := do
  let nonce ← record.require .nonce
  let gasLimit ← record.require .gas
  let gasPrice ← record.require .gasPrice
  let value ← record.require .value
  let input ← record.require .input
  let signature ← record.requireSignature
  signature.validate .legacy
  return { nonce, gasPrice, gasLimit, recipient := record.recipient, value, input, signature }

def toAccessList : Except Error AccessListTx := do
  let chainId ← record.require .chainId
  let nonce ← record.require .nonce
  let gasLimit ← record.require .gas
  let gasPrice ← record.require .gasPrice
  let value ← record.require .value
  let input ← record.require .input
  let signature ← record.requireSignature
  signature.validate .typed
  return {
    chainId, nonce, gasPrice, gasLimit, recipient := record.recipient, value, input
    accessList := record.accessList.getD [], signature }

def toDynamicFee : Except Error DynamicFeeTx := do
  let chainId ← record.require .chainId
  let nonce ← record.require .nonce
  let gasLimit ← record.require .gas
  let tipCap ← record.require .maxPriorityFeePerGas
  let feeCap ← record.require .maxFeePerGas
  let value ← record.require .value
  let input ← record.require .input
  let signature ← record.requireSignature
  signature.validate .typed
  return {
    chainId, nonce, tipCap, feeCap, gasLimit, recipient := record.recipient, value, input
    accessList := record.accessList.getD [], signature }

/-- Presence and width are checked field by field, but the triple has to be complete before its
values are narrowed. -/
def toBlob : Except Error BlobTx := do
  let chainId ← narrow .chainId (← record.require .chainId)
  let nonce ← record.require .nonce
  let gasLimit ← record.require .gas
  let tipCap ← narrow .maxPriorityFeePerGas (← record.require .maxPriorityFeePerGas)
  let feeCap ← narrow .maxFeePerGas (← record.require .maxFeePerGas)
  let blobFeeCap ← narrow .maxFeePerDataGas (← record.require .maxFeePerDataGas)
  let value ← narrow .value (← record.require .value)
  let input ← record.require .input
  let blobHashes ← record.require .blobVersionedHashes
  -- All three values have to be there before any of them is too wide, and all three have to
  -- fit before their ranges are checked.
  let wide ← record.requireSignature
  let signature ← wide.narrow
  wide.validate .typed
  return {
    chainId, nonce, tipCap, feeCap, gasLimit, recipient := record.recipient, value, input
    accessList := record.accessList.getD [], blobFeeCap, blobHashes, signature }

/-- The call of a system kind, whose call data is in the given field. -/
def toSystem (input : Option Bytes) (field : Field) : Except Error SystemTx := do
  let gasLimit ← record.require .gas
  let value ← record.require .value
  let input ← match input with
    | none => .error (.missingField field)
    | some input => .ok input
  let sender ← record.require .sender
  let sourceHash ← record.require .sourceHash
  return {
    sourceHash, sender, recipient := record.recipient, mint := record.mint, value, gasLimit
    isSystem := record.isSystemTx.getD false, input }

def toDeposit : Except Error Transaction := do
  record.forbid .accessList
  record.forbid .maxFeePerGas
  record.forbid .maxPriorityFeePerGas
  forbidNonzero .gasPrice record.gasPrice
  forbidNonzero .v record.v
  forbidNonzero .r record.r
  forbidNonzero .s record.s
  let tx ← record.toSystem record.input .input
  match record.nonce with
  | none => return .deposit tx
  | some nonce => return .annotatedDeposit tx nonce

def toOffchain : Except Error SystemTx := do
  record.forbid .accessList
  record.forbid .v
  record.forbid .r
  record.forbid .s
  record.forbid .maxFeePerGas
  record.forbid .maxPriorityFeePerGas
  record.forbid .gasPrice
  -- A nonce of zero is as good as none.
  match record.nonce with
  | none | some 0 => .ok ()
  | some _ => .error (.unexpectedField .nonce)
  record.toSystem record.data .data

def toTransaction : Except Error Transaction :=
  match Kind.ofCode? record.type with
  | none => .error (.unsupportedType record.type)
  | some .legacy => record.toLegacy.map .legacy
  | some .accessList => record.toAccessList.map .accessList
  | some .dynamicFee => record.toDynamicFee.map .dynamicFee
  | some .blob => record.toBlob.map .blob
  | some .offchain => record.toOffchain.map .offchain
  | some .deposit => record.toDeposit

end Record

end TxEnvelope
