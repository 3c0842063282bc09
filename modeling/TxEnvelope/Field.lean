/-! The fields that a transaction record may carry, in the order they are written. -/

set_option autoImplicit false

namespace TxEnvelope

inductive Field where
  | type
  | chainId
  | nonce
  | recipient
  | gas
  | gasPrice
  | maxPriorityFeePerGas
  | maxFeePerGas
  | maxFeePerDataGas
  | value
  | input
  | data
  | accessList
  | blobVersionedHashes
  | v
  | r
  | s
  | sourceHash
  | sender
  | mint
  | isSystemTx
  | hash
  deriving DecidableEq, Repr

namespace Field

def all : List Field :=
  [.type, .chainId, .nonce, .recipient, .gas, .gasPrice, .maxPriorityFeePerGas, .maxFeePerGas,
    .maxFeePerDataGas, .value, .input, .data, .accessList, .blobVersionedHashes, .v, .r, .s,
    .sourceHash, .sender, .mint, .isSystemTx, .hash]

def name : Field → String
  | .type => "type"
  | .chainId => "chainId"
  | .nonce => "nonce"
  | .recipient => "to"
  | .gas => "gas"
  | .gasPrice => "gasPrice"
  | .maxPriorityFeePerGas => "maxPriorityFeePerGas"
  | .maxFeePerGas => "maxFeePerGas"
  | .maxFeePerDataGas => "maxFeePerDataGas"
  | .value => "value"
  | .input => "input"
  | .data => "data"
  | .accessList => "accessList"
  | .blobVersionedHashes => "blobVersionedHashes"
  | .v => "v"
  | .r => "r"
  | .s => "s"
  | .sourceHash => "sourceHash"
  | .sender => "from"
  | .mint => "mint"
  | .isSystemTx => "isSystemTx"
  | .hash => "hash"

theorem mem_all (field : Field) : field ∈ all := by
  cases field <;> decide

end Field

end TxEnvelope
