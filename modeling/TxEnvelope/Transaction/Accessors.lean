import TxEnvelope.Transaction.Basic

/-! One view of the fields of every kind.

A field that has no meaning for a kind reads as zero, empty or absent, so a
caller treats all kinds alike.
-/

set_option autoImplicit false

namespace TxEnvelope.Transaction

def gasPerBlob : UInt64 := 131072

/-- The chain identifier; a legacy transaction keeps it inside `v`. -/
def chainId : Transaction → Quantity
  | .legacy tx => Signature.chainIdOfV tx.signature.v
  | .accessList tx => tx.chainId
  | .dynamicFee tx => tx.chainId
  | .blob tx => .ofUInt256 tx.chainId
  | .deposit _ | .annotatedDeposit _ _ | .offchain _ => 0

def accessEntries : Transaction → AccessList
  | .accessList tx => tx.accessList
  | .dynamicFee tx => tx.accessList
  | .blob tx => tx.accessList
  | _ => []

def input : Transaction → Bytes
  | .legacy tx => tx.input
  | .accessList tx => tx.input
  | .dynamicFee tx => tx.input
  | .blob tx => tx.input
  | .deposit tx | .annotatedDeposit tx _ | .offchain tx => tx.input

def gasLimit : Transaction → UInt64
  | .legacy tx => tx.gasLimit
  | .accessList tx => tx.gasLimit
  | .dynamicFee tx => tx.gasLimit
  | .blob tx => tx.gasLimit
  | .deposit tx | .annotatedDeposit tx _ | .offchain tx => tx.gasLimit

def gasPrice : Transaction → Quantity
  | .legacy tx => tx.gasPrice
  | .accessList tx => tx.gasPrice
  | .dynamicFee tx => tx.feeCap
  | .blob tx => .ofUInt256 tx.feeCap
  | .deposit _ | .annotatedDeposit _ _ | .offchain _ => 0

/-- The most that is paid per gas above the base fee. -/
def tipCap : Transaction → Quantity
  | .legacy tx => tx.gasPrice
  | .accessList tx => tx.gasPrice
  | .dynamicFee tx => tx.tipCap
  | .blob tx => .ofUInt256 tx.tipCap
  | .deposit _ | .annotatedDeposit _ _ | .offchain _ => 0

/-- The most that is paid per gas in all. -/
def feeCap : Transaction → Quantity
  | .legacy tx => tx.gasPrice
  | .accessList tx => tx.gasPrice
  | .dynamicFee tx => tx.feeCap
  | .blob tx => .ofUInt256 tx.feeCap
  | .deposit _ | .annotatedDeposit _ _ | .offchain _ => 0

def blobFeeCap : Transaction → Quantity
  | .blob tx => .ofUInt256 tx.blobFeeCap
  | _ => 0

def value : Transaction → Quantity
  | .legacy tx => tx.value
  | .accessList tx => tx.value
  | .dynamicFee tx => tx.value
  | .blob tx => .ofUInt256 tx.value
  | .deposit tx | .annotatedDeposit tx _ | .offchain tx => tx.value

/-- The sender's sequence number; system kinds have none, whatever they are annotated with. -/
def nonce : Transaction → UInt64
  | .legacy tx => tx.nonce
  | .accessList tx => tx.nonce
  | .dynamicFee tx => tx.nonce
  | .blob tx => tx.nonce
  | .deposit _ | .annotatedDeposit _ _ | .offchain _ => 0

/-- The recipient; none where a contract is created. -/
def recipient : Transaction → Option Address
  | .legacy tx => tx.recipient
  | .accessList tx => tx.recipient
  | .dynamicFee tx => tx.recipient
  | .blob tx => tx.recipient
  | .deposit tx | .annotatedDeposit tx _ | .offchain tx => tx.recipient

def blobHashes : Transaction → List Hash
  | .blob tx => tx.blobHashes
  | _ => []

def blobGas (tx : Transaction) : UInt64 :=
  gasPerBlob * UInt64.ofNat tx.blobHashes.length

def systemFlag : Transaction → Bool
  | .deposit tx | .annotatedDeposit tx _ | .offchain tx => tx.isSystem
  | _ => false

/-- The signature triple, all zero for the kinds that have none. -/
def signature : Transaction → Signature Quantity
  | .legacy tx => tx.signature
  | .accessList tx => tx.signature
  | .dynamicFee tx => tx.signature
  | .blob tx => tx.signature.map .ofUInt256
  | .deposit _ | .annotatedDeposit _ _ | .offchain _ => .zero

end TxEnvelope.Transaction
