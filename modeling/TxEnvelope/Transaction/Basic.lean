import TxEnvelope.Kind
import TxEnvelope.Signature

/-! The transaction kinds as data.

Quantities of the signed kinds have any size, except that every number of a
blob transaction is 256 bits wide. Deposits and offchain calls share one shape:
they are injected by the protocol, name their sender and carry no signature. A
deposit may be annotated with a nonce that is no part of its canonical form.
-/

set_option autoImplicit false

namespace TxEnvelope

/-- An account and the storage keys of it that a transaction announces. -/
@[ext] structure AccessEntry where
  address : Address
  storageKeys : List Hash
  deriving DecidableEq

abbrev AccessList := List AccessEntry

@[ext] structure LegacyTx where
  nonce : UInt64
  gasPrice : Quantity
  gasLimit : UInt64
  recipient : Option Address
  value : Quantity
  input : Bytes
  signature : Signature Quantity
  deriving DecidableEq

@[ext] structure AccessListTx where
  chainId : Quantity
  nonce : UInt64
  gasPrice : Quantity
  gasLimit : UInt64
  recipient : Option Address
  value : Quantity
  input : Bytes
  accessList : AccessList
  signature : Signature Quantity
  deriving DecidableEq

@[ext] structure DynamicFeeTx where
  chainId : Quantity
  nonce : UInt64
  tipCap : Quantity
  feeCap : Quantity
  gasLimit : UInt64
  recipient : Option Address
  value : Quantity
  input : Bytes
  accessList : AccessList
  signature : Signature Quantity
  deriving DecidableEq

@[ext] structure BlobTx where
  chainId : UInt256
  nonce : UInt64
  tipCap : UInt256
  feeCap : UInt256
  gasLimit : UInt64
  recipient : Option Address
  value : UInt256
  input : Bytes
  accessList : AccessList
  blobFeeCap : UInt256
  blobHashes : List Hash
  signature : Signature UInt256
  deriving DecidableEq

/-- A call injected by the protocol. -/
@[ext] structure SystemTx where
  sourceHash : Hash
  sender : Address
  recipient : Option Address
  mint : Option Quantity
  value : Quantity
  gasLimit : UInt64
  isSystem : Bool
  input : Bytes
  deriving DecidableEq

/-- The same call, a zero mint counting as none. -/
def SystemTx.withoutZeroMint (tx : SystemTx) : SystemTx :=
  { tx with mint := if tx.mint = some 0 then none else tx.mint }

inductive Transaction where
  | legacy (tx : LegacyTx)
  | accessList (tx : AccessListTx)
  | dynamicFee (tx : DynamicFeeTx)
  | blob (tx : BlobTx)
  | deposit (tx : SystemTx)
  | annotatedDeposit (tx : SystemTx) (nonce : UInt64)
  | offchain (tx : SystemTx)
  deriving DecidableEq

abbrev Kind.Content : Kind → Type
  | .legacy => LegacyTx
  | .accessList => AccessListTx
  | .dynamicFee => DynamicFeeTx
  | .blob => BlobTx
  | .offchain => SystemTx
  | .deposit => SystemTx

namespace Transaction

def kind : Transaction → Kind
  | .legacy _ => .legacy
  | .accessList _ => .accessList
  | .dynamicFee _ => .dynamicFee
  | .blob _ => .blob
  | .deposit _ => .deposit
  | .annotatedDeposit _ _ => .deposit
  | .offchain _ => .offchain

/-- What the canonical form says about a transaction; an annotation is left out. -/
def content : (tx : Transaction) → tx.kind.Content
  | .legacy tx => tx
  | .accessList tx => tx
  | .dynamicFee tx => tx
  | .blob tx => tx
  | .deposit tx => tx
  | .annotatedDeposit tx _ => tx
  | .offchain tx => tx

def ofContent : (kind : Kind) → kind.Content → Transaction
  | .legacy, tx => .legacy tx
  | .accessList, tx => .accessList tx
  | .dynamicFee, tx => .dynamicFee tx
  | .blob, tx => .blob tx
  | .offchain, tx => .offchain tx
  | .deposit, tx => .deposit tx

def annotation? : Transaction → Option UInt64
  | .annotatedDeposit _ nonce => some nonce
  | _ => none

/-- Annotates a deposit with a nonce in place of any it has; other kinds have no annotation. -/
def annotate? (nonce : UInt64) : Transaction → Option Transaction
  | .deposit tx => some (.annotatedDeposit tx nonce)
  | .annotatedDeposit tx _ => some (.annotatedDeposit tx nonce)
  | _ => none

def withoutAnnotation : Transaction → Transaction
  | .annotatedDeposit tx _ => .deposit tx
  | tx => tx

def legacy? : Transaction → Option LegacyTx
  | .legacy tx => some tx
  | _ => none

def accessList? : Transaction → Option AccessListTx
  | .accessList tx => some tx
  | _ => none

def dynamicFee? : Transaction → Option DynamicFeeTx
  | .dynamicFee tx => some tx
  | _ => none

def blob? : Transaction → Option BlobTx
  | .blob tx => some tx
  | _ => none

def deposit? : Transaction → Option SystemTx
  | .deposit tx => some tx
  | .annotatedDeposit tx _ => some tx
  | _ => none

def annotatedDeposit? : Transaction → Option (SystemTx × UInt64)
  | .annotatedDeposit tx nonce => some (tx, nonce)
  | _ => none

def offchain? : Transaction → Option SystemTx
  | .offchain tx => some tx
  | _ => none

@[simp] theorem kind_ofContent (kind : Kind) (content : kind.Content) :
    (ofContent kind content).kind = kind := by
  cases kind <;> rfl

end Transaction

end TxEnvelope
