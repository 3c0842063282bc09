import TxEnvelope.Transaction.Basic

/-! Replacing the signature of a transaction.

The new signature makes a new transaction out of the old one, or is written into
it. In the second case a refusal leaves whatever has been written before it.
-/

set_option autoImplicit false

namespace TxEnvelope

/-- The transaction with another signature. A legacy transaction keeps its chain identifier in
`v`, so the given one is not used; a blob transaction has to narrow all four values; a system
kind has no signature and stays as it is. -/
def Transaction.sign (tx : Transaction) (chainId : Quantity) (signature : Signature Quantity) :
    Except Error Transaction :=
  match tx with
  | .legacy tx => .ok (.legacy { tx with signature })
  | .accessList tx => .ok (.accessList { tx with chainId, signature })
  | .dynamicFee tx => .ok (.dynamicFee { tx with chainId, signature })
  | .blob tx =>
    match chainId.narrow "chainId" with
    | .error e => .error e
    | .ok chainId =>
      match signature.narrow with
      | .error e => .error e
      | .ok signature => .ok (.blob { tx with chainId, signature })
  | .deposit _ | .annotatedDeposit _ _ | .offchain _ => .ok tx

section InPlace

variable (chainId : Quantity) (signature : Signature Quantity)

def LegacyTx.setSignature : EStateM Error LegacyTx Unit :=
  modify ({ · with signature })

def AccessListTx.setSignature : EStateM Error AccessListTx Unit := do
  modify ({ · with chainId })
  modify ({ · with signature })

def DynamicFeeTx.setSignature : EStateM Error DynamicFeeTx Unit := do
  modify ({ · with chainId })
  modify ({ · with signature })

/-- All four values are narrowed before the first one is written. -/
def BlobTx.setSignature : EStateM Error BlobTx Unit := do
  let chainId ← MonadExcept.ofExcept (chainId.narrow "chainId")
  let signature ← MonadExcept.ofExcept signature.narrow
  modify ({ · with chainId })
  modify ({ · with signature })

namespace Transaction

/-- Runs an update on the content of a transaction, and puts what it leaves back into its kind,
even if it was refused halfway. -/
def inside {α : Type} (wrap : α → Transaction) (update : EStateM Error α Unit) (content : α) :
    EStateM.Result Error Transaction Unit :=
  match update content with
  | .ok done content => .ok done (wrap content)
  | .error e content => .error e (wrap content)

/-- Replaces the signature in place. The outcome holds the transaction as it is then. -/
def setSignature : EStateM Error Transaction Unit
  | .legacy tx => inside .legacy (LegacyTx.setSignature signature) tx
  | .accessList tx => inside .accessList (AccessListTx.setSignature chainId signature) tx
  | .dynamicFee tx => inside .dynamicFee (DynamicFeeTx.setSignature chainId signature) tx
  | .blob tx => inside .blob (BlobTx.setSignature chainId signature) tx
  | .deposit tx => .ok () (.deposit tx)
  | .annotatedDeposit tx nonce => .ok () (.annotatedDeposit tx nonce)
  | .offchain tx => .ok () (.offchain tx)

end Transaction

end InPlace

end TxEnvelope
