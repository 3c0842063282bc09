import TxEnvelope.Transaction.Basic

/-! The price per gas that a transaction pays under a base fee. -/

set_option autoImplicit false

namespace TxEnvelope

/-- The fee cap, lowered to tip plus base fee where that is less. -/
def cappedPrice (tipCap feeCap : Quantity) : Option Quantity → Quantity
  | none => feeCap
  | some baseFee => if tipCap + baseFee < feeCap then tipCap + baseFee else feeCap

/-- Kinds with a single price pay it under every base fee; system kinds pay nothing. -/
def Transaction.effectivePrice (tx : Transaction) (baseFee? : Option Quantity) : Quantity :=
  match tx with
  | .legacy tx => tx.gasPrice
  | .accessList tx => tx.gasPrice
  | .dynamicFee tx => cappedPrice tx.tipCap tx.feeCap baseFee?
  | .blob tx => cappedPrice (.ofUInt256 tx.tipCap) (.ofUInt256 tx.feeCap) baseFee?
  | .deposit _ | .annotatedDeposit _ _ | .offchain _ => 0

end TxEnvelope
