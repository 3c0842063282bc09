import Mathlib.Algebra.GroupWithZero.Nat
import TxEnvelope.Transaction.Accessors
import TxEnvelope.Transaction.Price

/-! One law of prices for all kinds.

A kind with a single price counts it as tip cap and fee cap, and a system kind counts
zero as both, so all of them pay what the kinds with two caps compute: the tip cap on top
of the base fee, but no more than the fee cap. Nothing wraps, since prices have any size.
-/

set_option autoImplicit false

namespace TxEnvelope

@[simp] theorem Quantity.toNat_min (a b : Quantity) : (min a b).toNat = min a.toNat b.toNat := by
  show (if a ≤ b then a else b).toNat = _
  by_cases le : a ≤ b
  · rw [if_pos le, Nat.min_eq_left le]
  · rw [if_neg le, Nat.min_eq_right (Nat.le_of_not_le le)]

theorem cappedPrice_some (tipCap feeCap baseFee : Quantity) :
    cappedPrice tipCap feeCap (some baseFee) = min feeCap (tipCap + baseFee) := by
  rw [Quantity.ext_iff, Quantity.toNat_min, cappedPrice]
  split
  · next lower => exact (Nat.min_eq_right (Nat.le_of_lt lower)).symm
  · next higher => exact (Nat.min_eq_left (Nat.le_of_not_lt higher)).symm

theorem Quantity.min_add_self (price baseFee : Quantity) : min price (price + baseFee) = price := by
  rw [Quantity.ext_iff, toNat_min, toNat_add]
  exact Nat.min_eq_left (Nat.le_add_right _ _)

namespace Transaction

variable (tx : Transaction)

theorem effectivePrice_some (baseFee : Quantity) :
    tx.effectivePrice (some baseFee) = min tx.feeCap (tx.tipCap + baseFee) := by
  cases tx with
  | legacy tx | accessList tx => exact (Quantity.min_add_self tx.gasPrice baseFee).symm
  | dynamicFee tx => exact cappedPrice_some tx.tipCap tx.feeCap baseFee
  | blob tx => exact cappedPrice_some (.ofUInt256 tx.tipCap) (.ofUInt256 tx.feeCap) baseFee
  | deposit tx | annotatedDeposit tx nonce | offchain tx =>
    exact (Quantity.min_add_self 0 baseFee).symm

theorem effectivePrice_none : tx.effectivePrice none = tx.feeCap := by
  cases tx <;> rfl

theorem feeCap_eq_gasPrice : tx.feeCap = tx.gasPrice := by
  cases tx <;> rfl

/-- Under a base fee every transaction pays the smaller of its fee cap and its tip cap plus the
base fee, as exact numbers, and without one its fee cap, which is also its gas price. So the price
rises with the base fee, is at most the fee cap and at most tip plus base fee, and is at least
the smaller of fee cap and base fee. -/
theorem one_price_law :
    (∀ baseFee : Quantity, tx.effectivePrice (some baseFee) =
      ⟨min tx.feeCap.toNat (tx.tipCap.toNat + baseFee.toNat)⟩) ∧
    tx.effectivePrice none = tx.feeCap ∧ tx.feeCap = tx.gasPrice ∧
    (∀ low high : Quantity, low ≤ high →
      tx.effectivePrice (some low) ≤ tx.effectivePrice (some high)) ∧
    ∀ baseFee : Quantity, tx.effectivePrice (some baseFee) ≤ tx.feeCap ∧
      tx.effectivePrice (some baseFee) ≤ tx.tipCap + baseFee ∧
      min tx.feeCap baseFee ≤ tx.effectivePrice (some baseFee) := by
  refine ⟨fun baseFee => ?_, tx.effectivePrice_none, tx.feeCap_eq_gasPrice,
    fun low high le => ?_, fun baseFee => ?_⟩
  · rw [effectivePrice_some, Quantity.ext_iff, Quantity.toNat_min, Quantity.toNat_add]
  · have more : low.toNat ≤ high.toNat := le
    simp only [effectivePrice_some, Quantity.le_iff, Quantity.toNat_min, Quantity.toNat_add]
    omega
  · simp only [effectivePrice_some, Quantity.le_iff, Quantity.toNat_min, Quantity.toNat_add]
    omega

/-- A blob transaction whose tip cap is the largest of its width, under a base fee with which the sum
would wrap and under one that is wider than that, and an access list transaction. -/
theorem one_price_law_wide :
    let tx := blob ⟨1, 0, .allOnes 256, 30, 21000, none, 4, [], [], 7, [], ⟨0, 5, 6⟩⟩
    let single := accessList ⟨1, 0, 9, 21000, none, 0, [], [], .zero⟩
    (1 : Quantity) ≤ ⟨2 ^ 256⟩ ∧ tx.effectivePrice (some 1) ≤ tx.effectivePrice (some ⟨2 ^ 256⟩) ∧
      tx.effectivePrice (some 1) = 30 ∧ tx.effectivePrice none = 30 ∧
      (3 : Quantity) ≤ 12 ∧ single.effectivePrice (some 3) ≤ single.effectivePrice (some 12) := by
  intro tx single
  obtain ⟨price, absent, -, rising, -⟩ := one_price_law tx
  have more : (1 : Quantity) ≤ ⟨2 ^ 256⟩ := by decide
  exact ⟨more, rising _ _ more, (price 1).trans (by decide), absent, by decide,
    (one_price_law single).2.2.2.1 3 12 (by decide)⟩

end Transaction

end TxEnvelope
