import Mathlib.Algebra.GroupWithZero.Nat
import TxEnvelope.Proofs.Reader
import TxEnvelope.Signature

/-! Which quantities fit into 64 and 256 bits.

Narrowing a quantity gives the word of the same value, and refuses exactly the quantities
that have none. Of several quantities that are narrowed one after the other, the first
that is too wide is the one that is named.
-/

set_option autoImplicit false

namespace TxEnvelope

namespace Quantity

theorem ofUInt64_injective {m n : UInt64} (same : ofUInt64 m = ofUInt64 n) : m = n :=
  UInt64.toNat_inj.1 (congrArg toNat same)

theorem ofUInt256_injective {m n : UInt256} (same : ofUInt256 m = ofUInt256 n) : m = n :=
  BitVec.eq_of_toNat_eq (congrArg toNat same)

theorem toUInt64?_eq_some_iff {q : Quantity} {n : UInt64} :
    q.toUInt64? = some n ↔ q = .ofUInt64 n := by
  unfold toUInt64?
  constructor
  · intro h
    split at h
    · rw [← Option.some.inj h]
      rfl
    · cases h
  · rintro rfl
    rw [dif_pos (show (ofUInt64 n).toNat < UInt64.size from n.toNat_lt_size)]
    exact congrArg some (UInt64.toNat_inj.1 rfl)

theorem toUInt64?_eq_none_iff {q : Quantity} : q.toUInt64? = none ↔ 2 ^ 64 ≤ q.toNat := by
  simp [toUInt64?, UInt64.size]

theorem exists_toUInt64?_of_lt {q : Quantity} (small : q.toNat < 2 ^ 64) :
    ∃ n, q.toUInt64? = some n :=
  ⟨_, dif_pos small⟩

theorem toUInt256?_eq_some_iff {q : Quantity} {n : UInt256} :
    q.toUInt256? = some n ↔ q = .ofUInt256 n := by
  constructor
  · intro h
    exact (ofUInt256_of_toUInt256? h).symm
  · rintro rfl
    exact toUInt256?_ofUInt256 n

theorem toUInt256?_eq_none_iff {q : Quantity} : q.toUInt256? = none ↔ 2 ^ 256 ≤ q.toNat := by
  simp [toUInt256?]

theorem exists_toUInt256?_of_lt {q : Quantity} (small : q.toNat < 2 ^ 256) :
    ∃ n, q.toUInt256? = some n :=
  ⟨_, dif_pos small⟩

theorem narrow_eq_ok_iff {q : Quantity} {field : String} {n : UInt256} :
    q.narrow field = .ok n ↔ q = .ofUInt256 n := by
  rw [← toUInt256?_eq_some_iff, narrow]
  split <;> simp_all

theorem narrow_eq_error_iff {q : Quantity} {field : String} {e : Error} :
    q.narrow field = .error e ↔ 2 ^ 256 ≤ q.toNat ∧ e = .overflow field := by
  rw [← toUInt256?_eq_none_iff, narrow]
  cases q.toUInt256? <;> simp [eq_comm]

end Quantity

def firstWide? : List (String × Quantity) → Option String
  | [] => none
  | (name, q) :: named => if 2 ^ 256 ≤ q.toNat then some name else firstWide? named

/-- A quantity that is narrowed before others is named before them. -/
theorem bind_narrow_eq_error_iff {α : Type} {name : String} {q : Quantity}
    {named : List (String × Quantity)} {others : UInt256 → Except Error α} {e : Error}
    (later : ∀ n, others n = .error e ↔ ∃ wide, firstWide? named = some wide ∧ e = .overflow wide) :
    (q.narrow name >>= others) = .error e ↔
      ∃ wide, firstWide? ((name, q) :: named) = some wide ∧ e = .overflow wide := by
  rw [firstWide?, bind_eq_error_iff]
  cases narrowed : q.narrow name with
  | error e' =>
    obtain ⟨wide, rfl⟩ := Quantity.narrow_eq_error_iff.1 narrowed
    rw [if_pos wide]
    simp [eq_comm]
  | ok n =>
    obtain rfl := Quantity.narrow_eq_ok_iff.1 narrowed
    have fits : ¬ 2 ^ 256 ≤ (Quantity.ofUInt256 n).toNat := Nat.not_le_of_lt n.isLt
    rw [if_neg fits]
    simp [later]

namespace Signature

def named (signature : Signature Quantity) : List (String × Quantity) :=
  [("v", signature.v), ("r", signature.r), ("s", signature.s)]

theorem narrow_eq_bind (signature : Signature Quantity) :
    signature.narrow = (signature.v.narrow "v" >>= fun v => signature.r.narrow "r" >>= fun r =>
      signature.s.narrow "s" >>= fun s => .ok ⟨v, r, s⟩) := by
  unfold narrow
  cases signature.v.narrow "v" with
  | error e => rfl
  | ok v =>
    cases signature.r.narrow "r" with
    | error e => rfl
    | ok r => cases signature.s.narrow "s" <;> rfl

theorem narrow_eq_ok_iff {wide : Signature Quantity} {signature : Signature UInt256} :
    wide.narrow = .ok signature ↔ wide = signature.map .ofUInt256 := by
  simp only [narrow_eq_bind, bind_eq_ok_iff, Quantity.narrow_eq_ok_iff, Signature.ext_iff]
  constructor
  · rintro ⟨v, hv, r, hr, s, hs, made⟩
    cases made
    exact ⟨hv, hr, hs⟩
  · rintro ⟨hv, hr, hs⟩
    exact ⟨_, hv, _, hr, _, hs, rfl⟩

theorem narrow_eq_error_iff {signature : Signature Quantity} {e : Error} :
    signature.narrow = .error e ↔
      ∃ wide, firstWide? signature.named = some wide ∧ e = .overflow wide := by
  rw [narrow_eq_bind]
  refine bind_narrow_eq_error_iff fun v => bind_narrow_eq_error_iff fun r =>
    bind_narrow_eq_error_iff fun s => ?_
  simp [firstWide?]

end Signature

end TxEnvelope
