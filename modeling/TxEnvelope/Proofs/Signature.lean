import Mathlib.Logic.ExistsUnique
import TxEnvelope.Proofs.Envelope
import TxEnvelope.Proofs.ValueReading

/-! What the values of a signature may be, and the chain identifier in a legacy `v`.

The check of a triple accepts exactly the values that its rule allows. It names the
first bad one in the order `v`, `r`, `s`. A legacy `v` of 35 or more is a chain
identifier and a parity in one number, and gives both back, so every accepted legacy
transaction that is signed either names its chain or says that it has none.
-/

set_option autoImplicit false

namespace TxEnvelope

theorem Quantity.sub?_of_le {a b : Quantity} (le : b ≤ a) :
    a.sub? b = some ⟨a.toNat - b.toNat⟩ :=
  if_pos le

theorem Quantity.sub?_of_lt {a b : Quantity} (lt : a < b) : a.sub? b = none :=
  if_neg (Nat.not_le_of_lt lt)

def SignatureRule.Allows (v : Quantity) : SignatureRule → Prop
  | .legacy => v = 27 ∨ v = 28 ∨ 35 ≤ v
  | .typed => v = 0 ∨ v = 1

instance (v : Quantity) (rule : SignatureRule) : Decidable (rule.Allows v) :=
  match rule with
  | .legacy => inferInstanceAs (Decidable (v = 27 ∨ v = 28 ∨ 35 ≤ v))
  | .typed => inferInstanceAs (Decidable (v = 0 ∨ v = 1))

/-- What is said of a `v` that a rule does not allow: that its parity is wrong, or, where only the
parity may be there, that something else is. -/
def SignatureRule.refusal (v : Quantity) : SignatureRule → SignatureError
  | .legacy => .invalidV
  | .typed => if v = 27 ∨ v = 28 then .invalidV else .unexpectedProtection

namespace Signature

/-- A nonzero number below the order of the secp256k1 group, which is a little less than 2^256. -/
def IsScalar (q : Quantity) : Prop :=
  0 < q.toNat ∧ q.toNat < 2 ^ 256 - 432420386565659656852420866394968145599

instance (q : Quantity) : Decidable (IsScalar q) :=
  inferInstanceAs (Decidable (_ ∧ _))

theorem inScalarRange_iff {q : Quantity} : inScalarRange q = true ↔ IsScalar q := by
  have order : groupOrder = 2 ^ 256 - 432420386565659656852420866394968145599 := by decide
  unfold inScalarRange
  split
  · next large =>
    have wide : 2 ^ 256 ≤ q.toNat := Quantity.toUInt256?_eq_none_iff.1 large
    refine iff_of_false Bool.false_ne_true fun scalar => ?_
    have bounded := scalar.2
    omega
  · next n narrow =>
    obtain rfl := Quantity.toUInt256?_eq_some_iff.1 narrow
    have nonzero : n ≠ 0 ↔ 0 < n.toNat := by
      rw [Nat.pos_iff_ne_zero, Ne, ← BitVec.toNat_inj]
      rfl
    rw [Bool.and_eq_true, decide_eq_true_iff, decide_eq_true_iff, nonzero, order]
    rfl

theorem not_isProtected_iff {v : Quantity} :
    ¬ isProtected v = true ↔ v = 0 ∨ v = 1 ∨ v = 27 ∨ v = 28 := by
  constructor
  · intro bare
    unfold isProtected at bare
    split at bare
    · exact absurd rfl bare
    · next code narrow =>
      obtain rfl := Quantity.toUInt64?_eq_some_iff.1 narrow
      split at bare
      · have listed : code = 0 ∨ code = 1 ∨ code = 27 ∨ code = 28 := by
          simpa [or_iff_not_imp_left] using bare
        rcases listed with rfl | rfl | rfl | rfl <;> decide
      · exact absurd rfl bare
  · rintro (rfl | rfl | rfl | rfl) <;> decide

theorem isProtected_iff {v : Quantity} :
    isProtected v = true ↔ v ≠ 0 ∧ v ≠ 1 ∧ v ≠ 27 ∧ v ≠ 28 := by
  rw [← Decidable.not_not (p := isProtected v = true), not_isProtected_iff]
  simp only [not_or]

theorem isProtected_of_le {v : Quantity} (le : 35 ≤ v) : isProtected v = true := by
  have large : 35 ≤ v.toNat := le
  refine isProtected_iff.2 ⟨?_, ?_, ?_, ?_⟩ <;>
    (rintro rfl; exact absurd large (by decide))

theorem parity?_legacy_iff {v : Quantity} :
    parity? .legacy v ∈ [some 0, some 1] ↔ SignatureRule.legacy.Allows v := by
  by_cases guarded : isProtected v = true
  · obtain ⟨-, -, other, another⟩ := isProtected_iff.1 guarded
    have room : SignatureRule.legacy.Allows v ↔ 35 ≤ v := by
      simp [SignatureRule.Allows, other, another]
    rw [room, parity?, if_pos guarded]
    by_cases le : 35 ≤ v
    · refine iff_of_true ?_ le
      rw [Quantity.sub?_of_le le, Option.map_some]
      cases Nat.testBit (v.toNat - 35) 0 <;> decide
    · refine iff_of_false ?_ le
      rw [Quantity.sub?_of_lt (Nat.lt_of_not_le le)]
      decide
  · rcases not_isProtected_iff.1 guarded with rfl | rfl | rfl | rfl <;> decide

theorem parity?_typed_iff {v : Quantity} (bare : ¬ isProtected v = true) :
    parity? .typed v ∈ [some 0, some 1] ↔ SignatureRule.typed.Allows v := by
  rcases not_isProtected_iff.1 bare with rfl | rfl | rfl | rfl <;> decide

section Check

variable {rule : SignatureRule} {v : Quantity}

theorem check_of_allows (allowed : rule.Allows v) (r s : Quantity) :
    check rule ⟨v, r, s⟩ =
      if IsScalar r then if IsScalar s then .ok () else .error .invalidS
      else .error .invalidR := by
  have open_v : ¬ (isProtected v && rule == .typed) = true := by
    cases rule with
    | legacy => simp
    | typed => rcases allowed with rfl | rfl <;> decide
  have parity : parity? rule v ∈ [some 0, some 1] := by
    cases rule with
    | legacy => exact parity?_legacy_iff.2 allowed
    | typed => exact (parity?_typed_iff (by simpa using open_v)).2 allowed
  rw [check, if_neg open_v, if_neg (not_not_intro parity)]
  simp only [Bool.not_eq_true', ← Bool.not_eq_true, inScalarRange_iff, ite_not]

theorem check_of_not_allows (bad : ¬ rule.Allows v) (r s : Quantity) :
    check rule ⟨v, r, s⟩ = .error (rule.refusal v) := by
  cases rule with
  | legacy =>
    rw [check, if_neg (by simp), if_pos (mt parity?_legacy_iff.1 bad)]
    rfl
  | typed =>
    by_cases guarded : isProtected v = true
    · obtain ⟨-, -, other, another⟩ := isProtected_iff.1 guarded
      rw [check, if_pos (by simpa using guarded), SignatureRule.refusal,
        if_neg (by simp [other, another])]
    · have shifted : v = 27 ∨ v = 28 :=
        (or_assoc.2 (not_isProtected_iff.1 guarded)).resolve_left bad
      rw [check, if_neg (by simpa using guarded), if_pos (mt (parity?_typed_iff guarded).1 bad),
        SignatureRule.refusal, if_pos shifted]

theorem check_eq_ok_iff {r s : Quantity} :
    check rule ⟨v, r, s⟩ = .ok () ↔ rule.Allows v ∧ IsScalar r ∧ IsScalar s := by
  by_cases allowed : rule.Allows v
  · rw [check_of_allows allowed]
    split
    · split <;> simp_all
    · simp_all
  · simp [check_of_not_allows allowed, allowed]

theorem check_eq_error_iff {r s : Quantity} {e : SignatureError} :
    check rule ⟨v, r, s⟩ = .error e ↔
      ¬ rule.Allows v ∧ e = rule.refusal v ∨
        rule.Allows v ∧ (¬ IsScalar r ∧ e = .invalidR ∨
          IsScalar r ∧ ¬ IsScalar s ∧ e = .invalidS) := by
  by_cases allowed : rule.Allows v
  · rw [check_of_allows allowed]
    split
    · split <;> simp_all [eq_comm]
    · simp_all [eq_comm]
  · simp [check_of_not_allows allowed, allowed, eq_comm]

end Check

/-- A triple passes exactly if its `v` is allowed by its rule and `r` and `s` are scalars. If not,
a bad `v` is reported before a bad `r`, and that before a bad `s`. A typed `v` that has 27 added to
it is said to be wrong, any other bad one to be protected; a bad legacy `v` is always wrong. -/
theorem signature_check_exact (v r s : Quantity) :
    (check .typed ⟨v, r, s⟩ = .ok () ↔ (v = 0 ∨ v = 1) ∧ IsScalar r ∧ IsScalar s) ∧
    (check .legacy ⟨v, r, s⟩ = .ok () ↔
      (v = 27 ∨ v = 28 ∨ 35 ≤ v) ∧ IsScalar r ∧ IsScalar s) ∧
    (∀ e, check .typed ⟨v, r, s⟩ = .error e ↔
      (v = 27 ∨ v = 28) ∧ e = .invalidV ∨
      ¬ (v = 0 ∨ v = 1 ∨ v = 27 ∨ v = 28) ∧ e = .unexpectedProtection ∨
      (v = 0 ∨ v = 1) ∧ (¬ IsScalar r ∧ e = .invalidR ∨
        IsScalar r ∧ ¬ IsScalar s ∧ e = .invalidS)) ∧
    ∀ e, check .legacy ⟨v, r, s⟩ = .error e ↔
      ¬ (v = 27 ∨ v = 28 ∨ 35 ≤ v) ∧ e = .invalidV ∨
      (v = 27 ∨ v = 28 ∨ 35 ≤ v) ∧ (¬ IsScalar r ∧ e = .invalidR ∨
        IsScalar r ∧ ¬ IsScalar s ∧ e = .invalidS) := by
  refine ⟨check_eq_ok_iff, check_eq_ok_iff, fun e => ?_, fun e => check_eq_error_iff⟩
  -- The typed rule has two words for a bad value, and 27 and 28 are where they part.
  have refusal : ¬ (v = 0 ∨ v = 1) ∧ e = SignatureRule.typed.refusal v ↔
      (v = 27 ∨ v = 28) ∧ e = .invalidV ∨
        ¬ (v = 0 ∨ v = 1 ∨ v = 27 ∨ v = 28) ∧ e = .unexpectedProtection := by
    by_cases shifted : v = 27 ∨ v = 28
    · have other : ¬ (v = 0 ∨ v = 1) := by rcases shifted with rfl | rfl <;> decide
      simp [SignatureRule.refusal, shifted, other]
    · simp [SignatureRule.refusal, shifted]
  rw [check_eq_error_iff, ← or_assoc, ← refusal]
  rfl

theorem chainIdOfV_of_le {v : Quantity} (le : 35 ≤ v) :
    chainIdOfV v = ⟨(v.toNat - 35) / 2⟩ := by
  rw [chainIdOfV, if_pos (isProtected_of_le le), Quantity.sub?_of_le le]
  rfl

theorem chainIdOfV_of_lt {v : Quantity} (lt : v < 35) : chainIdOfV v = 0 := by
  by_cases guarded : isProtected v = true
  · rw [chainIdOfV, if_pos guarded, Quantity.sub?_of_lt lt]
  · rw [chainIdOfV, if_neg guarded]

theorem chainIdOfV_add {chain : Quantity} {parity : Nat} (bit : parity < 2) :
    chainIdOfV ⟨35 + 2 * chain.toNat + parity⟩ = chain := by
  have le : (35 : Quantity) ≤ ⟨35 + 2 * chain.toNat + parity⟩ := by
    rw [Quantity.le_iff, Quantity.toNat_ofNat]
    dsimp only
    omega
  rw [chainIdOfV_of_le le, Quantity.ext_iff]
  dsimp only
  omega

end Signature

/-- What a legacy `v` tells of the chain: it is 27 plus a parity and there is none, or it is put
together from the chain identifier and exactly one parity. -/
def LegacyTx.TellsChain (tx : LegacyTx) : Prop :=
  (tx.signature.v = 27 ∨ tx.signature.v = 28) ∧ (Transaction.legacy tx).chainId = 0 ∨
    ∃! parity, parity < 2 ∧
      tx.signature.v.toNat = 35 + 2 * (Transaction.legacy tx).chainId.toNat + parity

theorem LegacyTx.tellsChain_of_accepted {tx : LegacyTx} (accepted : tx.signature.Accepted .legacy)
    (signed : tx.signature ≠ .zero) : tx.TellsChain := by
  have allowed : SignatureRule.legacy.Allows tx.signature.v :=
    (Signature.check_eq_ok_iff.1 (accepted.resolve_left signed)).1
  have inside : (Transaction.legacy tx).chainId = Signature.chainIdOfV tx.signature.v := rfl
  rw [TellsChain, inside]
  by_cases le : 35 ≤ tx.signature.v
  · have large : 35 ≤ tx.signature.v.toNat := le
    rw [Signature.chainIdOfV_of_le le]
    dsimp only
    refine .inr ⟨(tx.signature.v.toNat - 35) % 2, ?_, fun parity found => ?_⟩
    · dsimp only
      omega
    · omega
  · refine .inl ⟨?_, Signature.chainIdOfV_of_lt (Nat.lt_of_not_le le)⟩
    exact (or_assoc.2 allowed).resolve_right le

/-- A legacy `v` gives back the chain identifier that was put into it, whatever its size, and none
if it is below 35. The check of the triple and the chain identifier agree on it: a signed legacy
transaction that is accepted from a text, as a whole or as a value, or from a record has the `v` of
its chain, or 27 or 28 and no chain. -/
theorem chain_identifier_recovered :
    (∀ (chain : Quantity) (parity : Nat), parity < 2 →
      Signature.chainIdOfV ⟨35 + 2 * chain.toNat + parity⟩ = chain) ∧
    (∀ v : Quantity, v < 35 → Signature.chainIdOfV v = 0) ∧
    (∀ (text : String) (envelope : Envelope) (tx : LegacyTx),
      Envelope.ofJson text = .ok envelope ∨ Envelope.ofJsonValue text = .ok envelope →
      envelope.transaction = .legacy tx → tx.signature ≠ .zero → tx.TellsChain) ∧
    ∀ (record : Record) (tx : LegacyTx), record.toTransaction = .ok (.legacy tx) →
      tx.signature ≠ .zero → tx.TellsChain := by
  refine ⟨fun chain parity => Signature.chainIdOfV_add, fun v => Signature.chainIdOfV_of_lt,
    fun text envelope tx read legacy signed => ?_, fun record tx built signed => ?_⟩
  · have alone : Envelope.ofJson text = .ok envelope :=
      read.elim id Envelope.ofJsonValue_eq_ok_iff.1
    obtain ⟨-, accepted⟩ := Envelope.accepted_of_ofJson alone
    rw [legacy] at accepted
    exact LegacyTx.tellsChain_of_accepted (accepted .legacy rfl) signed
  · obtain ⟨-, conforms, described⟩ := Record.toTransaction_eq_ok_iff.1 built
    exact LegacyTx.tellsChain_of_accepted ((described.conforms_iff.1 conforms).1 .legacy rfl) signed

/-- A chain identifier of 71 bits in a text, none in a record, and a `v` that is too small. -/
theorem chain_identifier_recovered_wide :
    let chain : Quantity := ⟨2 ^ 70⟩
    let tx : LegacyTx := ⟨0, 1, 21000, none, 7, [], ⟨⟨35 + 2 * 2 ^ 70 + 1⟩, 1, 1⟩⟩
    let bare : LegacyTx := ⟨0, 1, 21000, none, 7, [], ⟨28, 1, 1⟩⟩
    let envelope := Envelope.new (.legacy tx)
    let record := Record.ofTransaction (.legacy bare) (.zero 32)
    1 < 2 ∧ Signature.chainIdOfV ⟨35 + 2 * chain.toNat + 1⟩ = chain ∧
      (34 : Quantity) < 35 ∧ Signature.chainIdOfV 34 = 0 ∧
      Envelope.ofJson envelope.toJson.1 = .ok envelope ∧ tx.signature ≠ .zero ∧
      tx.TellsChain ∧ (Transaction.legacy tx).chainId = chain ∧
      record.toTransaction = .ok (.legacy bare) ∧ bare.signature ≠ .zero ∧ bare.TellsChain := by
  intro chain tx bare envelope record
  obtain ⟨back, none, text, described⟩ := chain_identifier_recovered
  have sane {each : LegacyTx} (passes : Signature.check .legacy each.signature = .ok ()) :
      ∀ rule, (Transaction.legacy each).kind.signatureRule? = some rule →
        each.signature.Accepted rule := by
    rintro rule ⟨⟩
    exact .inr passes
  have read : Envelope.ofJson envelope.toJson.1 = .ok envelope :=
    Envelope.ofJson_toJson_of_accepted (sane (Signature.check_eq_ok_iff.2 (by decide)))
  have built : record.toTransaction = .ok (.legacy bare) :=
    Record.toTransaction_ofTransaction _ (sane (Signature.check_eq_ok_iff.2 (by decide)))
  have signed : tx.signature ≠ .zero := by decide
  have nonzero : bare.signature ≠ .zero := by decide
  have whole := back chain 1 (by decide)
  exact ⟨by decide, whole, by decide, none 34 (by decide), read, signed,
    text _ _ tx (.inl read) rfl signed, whole, built, nonzero,
    described record bare built nonzero⟩

end TxEnvelope
