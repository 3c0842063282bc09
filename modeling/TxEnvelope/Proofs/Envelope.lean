import TxEnvelope.Envelope
import TxEnvelope.Proofs.Record.Shape
import TxEnvelope.Proofs.Record.Validation

/-! Transactions and their JSON text.

The record of a transaction describes it, with nothing in it that its kind
refuses. So reading the text of a transaction can only fail on the signature,
and a text that was written for an accepted transaction is read as that
transaction and written again as it was.
-/

set_option autoImplicit false

namespace TxEnvelope

namespace Record

variable (tx : Transaction) (digest : Hash)

theorem type_ofTransaction : (ofTransaction tx digest).type = tx.kind.code := by
  cases tx <;> rfl

theorem ofTransaction_describes : (ofTransaction tx digest).Describes tx := by
  cases tx with
  | legacy inner => exact ⟨rfl, rfl, rfl, rfl, rfl, rfl, rfl⟩
  | accessList inner => exact ⟨rfl, rfl, rfl, rfl, rfl, rfl, rfl, rfl, rfl⟩
  | dynamicFee inner => exact ⟨rfl, rfl, rfl, rfl, rfl, rfl, rfl, rfl, rfl, rfl⟩
  | blob inner => exact ⟨rfl, rfl, rfl, rfl, rfl, rfl, rfl, rfl, rfl, rfl, rfl, rfl⟩
  | deposit inner | annotatedDeposit inner nonce =>
    exact ⟨⟨rfl, rfl, rfl, rfl, rfl, rfl, rfl, rfl⟩, rfl⟩
  | offchain inner => exact ⟨rfl, rfl, rfl, rfl, rfl, rfl, rfl, rfl⟩

theorem ofTransaction_clean :
    (∀ field ∈ tx.kind.forbidden, (ofTransaction tx digest).get field = none) ∧
      ∀ field ∈ tx.kind.zeroOnly, (ofTransaction tx digest).get field = none := by
  cases tx <;>
    simp only [Transaction.kind, Kind.forbidden, Kind.zeroOnly, List.forall_mem_cons,
      List.not_mem_nil, false_implies, implies_true, and_true] <;>
    repeat' constructor

theorem ofTransaction_conforms_iff : (ofTransaction tx digest).Conforms tx.kind ↔
    ∀ rule, tx.kind.signatureRule? = some rule → tx.signature.Accepted rule := by
  obtain ⟨absent, zero⟩ := ofTransaction_clean tx digest
  rw [(ofTransaction_describes tx digest).conforms_iff]
  exact ⟨fun h => h.1, fun accepted => ⟨accepted, absent, fun field mem => .inl (zero field mem)⟩⟩

theorem toTransaction_ofTransaction_system {tx : Transaction}
    (system : tx.kind.signatureRule? = none) :
    (ofTransaction tx digest).toTransaction = .ok tx := by
  refine toTransaction_of_conforms (type_ofTransaction tx digest) ?_
    (ofTransaction_describes tx digest)
  rw [ofTransaction_conforms_iff, system]
  exact nofun

theorem toTransaction_ofTransaction_signed {tx : Transaction} {rule : SignatureRule}
    (signed : tx.kind.signatureRule? = some rule) :
    (ofTransaction tx digest).toTransaction = (tx.signature.validate rule).map fun _ => tx :=
  (ofTransaction_describes tx digest).toTransaction_eq (type_ofTransaction tx digest) signed

/-- The record of a transaction is accepted if its triple is, and where there is none. -/
theorem toTransaction_ofTransaction {tx : Transaction}
    (accepted : ∀ rule, tx.kind.signatureRule? = some rule → tx.signature.Accepted rule) :
    (ofTransaction tx digest).toTransaction = .ok tx :=
  toTransaction_of_conforms (type_ofTransaction tx digest)
    ((ofTransaction_conforms_iff tx digest).2 accepted) (ofTransaction_describes tx digest)

end Record

namespace Envelope

theorem ofJson_toJson (envelope : Envelope) :
    ofJson envelope.toJson.1
      = ((Record.ofTransaction envelope.transaction envelope.hash.1).toTransaction).map new := by
  have kept : envelope.hash.2.transaction = envelope.transaction := by
    unfold hash
    split <;> rfl
  simp only [ofJson, toJson, record, Record.parse_print, kept, ofRecord]

theorem ofJson_toJson_of_accepted {envelope : Envelope}
    (accepted : ∀ rule, envelope.transaction.kind.signatureRule? = some rule →
      envelope.transaction.signature.Accepted rule) :
    ofJson envelope.toJson.1 = .ok (new envelope.transaction) := by
  rw [ofJson_toJson, Record.toTransaction_ofTransaction _ accepted]
  rfl

theorem accepted_of_ofJson {text : String} {envelope : Envelope}
    (h : ofJson text = .ok envelope) :
    envelope = new envelope.transaction ∧
      ∀ rule, envelope.transaction.kind.signatureRule? = some rule →
        envelope.transaction.signature.Accepted rule := by
  unfold ofJson at h
  split at h
  · cases h
  · next record parsed =>
    obtain ⟨tx, built, rfl⟩ := map_eq_ok_iff.1 h
    obtain ⟨-, conforms, described⟩ := Record.toTransaction_eq_ok_iff.1 built
    exact ⟨rfl, (described.conforms_iff.1 conforms).1⟩

/-- A transaction is read back from its text unless it is of a signed kind and its triple is
neither zero nor sane, and then the reason is the one that the check of the triple gives. A text
that was read is written for the result in a form that is read and written again as it is. -/
theorem json_round_trip :
    (∀ envelope : Envelope, ofJson envelope.toJson.1 =
      match envelope.transaction.kind.signatureRule? with
      | none => .ok (new envelope.transaction)
      | some rule =>
        if envelope.transaction.signature = .zero then .ok (new envelope.transaction)
        else
          match envelope.transaction.signature.check rule with
          | .ok () => .ok (new envelope.transaction)
          | .error cause => .error (.invalidSignature cause)) ∧
    ∀ (text : String) (envelope : Envelope), ofJson text = .ok envelope →
      ∃ again, ofJson envelope.toJson.1 = .ok again ∧ again = envelope ∧
        again.toJson.1 = envelope.toJson.1 := by
  constructor
  · intro envelope
    -- The text is read as the record of the transaction, so only the check of the triple decides.
    rw [ofJson_toJson]
    split
    · next system =>
      rw [Record.toTransaction_ofTransaction_system _ system]
      rfl
    · next rule signed =>
      rw [Record.toTransaction_ofTransaction_signed _ signed, Signature.validate,
        Signature.isUnsigned]
      by_cases zero : envelope.transaction.signature = .zero
      · rw [if_pos zero, if_pos (beq_iff_eq.2 zero)]
        rfl
      · rw [if_neg zero, if_neg (mt beq_iff_eq.1 zero)]
        cases envelope.transaction.signature.check rule <;> rfl
  · intro text envelope read
    obtain ⟨fresh, accepted⟩ := accepted_of_ofJson read
    refine ⟨envelope, ?_, rfl, rfl⟩
    rw [ofJson_toJson, Record.toTransaction_of_conforms (Record.type_ofTransaction _ _)
      ((Record.ofTransaction_conforms_iff _ _).2 accepted) (Record.ofTransaction_describes _ _),
      fresh]
    rfl

/-- An annotation and a zero mint are kept, and a triple that is not sane is named. -/
theorem json_round_trip_annotated :
    let envelope := new (.annotatedDeposit
      ⟨.zero 32, .zero 20, none, some 0, 7, 21000, true, List.replicate 60 1⟩ 5)
    let signed := new (.legacy ⟨0, 1, 21000, none, 7, [], ⟨27, 0, 1⟩⟩)
    (ofJson envelope.toJson.1 = .ok envelope ∧
      ∃ again, ofJson envelope.toJson.1 = .ok again ∧ again = envelope ∧
        again.toJson.1 = envelope.toJson.1) ∧
    ofJson signed.toJson.1 = .error (.invalidSignature .invalidR) := by
  intro envelope signed
  have read : ofJson envelope.toJson.1 = .ok envelope := json_round_trip.1 envelope
  exact ⟨⟨read, json_round_trip.2 envelope.toJson.1 envelope read⟩, json_round_trip.1 signed⟩

end Envelope

end TxEnvelope
