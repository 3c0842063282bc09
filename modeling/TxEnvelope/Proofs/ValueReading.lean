import TxEnvelope.Envelope
import TxEnvelope.Proofs.Record.Refusals

/-! A transaction read as a text of its own and as a value among others.

A text of its own is read to its end before the rules of its record are checked,
a value among others is checked as soon as its record is complete. Both ways
lead to the same transactions. They differ in what they say of a record that
breaks a rule and has something behind it, and in nothing else.
-/

set_option autoImplicit false

namespace TxEnvelope

/-- A broken rule of a record, as against a text or bytes that cannot be read. -/
def Error.IsRule : Error → Prop
  | .rlp _ | .json _ => False
  | _ => True

theorem Record.Violates.isRule {record : Record} {kind : Kind} {e : Error}
    (violates : record.Violates kind e) : e.IsRule := by
  cases violates <;> trivial

theorem Record.isRule_of_toTransaction {record : Record} {e : Error}
    (h : record.toTransaction = .error e) : e.IsRule := by
  rcases violates_of_toTransaction h with ⟨-, rfl⟩ | ⟨kind, -, violates⟩
  · trivial
  · exact violates.isRule

def ValueError.ofError : Error → ValueError
  | .json cause => .unreadable cause
  | e => .rejected e

theorem ValueError.ofError_of_isRule {e : Error} (rule : e.IsRule) : ofError e = .rejected e := by
  cases e <;> first | rfl | exact rule.elim

namespace Envelope

variable {text : String}

theorem ofRecord_eq_error_iff {record : Record} {e : Error} :
    ofRecord record = .error e ↔ record.toTransaction = .error e := by
  unfold ofRecord
  cases record.toTransaction <;> simp [Except.map]

section Unreadable

variable {cause : ReadError} (failed : Record.reader.read text.toList = .error cause)
include failed

theorem ofJson_of_read_error : ofJson text = .error (.json cause) := by
  simp only [ofJson, Record.parse, Json.readText, failed]

theorem ofJsonValue_of_read_error : ofJsonValue text = .error (.unreadable cause) := by
  simp only [ofJsonValue, Json.readText, reader, failed]

end Unreadable

section Readable

variable {record : Record} {rest : List Char}
  (read : Record.reader.read text.toList = .ok (record, rest))
include read

theorem ofJson_of_read :
    ofJson text = if Json.skipBlanks rest = [] then ofRecord record
      else .error (.json .malformed) := by
  simp only [ofJson, Record.parse, Json.readText, read]
  by_cases complete : Json.skipBlanks rest = []
  · simp only [if_pos complete]
  · simp only [if_neg complete]

theorem ofJsonValue_of_read :
    ofJsonValue text =
      match ofRecord record with
      | .error e => .error (.rejected e)
      | .ok envelope =>
        if Json.skipBlanks rest = [] then .ok envelope else .error (.unreadable .malformed) := by
  simp only [ofJsonValue, Json.readText, reader, read]
  cases ofRecord record <;> rfl

theorem ofJsonValue_of_complete (complete : Json.skipBlanks rest = []) :
    ofJsonValue text = (ofJson text).mapError .ofError := by
  rw [ofJsonValue_of_read read, ofJson_of_read read, if_pos complete]
  cases built : ofRecord record with
  | ok envelope => exact if_pos complete
  | error e =>
    have rule := Record.isRule_of_toTransaction (ofRecord_eq_error_iff.1 built)
    exact congrArg Except.error (ValueError.ofError_of_isRule rule).symm

end Readable

theorem isRule_of_ofJson {e : Error} (h : ofJson text = .error e)
    (codec : ∀ cause, e ≠ .json cause) : e.IsRule := by
  cases read : Record.reader.read text.toList with
  | error cause =>
    rw [ofJson_of_read_error read] at h
    exact (codec cause (Except.error.inj h).symm).elim
  | ok found =>
    rw [ofJson_of_read read] at h
    split at h
    · exact Record.isRule_of_toTransaction (ofRecord_eq_error_iff.1 h)
    · exact (codec .malformed (Except.error.inj h).symm).elim

/-- Both ways answer alike, unless a record that is refused has something behind it. -/
theorem ofJsonValue_eq_or (text : String) :
    ofJsonValue text = (ofJson text).mapError .ofError ∨
      ∃ record rest e, Record.reader.read text.toList = .ok (record, rest) ∧
        Json.skipBlanks rest ≠ [] ∧ record.toTransaction = .error e ∧
        ofJson text = .error (.json .malformed) ∧ ofJsonValue text = .error (.rejected e) := by
  cases read : Record.reader.read text.toList with
  | error cause =>
    rw [ofJson_of_read_error read, ofJsonValue_of_read_error read]
    exact .inl rfl
  | ok found =>
    obtain ⟨record, rest⟩ := found
    -- The two differ in what comes first, the rest of the text or the rules of the record.
    by_cases complete : Json.skipBlanks rest = []
    · exact .inl (ofJsonValue_of_complete read complete)
    · have own := ofJson_of_read read
      have among := ofJsonValue_of_read read
      rw [if_neg complete] at own
      cases built : ofRecord record with
      | error e =>
        rw [built] at among
        exact .inr ⟨record, rest, e, rfl, complete, ofRecord_eq_error_iff.1 built, own, among⟩
      | ok envelope =>
        rw [built] at among
        rw [own, among]
        exact .inl (if_neg complete)

theorem ofJsonValue_eq_ok_iff {envelope : Envelope} :
    ofJsonValue text = .ok envelope ↔ ofJson text = .ok envelope := by
  rcases ofJsonValue_eq_or text with same | ⟨record, rest, e, -, -, -, own, among⟩
  · rw [same, mapError_eq_ok_iff]
  · rw [own, among]
    exact ⟨nofun, nofun⟩

theorem ofJsonValue_of_rule {e : Error} (rule : e.IsRule) (h : ofJson text = .error e) :
    ofJsonValue text = .error (.rejected e) := by
  rcases ofJsonValue_eq_or text with same | ⟨record, rest, cause, -, -, -, own, -⟩
  · rw [same, h]
    exact congrArg Except.error (ValueError.ofError_of_isRule rule)
  · rw [h] at own
    cases own
    exact rule.elim

/-- A text is one transaction or the same value among others. If it breaks a rule, the rule is the
refusal of the one and the whole text of the refusal of the other; if no record can be read, both
say why in the same words. Only where something follows a complete record can the answers differ:
the text is then malformed on its own, whatever the record says, while a rule that the record
breaks comes first where it is a value. -/
theorem entry_points_agree (text : String) :
    (∀ envelope, ofJsonValue text = .ok envelope ↔ ofJson text = .ok envelope) ∧
    (∀ e, ofJson text = .error e → (∀ cause, e ≠ .json cause) →
      e.IsRule ∧ ofJsonValue text = .error (.rejected e) ∧
        (ValueError.rejected e).detail? = some e.message) ∧
    (∀ cause, Record.reader.read text.toList = .error cause →
      ofJson text = .error (.json cause) ∧ ofJsonValue text = .error (.unreadable cause) ∧
        (ValueError.unreadable cause).detail? = cause.detail?) ∧
    (∀ record rest, Record.reader.read text.toList = .ok (record, rest) →
      Json.skipBlanks rest ≠ [] →
      ofJson text = .error (.json .malformed) ∧
        (∀ e, record.toTransaction = .error e → ofJsonValue text = .error (.rejected e)) ∧
        ∀ tx, record.toTransaction = .ok tx → ofJsonValue text = .error (.unreadable .malformed)) ∧
    (ofJsonValue text = (ofJson text).mapError .ofError ∨
      ∃ record rest e, Record.reader.read text.toList = .ok (record, rest) ∧
        Json.skipBlanks rest ≠ [] ∧ record.toTransaction = .error e) := by
  refine ⟨fun envelope => ofJsonValue_eq_ok_iff, fun e h codec => ?_, fun cause failed => ?_,
    fun record rest read left => ?_, ?_⟩
  · have rule := isRule_of_ofJson h codec
    exact ⟨rule, ofJsonValue_of_rule rule h, rfl⟩
  · exact ⟨ofJson_of_read_error failed, ofJsonValue_of_read_error failed, rfl⟩
  · -- With something left the text fails on its own before any rule is looked at.
    have own := ofJson_of_read read
    have among := ofJsonValue_of_read read
    rw [if_neg left] at own
    refine ⟨own, fun e refused => ?_, fun tx built => ?_⟩
    · rw [among, ofRecord, refused]
      rfl
    · rw [among, ofRecord, built]
      exact if_neg left
  · rcases ofJsonValue_eq_or text with same | ⟨record, rest, e, read, left, refused, -⟩
    · exact .inl same
    · exact .inr ⟨record, rest, e, read, left, refused⟩

/-- A missing field, a quantity without its marker, and a missing field with a bracket behind. -/
theorem entry_points_agree_multiple :
    ofJson "\x7b\x7d" = .error (.missingField .nonce) ∧
      ofJsonValue "\x7b\x7d" = .error (.rejected (.missingField .nonce)) ∧
      Record.reader.read "[0,\"1\"".toList = .error (.badQuantity .missingMarker) ∧
      ofJson "[0,\"1\"" = .error (.json (.badQuantity .missingMarker)) ∧
      ofJsonValue "[0,\"1\"" = .error (.unreadable (.badQuantity .missingMarker)) ∧
      Record.reader.read "\x7b\x7d]".toList = .ok ({}, [']']) ∧
      ofJson "\x7b\x7d]" = .error (.json .malformed) ∧
      ofJsonValue "\x7b\x7d]" = .error (.rejected (.missingField .nonce)) := by
  have broken : ofJson "\x7b\x7d" = .error (.missingField .nonce) := rfl
  have bare : Record.reader.read "[0,\"1\"".toList = .error (.badQuantity .missingMarker) := rfl
  have left : Record.reader.read "\x7b\x7d]".toList = .ok ({}, [']']) := rfl
  obtain ⟨-, rule, -⟩ := entry_points_agree "\x7b\x7d"
  obtain ⟨-, -, unreadable, -⟩ := entry_points_agree "[0,\"1\""
  obtain ⟨-, -, -, trailing, -⟩ := entry_points_agree "\x7b\x7d]"
  obtain ⟨own, among, -⟩ := unreadable _ bare
  obtain ⟨malformed, refused, -⟩ := trailing _ _ left (by decide)
  exact ⟨broken, (rule _ broken fun _ => nofun).2.1, bare, own, among, left, malformed,
    refused _ rfl⟩

end Envelope

end TxEnvelope
