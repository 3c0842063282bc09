import TxEnvelope.Canonical
import TxEnvelope.Record.OfTransaction
import TxEnvelope.Record.Validation
import TxEnvelope.Transaction.Signing

/-! Envelopes: transactions with their digest, which is computed once.

An envelope starts without a digest and keeps it from the first time it is
asked for. Asking answers the envelope that has kept it. Equality looks at the
transactions alone.
-/

set_option autoImplicit false

namespace TxEnvelope

structure Envelope where
  transaction : Transaction
  kept : Option Hash

namespace Envelope

def new (transaction : Transaction) : Envelope :=
  ⟨transaction, none⟩

instance : BEq Envelope := ⟨fun a b => a.transaction == b.transaction⟩

/-- The digest, and the envelope that keeps it. -/
def hash (envelope : Envelope) : Hash × Envelope :=
  match envelope.kept with
  | some hash => (hash, envelope)
  | none =>
    let hash := envelope.transaction.digest
    (hash, { envelope with kept := some hash })

/-- The key under which a transaction trie files the transaction: its digest. -/
def trieHash (envelope : Envelope) : Hash × Envelope :=
  envelope.hash

def record (envelope : Envelope) : Record × Envelope :=
  let (hash, envelope) := envelope.hash
  (Record.ofTransaction envelope.transaction hash, envelope)

def toJson (envelope : Envelope) : String × Envelope :=
  let (record, envelope) := envelope.record
  (record.print, envelope)

/-- The envelope of the transaction that a record describes. The record's digest is not used. -/
def ofRecord (record : Record) : Except Error Envelope :=
  record.toTransaction.map new

/-- Reads a JSON text. The record is read to its end before its rules are checked. -/
def ofJson (text : String) : Except Error Envelope :=
  match Record.parse text with
  | .error e => .error (.json e)
  | .ok record => ofRecord record

/-- Replaces the signature; the digest has to be computed anew. -/
def sign (envelope : Envelope) (chainId : Quantity) (signature : Signature Quantity) :
    Except Error Envelope :=
  (envelope.transaction.sign chainId signature).map new

end Envelope

/-- Why a JSON value is not a transaction: no record can be read, or the record breaks a rule. -/
inductive ValueError where
  | unreadable (cause : ReadError)
  | rejected (cause : Error)
  deriving DecidableEq, Repr

def ValueError.detail? : ValueError → Option String
  | .unreadable cause => cause.detail?
  | .rejected cause => some cause.message

namespace Envelope

/-- Reads a transaction as one value among others. Its rules are checked as soon as the record
is complete, before anything behind it is looked at. -/
def reader : Reader Char ValueError Envelope where
  read input :=
    match Record.reader.read input with
    | .error e => .error (.unreadable e)
    | .ok (record, rest) =>
      -- Whatever follows is not looked at yet, so a broken rule is reported before it.
      match ofRecord record with
      | .error e => .error (.rejected e)
      | .ok envelope => .ok (envelope, rest)
  shrinks {input envelope rest} h := by
    split at h
    · simp at h
    · next record left found =>
      split at h
      · simp at h
      · simp only [Except.ok.injEq, Prod.mk.injEq] at h
        exact h.2 ▸ Record.reader.shrinks found

def ofJsonValue (text : String) : Except ValueError Envelope :=
  Json.readText reader (.unreadable .malformed) text.toList

end Envelope

end TxEnvelope
