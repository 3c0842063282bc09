import TxEnvelope.Keccak
import TxEnvelope.Transaction.Body

/-! Canonical bytes of transactions.

A legacy transaction is its body alone. Every other kind is its type byte and
its body, so the first byte tells them apart: a type byte is at most `0x7f`,
and a list starts above it.
-/

set_option autoImplicit false

namespace TxEnvelope

inductive DecodeError where
  | unexpectedType (byte : UInt8)
  | rlp (cause : Rlp.Error)
  deriving DecidableEq, Repr

namespace DecodeError

def message : DecodeError → String
  | .unexpectedType byte => "Unexpected type flag. Got " ++ toString byte.toNat ++ "."
  | .rlp cause => cause.message

def toError : DecodeError → Error
  | .unexpectedType byte => .unsupportedType byte.toUInt64
  | .rlp cause => .rlp cause

def toRlp : DecodeError → Rlp.Error
  | .unexpectedType _ => .unexpectedTypeFlag
  | .rlp cause => cause

end DecodeError

namespace Transaction

/-- The byte in front of the body, if the kind has one. -/
def typeFlag (tx : Transaction) : Option UInt8 :=
  if tx.kind.isTyped then some tx.kind.byte else none

def encode (tx : Transaction) : Bytes :=
  tx.typeFlag.toList ++ tx.encodeBody

def encodedLength (tx : Transaction) : Nat :=
  if tx.kind.isTyped then tx.bodyLength + 1 else tx.bodyLength

def digest (tx : Transaction) : Hash :=
  Keccak.digest tx.encode

/-- Reads the body that follows a type byte. The byte of the legacy kind is never written, so it
is refused like an unknown one. -/
def decodeTyped (byte : UInt8) (input : Bytes) : Except DecodeError (Transaction × Bytes) :=
  match Kind.ofByte? byte with
  | none | some .legacy => .error (.unexpectedType byte)
  | some kind => (decodeBody kind input).mapError .rlp

def decodeUntyped (input : Bytes) : Except DecodeError (Transaction × Bytes) :=
  (decodeBody .legacy input).mapError .rlp

def decode : Bytes → Except DecodeError (Transaction × Bytes)
  | [] => decodeUntyped []
  -- A legacy body is a list and starts at 0xc0 or above, so a low byte can only be a type.
  | byte :: rest => if byte ≤ 0x7f then decodeTyped byte rest else decodeUntyped (byte :: rest)

theorem decode_of_le {byte : UInt8} (low : byte ≤ 0x7f) (rest : Bytes) :
    decode (byte :: rest) = decodeTyped byte rest :=
  if_pos low

theorem decode_of_not_le {byte : UInt8} (high : ¬ byte ≤ 0x7f) (rest : Bytes) :
    decode (byte :: rest) = decodeUntyped (byte :: rest) :=
  if_neg high

def decodeExact (input : Bytes) : Except DecodeError Transaction :=
  match decode input with
  | .error e => .error e
  | .ok (tx, []) => .ok tx
  | .ok (_, _ :: _) => .error (.rlp .unexpectedLength)

/-- The transaction that the canonical bytes stand for: without an annotation or a zero mint. -/
def normalise : Transaction → Transaction
  | .deposit tx | .annotatedDeposit tx _ => .deposit tx.withoutZeroMint
  | .offchain tx => .offchain tx.withoutZeroMint
  | tx => tx

end Transaction

end TxEnvelope
