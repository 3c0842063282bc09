import TxEnvelope.Canonical

/-! The form in which transactions travel inside RLP lists.

A legacy transaction is a list already and travels as it is; the canonical
bytes of every other kind travel as an RLP string.
-/

set_option autoImplicit false

namespace TxEnvelope.Transaction

def networkHeader (tx : Transaction) : Bytes :=
  if tx.kind.isTyped then (Rlp.Header.mk false tx.encodedLength).encode else []

def encodeNetwork (tx : Transaction) : Bytes :=
  tx.networkHeader ++ tx.encode

def networkLength (tx : Transaction) : Nat :=
  if tx.kind.isTyped then Rlp.Header.size tx.encodedLength + tx.encodedLength
  else tx.encodedLength

/-- Reads a transaction in network form off the front. A list is a legacy body. After any other
header a type byte and a body follow; the bytes announced by the header have to be there, but the
body alone decides where the transaction ends. -/
def decodeNetwork (input : Bytes) : Except DecodeError (Transaction × Bytes) :=
  match Rlp.Header.decode input with
  | .error e => .error (.rlp e)
  | .ok (header, rest) =>
    -- The body reads its own header again, from the start.
    if header.isList then decodeUntyped input
    else
      match rest with
      | [] => .error (.rlp .inputTooShort)
      | byte :: body => decodeTyped byte body

def decodeItem (input : Bytes) : Except Rlp.Error (Transaction × Bytes) :=
  (decodeNetwork input).mapError DecodeError.toRlp

end TxEnvelope.Transaction
