import TxEnvelope.Reader
import TxEnvelope.Rlp.Header

/-! Codecs: the written form of a type's values beside the reader of that form.

A codec writes a value, says how long the written form will be without writing
it, and reads a value off the front of a byte string. Items, sequences of items
and whole transaction bodies are built from the same few combinators.
-/

set_option autoImplicit false

namespace TxEnvelope.Rlp

structure Codec (α : Type) extends Reader UInt8 Error α where
  encode : α → Bytes
  length : α → Nat

/-- Reads the payload of the item at the front, if it is of the asked sort. -/
def payloadReader (isList : Bool) : Reader UInt8 Error Bytes where
  read input :=
    match Header.decode input with
    | .error e => .error e
    | .ok (header, rest) =>
      if header.isList = isList then .ok (rest.take header.payload, rest.drop header.payload)
      else .error (if isList then .unexpectedString else .unexpectedList)
  shrinks {input payload rest} h := by
    split at h
    · simp at h
    · next header left found =>
      split at h
      · simp only [Except.ok.injEq, Prod.mk.injEq] at h
        have bounds := Header.decode_bounds found
        rw [← h.2, List.length_drop]
        omega
      · simp at h

def encodeString (payload : Bytes) : Bytes :=
  match payload with
  | [byte] =>
    -- A byte that cannot be mistaken for a header is its own item.
    if byte < 0x80 then [byte] else (Header.mk false 1).encode ++ [byte]
  | _ => (Header.mk false payload.length).encode ++ payload

def stringLength (payload : Bytes) : Nat :=
  match payload with
  | [byte] => if byte < 0x80 then 1 else 2
  | _ => Header.size payload.length + payload.length

namespace Codec

variable {α β : Type}

def string (toPayload : α → Bytes) (ofPayload : Bytes → Except Error α) : Codec α where
  toReader := (payloadReader false).refine ofPayload
  encode a := encodeString (toPayload a)
  length a := stringLength (toPayload a)

def both (first : Codec α) (second : Codec β) : Codec (α × β) where
  toReader := first.toReader.both second.toReader
  encode p := first.encode p.1 ++ second.encode p.2
  length p := first.length p.1 + second.length p.2

def convert (codec : Codec α) (make : α → β) (view : β → α) : Codec β where
  toReader := codec.toReader.map make
  encode b := codec.encode (view b)
  length b := codec.length (view b)

/-- Reads the whole of a payload as one value; bytes left over are a mismatch. -/
def readExactly (codec : Codec α) (payload : Bytes) : Except Error α :=
  match codec.read payload with
  | .error e => .error e
  | .ok (a, rest) =>
    if rest = [] then .ok a
    else .error (.listLengthMismatch payload.length (payload.length - rest.length))

/-- A list item around the items of a value. Its payload alone is read. -/
def enclosed (codec : Codec α) : Codec α where
  toReader := (payloadReader true).refine codec.readExactly
  encode a := (Header.mk true (codec.length a)).encode ++ codec.encode a
  length a := Header.size (codec.length a) + codec.length a

/-- A list item whose items are read from all that follows the header, and then must have
taken exactly the payload. -/
def measured (codec : Codec α) : Codec α where
  read input :=
    match Header.decode input with
    | .error e => .error e
    | .ok (header, body) =>
      if header.isList then
        -- The reader is not stopped at the end of the payload, so a short payload shows as a
        -- mismatch and not as a lack of input.
        match codec.read body with
        | .error e => .error e
        | .ok (a, rest) =>
          let taken := body.length - rest.length
          if taken = header.payload then .ok (a, rest)
          else .error (.listLengthMismatch header.payload taken)
      else .error .unexpectedString
  shrinks {input a rest} h := by
    split at h
    · simp at h
    · next header body found =>
      split at h
      · split at h
        · simp at h
        · next value left inner =>
          dsimp only at h
          split at h
          · simp only [Except.ok.injEq, Prod.mk.injEq] at h
            have outer := (Header.decode_bounds found).2.1
            have less := codec.shrinks inner
            rw [← h.2]
            omega
          · simp at h
      · simp at h
  encode a := (Header.mk true (codec.length a)).encode ++ codec.encode a
  length a := Header.size (codec.length a) + codec.length a

def totalLength (codec : Codec α) (items : List α) : Nat :=
  items.foldr (fun item total => codec.length item + total) 0

def list (codec : Codec α) : Codec (List α) where
  toReader := (payloadReader true).refine codec.readAll
  encode items := (Header.mk true (codec.totalLength items)).encode ++ items.flatMap codec.encode
  length items := Header.size (codec.totalLength items) + codec.totalLength items

end Codec

end TxEnvelope.Rlp
