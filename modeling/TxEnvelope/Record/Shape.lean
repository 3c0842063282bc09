import TxEnvelope.Json.Composite
import TxEnvelope.Json.Document
import TxEnvelope.Json.Surplus
import TxEnvelope.Transaction.Basic

/-! The shapes of field values, with the written form and the reader of each.

Integers, quantities and byte strings are written as hex strings. An integer
may also be read from a plain JSON number or in another base, a byte string
from an array of its bytes.
-/

set_option autoImplicit false

namespace TxEnvelope

open Json

def Json.textValue {α : Type} (convert : List Char → Option α) (token : Token) :
    Except ReadError α :=
  match token with
  | .text content =>
    match convert content with
    | none => .error .malformed
    | some a => .ok a
  | _ => .error .malformed

namespace Integer

/-- The base that a text announces, and its digits. -/
def splitBase : List Char → Nat × List Char
  | '0' :: 'x' :: digits | '0' :: 'X' :: digits => (16, digits)
  | '0' :: 'o' :: digits | '0' :: 'O' :: digits => (8, digits)
  | '0' :: 'b' :: digits | '0' :: 'B' :: digits => (2, digits)
  | digits => (10, digits)

def digit? (base : Nat) (c : Char) : Option Nat :=
  (Hex.value? c).filter (· < base)

/-- The number a text denotes. Underscores do not count, and no digits at all denote zero. -/
def parse? (text : List Char) : Option Nat :=
  let (base, digits) := splitBase text
  ((digits.filter (· != '_')).mapM (digit? base)).map (Positional.value base)

def narrow? (n : Nat) : Option UInt64 :=
  (Quantity.mk n).toUInt64?

def reader : ValueReader UInt64 :=
  single fun
    | .natural n =>
      match narrow? n with
      | none => .error .malformed
      | some word => .ok word
    | token => textValue (fun text => (parse? text).bind narrow?) token

def document (n : UInt64) : Document :=
  .text (Quantity.ofUInt64 n).toHex

end Integer

namespace Quantity

def reader : ValueReader Quantity :=
  single fun
    | .text content => (parse content).mapError .badQuantity
    | _ => .error .malformed

def document (q : Quantity) : Document :=
  .text q.toHex

end Quantity

namespace Bytes

def byteReader : ValueReader UInt8 :=
  single fun
    | .natural n => if n < 256 then .ok (UInt8.ofNat n) else .error .malformed
    | _ => .error .malformed

/-- A string of hex digits, or bytes in an array that `items` reads from the opening bracket on. -/
def readerWith (items : ValueReader Bytes) : ValueReader Bytes where
  read input :=
    match next input with
    | some (.text content, rest) => (textValue Hex.decode? (.text content)).map (·, rest)
    | _ => items.read input
  shrinks {input a rest} h := by
    split at h
    · next content tail taken =>
      cases found : textValue Hex.decode? (.text content) with
      | error e => simp [found, Except.map] at h
      | ok b =>
        simp only [found, Except.map, Except.ok.injEq, Prod.mk.injEq] at h
        exact h.2 ▸ length_of_next taken
    · exact items.shrinks h

def reader : ValueReader Bytes :=
  readerWith (array byteReader)

def document (bytes : Bytes) : Document :=
  .text (Hex.encode bytes)

end Bytes

namespace FixedBytes

def moreBytes (count : Nat) (input : List Char) : Except ReadError (Bytes × List Char) :=
  match count with
  | 0 =>
    match endArray Bytes.byteReader input with
    | none => .error .malformed
    | some rest => .ok ([], rest)
  | count + 1 =>
    match next input with
    | some (.comma, mid) =>
      match Bytes.byteReader.read mid with
      | .error e => .error e
      | .ok (byte, rest) =>
        match moreBytes count rest with
        | .error e => .error e
        | .ok (bytes, rest) => .ok (byte :: bytes, rest)
    | _ => .error .malformed

theorem length_of_moreBytes {count : Nat} {input rest : List Char} {bytes : Bytes}
    (h : moreBytes count input = .ok (bytes, rest)) : rest.length < input.length := by
  fun_induction moreBytes count input generalizing bytes rest with
  | case1 | case3 | case4 | case6 => simp at h
  | case2 input left ended =>
    simp only [Except.ok.injEq, Prod.mk.injEq] at h
    exact h.2 ▸ length_of_endArray ended
  | case5 input count mid taken byte left read bytes' rest' more ih =>
    simp only [Except.ok.injEq, Prod.mk.injEq] at h
    rw [← h.2]
    exact Nat.lt_trans (ih more)
      (Nat.lt_trans (Bytes.byteReader.shrinks read) (length_of_next taken))

/-- An array of `width` bytes. The first is read as if it stood behind a comma. -/
def itemReader (width : Nat) : ValueReader Bytes where
  read input :=
    match next input with
    | some (.openArray, inside) => moreBytes width (',' :: inside)
    | _ => .error .malformed
  shrinks {input bytes rest} h := by
    split at h
    · next inside opened =>
      have outer := length_of_next opened
      have inner := length_of_moreBytes h
      rw [List.length_cons] at inner
      omega
    · simp at h

def reader (width : Nat) : ValueReader (FixedBytes width) :=
  (Bytes.readerWith (itemReader width)).refine fun bytes =>
    match FixedBytes.ofBytes? width bytes with
    | none => .error .malformed
    | some fixed => .ok fixed

end FixedBytes

def FixedBytes.document {width : Nat} (fixed : FixedBytes width) : Document :=
  Bytes.document fixed.bytes

namespace AccessEntry

inductive Part where
  | address
  | storageKeys
  deriving DecidableEq, Repr

abbrev Part.Value : Part → Type
  | .address => Address
  | .storageKeys => List Hash

def Part.name : Part → String
  | .address => "address"
  | .storageKeys => "storageKeys"

def Part.reader : (part : Part) → ValueReader part.Value
  | .address => FixedBytes.reader 20
  | .storageKeys => array (FixedBytes.reader 32)

def schema : Schema where
  Key := Part
  keys := [.address, .storageKeys]
  name := Part.name
  Value := Part.Value
  reader := Part.reader

def ofMembers (members : List schema.Member) : Except ReadError AccessEntry :=
  match schema.value? .address members, schema.value? .storageKeys members with
  | some address, some storageKeys => .ok ⟨address, storageKeys⟩
  | _, _ => .error .malformed

def reader : ValueReader AccessEntry :=
  schema.members.refine ofMembers

def document (entry : AccessEntry) : Document :=
  .object
    [(Part.address.name, FixedBytes.document entry.address),
      (Part.storageKeys.name, .array (entry.storageKeys.map FixedBytes.document))]

end AccessEntry

inductive Shape where
  | integer
  | quantity
  | address
  | hash
  | bytes
  | accessList
  | hashes
  | flag
  deriving DecidableEq, Repr

namespace Shape

abbrev Value : Shape → Type
  | .integer => UInt64
  | .quantity => Quantity
  | .address => Address
  | .hash => Hash
  | .bytes => Bytes
  | .accessList => AccessList
  | .hashes => List Hash
  | .flag => Bool

def reader : (shape : Shape) → ValueReader shape.Value
  | .integer => Integer.reader
  | .quantity => Quantity.reader
  | .address => FixedBytes.reader 20
  | .hash => FixedBytes.reader 32
  | .bytes => Bytes.reader
  | .accessList => array AccessEntry.reader
  | .hashes => array (FixedBytes.reader 32)
  | .flag => single fun
    | .bool b => .ok b
    | _ => .error .malformed

def document : (shape : Shape) → shape.Value → Document
  | .integer, n => Integer.document n
  | .quantity, q => Quantity.document q
  | .address, fixed => FixedBytes.document fixed
  | .hash, fixed => FixedBytes.document fixed
  | .bytes, content => Bytes.document content
  | .accessList, entries => .array (entries.map AccessEntry.document)
  | .hashes, items => .array (items.map FixedBytes.document)
  | .flag, b => .bool b

end Shape

end TxEnvelope
