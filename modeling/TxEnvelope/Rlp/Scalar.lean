import TxEnvelope.Quantity
import TxEnvelope.Rlp.Codec

/-! Codecs of single items: integers, flags, byte strings and addresses.

An integer is its shortest big-endian byte string, so a leading zero byte is
refused. For 64 bits the width is checked before the leading byte, for 256 bits
after it; a quantity has no width.
-/

set_option autoImplicit false

namespace TxEnvelope.Rlp

def noLeadingZero (payload : Bytes) : Except Error Bytes :=
  if payload.head? = some 0 then .error .leadingZero else .ok payload

/-- An integer of at most `width` bytes, the width being checked first. -/
def boundedPayload (width : Nat) (payload : Bytes) : Except Error Nat :=
  if width < payload.length then .error .overflow
  else (noLeadingZero payload).map Bytes.toNat

/-- The length of an integer's item, from its size alone; right for integers of up to 55 bytes. -/
def integerLength (n : Nat) : Nat :=
  if n < 0x80 then 1 else 1 + (n.log2 / 8 + 1)

namespace Codec

def quantity : Codec Quantity :=
  string Quantity.toBytes fun payload => (noLeadingZero payload).map Quantity.ofBytes

def uint64 : Codec UInt64 :=
  { string (fun n => Bytes.ofNat n.toNat) fun payload => (boundedPayload 8 payload).map UInt64.ofNat
    with length := fun n => integerLength n.toNat }

def uint256 : Codec UInt256 :=
  { string (fun n => Bytes.ofNat n.toNat) fun payload =>
      -- Not the order for 64 bits: a leading zero is reported even where the rest is too wide.
      match noLeadingZero payload with
      | .error e => .error e
      | .ok payload =>
        match (Quantity.ofBytes payload).toUInt256? with
        | none => .error .overflow
        | some n => .ok n
    with length := fun n => integerLength n.toNat }

def flag : Codec Bool :=
  { string (fun b => if b then [1] else []) fun payload =>
      match boundedPayload 1 payload with
      | .error e => .error e
      | .ok 0 => .ok false
      | .ok 1 => .ok true
      | .ok _ => .error .invalidBool
    with length := fun _ => 1 }

def bytes : Codec Bytes :=
  string id .ok

def fixedBytes (width : Nat) : Codec (FixedBytes width) :=
  string FixedBytes.bytes fun payload =>
    match FixedBytes.ofBytes? width payload with
    | none => .error .unexpectedLength
    | some fixed => .ok fixed

def optionalAddress : Codec (Option Address) where
  read
    | [] => .error .inputTooShort
    | byte :: rest =>
      if byte = 0x80 then .ok (none, rest)
      else ((fixedBytes 20).map some).read (byte :: rest)
  shrinks {input a rest} h := by
    split at h
    · simp at h
    · split at h
      · simp only [Except.ok.injEq, Prod.mk.injEq] at h
        simp [← h.2]
      · exact ((fixedBytes 20).map some).shrinks h
  encode
    | none => [0x80]
    | some address => (fixedBytes 20).encode address
  length
    | none => 1
    | some address => (fixedBytes 20).length address

/-- A quantity that counts as absent when it is zero. -/
def optionalQuantity : Codec (Option Quantity) :=
  quantity.convert (fun q => if q = 0 then none else some q) fun q? => q?.getD 0

end Codec

end TxEnvelope.Rlp
