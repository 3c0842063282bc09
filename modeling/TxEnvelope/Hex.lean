import TxEnvelope.Bytes

/-! Hexadecimal text of byte strings.

Writing is lower case. Reading takes either case and an optional marker `0x` or
`0X`, and works on the bytes of the text, so a refusal can name the byte and
its position after the marker.
-/

set_option autoImplicit false

namespace TxEnvelope.Hex

def digit (value : Nat) : Char :=
  if value < 10 then Char.ofNat (value + 48) else Char.ofNat (value + 87)

def value? (c : Char) : Option Nat :=
  if '0' ≤ c ∧ c ≤ '9' then some (c.toNat - 48)
  else if 'a' ≤ c ∧ c ≤ 'f' then some (c.toNat - 87)
  else if 'A' ≤ c ∧ c ≤ 'F' then some (c.toNat - 55)
  else none

theorem value?_digit {value : Nat} (small : value < 16) : value? (digit value) = some value := by
  have all : ∀ v : Fin 16, value? (digit v) = some v.val := by decide
  exact all ⟨value, small⟩

def ofByte (byte : UInt8) : List Char :=
  [digit (byte.toNat / 16), digit (byte.toNat % 16)]

/-- Two digits for each byte, without a marker. -/
def digitsOf (bytes : Bytes) : List Char :=
  bytes.flatMap ofByte

def encode (bytes : Bytes) : List Char :=
  '0' :: 'x' :: digitsOf bytes

inductive Error where
  | oddLength
  | invalidCharacter (byte : UInt8) (position : Nat)
  deriving DecidableEq, Repr

def withoutMarker : Bytes → Bytes
  | 0x30 :: 0x78 :: rest => rest
  | 0x30 :: 0x58 :: rest => rest
  | text => text

/-- The values of the digits; the first byte that is none is reported with its position,
counted from `position`. -/
def nibbles (position : Nat) : Bytes → Except Error (List Nat)
  | [] => .ok []
  | byte :: rest =>
    match value? (Char.ofNat byte.toNat) with
    | none => .error (.invalidCharacter byte position)
    | some v => (nibbles (position + 1) rest).map (v :: ·)

/-- Joins digit values in pairs, high half first. -/
def pack : List Nat → Bytes
  | hi :: lo :: rest => UInt8.ofNat (hi * 16 + lo) :: pack rest
  | _ => []

/-- Reads hex text. The length is checked before the digits. -/
def decode (text : Bytes) : Except Error Bytes :=
  let digits := withoutMarker text
  if digits.length % 2 = 1 then .error .oddLength
  else (nibbles 0 digits).map pack

def decode? (text : List Char) : Option Bytes :=
  (decode (Bytes.ofText text)).toOption

end TxEnvelope.Hex
