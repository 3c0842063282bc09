import TxEnvelope.Hex

/-! Unsigned quantities of any size.

A quantity is written as `0x` and its hex digits without leading zeros, or as
its shortest big-endian byte string. It narrows to 64 or 256 bits only where
nothing is lost.
-/

set_option autoImplicit false

namespace TxEnvelope

abbrev UInt256 := BitVec 256

@[ext] structure Quantity where
  toNat : Nat
  deriving DecidableEq, Repr

namespace Quantity

instance (n : Nat) : OfNat Quantity n := ⟨⟨n⟩⟩

instance : Inhabited Quantity := ⟨0⟩

instance : Add Quantity := ⟨fun a b => ⟨a.toNat + b.toNat⟩⟩

instance : LE Quantity := ⟨fun a b => a.toNat ≤ b.toNat⟩

instance : LT Quantity := ⟨fun a b => a.toNat < b.toNat⟩

instance (a b : Quantity) : Decidable (a ≤ b) := inferInstanceAs (Decidable (a.toNat ≤ b.toNat))

instance (a b : Quantity) : Decidable (a < b) := inferInstanceAs (Decidable (a.toNat < b.toNat))

instance : Ord Quantity := ⟨fun a b => compare a.toNat b.toNat⟩

instance : Min Quantity := minOfLe

@[simp] theorem toNat_ofNat (n : Nat) : (no_index (OfNat.ofNat n : Quantity)).toNat = n := rfl

@[simp] theorem toNat_add (a b : Quantity) : (a + b).toNat = a.toNat + b.toNat := rfl

theorem le_iff (a b : Quantity) : a ≤ b ↔ a.toNat ≤ b.toNat := Iff.rfl

def sub? (a b : Quantity) : Option Quantity :=
  if b ≤ a then some ⟨a.toNat - b.toNat⟩ else none

def bitLength (q : Quantity) : Nat :=
  if q.toNat = 0 then 0 else q.toNat.log2 + 1

/-- The shortest big-endian byte string; zero is empty. -/
def toBytes (q : Quantity) : Bytes :=
  Bytes.ofNat q.toNat

def ofBytes (bytes : Bytes) : Quantity :=
  ⟨bytes.toNat⟩

def toUInt64? (q : Quantity) : Option UInt64 :=
  if h : q.toNat < UInt64.size then some (UInt64.ofNatLT q.toNat h) else none

def ofUInt64 (n : UInt64) : Quantity :=
  ⟨n.toNat⟩

def toUInt256? (q : Quantity) : Option UInt256 :=
  if h : q.toNat < 2 ^ 256 then some (BitVec.ofNatLT q.toNat h) else none

def ofUInt256 (n : UInt256) : Quantity :=
  ⟨n.toNat⟩

@[simp] theorem toUInt256?_ofUInt256 (n : UInt256) : (ofUInt256 n).toUInt256? = some n := by
  have small : (ofUInt256 n).toNat < 2 ^ 256 := n.isLt
  rw [toUInt256?, dif_pos small]
  exact congrArg some (BitVec.eq_of_toNat_eq rfl)

theorem ofUInt256_of_toUInt256? {q : Quantity} {n : UInt256} (h : q.toUInt256? = some n) :
    ofUInt256 n = q := by
  unfold toUInt256? at h
  split at h
  · rw [← Option.some.inj h]
    rfl
  · simp at h

/-- The hex digits without a marker or leading zeros; zero is a single `0`. -/
def hexDigits (q : Quantity) : List Char :=
  if q.toNat = 0 then ['0'] else (Positional.digits 16 q.toNat).map Hex.digit

def toHex (q : Quantity) : List Char :=
  '0' :: 'x' :: q.hexDigits

inductive ParseError where
  | missingMarker
  | empty
  | invalidDigit
  deriving DecidableEq, Repr

def ParseError.message : ParseError → String
  | .missingMarker => "hex quantity without 0x prefix"
  | .empty => "hex quantity without digits"
  | .invalidDigit => "invalid hex digit"

def ofDigits : List Char → Except ParseError Quantity
  | [] => .error .empty
  | digits =>
    match digits.mapM Hex.value? with
    | none => .error .invalidDigit
    | some values => .ok ⟨Positional.value 16 values⟩

/-- Reads `0x` or `0X` followed by hex digits of either case. -/
def parse : List Char → Except ParseError Quantity
  | '0' :: 'x' :: digits => ofDigits digits
  | '0' :: 'X' :: digits => ofDigits digits
  | _ => .error .missingMarker

end Quantity

end TxEnvelope
