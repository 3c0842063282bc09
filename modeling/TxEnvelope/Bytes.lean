import TxEnvelope.Positional

/-! Byte strings, strings of a fixed width, and their reading as numbers.

A number is written with the most significant byte first and no leading zero
byte; zero is the empty string.
-/

set_option autoImplicit false

namespace TxEnvelope

abbrev Bytes := List UInt8

namespace Bytes

/-- The number a byte string denotes, most significant byte first. -/
def toNat (bytes : Bytes) : Nat :=
  Positional.value 256 (bytes.map UInt8.toNat)

/-- The shortest byte string denoting `n`. -/
def ofNat (n : Nat) : Bytes :=
  (Positional.digits 256 n).map UInt8.ofNat

@[simp] theorem ofNat_zero : ofNat 0 = [] := by
  simp [ofNat]

theorem map_toNat_map_ofNat {ds : List Nat} (small : ∀ d ∈ ds, d < 256) :
    (ds.map UInt8.ofNat).map UInt8.toNat = ds := by
  rw [List.map_map]
  conv => rhs; rw [← List.map_id ds]
  refine List.map_congr_left fun d mem => ?_
  simpa using Nat.mod_eq_of_lt (small d mem)

theorem toNat_ofNat (n : Nat) : toNat (ofNat n) = n := by
  have small : ∀ d ∈ Positional.digits 256 n, d < 256 :=
    fun _ mem => Positional.lt_of_mem_digits (by decide) mem
  rw [toNat, ofNat, map_toNat_map_ofNat small, Positional.value_digits (by decide)]

/-- The UTF-8 form of a text. -/
def ofText (text : List Char) : Bytes :=
  text.flatMap String.utf8EncodeChar

end Bytes

@[ext] structure FixedBytes (width : Nat) where
  bytes : Bytes
  length_eq : bytes.length = width
  deriving DecidableEq

namespace FixedBytes

variable {width : Nat}

def ofBytes? (width : Nat) (bytes : Bytes) : Option (FixedBytes width) :=
  if h : bytes.length = width then some ⟨bytes, h⟩ else none

def zero (width : Nat) : FixedBytes width :=
  ⟨List.replicate width 0, List.length_replicate⟩

instance : Inhabited (FixedBytes width) := ⟨zero width⟩

@[simp] theorem ofBytes?_bytes (fixed : FixedBytes width) :
    ofBytes? width fixed.bytes = some fixed := by
  simp [ofBytes?, fixed.length_eq]

theorem bytes_of_ofBytes? {bytes : Bytes} {fixed : FixedBytes width}
    (h : ofBytes? width bytes = some fixed) : fixed.bytes = bytes := by
  unfold ofBytes? at h
  split at h
  · exact congrArg FixedBytes.bytes (Option.some.inj h).symm
  · simp at h

end FixedBytes

abbrev Address := FixedBytes 20

/-- A 256-bit digest, source identifier or storage key. -/
abbrev Hash := FixedBytes 32

end TxEnvelope
