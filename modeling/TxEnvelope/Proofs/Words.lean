import TxEnvelope.Proofs.BigEndian
import TxEnvelope.Proofs.Narrowing

/-! Quantities as bytes and as words of 256 bits.

The shortest big-endian form of a quantity takes one byte for every eight bits begun, and any
byte string is that form once its leading zeros are gone. A word has 32 bytes with its leading
zeros, so a quantity narrows to a word exactly if its shortest form is no longer than that.
-/

set_option autoImplicit false

namespace TxEnvelope

namespace Positional

/-- The last `width` digits of `n`, leading zeros included. -/
def lastDigits (b : Nat) : Nat → Nat → List Nat
  | 0, _ => []
  | width + 1, n => lastDigits b width (n / b) ++ [n % b]

@[simp] theorem length_lastDigits (b width n : Nat) : (lastDigits b width n).length = width := by
  induction width generalizing n with
  | zero => rfl
  | succ width ih => rw [lastDigits, List.length_append, ih, List.length_singleton]

theorem lt_of_mem_lastDigits {b width n d : Nat} (base : 0 < b)
    (mem : d ∈ lastDigits b width n) : d < b := by
  induction width generalizing n with
  | zero => simp [lastDigits] at mem
  | succ width ih =>
    rcases List.mem_append.1 mem with front | last
    · exact ih front
    · rw [List.mem_singleton.1 last]
      exact Nat.mod_lt n base

theorem value_lastDigits (b width n : Nat) : value b (lastDigits b width n) = n % b ^ width := by
  induction width generalizing n with
  | zero => rw [lastDigits, value_nil, Nat.pow_zero, Nat.mod_one]
  | succ width ih =>
    rw [lastDigits, value_append_singleton, ih, Nat.pow_succ', Nat.mod_mul, Nat.mul_comm b,
      Nat.add_comm]

end Positional

namespace UInt256

def bytes (n : UInt256) : FixedBytes 32 :=
  ⟨(Positional.lastDigits 256 32 n.toNat).map UInt8.ofNat, by simp⟩

theorem toNat_bytes (n : UInt256) : Bytes.toNat (bytes n).bytes = n.toNat := by
  have digits : ∀ d ∈ Positional.lastDigits 256 32 n.toNat, d < 256 :=
    fun _ mem => Positional.lt_of_mem_lastDigits (by decide) mem
  have small : n.toNat < 256 ^ 32 := n.isLt
  rw [Bytes.toNat, bytes, Bytes.map_toNat_map_ofNat digits, Positional.value_lastDigits,
    Nat.mod_eq_of_lt small]

def ofBytes? (bytes : Bytes) : Option UInt256 :=
  if bytes.length ≤ 32 then some (.ofNat 256 bytes.toNat) else none

end UInt256

namespace Quantity

theorem bitLength_le_iff (q : Quantity) (width : Nat) :
    q.bitLength ≤ width ↔ q.toNat < 2 ^ width := by
  unfold bitLength
  by_cases zero : q.toNat = 0
  · rw [if_pos zero, zero]
    exact iff_of_true (Nat.zero_le _) (Nat.two_pow_pos _)
  · rw [if_neg zero, Nat.succ_le_iff, Nat.log2_lt zero]

theorem length_toBytes_le_iff (q : Quantity) (width : Nat) :
    q.toBytes.length ≤ width ↔ q.bitLength ≤ 8 * width := by
  rw [toBytes, Bytes.length_ofNat_le_iff, bitLength_le_iff, Nat.pow_mul]

theorem length_toBytes (q : Quantity) : q.toBytes.length = (q.bitLength + 7) / 8 := by
  have least (width : Nat) : q.toBytes.length ≤ width ↔ (q.bitLength + 7) / 8 ≤ width := by
    rw [length_toBytes_le_iff]
    omega
  exact Nat.le_antisymm ((least _).2 (Nat.le_refl _)) ((least _).1 (Nat.le_refl _))

theorem ofBytes_toBytes (q : Quantity) : ofBytes q.toBytes = q :=
  Quantity.ext (Bytes.toNat_ofNat q.toNat)

theorem ofBytes_word (n : UInt256) : ofBytes (UInt256.bytes n).bytes = ofUInt256 n := by
  rw [ofBytes, UInt256.toNat_bytes, ofUInt256]

theorem isSome_toUInt256?_iff (q : Quantity) : q.toUInt256?.isSome ↔ q.toNat < 2 ^ 256 := by
  rw [Option.isSome_iff_ne_none, ne_eq, toUInt256?_eq_none_iff, Nat.not_le]

theorem toUInt256?_eq_ofBytes? (q : Quantity) : q.toUInt256? = UInt256.ofBytes? q.toBytes := by
  have short : q.toBytes.length ≤ 32 ↔ q.toNat < 2 ^ 256 := by
    rw [length_toBytes_le_iff, bitLength_le_iff]
  by_cases small : q.toNat < 2 ^ 256
  · rw [UInt256.ofBytes?, if_pos (short.2 small), toUInt256?_eq_some_iff, Quantity.ext_iff]
    show q.toNat = q.toBytes.toNat % 2 ^ 256
    rw [toBytes, Bytes.toNat_ofNat, Nat.mod_eq_of_lt small]
  · rw [UInt256.ofBytes?, if_neg (mt short.1 small), toUInt256?_eq_none_iff]
    exact Nat.le_of_not_lt small

/-- The shortest big-endian form of a quantity has no leading zero byte and one byte for every eight
bits begun, and it is read back. A byte string with any leading zeros comes back without them. A
quantity narrows to a word exactly if it is below 2^256, which its shortest form shows; the word has
the value of the quantity, and every word comes back from the quantity that its 32 bytes are read
as. -/
theorem bytes_and_words :
    (∀ q : Quantity, q.toBytes.head? ≠ some 0 ∧
      q.toBytes.length = (q.bitLength + 7) / 8 ∧
      (∀ width, q.bitLength ≤ width ↔ q.toNat < 2 ^ width) ∧
      ofBytes q.toBytes = q) ∧
    (∀ bytes : Bytes, (ofBytes bytes).toBytes = bytes.dropWhile (· == 0)) ∧
    (∀ q : Quantity, (q.toUInt256?.isSome ↔ q.toNat < 2 ^ 256) ∧
      q.toUInt256? = UInt256.ofBytes? q.toBytes ∧
      ∀ n, q.toUInt256? = some n → ofUInt256 n = q) ∧
    ∀ n : UInt256, ofUInt256 n = ofBytes (UInt256.bytes n).bytes ∧
      (ofUInt256 n).toUInt256? = some n := by
  refine ⟨fun q => ?_, fun bytes => Bytes.ofNat_toNat_eq_dropWhile bytes, fun q => ?_, fun n => ?_⟩
  · exact ⟨Bytes.head?_ofNat q.toNat, q.length_toBytes, q.bitLength_le_iff, q.ofBytes_toBytes⟩
  · exact ⟨q.isSome_toUInt256?_iff, q.toUInt256?_eq_ofBytes?, fun n => ofUInt256_of_toUInt256?⟩
  · exact ⟨(ofBytes_word n).symm, toUInt256?_ofUInt256 n⟩

/-- The largest word, the number behind it, and leading zeros in front of either. -/
theorem bytes_and_words_bound :
    let largest : Quantity := ⟨2 ^ 256 - 1⟩
    let above : Quantity := ⟨2 ^ 256⟩
    largest.toUInt256? = some (.allOnes 256) ∧ ofUInt256 (.allOnes 256) = largest ∧
      largest.toBytes.length = 32 ∧ above.toBytes.length = 33 ∧ ¬ above.toUInt256?.isSome ∧
      (ofBytes (0 :: 0 :: above.toBytes)).toBytes = above.toBytes := by
  intro largest above
  obtain ⟨shortest, trimmed, narrow, -⟩ := bytes_and_words
  have word : largest.toUInt256? = some (.allOnes 256) := by decide +kernel
  have wide : ¬ above.toUInt256?.isSome := mt (narrow above).1.1 (by decide)
  have length : largest.toBytes.length = 32 := (shortest largest).2.1.trans (by decide +kernel)
  have longer : above.toBytes.length = 33 := (shortest above).2.1.trans (by decide +kernel)
  exact ⟨word, (narrow largest).2.2 _ word, length, longer, wide,
    (trimmed _).trans (by decide +kernel)⟩

end Quantity

end TxEnvelope
