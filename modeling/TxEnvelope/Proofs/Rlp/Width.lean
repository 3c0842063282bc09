import TxEnvelope.Proofs.Narrowing
import TxEnvelope.Proofs.Rlp.Scalar

/-! Integers of every width are one and the same on the wire.

A word is written like the quantity of its value, and reading a word is reading a quantity
that has to fit. The order of the checks shows in one place only: 64 bits are counted
before the leading zero is looked for, so a payload that is too long is too wide even if
it starts with a zero.
-/

set_option autoImplicit false

namespace TxEnvelope.Rlp

def narrowed {α : Type} (narrow? : Quantity → Option α) (q : Quantity) : Except Error α :=
  match narrow? q with
  | none => .error .overflow
  | some n => .ok n

/-- The string item at the front has more than eight bytes, the first of which is zero. -/
def StartsLongZero (input : Bytes) : Prop :=
  ∃ payload rest, payload.length < 2 ^ 64 ∧ input = encodeString payload ++ rest ∧
    8 < payload.length ∧ payload.head? = some 0

namespace Codec

theorem encode_uint64 (n : UInt64) : uint64.encode n = quantity.encode (.ofUInt64 n) := rfl

theorem encode_uint256 (n : UInt256) : uint256.encode n = quantity.encode (.ofUInt256 n) := rfl

theorem uint256_read : uint256.read = (quantity.refine (narrowed Quantity.toUInt256?)).read := by
  refine Eq.trans ?_ (Reader.refine_refine (payloadReader false) _ _).symm
  refine congrArg (fun check => ((payloadReader false).refine check).read) (funext fun payload => ?_)
  cases noLeadingZero payload with
  | error e => rfl
  | ok found =>
    show _ = narrowed Quantity.toUInt256? (.ofBytes found)
    dsimp only [narrowed]
    cases (Quantity.ofBytes found).toUInt256? <;> rfl

theorem uint64_payload {payload : Bytes} (plain : ¬ (8 < payload.length ∧ payload.head? = some 0)) :
    (boundedPayload 8 payload).map UInt64.ofNat =
      ((noLeadingZero payload).map Quantity.ofBytes >>= narrowed Quantity.toUInt64?) := by
  unfold boundedPayload
  by_cases lead : payload.head? = some 0
  · have short : ¬ 8 < payload.length := fun long => plain ⟨long, lead⟩
    rw [if_neg short, noLeadingZero, if_pos lead]
    rfl
  · have free : noLeadingZero payload = .ok payload := if_neg lead
    -- Without a leading zero the number of bytes tells the size of the value.
    have size : payload.length ≤ 8 ↔ payload.toNat < 256 ^ 8 := by
      rw [← Bytes.length_ofNat_le_iff, Bytes.ofNat_toNat lead]
    rw [free]
    show _ = narrowed Quantity.toUInt64? (.ofBytes payload)
    by_cases long : 8 < payload.length
    · have wide : (Quantity.ofBytes payload).toUInt64? = none :=
        Quantity.toUInt64?_eq_none_iff.2 (Nat.le_of_not_lt (mt size.2 (Nat.not_le_of_lt long)))
      rw [if_pos long, narrowed, wide]
      rfl
    · have value : (UInt64.ofNat payload.toNat).toNat = payload.toNat :=
        UInt64.toNat_ofNat_of_lt' (size.1 (Nat.le_of_not_lt long))
      have fits : (Quantity.ofBytes payload).toUInt64? = some (.ofNat payload.toNat) :=
        Quantity.toUInt64?_eq_some_iff.2 (Quantity.ext value.symm)
      rw [if_neg long, narrowed, fits]
      rfl

/-- A 64-bit word is read as a quantity that has to fit, unless its payload is too long and starts
with a zero. -/
theorem uint64_read {input : Bytes} (plain : ¬ StartsLongZero input) :
    uint64.read input = (quantity.refine (narrowed Quantity.toUInt64?)).read input := by
  refine Eq.trans ?_ (congrFun (Reader.refine_refine (payloadReader false) _ _).symm input)
  show ((payloadReader false).refine _).read input = _
  simp only [Reader.refine]
  cases found : (payloadReader false).read input with
  | error e => rfl
  | ok result =>
    obtain ⟨payload, rest⟩ := result
    obtain ⟨small, same⟩ := payloadReader_string_eq_ok_iff.1 found
    dsimp only
    rw [uint64_payload fun long => plain ⟨payload, rest, small, same, long⟩]

theorem read_of_startsLongZero {input : Bytes} (long : StartsLongZero input) :
    quantity.read input = .error .leadingZero ∧ uint64.read input = .error .overflow := by
  obtain ⟨payload, rest, small, same, wide, zero⟩ := long
  have found := payloadReader_string_eq_ok_iff.2 ⟨small, same⟩
  constructor
  · refine Reader.refine_eq_error_iff.2 (.inr ⟨payload, rest, found, ?_⟩)
    rw [noLeadingZero, if_pos zero]
    rfl
  · refine Reader.refine_eq_error_iff.2 (.inr ⟨payload, rest, found, ?_⟩)
    rw [boundedPayload, if_pos wide]
    rfl

section Narrowed

variable {α : Type} {narrow? : Quantity → Option α} {input rest : Bytes} {q : Quantity}

theorem read_narrowed_of_some {n : α} (read : quantity.read input = .ok (q, rest))
    (fits : narrow? q = some n) :
    (quantity.refine (narrowed narrow?)).read input = .ok (n, rest) :=
  Reader.refine_eq_ok_iff.2 ⟨q, read, by rw [narrowed, fits]⟩

theorem read_narrowed_of_none (read : quantity.read input = .ok (q, rest))
    (wide : narrow? q = none) :
    (quantity.refine (narrowed narrow?)).read input = .error .overflow :=
  Reader.refine_eq_error_iff.2 (.inr ⟨q, rest, read, by rw [narrowed, wide]⟩)

theorem read_narrowed_of_error {e : Error} (failed : quantity.read input = .error e) :
    (quantity.refine (narrowed narrow?)).read input = .error e :=
  Reader.refine_eq_error_iff.2 (.inl failed)

end Narrowed

/-- Words of 64 and of 256 bits are written like the quantities of their values, in as many bytes.
Where a quantity is read, a word is read that has the same value and leaves the same bytes, if
there is one of its width, and there is an overflow if not. Where no quantity is read, no word is,
and for the same reason; only a payload of more than eight bytes that starts with a zero is an
overflow for 64 bits. -/
theorem integer_codecs_agree :
    (∀ n : UInt64, uint64.encode n = quantity.encode (.ofUInt64 n) ∧
      uint64.length n = quantity.length (.ofUInt64 n)) ∧
    (∀ n : UInt256, uint256.encode n = quantity.encode (.ofUInt256 n) ∧
      uint256.length n = quantity.length (.ofUInt256 n)) ∧
    (∀ input q rest, quantity.read input = .ok (q, rest) →
      (q.toNat < 2 ^ 256 → ∃ n, Quantity.ofUInt256 n = q ∧ uint256.read input = .ok (n, rest)) ∧
      (2 ^ 256 ≤ q.toNat → uint256.read input = .error .overflow) ∧
      (q.toNat < 2 ^ 64 → ∃ n, Quantity.ofUInt64 n = q ∧ uint64.read input = .ok (n, rest)) ∧
      (2 ^ 64 ≤ q.toNat → uint64.read input = .error .overflow)) ∧
    ∀ input e, quantity.read input = .error e →
      uint256.read input = .error e ∧
      (StartsLongZero input → uint64.read input = .error .overflow) ∧
      (¬ StartsLongZero input → uint64.read input = .error e) := by
  refine ⟨fun n => ⟨encode_uint64 n, length_uint64 n⟩,
    fun n => ⟨encode_uint256 n, length_uint256 n⟩, fun input q rest read => ?_,
    fun input e failed => ?_⟩
  · -- No quantity is read from a payload that starts with a zero, so the exception is not met here.
    have plain : ¬ StartsLongZero input := fun long => by
      rw [(read_of_startsLongZero long).1] at read
      cases read
    rw [uint256_read, uint64_read plain]
    refine ⟨fun small => ?_, fun large => ?_, fun small => ?_, fun large => ?_⟩
    · obtain ⟨n, fits⟩ := Quantity.exists_toUInt256?_of_lt small
      exact ⟨n, (Quantity.toUInt256?_eq_some_iff.1 fits).symm, read_narrowed_of_some read fits⟩
    · exact read_narrowed_of_none read (Quantity.toUInt256?_eq_none_iff.2 large)
    · obtain ⟨n, fits⟩ := Quantity.exists_toUInt64?_of_lt small
      exact ⟨n, (Quantity.toUInt64?_eq_some_iff.1 fits).symm, read_narrowed_of_some read fits⟩
    · exact read_narrowed_of_none read (Quantity.toUInt64?_eq_none_iff.2 large)
  · refine ⟨?_, fun long => (read_of_startsLongZero long).2, fun plain => ?_⟩
    · rw [uint256_read]
      exact read_narrowed_of_error failed
    · rw [uint64_read plain]
      exact read_narrowed_of_error failed

/-- A value of two bytes, one that is too wide for 64 bits, one that is too wide for 256 bits, and
leading zeros in a payload of two and of nine bytes. -/
theorem integer_codecs_agree_long :
    let large : Bytes := 0x89 :: 1 :: List.replicate 8 0
    let wide : Bytes := 0xa1 :: 1 :: List.replicate 32 0
    let long : Bytes := 0x89 :: 0 :: List.replicate 8 1
    quantity.read [0x82, 1, 0, 7] = .ok (256, [7]) ∧ uint64.read [0x82, 1, 0, 7] = .ok (256, [7]) ∧
      uint256.read [0x82, 1, 0, 7] = .ok (256, [7]) ∧
      quantity.read large = .ok (⟨2 ^ 64⟩, []) ∧ uint64.read large = .error .overflow ∧
      quantity.read wide = .ok (⟨2 ^ 256⟩, []) ∧ uint256.read wide = .error .overflow ∧
      quantity.read [0x82, 0, 1] = .error .leadingZero ∧
      uint64.read [0x82, 0, 1] = .error .leadingZero ∧
      quantity.read long = .error .leadingZero ∧ uint256.read long = .error .leadingZero ∧
      StartsLongZero long ∧ uint64.read long = .error .overflow := by
  intro large wide long
  obtain ⟨-, -, reads, fails⟩ := integer_codecs_agree
  have value : quantity.read [0x82, 1, 0, 7] = .ok (256, [7]) := rfl
  obtain ⟨in256, -, in64, -⟩ := reads _ _ _ value
  obtain ⟨m, same256, read256⟩ := in256 (by decide)
  obtain rfl : m = 256 := Quantity.ofUInt256_injective same256
  obtain ⟨n, same64, read64⟩ := in64 (by decide)
  obtain rfl : n = 256 := Quantity.ofUInt64_injective same64
  have over64 : quantity.read large = .ok (⟨2 ^ 64⟩, []) := rfl
  have over256 : quantity.read wide = .ok (⟨2 ^ 256⟩, []) := rfl
  have zero : quantity.read [0x82, 0, 1] = .error .leadingZero := rfl
  have plain : ¬ StartsLongZero [0x82, 0, 1] := by
    rintro ⟨payload, rest, small, same, bytes, -⟩
    have length := congrArg List.length same
    have there := length_le_encodeString payload
    simp only [List.length_append, List.length_cons, List.length_nil] at length
    omega
  have starts : StartsLongZero long := ⟨0 :: List.replicate 8 1, [], by decide, rfl, by decide, rfl⟩
  have refused : quantity.read long = .error .leadingZero := rfl
  exact ⟨value, read64, read256, over64, (reads _ _ _ over64).2.2.2 (Nat.le_refl _), over256,
    (reads _ _ _ over256).2.1 (Nat.le_refl _), zero, (fails _ _ zero).2.2 plain, refused,
    (fails _ _ refused).1, starts, (fails _ _ refused).2.1 starts⟩

end Codec

end TxEnvelope.Rlp
