import TxEnvelope.Proofs.Rlp.Lawful
import TxEnvelope.Rlp.Scalar

/-! The single items are lawful.

Integers of every width share one payload, the shortest big-endian bytes, so
each of them is read from one byte string only. An absent address and an absent
quantity have the empty string to themselves; a zero quantity that may be
absent counts as absent.
-/

set_option autoImplicit false

namespace TxEnvelope.Rlp

theorem noLeadingZero_eq_ok_iff {payload found : Bytes} :
    noLeadingZero payload = .ok found ↔ payload.head? ≠ some 0 ∧ found = payload := by
  unfold noLeadingZero
  split <;> simp_all [eq_comm]

theorem noLeadingZero_ofNat (n : Nat) : noLeadingZero (Bytes.ofNat n) = .ok (Bytes.ofNat n) :=
  noLeadingZero_eq_ok_iff.2 ⟨Bytes.head?_ofNat n, rfl⟩

theorem boundedPayload_eq_ok_iff {width n : Nat} {payload : Bytes} :
    boundedPayload width payload = .ok n ↔ payload = Bytes.ofNat n ∧ n < 256 ^ width := by
  unfold boundedPayload
  constructor
  · intro h
    split at h
    · simp at h
    · next narrow =>
      unfold noLeadingZero at h
      split at h
      · simp [Except.map] at h
      · next lead =>
        simp only [Except.map, Except.ok.injEq] at h
        subst h
        rw [Bytes.ofNat_toNat lead]
        refine ⟨rfl, Nat.lt_of_lt_of_le (Bytes.toNat_lt payload) ?_⟩
        exact Nat.pow_le_pow_right (by decide) (by omega)
  · rintro ⟨rfl, small⟩
    have narrow := (Bytes.length_ofNat_le_iff n width).2 small
    rw [if_neg (by omega), noLeadingZero_ofNat]
    simp [Except.map, Bytes.toNat_ofNat]

theorem stringLength_of_length_ne_one {payload : Bytes} (length : payload.length ≠ 1) :
    stringLength payload = Header.size payload.length + payload.length := by
  unfold stringLength
  split
  · simp at length
  · rfl

theorem integerLength_eq {n : Nat} (narrow : n < 256 ^ 55) :
    integerLength n = stringLength (Bytes.ofNat n) := by
  unfold integerLength
  rcases Nat.eq_zero_or_pos n with rfl | pos
  · simp [stringLength, Header.size]
  · by_cases single : n < 256
    · have code : (UInt8.ofNat n).toNat = n := by simpa using single
      have own : UInt8.ofNat n < 0x80 ↔ n < 0x80 := by rw [UInt8.lt_iff_toNat_lt, code]; rfl
      rw [Bytes.ofNat_of_lt pos single, stringLength]
      by_cases below : n < 0x80
      · rw [if_pos below, if_pos (own.2 below)]
      · have bits : n.log2 = 7 := (Nat.log2_eq_iff (by omega)).2 (by omega)
        rw [if_neg below, if_neg (mt own.1 below), bits]
    · have length := Bytes.length_ofNat pos
      have wide : ¬ (Bytes.ofNat n).length ≤ 1 := by
        rw [Bytes.length_ofNat_le_iff]
        omega
      have short := (Bytes.length_ofNat_le_iff n 55).2 narrow
      rw [if_neg (by omega), stringLength_of_length_ne_one (by omega), Header.size,
        if_pos (by omega), length]

namespace Codec

theorem quantity_lawful : quantity.Lawful id := by
  refine Lawful.string (fun q => ?_) fun {payload q} h => ?_
  · rw [Quantity.toBytes, noLeadingZero_ofNat]
    simp [Except.map, Quantity.ofBytes, Bytes.toNat_ofNat]
  · cases lead : noLeadingZero payload with
    | error e => simp [lead, Except.map] at h
    | ok found =>
      obtain ⟨start, rfl⟩ := noLeadingZero_eq_ok_iff.1 lead
      simp only [lead, Except.map, Except.ok.injEq] at h
      subst h
      exact ⟨Bytes.ofNat_toNat start, rfl⟩

theorem length_uint64 (n : UInt64) : uint64.length n = quantity.length (.ofUInt64 n) :=
  integerLength_eq (Nat.lt_trans n.toNat_lt (by decide))

theorem length_uint256 (n : UInt256) : uint256.length n = quantity.length (.ofUInt256 n) :=
  integerLength_eq (Nat.lt_trans n.isLt (by decide))

theorem uint64_lawful : uint64.Lawful id := by
  refine Lawful.withLength (Lawful.string (fun n => ?_) fun {payload n} h => ?_) fun n => ?_
  · have small : n.toNat < 256 ^ 8 := n.toNat_lt
    rw [boundedPayload_eq_ok_iff.2 ⟨rfl, small⟩]
    simp [Except.map]
  · cases bounded : boundedPayload 8 payload with
    | error e => simp [bounded, Except.map] at h
    | ok value =>
      obtain ⟨rfl, small⟩ := boundedPayload_eq_ok_iff.1 bounded
      simp only [bounded, Except.map, Except.ok.injEq] at h
      subst h
      have kept : (UInt64.ofNat value).toNat = value := by
        simpa using Nat.mod_eq_of_lt small
      exact ⟨by rw [kept], rfl⟩
  · exact length_uint64 n

theorem uint256_lawful : uint256.Lawful id := by
  refine Lawful.withLength (Lawful.string (fun n => ?_) fun {payload n} h => ?_) fun n => ?_
  · rw [noLeadingZero_ofNat]
    have same : Quantity.ofBytes (Bytes.ofNat n.toNat) = Quantity.ofUInt256 n := by
      rw [Quantity.ofBytes, Bytes.toNat_ofNat]
      rfl
    simp [same]
  · split at h
    · cases h
    · next found lead =>
      obtain ⟨start, rfl⟩ := noLeadingZero_eq_ok_iff.1 lead
      split at h
      · cases h
      · next narrowed fits =>
        cases h
        have number := congrArg Quantity.toNat (Quantity.ofUInt256_of_toUInt256? fits)
        refine ⟨?_, rfl⟩
        rw [show n.toNat = Bytes.toNat found from number, Bytes.ofNat_toNat start]
  · exact length_uint256 n

theorem flag_lawful : flag.Lawful id := by
  have one : Bytes.ofNat 1 = [1] := Bytes.ofNat_of_lt (by decide) (by decide)
  have zero : boundedPayload 1 [] = .ok 0 :=
    boundedPayload_eq_ok_iff.2 ⟨Bytes.ofNat_zero.symm, by decide⟩
  have unit : boundedPayload 1 [1] = .ok 1 :=
    boundedPayload_eq_ok_iff.2 ⟨one.symm, by decide⟩
  refine Lawful.withLength (Lawful.string (fun b => ?_) fun {payload b} h => ?_) fun b => ?_
  · cases b with
    | false => simp [zero]
    | true => simp [unit]
  · split at h
    · cases h
    · next bounded =>
      cases h
      obtain ⟨rfl, -⟩ := boundedPayload_eq_ok_iff.1 bounded
      simp
    · next bounded =>
      cases h
      obtain ⟨rfl, -⟩ := boundedPayload_eq_ok_iff.1 bounded
      simp [one]
    · cases h
  · cases b <;> rfl

theorem bytes_lawful : bytes.Lawful id := by
  refine Lawful.string (fun _ => rfl) fun {payload a} h => ?_
  cases h
  exact ⟨rfl, rfl⟩

theorem fixedBytes_lawful (width : Nat) : (fixedBytes width).Lawful id := by
  refine Lawful.string (fun fixed => ?_) fun {payload fixed} h => ?_
  · simp
  · split at h
    · cases h
    · next found made =>
      cases h
      exact ⟨FixedBytes.bytes_of_ofBytes? made, rfl⟩

theorem encode_address (address : Address) :
    (fixedBytes 20).encode address = 0x94 :: address.bytes := by
  have plain : address.bytes.length = 1 → ∀ byte ∈ address.bytes.head?, ¬ byte < 0x80 := by
    rw [address.length_eq]
    simp
  have item : encodeString address.bytes = 0x94 :: address.bytes := by
    rw [encodeString_of_not_own plain, address.length_eq, Header.encode_of_lt (by decide)]
    rfl
  exact item

/-- A recipient cannot be mistaken for the byte that says there is none. -/
theorem optionalAddress_lawful : optionalAddress.Lawful id where
  length_encode
    | none => rfl
    | some address => (fixedBytes_lawful 20).length_encode address
  read_encode
    | none, rest, _ => rfl
    | some address, rest, small => by
      have read := (fixedBytes_lawful 20).read_encode address rest small
      have mapped : ((fixedBytes 20).map some).read ((fixedBytes 20).encode address ++ rest)
          = .ok (some address, rest) := Reader.map_eq_ok_iff.2 ⟨address, read, rfl⟩
      -- The byte in front of an address is not the one that stands for none.
      rw [encode_address, List.cons_append] at mapped
      simp only [optionalAddress]
      rw [encode_address, List.cons_append]
      exact mapped
  eq_encode {input a rest} h := by
    simp only [optionalAddress] at h
    split at h
    · cases h
    · split at h
      · next mark =>
        cases h
        rw [mark]
        rfl
      · obtain ⟨address, read, rfl⟩ := Reader.map_eq_ok_iff.1 h
        exact (fixedBytes_lawful 20).eq_encode read
  normal_eq _ := rfl

theorem optionalQuantity_lawful :
    optionalQuantity.Lawful fun q? => if q? = some 0 then none else q? := by
  refine quantity_lawful.convert (fun q? => ?_) fun q => ?_
  · cases q? <;> simp
  · by_cases zero : q = 0 <;> simp [zero]

end Codec

end TxEnvelope.Rlp
