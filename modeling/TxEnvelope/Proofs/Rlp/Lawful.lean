import TxEnvelope.Proofs.Reader
import TxEnvelope.Proofs.Rlp.Header

/-! The laws of a codec, and that every combinator keeps them.

A lawful codec reads back what it wrote, up to a normal form, reads nothing
else, and says beforehand how much it writes. The reader takes only its own
bytes, so it does not matter what follows them.
-/

set_option autoImplicit false

namespace TxEnvelope.Rlp.Codec

variable {α β : Type}

theorem encode_both (first : Codec α) (second : Codec β) (p : α × β) :
    (first.both second).encode p = first.encode p.1 ++ second.encode p.2 := rfl

theorem encode_enclosed (codec : Codec α) (a : α) :
    codec.enclosed.encode a = (Header.mk true (codec.length a)).encode ++ codec.encode a := rfl

theorem encode_measured (codec : Codec α) (a : α) :
    codec.measured.encode a = (Header.mk true (codec.length a)).encode ++ codec.encode a := rfl

theorem encode_list (codec : Codec α) (items : List α) :
    codec.list.encode items
      = (Header.mk true (codec.totalLength items)).encode ++ items.flatMap codec.encode := rfl

/-- A value comes back in its normal form, and only from the bytes of a normal value. Items of
2^64 bytes and more have no header. -/
structure Lawful (codec : Codec α) (normal : α → α) : Prop where
  length_encode : ∀ a, (codec.encode a).length = codec.length a
  read_encode : ∀ a rest, (codec.encode a).length < 2 ^ 64 →
    codec.read (codec.encode a ++ rest) = .ok (normal a, rest)
  eq_encode : ∀ {input a rest}, codec.read input = .ok (a, rest) → input = codec.encode a ++ rest
  normal_eq : ∀ {input a rest}, codec.read input = .ok (a, rest) → normal a = a

namespace Lawful

variable {codec : Codec α} {normal : α → α}

theorem encode_ne_nil (laws : codec.Lawful normal) (a : α) : codec.encode a ≠ [] := by
  intro empty
  have read := laws.read_encode a [] (by simp [empty])
  have less := codec.shrinks read
  simp [empty] at less

theorem withLength (laws : codec.Lawful normal) {length : α → Nat}
    (same : ∀ a, length a = codec.length a) : { codec with length }.Lawful normal where
  length_encode a := (laws.length_encode a).trans (same a).symm
  read_encode := laws.read_encode
  eq_encode := laws.eq_encode
  normal_eq := laws.normal_eq

theorem string {toPayload : α → Bytes} {ofPayload : Bytes → Except Error α}
    (back : ∀ a, ofPayload (toPayload a) = .ok (normal a))
    (forth : ∀ {payload a}, ofPayload payload = .ok a → toPayload a = payload ∧ normal a = a) :
    (Codec.string toPayload ofPayload).Lawful normal where
  length_encode a := length_encodeString (toPayload a)
  read_encode a rest small := by
    refine Reader.refine_eq_ok_iff.2 ⟨toPayload a, ?_, back a⟩
    have payload := length_le_encodeString (toPayload a)
    have whole : (encodeString (toPayload a)).length < 2 ^ 64 := small
    exact payloadReader_string_eq_ok_iff.2 ⟨by omega, rfl⟩
  eq_encode h := by
    obtain ⟨payload, read, made⟩ := Reader.refine_eq_ok_iff.1 h
    obtain ⟨-, rfl⟩ := payloadReader_string_eq_ok_iff.1 read
    rw [← (forth made).1]
    rfl
  normal_eq h := by
    obtain ⟨payload, -, made⟩ := Reader.refine_eq_ok_iff.1 h
    exact (forth made).2

theorem both {first : Codec α} {second : Codec β} {normal : α → α} {normal' : β → β}
    (one : first.Lawful normal) (two : second.Lawful normal') :
    (first.both second).Lawful (Prod.map normal normal') where
  length_encode p := by
    simp [Codec.both, one.length_encode, two.length_encode]
  read_encode p rest small := by
    rw [encode_both] at small ⊢
    rw [List.length_append] at small
    refine Reader.both_eq_ok_iff.2 ⟨second.encode p.2 ++ rest, ?_, ?_⟩
    · rw [List.append_assoc]
      exact one.read_encode p.1 _ (by omega)
    · exact two.read_encode p.2 rest (by omega)
  eq_encode h := by
    obtain ⟨mid, left, right⟩ := Reader.both_eq_ok_iff.1 h
    rw [one.eq_encode left, two.eq_encode right, encode_both, List.append_assoc]
  normal_eq h := by
    obtain ⟨mid, left, right⟩ := Reader.both_eq_ok_iff.1 h
    exact Prod.ext (one.normal_eq left) (two.normal_eq right)

theorem convert (laws : codec.Lawful normal) {make : α → β} {view : β → α} {normal' : β → β}
    (back : ∀ b, make (normal (view b)) = normal' b) (forth : ∀ a, view (make a) = a) :
    (codec.convert make view).Lawful normal' where
  length_encode b := laws.length_encode (view b)
  read_encode b rest small :=
    Reader.map_eq_ok_iff.2 ⟨normal (view b), laws.read_encode (view b) rest small, back b⟩
  eq_encode h := by
    obtain ⟨a, read, rfl⟩ := Reader.map_eq_ok_iff.1 h
    rw [laws.eq_encode read]
    simp [Codec.convert, forth]
  normal_eq h := by
    obtain ⟨a, read, rfl⟩ := Reader.map_eq_ok_iff.1 h
    rw [← back, forth, laws.normal_eq read]

theorem readExactly_eq_ok_iff {payload : Bytes} {a : α} :
    codec.readExactly payload = .ok a ↔ codec.read payload = .ok (a, []) := by
  unfold readExactly
  split
  · next e failed => simp [failed]
  · next b rest found =>
    rw [found]
    cases rest <;> simp

/-- A body is read from its header and its fields, if its header can name their length. -/
theorem enclosed_eq_ok_iff (laws : codec.Lawful normal) {input rest : Bytes} {a : α} :
    codec.enclosed.read input = .ok (a, rest) ↔
      normal a = a ∧ codec.length a < 2 ^ 64 ∧ input = codec.enclosed.encode a ++ rest := by
  rw [← laws.length_encode, encode_enclosed, List.append_assoc]
  constructor
  · intro h
    obtain ⟨payload, read, whole⟩ := Reader.refine_eq_ok_iff.1 h
    obtain ⟨small, rfl⟩ := payloadReader_list_eq_ok_iff.1 read
    have inner := readExactly_eq_ok_iff.1 whole
    obtain rfl := laws.eq_encode inner
    rw [List.append_nil] at small ⊢
    exact ⟨laws.normal_eq inner, small, by rw [laws.length_encode]⟩
  · rintro ⟨normals, small, rfl⟩
    refine Reader.refine_eq_ok_iff.2 ⟨codec.encode a, ?_, readExactly_eq_ok_iff.2 ?_⟩
    · exact payloadReader_list_eq_ok_iff.2 ⟨small, by rw [laws.length_encode]⟩
    · have read := laws.read_encode a [] small
      rwa [List.append_nil, normals] at read

theorem enclosed (laws : codec.Lawful normal) : codec.enclosed.Lawful normal where
  length_encode a := by
    simp [Codec.enclosed, Header.length_encode, laws.length_encode]
  read_encode a rest small := by
    rw [encode_enclosed] at small ⊢
    rw [List.length_append] at small
    refine Reader.refine_eq_ok_iff.2 ⟨codec.encode a, ?_, ?_⟩
    · refine payloadReader_list_eq_ok_iff.2 ⟨by omega, ?_⟩
      rw [laws.length_encode, List.append_assoc]
    · have read := laws.read_encode a [] (by omega)
      rw [List.append_nil] at read
      exact readExactly_eq_ok_iff.2 read
  eq_encode h := (laws.enclosed_eq_ok_iff.1 h).2.2
  normal_eq h := (laws.enclosed_eq_ok_iff.1 h).1

theorem measured_eq_ok_iff {input rest : Bytes} {a : α} :
    codec.measured.read input = .ok (a, rest) ↔
      ∃ payload body, Header.decode input = .ok (⟨true, payload⟩, body) ∧
        codec.read body = .ok (a, rest) ∧ body.length - rest.length = payload := by
  constructor
  · intro h
    simp only [measured] at h
    split at h
    · cases h
    · next header body found =>
      obtain ⟨isList, payload⟩ := header
      split at h
      · next sort =>
        obtain rfl : isList = true := sort
        split at h
        · cases h
        · next value left inner =>
          split at h
          · next taken =>
            cases h
            exact ⟨payload, body, found, inner, taken⟩
          · cases h
      · cases h
  · rintro ⟨payload, body, found, inner, taken⟩
    simp [measured, found, inner, taken]

theorem measured (laws : codec.Lawful normal) : codec.measured.Lawful normal where
  length_encode a := by
    simp [Codec.measured, Header.length_encode, laws.length_encode]
  read_encode a rest small := by
    rw [encode_measured] at small ⊢
    rw [List.length_append] at small
    have length := laws.length_encode a
    refine measured_eq_ok_iff.2 ⟨codec.length a, codec.encode a ++ rest, ?_, ?_, ?_⟩
    · rw [List.append_assoc]
      apply Header.decode_encode_list (by omega)
      simp [← length]
    · exact laws.read_encode a rest (by omega)
    · simp [laws.length_encode]
  eq_encode {input a rest} h := by
    obtain ⟨payload, body, found, inner, taken⟩ := measured_eq_ok_iff.1 h
    obtain rfl := laws.eq_encode inner
    have size : payload = codec.length a := by
      rw [← taken, ← laws.length_encode]
      simp
    -- The fields were read to the length that the header names, so it is the one they would tell.
    cases Header.decode_eq_ok_iff.1 found with
    | spelled small there plain => rw [size, encode_measured, List.append_assoc]
  normal_eq h := by
    obtain ⟨payload, body, -, inner, -⟩ := measured_eq_ok_iff.1 h
    exact laws.normal_eq inner

theorem length_flatMap (laws : codec.Lawful normal) (items : List α) :
    (items.flatMap codec.encode).length = codec.totalLength items := by
  induction items with
  | nil => rfl
  | cons a items ih =>
    rw [List.flatMap_cons, List.length_append, ih, laws.length_encode]
    rfl

theorem readAll_flatMap (laws : codec.Lawful normal) {items : List α}
    (small : (items.flatMap codec.encode).length < 2 ^ 64) :
    codec.readAll (items.flatMap codec.encode) = .ok (items.map normal) := by
  have reads : ∀ a ∈ items, ∀ rest, codec.read (codec.encode a ++ rest) = .ok (normal a, rest) :=
    fun a mem rest => laws.read_encode a rest
      (Nat.lt_of_le_of_lt (Reader.length_le_flatMap codec.encode mem) small)
  have rounds := Reader.rounds_flatMap reads []
  rw [List.append_nil] at rounds
  exact Reader.readAll_eq_ok_iff.2 rounds

theorem eq_flatMap_of_readAll (laws : codec.Lawful normal) {items : List α} {input : Bytes}
    (h : codec.readAll input = .ok items) :
    input = items.flatMap codec.encode ∧ items.map normal = items := by
  have rounds := Reader.readAll_eq_ok_iff.1 h
  constructor
  · rw [rounds.eq_flatMap laws.eq_encode, List.append_nil]
  · exact (List.map_congr_left (rounds.forall_mem laws.normal_eq)).trans items.map_id

theorem list (laws : codec.Lawful normal) : codec.list.Lawful (List.map normal) where
  length_encode items := by
    simp [Codec.list, Header.length_encode, laws.length_flatMap]
  read_encode items rest small := by
    rw [encode_list] at small ⊢
    rw [List.length_append] at small
    refine Reader.refine_eq_ok_iff.2
      ⟨items.flatMap codec.encode, ?_, laws.readAll_flatMap (by omega)⟩
    refine payloadReader_list_eq_ok_iff.2 ⟨by omega, ?_⟩
    rw [laws.length_flatMap, List.append_assoc]
  eq_encode h := by
    obtain ⟨payload, read, whole⟩ := Reader.refine_eq_ok_iff.1 h
    obtain ⟨-, rfl⟩ := payloadReader_list_eq_ok_iff.1 read
    obtain ⟨rfl, -⟩ := laws.eq_flatMap_of_readAll whole
    rw [laws.length_flatMap, encode_list, List.append_assoc]
  normal_eq h := by
    obtain ⟨payload, -, whole⟩ := Reader.refine_eq_ok_iff.1 h
    exact (laws.eq_flatMap_of_readAll whole).2

theorem list_id (laws : codec.Lawful id) : codec.list.Lawful id := by
  have items := laws.list
  rwa [List.map_id_fun] at items

end Lawful

end TxEnvelope.Rlp.Codec
