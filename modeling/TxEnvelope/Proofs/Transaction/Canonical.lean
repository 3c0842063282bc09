import TxEnvelope.Canonical
import TxEnvelope.Proofs.Transaction.Body

/-! Canonical bytes and transactions in normal form determine each other.

Every transaction is read back from its canonical bytes in normal form,
whatever follows them, and nothing but canonical bytes is read. So one
transaction in normal form has one byte string, and one digest.
-/

set_option autoImplicit false

namespace TxEnvelope

theorem Kind.eq_legacy {kind : Kind} (untyped : ¬ kind.isTyped = true) : kind = .legacy := by
  simpa [isTyped] using untyped

theorem SystemTx.withoutZeroMint_eq_self_iff (tx : SystemTx) :
    tx.withoutZeroMint = tx ↔ tx.mint ≠ some 0 := by
  by_cases zero : tx.mint = some 0 <;> simp [withoutZeroMint, SystemTx.ext_iff, zero]

theorem SystemTx.encode_withoutZeroMint (tx : SystemTx) :
    SystemTx.fields.encode tx.withoutZeroMint = SystemTx.fields.encode tx := by
  by_cases zero : tx.mint = some 0
  · obtain ⟨source, sender, recipient, mint, value, gas, system, input⟩ := tx
    obtain rfl : mint = some 0 := zero
    rfl
  · rw [(withoutZeroMint_eq_self_iff tx).2 zero]

namespace Transaction

def IsNormal : Transaction → Prop
  | .annotatedDeposit _ _ => False
  | .deposit tx | .offchain tx => tx.mint ≠ some 0
  | _ => True

theorem normalise_eq_self_iff (tx : Transaction) : tx.normalise = tx ↔ tx.IsNormal := by
  cases tx <;> simp [normalise, IsNormal, SystemTx.withoutZeroMint_eq_self_iff]

theorem normalise_isNormal (tx : Transaction) : tx.normalise.IsNormal := by
  have kept (inner : SystemTx) : inner.withoutZeroMint.mint ≠ some 0 := by
    unfold SystemTx.withoutZeroMint
    split <;> simp_all
  cases tx <;> simp [normalise, IsNormal, kept]

@[simp] theorem kind_normalise (tx : Transaction) : tx.normalise.kind = tx.kind := by
  cases tx <;> rfl

theorem encodeFields_normalise (tx : Transaction) :
    tx.normalise.encodeFields = tx.encodeFields := by
  cases tx with
  | deposit inner | annotatedDeposit inner nonce | offchain inner =>
    exact inner.encode_withoutZeroMint
  | _ => rfl

theorem length_encodeFields (tx : Transaction) : tx.encodeFields.length = tx.fieldsLength :=
  tx.kind.fields_lawful.length_encode tx.content

theorem fieldsLength_normalise (tx : Transaction) :
    tx.normalise.fieldsLength = tx.fieldsLength := by
  rw [← length_encodeFields, ← length_encodeFields, encodeFields_normalise]

theorem encodeBody_eq (tx : Transaction) :
    tx.encodeBody = (Rlp.Header.mk true tx.fieldsLength).encode ++ tx.encodeFields := rfl

theorem encode_normalise (tx : Transaction) : tx.normalise.encode = tx.encode := by
  rw [encode, encode, typeFlag, typeFlag, encodeBody_eq, encodeBody_eq, kind_normalise,
    fieldsLength_normalise, encodeFields_normalise]

theorem encode_of_isTyped {tx : Transaction} (typed : tx.kind.isTyped = true) :
    tx.encode = tx.kind.byte :: tx.encodeBody := by
  simp [encode, typeFlag, typed]

theorem encode_of_legacy {tx : Transaction} (legacy : tx.kind = .legacy) :
    tx.encode = tx.encodeBody := by
  simp [encode, typeFlag, legacy, Kind.isTyped]

theorem length_encodeBody (tx : Transaction) : tx.encodeBody.length = tx.bodyLength :=
  tx.kind.body_lawful.length_encode tx.content

theorem length_encode (tx : Transaction) : tx.encode.length = tx.encodedLength := by
  by_cases typed : tx.kind.isTyped = true
  · rw [encode_of_isTyped typed, List.length_cons, length_encodeBody, encodedLength, if_pos typed]
  · rw [encode_of_legacy (Kind.eq_legacy typed), length_encodeBody, encodedLength, if_neg typed]

theorem fieldsLength_le (tx : Transaction) : tx.fieldsLength ≤ tx.encode.length := by
  rw [encode, encodeBody_eq, List.length_append, List.length_append, length_encodeFields]
  omega

theorem decodeBody_eq_ok_iff {kind : Kind} {input rest : Bytes} {tx : Transaction} :
    decodeBody kind input = .ok (tx, rest) ↔
      tx.kind = kind ∧ tx.IsNormal ∧ tx.fieldsLength < 2 ^ 64 ∧ input = tx.encodeBody ++ rest := by
  -- The content of a kind is read as its codec says; the rest is about the kind around it.
  have body {content : kind.Content} : kind.body.read input = .ok (content, rest) ↔
      kind.normalise content = content ∧ kind.fields.length content < 2 ^ 64 ∧
        input = kind.body.encode content ++ rest := kind.fields_lawful.enclosed_eq_ok_iff
  constructor
  · intro h
    obtain ⟨content, read, rfl⟩ := Reader.map_eq_ok_iff.1 h
    obtain ⟨normal, small, rfl⟩ := body.1 read
    refine ⟨kind_ofContent kind content, ?_, ?_⟩
    · rw [← normalise_eq_self_iff]
      cases kind <;> exact congrArg _ normal
    · cases kind <;> exact ⟨small, rfl⟩
  · rintro ⟨rfl, normal, small, written⟩
    refine Reader.map_eq_ok_iff.2 ⟨tx.content, body.2 ⟨?_, small, written⟩, ?_⟩
    · cases tx with
      | annotatedDeposit inner nonce => exact normal.elim
      | deposit inner | offchain inner =>
        exact (SystemTx.withoutZeroMint_eq_self_iff inner).2 normal
      | _ => rfl
    · cases tx with
      | annotatedDeposit inner nonce => exact normal.elim
      | _ => rfl

theorem decodeUntyped_eq_ok_iff {input rest : Bytes} {tx : Transaction} :
    decodeUntyped input = .ok (tx, rest) ↔
      tx.kind = .legacy ∧ tx.IsNormal ∧ tx.fieldsLength < 2 ^ 64 ∧ input = tx.encode ++ rest := by
  rw [decodeUntyped, mapError_eq_ok_iff, decodeBody_eq_ok_iff]
  refine and_congr_right fun legacy => ?_
  rw [encode_of_legacy legacy]

theorem decodeTyped_eq_ok_iff {byte : UInt8} {input rest : Bytes} {tx : Transaction} :
    decodeTyped byte input = .ok (tx, rest) ↔
      tx.kind.isTyped = true ∧ tx.IsNormal ∧ tx.fieldsLength < 2 ^ 64 ∧
        byte :: input = tx.encode ++ rest := by
  unfold decodeTyped
  constructor
  · intro h
    split at h
    · cases h
    · cases h
    · next kind untyped found =>
      obtain ⟨rfl, normal, small, rfl⟩ := decodeBody_eq_ok_iff.1 (mapError_eq_ok_iff.1 h)
      have typed : tx.kind.isTyped = true := bne_iff_ne.2 untyped
      refine ⟨typed, normal, small, ?_⟩
      rw [encode_of_isTyped typed, List.cons_append, Kind.byte_of_ofByte? found]
  · rintro ⟨typed, normal, small, written⟩
    rw [encode_of_isTyped typed, List.cons_append] at written
    obtain ⟨rfl, rfl⟩ := List.cons.inj written
    have read : decodeBody tx.kind (tx.encodeBody ++ rest) = .ok (tx, rest) :=
      decodeBody_eq_ok_iff.2 ⟨rfl, normal, small, rfl⟩
    rw [Kind.ofByte?_byte]
    cases kind : tx.kind with
    | legacy => simp [kind, Kind.isTyped] at typed
    | _ => exact mapError_eq_ok_iff.2 (kind ▸ read)

theorem encodeBody_eq_cons {tx : Transaction} (small : tx.fieldsLength < 2 ^ 64) :
    ∃ byte tail, tx.encodeBody = byte :: tail ∧ ¬ byte ≤ 0x7f := by
  have first := @Rlp.Header.encode_eq_cons ⟨true, tx.fieldsLength⟩ small
  obtain ⟨byte, tail, start, above⟩ := first
  refine ⟨byte, tail ++ tx.encodeFields, by rw [encodeBody_eq, start]; rfl, fun le => ?_⟩
  have low : byte.toNat ≤ 0x7f := UInt8.le_iff_toNat_le.1 le
  simp only [Rlp.Header.base, if_true] at above
  omega

/-- Exactly the canonical bytes of normal transactions are read, whatever follows them. -/
theorem decode_eq_ok_iff {input rest : Bytes} {tx : Transaction} :
    decode input = .ok (tx, rest) ↔
      tx.IsNormal ∧ tx.fieldsLength < 2 ^ 64 ∧ input = tx.encode ++ rest := by
  constructor
  · intro h
    cases input with
    | nil => exact (decodeUntyped_eq_ok_iff.1 h).2
    | cons byte body =>
      -- The first byte tells which of the two readers is asked.
      by_cases flag : byte ≤ 0x7f
      · rw [decode_of_le flag] at h
        exact (decodeTyped_eq_ok_iff.1 h).2
      · rw [decode_of_not_le flag] at h
        exact (decodeUntyped_eq_ok_iff.1 h).2
  · rintro ⟨normal, small, written⟩
    -- A written transaction asks the same one: type bytes are low, and a legacy body starts above.
    by_cases typed : tx.kind.isTyped = true
    · have flag : tx.kind.byte ≤ 0x7f := by cases tx.kind <;> decide
      have start := written
      rw [encode_of_isTyped typed, List.cons_append] at start
      rw [start] at written ⊢
      rw [decode_of_le flag]
      exact decodeTyped_eq_ok_iff.2 ⟨typed, normal, small, written⟩
    · have legacy := Kind.eq_legacy typed
      obtain ⟨byte, tail, body, above⟩ := encodeBody_eq_cons small
      have start := written
      rw [encode_of_legacy legacy, body, List.cons_append] at start
      rw [start] at written ⊢
      rw [decode_of_not_le above]
      exact decodeUntyped_eq_ok_iff.2 ⟨legacy, normal, small, written⟩

theorem decode_encode_append {tx : Transaction} (small : tx.encode.length < 2 ^ 64)
    (rest : Bytes) : decode (tx.encode ++ rest) = .ok (tx.normalise, rest) := by
  have fields := tx.fieldsLength_le
  refine decode_eq_ok_iff.2 ⟨tx.normalise_isNormal, ?_, ?_⟩
  · rw [fieldsLength_normalise]
    omega
  · rw [encode_normalise]

theorem decodeExact_eq_ok_iff {input : Bytes} {tx : Transaction} :
    decodeExact input = .ok tx ↔ decode input = .ok (tx, []) := by
  unfold decodeExact
  split <;> simp_all

theorem decodeExact_encode {tx : Transaction} (small : tx.encode.length < 2 ^ 64) :
    decodeExact tx.encode = .ok tx.normalise := by
  have read := decode_encode_append small []
  rw [List.append_nil] at read
  exact decodeExact_eq_ok_iff.2 read

/-- A transaction comes back from its canonical bytes without its annotation and without a zero
mint, and leaves every byte behind them unread. -/
theorem canonical_round_trip (tx : Transaction) (small : tx.encode.length < 2 ^ 64) :
    (∀ rest, decode (tx.encode ++ rest) = .ok (tx.normalise, rest)) ∧
      decodeExact tx.encode = .ok tx.normalise := by
  refine ⟨decode_encode_append small, decodeExact_eq_ok_iff.2 ?_⟩
  simpa using decode_encode_append small []

/-- The annotation and the zero mint of a deposit are gone afterwards. -/
theorem canonical_round_trip_annotated :
    let call : SystemTx := ⟨.zero 32, .zero 20, none, some 0, 7, 21000, true, List.replicate 60 1⟩
    (annotatedDeposit call 5).encode.length < 2 ^ 64 ∧
      (∀ rest, decode ((annotatedDeposit call 5).encode ++ rest)
        = .ok (deposit { call with mint := none }, rest)) ∧
      decodeExact (annotatedDeposit call 5).encode = .ok (deposit { call with mint := none }) :=
  ⟨by decide +kernel, canonical_round_trip _ (by decide +kernel)⟩

/-- Canonical bytes are the only spelling of a transaction. Whatever is read is the encoding of
the normal transaction it is read as; a byte string is read as a whole exactly if it is such an
encoding, with a body whose length has at most 64 bits; and no two byte strings are read alike. -/
theorem canonical_bytes_unique :
    (∀ (input rest : Bytes) (tx : Transaction), decode input = .ok (tx, rest) →
      input = tx.encode ++ rest ∧ tx.IsNormal) ∧
    (∀ (input : Bytes) (tx : Transaction), decodeExact input = .ok tx ↔
      tx.IsNormal ∧ tx.fieldsLength < 2 ^ 64 ∧ input = tx.encode) ∧
    (∀ (input : Bytes) (tx : Transaction), input.length < 2 ^ 64 →
      (decodeExact input = .ok tx ↔ tx.IsNormal ∧ input = tx.encode)) ∧
    ∀ (first second rest : Bytes) (tx : Transaction), decode first = .ok (tx, rest) →
      decode second = .ok (tx, rest) → first = second := by
  have whole {input : Bytes} {tx : Transaction} : decodeExact input = .ok tx ↔
      tx.IsNormal ∧ tx.fieldsLength < 2 ^ 64 ∧ input = tx.encode := by
    rw [decodeExact_eq_ok_iff, decode_eq_ok_iff, List.append_nil]
  refine ⟨?_, fun input tx => whole, ?_, ?_⟩
  · intro input rest tx read
    obtain ⟨normal, -, written⟩ := decode_eq_ok_iff.1 read
    exact ⟨written, normal⟩
  · intro input tx short
    refine whole.trans ⟨fun ⟨normal, _, written⟩ => ⟨normal, written⟩, ?_⟩
    rintro ⟨normal, rfl⟩
    exact ⟨normal, Nat.lt_of_le_of_lt tx.fieldsLength_le short, rfl⟩
  · intro first second rest tx left right
    rw [(decode_eq_ok_iff.1 left).2.2, (decode_eq_ok_iff.1 right).2.2]

/-- The shortest legacy transaction, with a byte behind it. -/
theorem canonical_bytes_unique_legacy :
    let tx : Transaction := .legacy ⟨0, 0, 0, none, 0, [], .zero⟩
    decode [0xc9, 0x80, 0x80, 0x80, 0x80, 0x80, 0x80, 0x80, 0x80, 0x80, 0x05] = .ok (tx, [5]) ∧
      [0xc9, 0x80, 0x80, 0x80, 0x80, 0x80, 0x80, 0x80, 0x80, 0x80, 0x05] = tx.encode ++ [5] ∧
      tx.IsNormal :=
  ⟨rfl, canonical_bytes_unique.1 _ _ _ rfl⟩

end Transaction

end TxEnvelope
