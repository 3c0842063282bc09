import TxEnvelope.Network
import TxEnvelope.Proofs.Transaction.Canonical

/-! What is accepted in network form.

A transaction in normal form is read from its canonical bytes, bare or behind
the header of a string. The header may announce any length that is there, since
the body alone says where the transaction ends; only the length one is left
out, because a type byte is its own string. So the bytes of a transaction, and
with them its digest, are the same however it was wrapped.
-/

set_option autoImplicit false

namespace TxEnvelope

theorem Kind.byte_lt (kind : Kind) : kind.byte < 0x80 := by
  cases kind <;> decide

namespace Transaction

/-- What may stand in front of the canonical bytes of a transaction that `rest` follows: nothing,
or, if it is typed, the header of a string whose length is there and is not one. -/
def IsWrapper (tx : Transaction) (rest wrapper : Bytes) : Prop :=
  wrapper = [] ∨ tx.kind.isTyped = true ∧ ∃ payload, payload ≠ 1 ∧ payload < 2 ^ 64 ∧
    payload ≤ tx.encode.length + rest.length ∧ wrapper = (Rlp.Header.mk false payload).encode

theorem decodeNetwork_eq_ok_iff_announces {input rest : Bytes} {tx : Transaction} :
    decodeNetwork input = .ok (tx, rest) ↔
      (∃ payload left, Rlp.Header.Announces input ⟨true, payload⟩ left ∧
        decodeUntyped input = .ok (tx, rest)) ∨
      ∃ payload byte body, Rlp.Header.Announces input ⟨false, payload⟩ (byte :: body) ∧
        decodeTyped byte body = .ok (tx, rest) := by
  simp only [← Rlp.Header.decode_eq_ok_iff, decodeNetwork]
  cases found : Rlp.Header.decode input with
  | error e => simp
  | ok result =>
    obtain ⟨⟨isList, payload⟩, left⟩ := result
    -- A list is read with its header, anything else behind its header.
    cases isList with
    | true => simp
    | false =>
      cases left with
      | nil => simp
      | cons byte body =>
        constructor
        · intro read
          exact .inr ⟨payload, byte, body, rfl, read⟩
        · rintro (⟨_, _, ⟨⟩, _⟩ | ⟨_, _, _, ⟨⟩, read⟩)
          exact read

theorem announces_of_legacy {tx : Transaction} (legacy : tx.kind = .legacy)
    (small : tx.fieldsLength < 2 ^ 64) (rest : Bytes) :
    Rlp.Header.Announces (tx.encode ++ rest) ⟨true, tx.fieldsLength⟩ (tx.encodeFields ++ rest) := by
  rw [encode_of_legacy legacy, encodeBody_eq, List.append_assoc]
  exact .spelled small (by simp [length_encodeFields]) (by simp)

theorem IsWrapper.announces {tx : Transaction} {rest wrapper : Bytes}
    (typed : tx.kind.isTyped = true) (wraps : tx.IsWrapper rest wrapper) :
    ∃ payload, Rlp.Header.Announces (wrapper ++ (tx.encode ++ rest)) ⟨false, payload⟩
      (tx.encode ++ rest) := by
  rcases wraps with rfl | ⟨-, payload, other, small, there, rfl⟩
  · rw [List.nil_append, encode_of_isTyped typed, List.cons_append]
    exact ⟨1, .own tx.kind.byte_lt⟩
  · refine ⟨payload, .spelled small (by simpa using there) fun one => ?_⟩
    exact absurd (congrArg Rlp.Header.payload one) other

/-- The network form is read exactly where a wrapper stands in front of canonical bytes. -/
theorem decodeNetwork_eq_ok_iff {input rest : Bytes} {tx : Transaction} :
    decodeNetwork input = .ok (tx, rest) ↔
      tx.IsNormal ∧ tx.fieldsLength < 2 ^ 64 ∧
        ∃ wrapper, tx.IsWrapper rest wrapper ∧ input = wrapper ++ (tx.encode ++ rest) := by
  rw [decodeNetwork_eq_ok_iff_announces]
  constructor
  · rintro (⟨payload, left, announced, read⟩ | ⟨payload, byte, body, announced, read⟩)
    · obtain ⟨-, normal, small, written⟩ := decodeUntyped_eq_ok_iff.1 read
      exact ⟨normal, small, [], .inl rfl, written⟩
    · obtain ⟨typed, normal, small, written⟩ := decodeTyped_eq_ok_iff.1 read
      rw [← written]
      refine ⟨normal, small, ?_⟩
      have length := congrArg List.length written
      rw [List.length_append] at length
      cases announced with
      | own below => exact ⟨[], .inl rfl, rfl⟩
      | spelled short there plain =>
        refine ⟨_, .inr ⟨typed, payload, ?_, short, length ▸ there, rfl⟩, rfl⟩
        rintro rfl
        -- The header of a single byte does not go before a byte that is its own header.
        rw [encode_of_isTyped typed, List.cons_append] at written
        refine plain rfl byte rfl ?_
        rw [(List.cons.inj written).1]
        exact tx.kind.byte_lt
  · rintro ⟨normal, small, wrapper, wraps, rfl⟩
    by_cases typed : tx.kind.isTyped = true
    · obtain ⟨payload, announced⟩ := wraps.announces typed
      have start : tx.encode ++ rest = tx.kind.byte :: (tx.encodeBody ++ rest) := by
        rw [encode_of_isTyped typed, List.cons_append]
      rw [start] at announced ⊢
      exact .inr ⟨payload, _, _, announced,
        decodeTyped_eq_ok_iff.2 ⟨typed, normal, small, start.symm⟩⟩
    · have legacy := Kind.eq_legacy typed
      obtain rfl : wrapper = [] := wraps.resolve_right fun h => typed h.1
      exact .inl ⟨_, _, announces_of_legacy legacy small rest,
        decodeUntyped_eq_ok_iff.2 ⟨legacy, normal, small, rfl⟩⟩

theorem isWrapper_normalise {tx : Transaction} {rest wrapper : Bytes} :
    tx.normalise.IsWrapper rest wrapper ↔ tx.IsWrapper rest wrapper := by
  rw [IsWrapper, IsWrapper, kind_normalise, encode_normalise]

theorem length_encode_ne_one {tx : Transaction} (typed : tx.kind.isTyped = true) :
    tx.encode.length ≠ 1 := by
  have body : 0 < tx.encodeBody.length :=
    List.length_pos_iff.2 (tx.kind.body_lawful.encode_ne_nil tx.content)
  rw [encode_of_isTyped typed, List.length_cons]
  omega

theorem isWrapper_networkHeader {tx : Transaction} (small : tx.encode.length < 2 ^ 64)
    (rest : Bytes) : tx.IsWrapper rest tx.networkHeader := by
  by_cases typed : tx.kind.isTyped = true
  · rw [networkHeader, if_pos typed, ← length_encode]
    exact .inr ⟨typed, tx.encode.length, length_encode_ne_one typed, small, by omega, rfl⟩
  · rw [networkHeader, if_neg typed]
    exact .inl rfl

theorem decodeNetwork_encodeNetwork_append {tx : Transaction} (small : tx.encode.length < 2 ^ 64)
    (rest : Bytes) : decodeNetwork (tx.encodeNetwork ++ rest) = .ok (tx.normalise, rest) := by
  have fields := tx.fieldsLength_le
  refine decodeNetwork_eq_ok_iff.2 ⟨tx.normalise_isNormal, ?_, tx.networkHeader, ?_, ?_⟩
  · rw [fieldsLength_normalise]
    omega
  · exact isWrapper_normalise.2 (isWrapper_networkHeader small rest)
  · rw [encode_normalise, encodeNetwork, List.append_assoc]

/-- Exactly these byte strings are read in network form: the canonical bytes of a transaction in
normal form, bare, or, if it is typed, behind a string header that announces any number of bytes
that are there, except one. A transaction comes back from its network form in normal form. And
whatever is in front of them, the bytes on the wire are those that are read as the transaction on
their own and that its digest is taken of. -/
theorem network_language :
    (∀ (input rest : Bytes) (tx : Transaction), input.length < 2 ^ 64 →
      (decodeNetwork input = .ok (tx, rest) ↔
        tx.IsNormal ∧ (input = tx.encode ++ rest ∨
          tx.kind.isTyped = true ∧ ∃ payload, payload ≠ 1 ∧
            payload ≤ tx.encode.length + rest.length ∧
            input = (Rlp.Header.mk false payload).encode ++ (tx.encode ++ rest)))) ∧
    (∀ (input rest : Bytes) (tx : Transaction),
      decodeItem input = .ok (tx, rest) ↔ decodeNetwork input = .ok (tx, rest)) ∧
    (∀ (tx : Transaction) (rest : Bytes), tx.encode.length < 2 ^ 64 →
      decodeNetwork (tx.encodeNetwork ++ rest) = .ok (tx.normalise, rest)) ∧
    ∀ (input rest : Bytes) (tx : Transaction), decodeNetwork input = .ok (tx, rest) →
      ∃ wrapper wire, input = wrapper ++ (wire ++ rest) ∧ tx.IsWrapper rest wrapper ∧
        wire = tx.encode ∧ decodeExact wire = .ok tx ∧ Keccak.digest wire = tx.digest := by
  refine ⟨fun input rest tx short => ?_, fun input rest tx => mapError_eq_ok_iff,
    fun tx rest small => decodeNetwork_encodeNetwork_append small rest, ?_⟩
  · rw [decodeNetwork_eq_ok_iff]
    constructor
    · rintro ⟨normal, -, wrapper, rfl | ⟨typed, payload, other, -, there, rfl⟩, rfl⟩
      · exact ⟨normal, .inl rfl⟩
      · exact ⟨normal, .inr ⟨typed, payload, other, there, rfl⟩⟩
    · rintro ⟨normal, written⟩
      -- The bound on the whole input bounds the body and the length that the header announces.
      have fields := tx.fieldsLength_le
      rcases written with rfl | ⟨typed, payload, other, there, rfl⟩
      · rw [List.length_append] at short
        exact ⟨normal, by omega, [], .inl rfl, rfl⟩
      · rw [List.length_append, List.length_append] at short
        exact ⟨normal, by omega, _, .inr ⟨typed, payload, other, by omega, there, rfl⟩, rfl⟩
  · intro input rest tx read
    obtain ⟨normal, small, wrapper, wraps, written⟩ := decodeNetwork_eq_ok_iff.1 read
    refine ⟨wrapper, tx.encode, written, wraps, rfl, ?_, rfl⟩
    exact decodeExact_eq_ok_iff.2 (decode_eq_ok_iff.2 ⟨normal, small, (List.append_nil _).symm⟩)

/-- A wrapper that announces nothing is accepted in front of an access list transaction. -/
theorem network_language_slack :
    let tx : Transaction := .accessList ⟨1, 0, 0, 0, none, 0, [], [], .zero⟩
    let input : Bytes := 0x80 :: (tx.encode ++ [5])
    decodeNetwork input = .ok (tx, [5]) ∧
      decodeNetwork (tx.encodeNetwork ++ [5]) = .ok (tx, [5]) ∧
      ∃ wrapper wire, input = wrapper ++ (wire ++ [5]) ∧ tx.IsWrapper [5] wrapper ∧
        wire = tx.encode ∧ decodeExact wire = .ok tx ∧ Keccak.digest wire = tx.digest := by
  intro tx input
  have read : decodeNetwork input = .ok (tx, [5]) :=
    (network_language.1 input [5] tx (by decide +kernel)).2
      ⟨trivial, .inr ⟨rfl, 0, by decide, by decide +kernel, rfl⟩⟩
  exact ⟨read, network_language.2.2.1 tx [5] (by decide +kernel),
    network_language.2.2.2 _ _ _ read⟩

end Transaction

end TxEnvelope
