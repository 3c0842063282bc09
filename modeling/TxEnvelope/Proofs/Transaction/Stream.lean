import TxEnvelope.Proofs.Transaction.Canonical

/-! Transactions written one behind the other.

A transaction says itself where it ends, so a stream needs nothing between its
transactions: they are read off the front until nothing is left, and only what
was written is read. Every round takes some bytes, so the reading ends on
whatever it is given.
-/

set_option autoImplicit false

namespace TxEnvelope.Transaction

theorem encode_ne_nil (tx : Transaction) : tx.encode ≠ [] := by
  intro empty
  have body : tx.encodeBody = [] := (List.append_eq_nil_iff.1 empty).2
  exact tx.kind.body_lawful.encode_ne_nil tx.content body

theorem length_of_decode {input rest : Bytes} {tx : Transaction}
    (h : decode input = .ok (tx, rest)) : rest.length < input.length := by
  obtain ⟨-, -, rfl⟩ := decode_eq_ok_iff.1 h
  have some_bytes := List.length_pos_iff.2 tx.encode_ne_nil
  rw [List.length_append]
  omega

def streamReader : Reader UInt8 DecodeError Transaction where
  read := decode
  shrinks := length_of_decode

def decodeStream (input : Bytes) : Except DecodeError (List Transaction) :=
  streamReader.readAll input

def encodeStream (txs : List Transaction) : Bytes :=
  txs.flatMap encode

theorem rounds_encodeStream {txs : List Transaction} (small : (encodeStream txs).length < 2 ^ 64)
    (rest : Bytes) :
    streamReader.Rounds (encodeStream txs ++ rest) (txs.map normalise) rest := by
  refine Reader.rounds_flatMap (fun tx mem rest => ?_) rest
  have part := Reader.length_le_flatMap encode mem
  exact decode_encode_append (Nat.lt_of_le_of_lt part small) rest

theorem eq_encodeStream_of_rounds {input rest : Bytes} {txs : List Transaction}
    (rounds : streamReader.Rounds input txs rest) : input = encodeStream txs ++ rest :=
  rounds.eq_flatMap fun read => (decode_eq_ok_iff.1 read).2.2

theorem decodeStream_encodeStream {txs : List Transaction}
    (small : (encodeStream txs).length < 2 ^ 64) :
    decodeStream (encodeStream txs) = .ok (txs.map normalise) := by
  have rounds := rounds_encodeStream small []
  rw [List.append_nil] at rounds
  exact Reader.readAll_eq_ok_iff.2 rounds

theorem eq_encodeStream_of_decodeStream {input : Bytes} {txs : List Transaction}
    (h : decodeStream input = .ok txs) : input = encodeStream txs := by
  have written := eq_encodeStream_of_rounds (Reader.readAll_eq_ok_iff.1 h)
  rwa [List.append_nil] at written

theorem encodeStream_map_normalise (txs : List Transaction) :
    encodeStream (txs.map normalise) = encodeStream txs := by
  simp only [encodeStream, List.flatMap_map, encode_normalise]

theorem encodeStream_eq_iff {first second : List Transaction}
    (small : (encodeStream first).length < 2 ^ 64) :
    encodeStream first = encodeStream second ↔ first.map normalise = second.map normalise := by
  constructor
  · intro same
    have left := decodeStream_encodeStream small
    rw [same] at left small
    have right := decodeStream_encodeStream small
    rw [left] at right
    exact Except.ok.inj right
  · intro same
    rw [← encodeStream_map_normalise first, same, encodeStream_map_normalise]

theorem encode_eq_of_isPrefix {first second : Transaction}
    (small : second.encode.length < 2 ^ 64) (start : first.encode <+: second.encode) :
    first.encode = second.encode := by
  obtain ⟨rest, whole⟩ := start
  have short : first.encode.length < 2 ^ 64 := by
    rw [← whole, List.length_append] at small
    omega
  have left := decode_encode_append short rest
  have right := decode_encode_append small []
  rw [List.append_nil, ← whole, left] at right
  obtain ⟨-, rfl⟩ := Prod.mk.inj (Except.ok.inj right)
  rw [← whole, List.append_nil]

/-- Transactions can be told apart in a stream. A list of transactions is read back from their
bytes in normal form. On any bytes the reading ends after at most as many rounds as there are
bytes, each of which takes some, and it either has used up everything or stands before bytes that
are refused; what it has read off the front is always what was written there. So two lists share
their bytes only if they are the same up to normal form, and no transaction is written as the
beginning of another. -/
theorem stream_uniquely_decodable :
    (∀ txs : List Transaction, (txs.flatMap encode).length < 2 ^ 64 →
      decodeStream (txs.flatMap encode) = .ok (txs.map normalise)) ∧
    (∀ (input rest : Bytes) (tx : Transaction), decode input = .ok (tx, rest) →
      rest.length < input.length) ∧
    (∀ input : Bytes, ∃ txs rest, streamReader.Rounds input txs rest ∧
      txs.length + rest.length ≤ input.length ∧ input = txs.flatMap encode ++ rest ∧
      (rest = [] ∧ decodeStream input = .ok txs ∨
        ∃ e, rest ≠ [] ∧ decode rest = .error e ∧ decodeStream input = .error e)) ∧
    (∀ (input : Bytes) (txs : List Transaction), decodeStream input = .ok txs →
      input = txs.flatMap encode ∧ ∀ tx ∈ txs, tx.IsNormal) ∧
    (∀ first second : List Transaction, (first.flatMap encode).length < 2 ^ 64 →
      (first.flatMap encode = second.flatMap encode ↔
        first.map normalise = second.map normalise)) ∧
    ∀ first second : Transaction, second.encode.length < 2 ^ 64 →
      first.encode <+: second.encode → first.encode = second.encode := by
  refine ⟨fun txs => decodeStream_encodeStream, fun input rest tx => length_of_decode,
    fun input => ?_, fun input txs read => ⟨eq_encodeStream_of_decodeStream read, ?_⟩,
    fun first second => encodeStream_eq_iff, fun first second => encode_eq_of_isPrefix⟩
  · obtain ⟨txs, rest, rounds, ending⟩ := streamReader.exists_rounds input
    exact ⟨txs, rest, rounds, rounds.length_le, eq_encodeStream_of_rounds rounds, ending⟩
  · exact (Reader.readAll_eq_ok_iff.1 read).forall_mem fun one => (decode_eq_ok_iff.1 one).1

/-- A legacy transaction in front of an annotated deposit with a zero mint, and a byte behind. -/
theorem stream_uniquely_decodable_mixed :
    let plain : Transaction := .legacy ⟨0, 0, 0, none, 0, [], .zero⟩
    let call : SystemTx := ⟨.zero 32, .zero 20, none, some 0, 7, 21000, true, [1, 2]⟩
    let txs : List Transaction := [plain, .annotatedDeposit call 5]
    let others : List Transaction := [plain, .deposit call]
    (txs.flatMap encode).length < 2 ^ 64 ∧
      decodeStream (txs.flatMap encode) = .ok [plain, .deposit { call with mint := none }] ∧
      decode (plain.encode ++ [5]) = .ok (plain, [5]) ∧
      [5].length < (plain.encode ++ [5]).length ∧
      txs.flatMap encode = others.flatMap encode ∧
      (∀ tx ∈ [plain, .deposit { call with mint := none }], tx.IsNormal) ∧
      (deposit call).encode <+: (annotatedDeposit call 5).encode ∧
      (deposit call).encode = (annotatedDeposit call 5).encode := by
  intro plain call txs others
  have small : (txs.flatMap encode).length < 2 ^ 64 := by decide +kernel
  have one : decode (plain.encode ++ [5]) = .ok (plain, [5]) :=
    decode_encode_append (by decide +kernel) [5]
  have start : (deposit call).encode <+: (annotatedDeposit call 5).encode :=
    List.prefix_refl _
  obtain ⟨whole, less, -, back, same, apart⟩ := stream_uniquely_decodable
  have read := whole txs small
  exact ⟨small, read, one, less _ _ _ one, (same txs others small).2 rfl, (back _ _ read).2, start,
    apart _ _ (by decide +kernel) start⟩

end TxEnvelope.Transaction
