import TxEnvelope.Proofs.Envelope
import TxEnvelope.Proofs.Network

/-! Transactions that are written and read back over and over.

A trip writes a transaction in one of its three forms and reads it back. Text
keeps a transaction as it is; bytes bring it into normal form, which no codec
changes any more. What is dropped on the way is no part of the canonical bytes
and of nothing that a codec checks, so trips can follow each other in any order.
-/

set_option autoImplicit false

namespace TxEnvelope

namespace Transaction

@[simp] theorem normalise_normalise (tx : Transaction) :
    tx.normalise.normalise = tx.normalise :=
  (normalise_eq_self_iff _).2 tx.normalise_isNormal

theorem signature_normalise (tx : Transaction) : tx.normalise.signature = tx.signature := by
  cases tx <;> rfl

/-- A transaction that every codec takes: its canonical bytes can be counted, and its triple, if
it has one, is all zero or sane. -/
structure IsPortable (tx : Transaction) : Prop where
  small : tx.encode.length < 2 ^ 64
  accepted : ∀ rule, tx.kind.signatureRule? = some rule → tx.signature.Accepted rule

theorem IsPortable.normalise {tx : Transaction} (portable : tx.IsPortable) :
    tx.normalise.IsPortable where
  small := by
    rw [encode_normalise]
    exact portable.small
  accepted := by
    rw [kind_normalise, signature_normalise]
    exact portable.accepted

end Transaction

inductive Trip where
  | binary
  | network
  | json
  deriving DecidableEq, Repr

namespace Trip

def make (envelope : Envelope) : Trip → Except Error Envelope
  | .binary =>
    match Transaction.decodeExact envelope.transaction.encode with
    | .error e => .error e.toError
    | .ok tx => .ok (.new tx)
  | .network =>
    match Transaction.decodeNetwork envelope.transaction.encodeNetwork with
    | .error e => .error e.toError
    | .ok (tx, []) => .ok (.new tx)
    | .ok (_, _ :: _) => .error (.rlp .unexpectedLength)
  | .json => Envelope.ofJson envelope.toJson.1

/-- The envelopes that a run of trips reaches, one behind each trip. -/
def visits (envelope : Envelope) : List Trip → Except Error (List Envelope)
  | [] => .ok []
  | trip :: trips => do
    let reached ← trip.make envelope
    let later ← visits reached trips
    return reached :: later

def effect (tx : Transaction) : Trip → Transaction
  | .binary | .network => tx.normalise
  | .json => tx

theorem encode_effect (tx : Transaction) (trip : Trip) : (trip.effect tx).encode = tx.encode := by
  cases trip with
  | json => rfl
  | binary | network => exact tx.encode_normalise

theorem effect_isPortable {tx : Transaction} (portable : tx.IsPortable) (trip : Trip) :
    (trip.effect tx).IsPortable := by
  cases trip with
  | json => exact portable
  | binary | network => exact portable.normalise

/-- A trip succeeds, whatever the envelope has kept, and ends in a fresh envelope. -/
theorem make_eq {envelope : Envelope} (portable : envelope.transaction.IsPortable) (trip : Trip) :
    trip.make envelope = .ok (.new (trip.effect envelope.transaction)) := by
  cases trip with
  | binary =>
    simp only [make, Transaction.decodeExact_encode portable.small, effect]
  | network =>
    have read := Transaction.decodeNetwork_encodeNetwork_append portable.small []
    rw [List.append_nil] at read
    simp only [make, read, effect]
  | json =>
    have read := Envelope.ofJson_toJson_of_accepted portable.accepted
    simp only [make, read, effect]

theorem foldl_effect (trips : List Trip) (tx : Transaction) :
    trips.foldl effect tx = if trips.all (· == .json) then tx else tx.normalise := by
  induction trips generalizing tx with
  | nil => simp
  | cons trip trips ih =>
    rw [List.foldl_cons, ih]
    cases trip with
    | json => simp [effect]
    | binary | network => simp [effect]

theorem encode_foldl_effect (trips : List Trip) (tx : Transaction) :
    (trips.foldl effect tx).encode = tx.encode := by
  induction trips generalizing tx with
  | nil => rfl
  | cons trip trips ih => rw [List.foldl_cons, ih, encode_effect]

theorem visits_eq_ok {envelope : Envelope} (portable : envelope.transaction.IsPortable)
    (trips : List Trip) :
    ∃ visited, visits envelope trips = .ok visited ∧ visited.length = trips.length ∧
      ∀ (n : Nat) (reached : Envelope), visited[n]? = some reached →
        reached = .new ((trips.take (n + 1)).foldl effect envelope.transaction) := by
  induction trips generalizing envelope with
  | nil => exact ⟨[], rfl, rfl, nofun⟩
  | cons trip trips ih =>
    obtain ⟨later, made, length, states⟩ :=
      @ih (.new (trip.effect envelope.transaction)) (effect_isPortable portable trip)
    refine ⟨.new (trip.effect envelope.transaction) :: later, ?_, by simp [length], ?_⟩
    · rw [visits, bind_of_eq_ok (make_eq portable trip), bind_of_eq_ok made]
      rfl
    · intro n reached there
      cases n with
      | zero =>
        rw [List.getElem?_cons_zero, Option.some.injEq] at there
        exact there.symm
      | succ n =>
        rw [List.getElem?_cons_succ] at there
        exact states n reached there

/-- Codecs can be mixed in any order. Every trip of a run succeeds, behind every one of them the
canonical bytes and the digest are those of the transaction that the run began with, and that
transaction is still there as it was until the first trip in bytes, and in normal form from then
on. -/
theorem visits_keep_transaction {start : Envelope} (portable : start.transaction.IsPortable)
    (trips : List Trip) :
    ∃ visited, visits start trips = .ok visited ∧ visited.length = trips.length ∧
      ∀ (n : Nat) (reached : Envelope), visited[n]? = some reached →
        reached.transaction.encode = start.transaction.encode ∧
        reached.hash.1 = start.transaction.digest ∧
        reached.transaction =
          if (trips.take (n + 1)).all (· == .json) then start.transaction
          else start.transaction.normalise := by
  obtain ⟨visited, made, length, states⟩ := visits_eq_ok portable trips
  refine ⟨visited, made, length, fun n reached there => ?_⟩
  obtain rfl := states n reached there
  have bytes := encode_foldl_effect (trips.take (n + 1)) start.transaction
  exact ⟨bytes, congrArg Keccak.digest bytes, foldl_effect _ _⟩

/-- An annotated deposit with a zero mint goes through text unchanged and loses both in bytes. -/
theorem visits_keep_transaction_annotated :
    let call : SystemTx := ⟨.zero 32, .zero 20, none, some 0, 7, 21000, true, [1, 2]⟩
    let start := Envelope.new (.annotatedDeposit call 5)
    let trips : List Trip := [.json, .network, .json, .binary]
    start.transaction.IsPortable ∧
      ∃ visited, visits start trips = .ok visited ∧ visited.length = trips.length ∧
        ∀ (n : Nat) (reached : Envelope), visited[n]? = some reached →
          reached.transaction.encode = start.transaction.encode ∧
          reached.hash.1 = start.transaction.digest ∧
          reached.transaction =
            if (trips.take (n + 1)).all (· == .json) then start.transaction
            else .deposit { call with mint := none } := by
  intro call start trips
  have portable : start.transaction.IsPortable := ⟨by decide +kernel, nofun⟩
  exact ⟨portable, visits_keep_transaction portable trips⟩

end Trip

end TxEnvelope
