import TxEnvelope.Network
import TxEnvelope.Proofs.Envelope
import TxEnvelope.Proofs.ValueReading

/-! Digests stay in step with the transactions they belong to.

A session is what a program does with envelopes: it gets them from wherever
they can come, copies them, looks at their digests, records and texts, and
replaces signatures. The digest that an envelope has kept is current from the
first action to the last, because a transaction is never changed in place: the
one with another signature starts again without a digest.
-/

set_option autoImplicit false

namespace TxEnvelope

namespace Envelope

/-- No digest is kept, or the one that belongs to the transaction. -/
def IsCurrent (envelope : Envelope) : Prop :=
  envelope.kept = none ∨ envelope.kept = some envelope.transaction.digest

theorem new_isCurrent (tx : Transaction) : (new tx).IsCurrent :=
  .inl rfl

theorem hash_eq {envelope : Envelope} (current : envelope.IsCurrent) :
    envelope.hash = (envelope.transaction.digest,
      { envelope with kept := some envelope.transaction.digest }) := by
  obtain ⟨tx, kept⟩ := envelope
  rcases current with absent | present
  · obtain rfl : kept = none := absent
    rfl
  · obtain rfl : kept = some tx.digest := present
    rfl

theorem parse_toJson (envelope : Envelope) :
    Record.parse envelope.toJson.1 = .ok envelope.record.1 :=
  Record.parse_print _

theorem ofJson_print (record : Record) : ofJson record.print = ofRecord record := by
  rw [ofJson, Record.parse_print]

theorem ofJsonValue_print (record : Record) :
    ofJsonValue record.print = (ofRecord record).mapError .rejected := by
  have read := record.reads_document .compact 0 [] [] Json.Layout.compact_isBlank Json.blank_nil
  rw [List.nil_append, List.append_nil] at read
  rw [ofJsonValue, Json.readText, Record.print, String.toList_ofList, Json.Document.print]
  simp only [reader, read]
  cases ofRecord record <;> rfl

end Envelope

namespace Session

inductive Origin where
  | transaction (tx : Transaction)
  | canonical (input : Bytes)
  | exact (input : Bytes)
  | typed (byte : UInt8) (input : Bytes)
  | untyped (input : Bytes)
  | network (input : Bytes)
  | item (input : Bytes)
  | record (record : Record)
  | json (text : String)
  | jsonValue (text : String)

def Origin.envelope? : Origin → Option Envelope
  | .transaction tx => some (.new tx)
  | .canonical input => (Transaction.decode input).toOption.map fun read => .new read.1
  | .exact input => (Transaction.decodeExact input).toOption.map .new
  | .typed byte input => (Transaction.decodeTyped byte input).toOption.map fun read => .new read.1
  | .untyped input => (Transaction.decodeUntyped input).toOption.map fun read => .new read.1
  | .network input => (Transaction.decodeNetwork input).toOption.map fun read => .new read.1
  | .item input => (Transaction.decodeItem input).toOption.map fun read => .new read.1
  | .record described => (Envelope.ofRecord described).toOption
  | .json text => (Envelope.ofJson text).toOption
  | .jsonValue text => (Envelope.ofJsonValue text).toOption

inductive Use where
  | hash
  | trieHash
  | record
  | toJson
  | resign (chainId : Quantity) (signature : Signature Quantity)

def Use.looks : List Use :=
  [.hash, .trieHash, .record, .toJson]

/-- The envelope after a use. A transaction is taken out of its envelope to get another signature,
and put into a new one even if it has kept its own. -/
def Use.result (envelope : Envelope) : Use → Envelope
  | .hash => envelope.hash.2
  | .trieHash => envelope.trieHash.2
  | .record => envelope.record.2
  | .toJson => envelope.toJson.2
  | .resign chainId signature =>
    match envelope.sign chainId signature with
    | .error _ => .new envelope.transaction
    | .ok signed => signed

/-- The digest that a use shows: as its answer, in a record or in a text. -/
def Use.shown? (envelope : Envelope) : Use → Option Hash
  | .hash => some envelope.hash.1
  | .trieHash => some envelope.trieHash.1
  | .record => envelope.record.1.hash
  | .toJson => (Record.parse envelope.toJson.1).toOption.bind Record.hash
  | .resign _ _ => none

inductive Action where
  | acquire (origin : Origin)
  | clone (slot : Nat)
  | use (slot : Nat) (use : Use)

/-- One action on the envelopes that are held. A refused origin adds none, and an empty slot has
nothing to be copied or used. -/
def step (held : List Envelope) : Action → List Envelope
  | .acquire origin => held ++ origin.envelope?.toList
  | .clone slot => held ++ held[slot]?.toList
  | .use slot use => held.modify slot (Use.result · use)

def run (actions : List Action) : List Envelope :=
  actions.foldl step []

theorem Origin.exists_new {origin : Origin} {envelope : Envelope}
    (got : origin.envelope? = some envelope) : ∃ tx, envelope = .new tx := by
  cases origin with
  | transaction tx => exact ⟨tx, (Option.some.inj got).symm⟩
  | canonical input | exact input | typed byte input | untyped input | network input
  | item input =>
    obtain ⟨read, -, made⟩ := Option.map_eq_some_iff.1 got
    exact ⟨_, made.symm⟩
  | record described =>
    obtain ⟨tx, -, made⟩ := map_eq_ok_iff.1 (toOption_eq_some_iff.1 got)
    exact ⟨tx, made.symm⟩
  | json text =>
    obtain ⟨fresh, -⟩ := Envelope.accepted_of_ofJson (toOption_eq_some_iff.1 got)
    exact ⟨_, fresh⟩
  | jsonValue text =>
    have own := Envelope.ofJsonValue_eq_ok_iff.1 (toOption_eq_some_iff.1 got)
    exact ⟨_, (Envelope.accepted_of_ofJson own).1⟩

theorem Use.result_isCurrent {envelope : Envelope} (current : envelope.IsCurrent) (use : Use) :
    (use.result envelope).IsCurrent := by
  have hashed : envelope.hash.2.IsCurrent := by
    rw [Envelope.hash_eq current]
    exact .inr rfl
  cases use with
  | hash | trieHash | record | toJson => exact hashed
  | resign chainId signature =>
    simp only [result]
    split
    · exact Envelope.new_isCurrent _
    · next signed made =>
      obtain ⟨tx, -, rfl⟩ := map_eq_ok_iff.1 made
      exact Envelope.new_isCurrent tx

theorem Use.shown?_eq {envelope : Envelope} (current : envelope.IsCurrent) {use : Use}
    (looking : use ∈ Use.looks) :
    use.shown? envelope = some envelope.transaction.digest := by
  have hashed := Envelope.hash_eq current
  have recorded (digest : Hash) :
      (Record.ofTransaction envelope.transaction digest).hash = some digest := by
    cases envelope.transaction <;> rfl
  cases use with
  | hash => exact congrArg (some ·.1) hashed
  | trieHash => exact congrArg (some ·.1) hashed
  | record =>
    rw [shown?, Envelope.record, hashed]
    exact recorded _
  | toJson =>
    rw [shown?, Envelope.parse_toJson, Envelope.record, hashed]
    exact recorded _
  | resign chainId signature => simp [looks] at looking

theorem Use.transaction_result (envelope : Envelope) {use : Use} (looking : use ∈ Use.looks) :
    (use.result envelope).transaction = envelope.transaction := by
  have hashed : envelope.hash.2.transaction = envelope.transaction := by
    unfold Envelope.hash
    split <;> rfl
  cases use with
  | hash | trieHash | record | toJson => exact hashed
  | resign chainId signature => simp [looks] at looking

theorem step_isCurrent {held : List Envelope} (current : ∀ envelope ∈ held, envelope.IsCurrent)
    (action : Action) : ∀ envelope ∈ step held action, envelope.IsCurrent := by
  intro envelope mem
  cases action with
  | acquire origin =>
    rcases List.mem_append.1 mem with old | new
    · exact current envelope old
    · obtain ⟨tx, rfl⟩ := Origin.exists_new (Option.mem_toList.1 new)
      exact Envelope.new_isCurrent tx
  | clone slot =>
    rcases List.mem_append.1 mem with old | copy
    · exact current envelope old
    · exact current envelope (List.mem_of_getElem? (Option.mem_toList.1 copy))
  | use slot use =>
    obtain ⟨n, there⟩ := List.mem_iff_getElem?.1 mem
    rw [step, List.getElem?_modify] at there
    obtain ⟨before, found, rfl⟩ := Option.map_eq_some_iff.1 there
    have kept := current before (List.mem_of_getElem? found)
    split
    · exact use.result_isCurrent kept
    · exact kept

theorem foldl_step_isCurrent (actions : List Action) {held : List Envelope}
    (current : ∀ envelope ∈ held, envelope.IsCurrent) :
    ∀ envelope ∈ actions.foldl step held, envelope.IsCurrent := by
  induction actions generalizing held with
  | nil => exact current
  | cons action actions ih => exact ih (step_isCurrent current action)

theorem run_isCurrent (actions : List Action) : ∀ envelope ∈ run actions, envelope.IsCurrent :=
  foldl_step_isCurrent actions nofun

theorem map_transaction_step_use (held : List Envelope) (slot : Nat) {use : Use}
    (looking : use ∈ Use.looks) :
    (step held (.use slot use)).map (·.transaction) = held.map (·.transaction) := by
  apply List.ext_getElem?
  intro n
  rw [step, List.getElem?_map, List.getElem?_map, List.getElem?_modify]
  cases held[n]? with
  | none => rfl
  | some envelope =>
    by_cases here : slot = n
    · simp [here, use.transaction_result envelope looking]
    · simp [here]

/-- Whatever a session has done, every envelope in it has kept no digest or that of its canonical
bytes; looking at it shows this digest and changes the transaction neither of it nor of another,
and a clone is one more envelope with the same transaction. The digest in a record, or that there
is none, has no influence on what the record is read as. -/
theorem digests_stay_current :
    (∀ actions, ∀ envelope ∈ run actions,
      (envelope.kept = none ∨
        envelope.kept = some (Keccak.digest envelope.transaction.encode)) ∧
      ∀ use ∈ Use.looks,
        use.shown? envelope = some (Keccak.digest envelope.transaction.encode) ∧
          (use.result envelope).transaction = envelope.transaction) ∧
    (∀ held slot, ∀ use ∈ Use.looks,
      (step held (.use slot use)).map (·.transaction) = held.map (·.transaction)) ∧
    (∀ held slot, (step held (.clone slot)).map (·.transaction) =
      held.map (·.transaction) ++ (held.map (·.transaction))[slot]?.toList) ∧
    ∀ (record : Record) (hash : Option Hash),
      Envelope.ofRecord { record with hash } = Envelope.ofRecord record ∧
      Envelope.ofJson (Record.print { record with hash }) = Envelope.ofJson record.print ∧
      Envelope.ofJsonValue (Record.print { record with hash }) =
        Envelope.ofJsonValue record.print := by
  refine ⟨fun actions envelope mem => ?_, fun held slot use => map_transaction_step_use held slot,
    fun held slot => ?_, fun record hash => ?_⟩
  · have current := run_isCurrent actions envelope mem
    exact ⟨current, fun use looking =>
      ⟨Use.shown?_eq current looking, use.transaction_result envelope looking⟩⟩
  · rw [step, List.map_append, List.getElem?_map]
    cases held[slot]? <;> rfl
  · rw [Envelope.ofJson_print, Envelope.ofJson_print, Envelope.ofJsonValue_print,
      Envelope.ofJsonValue_print]
    -- No rule for records reads the digest.
    exact ⟨rfl, rfl, rfl⟩

/-- A clone keeps the digest that was asked for before it, and the original has another one once
it is signed. -/
theorem digests_stay_current_resigned :
    let tx : Transaction := .accessList ⟨1, 0, 0, 0, none, 0, [], [], .zero⟩
    let signed : Transaction := .accessList ⟨5, 0, 0, 0, none, 0, [], [], ⟨1, 2, 3⟩⟩
    let actions : List Action :=
      [.acquire (.transaction tx), .use 0 .hash, .clone 0, .use 0 (.resign 5 ⟨1, 2, 3⟩),
        .use 0 .hash]
    let first : Envelope := ⟨signed, some signed.digest⟩
    run actions = [first, ⟨tx, some tx.digest⟩] ∧
      first ∈ run actions ∧ (first.kept = none ∨ first.kept = some (Keccak.digest signed.encode)) ∧
      Use.toJson ∈ Use.looks ∧ Use.shown? first .toJson = some (Keccak.digest signed.encode) ∧
      (step (run actions) (.use 0 .toJson)).map (·.transaction) = [signed, tx] := by
  intro tx signed actions first
  have reached : run actions = [first, ⟨tx, some tx.digest⟩] := rfl
  have mem : first ∈ run actions := by
    rw [reached]
    exact List.mem_cons_self
  have looking : Use.toJson ∈ Use.looks := by simp [Use.looks]
  obtain ⟨current, looks⟩ := digests_stay_current.1 actions first mem
  refine ⟨reached, mem, current, looking, (looks .toJson looking).1, ?_⟩
  rw [digests_stay_current.2.1 (run actions) 0 .toJson looking, reached]
  rfl

end Session

end TxEnvelope
