import TxEnvelope.Proofs.Network
import TxEnvelope.Proofs.Record.Rules
import TxEnvelope.Transaction.Accessors
import TxEnvelope.Transaction.Price
import TxEnvelope.Transaction.Signing

/-! The nonce of an annotated deposit is seen by nobody who does not ask for it.

A record is refused or accepted whatever its nonce is, and the nonce only
becomes the annotation. Everything else that can be asked of a transaction is
the same with and without an annotation, and stays the same when signatures are
replaced, so the bytes of a deposit are read as the bare deposit.
-/

set_option autoImplicit false

namespace TxEnvelope

theorem map_bind_except {ε α β γ : Type} (result : Except ε α) (f : α → Except ε β) (g : β → γ) :
    (result >>= f).map g = result >>= fun a => (f a).map g := by
  cases result <;> rfl

namespace Transaction

def ofDeposit (nonce : Option UInt64) (call : SystemTx) : Transaction :=
  match nonce with
  | none => .deposit call
  | some nonce => .annotatedDeposit call nonce

end Transaction

namespace Record

def depositCall (record : Record) : Except Error SystemTx := do
  record.forbid .accessList
  record.forbid .maxFeePerGas
  record.forbid .maxPriorityFeePerGas
  forbidNonzero .gasPrice record.gasPrice
  forbidNonzero .v record.v
  forbidNonzero .r record.r
  forbidNonzero .s record.s
  record.toSystem record.input .input

theorem toDeposit_eq (record : Record) :
    record.toDeposit = record.depositCall.map (.ofDeposit record.nonce) := by
  simp only [toDeposit, depositCall, map_bind_except]
  cases record.nonce <;> rfl

theorem toTransaction_with_nonce {record : Record} (deposit : record.type = Kind.deposit.code)
    (nonce : Option UInt64) :
    { record with nonce }.toTransaction = record.depositCall.map (.ofDeposit nonce) := by
  rw [toTransaction]
  dsimp only
  rw [deposit, Kind.ofCode?_code]
  exact toDeposit_eq { record with nonce }

end Record

namespace Transaction

/-- Everything that can be asked of a transaction except for its annotation. -/
structure Appearance where
  kind : Kind
  chainId : Quantity
  accessEntries : AccessList
  input : Bytes
  gasLimit : UInt64
  gasPrice : Quantity
  tipCap : Quantity
  feeCap : Quantity
  blobFeeCap : Quantity
  value : Quantity
  nonce : UInt64
  recipient : Option Address
  blobGas : UInt64
  blobHashes : List Hash
  systemFlag : Bool
  effectivePrice : Option Quantity → Quantity
  signature : Signature Quantity
  fields : Bytes
  fieldsLength : Nat
  body : Bytes
  bodyLength : Nat
  typeFlag : Option UInt8
  canonical : Bytes
  canonicalLength : Nat
  network : Bytes
  networkLength : Nat
  digest : Hash

def appearance (tx : Transaction) : Appearance where
  kind := tx.kind
  chainId := tx.chainId
  accessEntries := tx.accessEntries
  input := tx.input
  gasLimit := tx.gasLimit
  gasPrice := tx.gasPrice
  tipCap := tx.tipCap
  feeCap := tx.feeCap
  blobFeeCap := tx.blobFeeCap
  value := tx.value
  nonce := tx.nonce
  recipient := tx.recipient
  blobGas := tx.blobGas
  blobHashes := tx.blobHashes
  systemFlag := tx.systemFlag
  effectivePrice := tx.effectivePrice
  signature := tx.signature
  fields := tx.encodeFields
  fieldsLength := tx.fieldsLength
  body := tx.encodeBody
  bodyLength := tx.bodyLength
  typeFlag := tx.typeFlag
  canonical := tx.encode
  canonicalLength := tx.encodedLength
  network := tx.encodeNetwork
  networkLength := tx.networkLength
  digest := tx.digest

theorem appearance_withoutAnnotation (tx : Transaction) :
    tx.withoutAnnotation.appearance = tx.appearance := by
  cases tx <;> rfl

/-- Replaces the signature over and over; the first refusal ends the run. -/
def signAll (tx : Transaction) (calls : List (Quantity × Signature Quantity)) :
    Except Error Transaction :=
  calls.foldlM (fun tx call => tx.sign call.1 call.2) tx

theorem signAll_ofDeposit (nonce : Option UInt64) (call : SystemTx)
    (calls : List (Quantity × Signature Quantity)) :
    (ofDeposit nonce call).signAll calls = .ok (ofDeposit nonce call) := by
  induction calls with
  | nil => rfl
  | cons first calls ih =>
    have kept : (ofDeposit nonce call).sign first.1 first.2 = .ok (ofDeposit nonce call) := by
      cases nonce <;> rfl
    rw [signAll, List.foldlM_cons, bind_of_eq_ok kept]
    exact ih

theorem withoutAnnotation_ofDeposit (nonce : Option UInt64) (call : SystemTx) :
    withoutAnnotation (ofDeposit nonce call) = .deposit call := by
  cases nonce <;> rfl

theorem appearance_ofDeposit (nonce : Option UInt64) (call : SystemTx) :
    (ofDeposit nonce call).appearance = (deposit call).appearance := by
  rw [← appearance_withoutAnnotation, withoutAnnotation_ofDeposit]

theorem decodeFields_encodeFields_append {tx : Transaction} (small : tx.encode.length < 2 ^ 64)
    (rest : Bytes) : decodeFields tx.kind (tx.encodeFields ++ rest) = .ok (tx.normalise, rest) := by
  have short : tx.encodeFields.length < 2 ^ 64 := by
    rw [length_encodeFields]
    exact Nat.lt_of_le_of_lt tx.fieldsLength_le small
  refine Reader.map_eq_ok_iff.2 ⟨_, tx.kind.fields_lawful.read_encode tx.content rest short, ?_⟩
  cases tx <;> rfl

theorem decode_ofDeposit {nonce : Option UInt64} {call : SystemTx}
    (small : (deposit call).encode.length < 2 ^ 64) (rest : Bytes) :
    decode ((ofDeposit nonce call).encode ++ rest) = .ok (.deposit call.withoutZeroMint, rest) ∧
    decodeNetwork ((ofDeposit nonce call).encodeNetwork ++ rest)
      = .ok (.deposit call.withoutZeroMint, rest) ∧
    decodeFields .deposit ((ofDeposit nonce call).encodeFields ++ rest)
      = .ok (.deposit call.withoutZeroMint, rest) := by
  have same := appearance_ofDeposit nonce call
  have canonical : (ofDeposit nonce call).encode = (deposit call).encode :=
    congrArg Appearance.canonical same
  have network : (ofDeposit nonce call).encodeNetwork = (deposit call).encodeNetwork :=
    congrArg Appearance.network same
  have fields : (ofDeposit nonce call).encodeFields = (deposit call).encodeFields :=
    congrArg Appearance.fields same
  rw [canonical, network, fields]
  exact ⟨decode_encode_append small rest, decodeNetwork_encodeNetwork_append small rest,
    decodeFields_encodeFields_append small rest⟩

/-- An annotation has no influence on anything but itself. A deposit record with a nonce and the
same record without one are refused for the same reason, or are the annotated and the bare form of
one deposit. Deposits that differ in their annotations at most look alike in every other respect,
before and behind any run of signatures, each of which is taken; and the bytes of all of them are
read as the same bare deposit. -/
theorem annotation_shows_nowhere :
    (∀ (record : Record) (nonce : UInt64), record.type = Kind.deposit.code →
      (∃ e, Record.toTransaction { record with nonce := none } = .error e ∧
        Record.toTransaction { record with nonce := some nonce } = .error e) ∨
      ∃ call, Record.toTransaction { record with nonce := none } = .ok (.deposit call) ∧
        Record.toTransaction { record with nonce := some nonce }
          = .ok (.annotatedDeposit call nonce)) ∧
    ∀ (call : SystemTx) (nonce other : UInt64) (calls : List (Quantity × Signature Quantity)),
      ∃ first second bare : Transaction,
        (annotatedDeposit call nonce).signAll calls = .ok first ∧
        (annotatedDeposit call other).signAll calls = .ok second ∧
        (deposit call).signAll calls = .ok bare ∧
        first.annotation? = some nonce ∧ second.annotation? = some other ∧
        bare.annotation? = none ∧ bare.appearance = (deposit call).appearance ∧
        first.appearance = bare.appearance ∧ second.appearance = bare.appearance ∧
        ((deposit call).encode.length < 2 ^ 64 → ∃ read : SystemTx,
          ∀ tx ∈ [first, second, bare], ∀ rest,
            decode (tx.encode ++ rest) = .ok (.deposit read, rest) ∧
            decodeNetwork (tx.encodeNetwork ++ rest) = .ok (.deposit read, rest) ∧
            decodeFields .deposit (tx.encodeFields ++ rest) = .ok (.deposit read, rest)) := by
  constructor
  · intro record nonce deposit
    -- Both records ask for the same call, and the nonce is looked at behind it.
    rw [Record.toTransaction_with_nonce deposit, Record.toTransaction_with_nonce deposit]
    cases record.depositCall with
    | error e => exact .inl ⟨e, rfl, rfl⟩
    | ok call => exact .inr ⟨call, rfl, rfl⟩
  · intro call nonce other calls
    refine ⟨_, _, _, signAll_ofDeposit (some nonce) call calls,
      signAll_ofDeposit (some other) call calls, signAll_ofDeposit none call calls, rfl, rfl, rfl,
      rfl, appearance_ofDeposit (some nonce) call, appearance_ofDeposit (some other) call,
      fun small => ⟨call.withoutZeroMint, fun tx mem rest => ?_⟩⟩
    simp only [List.mem_cons, List.not_mem_nil, or_false] at mem
    rcases mem with rfl | rfl | rfl <;> exact decode_ofDeposit small rest

/-- Two annotations of a deposit that mints nothing, and a deposit record that uses a field of
signed kinds. -/
theorem annotation_shows_nowhere_minting :
    let call : SystemTx := ⟨.zero 32, .zero 20, none, some 0, 7, 21000, true, [1, 2]⟩
    let record : Record := { type := Kind.deposit.code, v := some 27 }
    record.type = Kind.deposit.code ∧
      (∃ e, Record.toTransaction { record with nonce := none } = .error e ∧
        Record.toTransaction { record with nonce := some 5 } = .error e) ∧
      (deposit call).encode.length < 2 ^ 64 ∧
      ∃ first second bare : Transaction,
        (annotatedDeposit call 5).signAll [(1, ⟨27, 2, 3⟩)] = .ok first ∧
        (annotatedDeposit call 6).signAll [(1, ⟨27, 2, 3⟩)] = .ok second ∧
        (deposit call).signAll [(1, ⟨27, 2, 3⟩)] = .ok bare ∧
        ∃ read : SystemTx, ∀ tx ∈ [first, second, bare], ∀ rest,
          decode (tx.encode ++ rest) = .ok (.deposit read, rest) ∧
          decodeNetwork (tx.encodeNetwork ++ rest) = .ok (.deposit read, rest) ∧
          decodeFields .deposit (tx.encodeFields ++ rest) = .ok (.deposit read, rest) := by
  intro call record
  have small : (deposit call).encode.length < 2 ^ 64 := by decide +kernel
  obtain ⟨records, deposits⟩ := annotation_shows_nowhere
  have refused := (records record 5 rfl).resolve_right fun ⟨call, accepted, _⟩ => by cases accepted
  obtain ⟨first, second, bare, one, two, three, -, -, -, -, -, -, read⟩ :=
    deposits call 5 6 [(1, ⟨27, 2, 3⟩)]
  exact ⟨rfl, refused, small, first, second, bare, one, two, three, read small⟩

end Transaction

end TxEnvelope
