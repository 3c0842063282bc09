import TxEnvelope.Proofs.BigEndian
import TxEnvelope.Proofs.Narrowing
import TxEnvelope.Record.Validation

/-! The rules of each kind for its records, as a table of fields.

A row says which fields must be there, which must not, which count as absent
when they are zero and which must fit into 256 bits. The checks that the rules
are made of say on success exactly what the table says of one field.
-/

set_option autoImplicit false

namespace TxEnvelope

namespace Kind

def required : Kind → List Field
  | .legacy => [.nonce, .gas, .gasPrice, .value, .input, .v, .r, .s]
  | .accessList => [.chainId, .nonce, .gas, .gasPrice, .value, .input, .v, .r, .s]
  | .dynamicFee =>
    [.chainId, .nonce, .gas, .maxPriorityFeePerGas, .maxFeePerGas, .value, .input, .v, .r, .s]
  | .blob =>
    [.chainId, .nonce, .gas, .maxPriorityFeePerGas, .maxFeePerGas, .maxFeePerDataGas, .value,
      .input, .blobVersionedHashes, .v, .r, .s]
  | .offchain => [.gas, .value, .data, .sender, .sourceHash]
  | .deposit => [.gas, .value, .input, .sender, .sourceHash]

def forbidden : Kind → List Field
  | .offchain => [.accessList, .v, .r, .s, .maxFeePerGas, .maxPriorityFeePerGas, .gasPrice]
  | .deposit => [.accessList, .maxFeePerGas, .maxPriorityFeePerGas]
  | _ => []

def zeroOnly : Kind → List Field
  | .offchain => [.nonce]
  | .deposit => [.gasPrice, .v, .r, .s]
  | _ => []

/-- The fields whose value must fit into 256 bits. -/
def narrowed : Kind → List Field
  | .blob =>
    [.chainId, .maxPriorityFeePerGas, .maxFeePerGas, .maxFeePerDataGas, .value, .v, .r, .s]
  | _ => []

def signatureRule? : Kind → Option SignatureRule
  | .legacy => some .legacy
  | .accessList | .dynamicFee | .blob => some .typed
  | .offchain | .deposit => none

end Kind

def Shape.toNat? : (shape : Shape) → shape.Value → Option Nat
  | .integer, n => some n.toNat
  | .quantity, q => some q.toNat
  | _, _ => none

theorem Shape.bind_integer_eq_some_iff {word : Option UInt64} {n : Nat} (small : n < 2 ^ 64) :
    word.bind (toNat? .integer) = some n ↔ word = some (UInt64.ofNat n) := by
  cases word with
  | none => exact iff_of_false nofun nofun
  | some word =>
    simp only [Option.bind_some, toNat?, Option.some.injEq, ← UInt64.toNat_inj,
      UInt64.toNat_ofNat_of_lt' small]

theorem Shape.bind_quantity_eq_some_iff {quantity : Option Quantity} {n : Nat} :
    quantity.bind (toNat? .quantity) = some n ↔ quantity = some ⟨n⟩ := by
  cases quantity with
  | none => exact iff_of_false nofun nofun
  | some q => simp only [Option.bind_some, toNat?, Option.some.injEq, Quantity.ext_iff]

theorem Shape.fits_iff {quantity : Option Quantity} :
    (∃ n, quantity.bind (toNat? .quantity) = some n ∧ n < 2 ^ 256) ↔
      ∃ word : UInt256, quantity = some (.ofUInt256 word) := by
  simp only [bind_quantity_eq_some_iff]
  constructor
  · rintro ⟨n, rfl, small⟩
    exact ⟨BitVec.ofNatLT n small, rfl⟩
  · rintro ⟨word, rfl⟩
    exact ⟨word.toNat, rfl, word.isLt⟩

/-- Whether a triple is all zero or sane under a rule. -/
def Signature.Accepted (signature : Signature Quantity) (rule : SignatureRule) : Prop :=
  signature = .zero ∨ signature.check rule = .ok ()

theorem Signature.validate_eq_ok_iff {rule : SignatureRule} {signature : Signature Quantity}
    {done : Unit} : signature.validate rule = .ok done ↔ signature.Accepted rule := by
  by_cases unsigned : signature = .zero
  · simp [validate, isUnsigned, Accepted, unsigned]
  · simp [validate, isUnsigned, Accepted, unsigned, mapError_eq_ok_iff]

namespace Record

variable {record : Record}

def number? (record : Record) (field : Field) : Option Nat :=
  (record.get field).bind field.shape.toNat?

def signature? (record : Record) : Option (Signature Quantity) :=
  match record.v, record.r, record.s with
  | some v, some r, some s => some ⟨v, r, s⟩
  | _, _, _ => none

structure Conforms (record : Record) (kind : Kind) : Prop where
  present : ∀ field ∈ kind.required, (record.get field).isSome
  absent : ∀ field ∈ kind.forbidden, record.get field = none
  zero : ∀ field ∈ kind.zeroOnly, record.get field = none ∨ record.number? field = some 0
  fits : ∀ field ∈ kind.narrowed, ∃ n, record.number? field = some n ∧ n < 2 ^ 256
  signed : ∀ rule, kind.signatureRule? = some rule →
    ∃ signature, record.signature? = some signature ∧ signature.Accepted rule

/-- The values of a system call are those of the record; its call data may be in either field. -/
def DescribesCall (record : Record) (input : Option Bytes) (tx : SystemTx) : Prop :=
  record.sourceHash = some tx.sourceHash ∧ record.sender = some tx.sender ∧
    record.recipient = tx.recipient ∧ record.mint = tx.mint ∧ record.value = some tx.value ∧
    record.gas = some tx.gasLimit ∧ record.isSystemTx.getD false = tx.isSystem ∧
    input = some tx.input

/-- Every value of the transaction is the one in the record. Only an absent access list stands for
an empty one, an absent recipient for a creation and an absent flag for a false one. -/
def Describes (record : Record) : Transaction → Prop
  | .legacy tx =>
    record.nonce = some tx.nonce ∧ record.gasPrice = some tx.gasPrice ∧
      record.gas = some tx.gasLimit ∧ record.recipient = tx.recipient ∧
      record.value = some tx.value ∧ record.input = some tx.input ∧
      record.signature? = some tx.signature
  | .accessList tx =>
    record.chainId = some tx.chainId ∧ record.nonce = some tx.nonce ∧
      record.gasPrice = some tx.gasPrice ∧ record.gas = some tx.gasLimit ∧
      record.recipient = tx.recipient ∧ record.value = some tx.value ∧
      record.input = some tx.input ∧ record.accessList.getD [] = tx.accessList ∧
      record.signature? = some tx.signature
  | .dynamicFee tx =>
    record.chainId = some tx.chainId ∧ record.nonce = some tx.nonce ∧
      record.maxPriorityFeePerGas = some tx.tipCap ∧ record.maxFeePerGas = some tx.feeCap ∧
      record.gas = some tx.gasLimit ∧ record.recipient = tx.recipient ∧
      record.value = some tx.value ∧ record.input = some tx.input ∧
      record.accessList.getD [] = tx.accessList ∧ record.signature? = some tx.signature
  | .blob tx =>
    record.chainId = some (.ofUInt256 tx.chainId) ∧ record.nonce = some tx.nonce ∧
      record.maxPriorityFeePerGas = some (.ofUInt256 tx.tipCap) ∧
      record.maxFeePerGas = some (.ofUInt256 tx.feeCap) ∧ record.gas = some tx.gasLimit ∧
      record.recipient = tx.recipient ∧ record.value = some (.ofUInt256 tx.value) ∧
      record.input = some tx.input ∧ record.accessList.getD [] = tx.accessList ∧
      record.maxFeePerDataGas = some (.ofUInt256 tx.blobFeeCap) ∧
      record.blobVersionedHashes = some tx.blobHashes ∧
      record.signature? = some (tx.signature.map .ofUInt256)
  | .deposit tx => record.DescribesCall record.input tx ∧ record.nonce = none
  | .annotatedDeposit tx nonce =>
    record.DescribesCall record.input tx ∧ record.nonce = some nonce
  | .offchain tx => record.DescribesCall record.data tx

theorem signature?_eq_some_iff {signature : Signature Quantity} :
    record.signature? = some signature ↔
      record.v = some signature.v ∧ record.r = some signature.r ∧ record.s = some signature.s := by
  unfold signature?
  split
  · next v r s hv hr hs => simp [hv, hr, hs, Signature.ext_iff]
  · next incomplete =>
    constructor
    · intro h
      cases h
    · rintro ⟨hv, hr, hs⟩
      exact (incomplete _ _ _ hv hr hs).elim

theorem require_eq_ok_iff {field : Field} {value : field.Value} :
    record.require field = .ok value ↔ record.get field = some value := by
  unfold require
  split <;> simp_all

theorem forbid_eq_ok_iff {field : Field} {done : Unit} :
    record.forbid field = .ok done ↔ record.get field = none := by
  unfold forbid
  split <;> simp_all

theorem forbidNonzero_eq_ok_iff {field : Field} {value : Option Quantity} {done : Unit} :
    forbidNonzero field value = .ok done ↔ value = none ∨ value = some 0 := by
  unfold forbidNonzero
  split <;> simp

theorem narrow_eq_ok_iff {field : Field} {q : Quantity} {n : UInt256} :
    narrow field q = .ok n ↔ q = .ofUInt256 n :=
  Quantity.narrow_eq_ok_iff

theorem requireSignature_eq_ok_iff {signature : Signature Quantity} :
    record.requireSignature = .ok signature ↔ record.signature? = some signature := by
  simp only [requireSignature, bind_eq_ok_iff, require_eq_ok_iff, signature?_eq_some_iff, get]
  constructor
  · rintro ⟨v, hv, r, hr, s, hs, h⟩
    cases h
    exact ⟨hv, hr, hs⟩
  · rintro ⟨hv, hr, hs⟩
    exact ⟨_, hv, _, hr, _, hs, rfl⟩

end Record

end TxEnvelope
