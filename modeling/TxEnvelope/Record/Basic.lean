import TxEnvelope.Record.Shape

/-! Transaction records: the union of the fields of every kind, all but the type optional.

Which of them a kind requires, uses or refuses is decided when the record is
turned into a transaction. A record is read from a JSON object or from an array
of its values, and written as an object of the fields that are there.
-/

set_option autoImplicit false

namespace TxEnvelope

open Json

def Field.shape : Field → Shape
  | .type | .nonce | .gas => .integer
  | .chainId | .gasPrice | .maxPriorityFeePerGas | .maxFeePerGas | .maxFeePerDataGas | .value
  | .v | .r | .s | .mint => .quantity
  | .recipient | .sender => .address
  | .sourceHash | .hash => .hash
  | .input | .data => .bytes
  | .accessList => .accessList
  | .blobVersionedHashes => .hashes
  | .isSystemTx => .flag

abbrev Field.Value (field : Field) : Type := field.shape.Value

@[ext] structure Record where
  type : UInt64 := 0
  chainId : Option Quantity := none
  nonce : Option UInt64 := none
  recipient : Option Address := none
  gas : Option UInt64 := none
  gasPrice : Option Quantity := none
  maxPriorityFeePerGas : Option Quantity := none
  maxFeePerGas : Option Quantity := none
  maxFeePerDataGas : Option Quantity := none
  value : Option Quantity := none
  input : Option Bytes := none
  data : Option Bytes := none
  accessList : Option AccessList := none
  blobVersionedHashes : Option (List Hash) := none
  v : Option Quantity := none
  r : Option Quantity := none
  s : Option Quantity := none
  sourceHash : Option Hash := none
  sender : Option Address := none
  mint : Option Quantity := none
  isSystemTx : Option Bool := none
  hash : Option Hash := none
  deriving DecidableEq

namespace Record

/-- The value of a field, if it is there. The type always is. -/
def get (record : Record) : (field : Field) → Option field.Value
  | .type => some record.type
  | .chainId => record.chainId
  | .nonce => record.nonce
  | .recipient => record.recipient
  | .gas => record.gas
  | .gasPrice => record.gasPrice
  | .maxPriorityFeePerGas => record.maxPriorityFeePerGas
  | .maxFeePerGas => record.maxFeePerGas
  | .maxFeePerDataGas => record.maxFeePerDataGas
  | .value => record.value
  | .input => record.input
  | .data => record.data
  | .accessList => record.accessList
  | .blobVersionedHashes => record.blobVersionedHashes
  | .v => record.v
  | .r => record.r
  | .s => record.s
  | .sourceHash => record.sourceHash
  | .sender => record.sender
  | .mint => record.mint
  | .isSystemTx => record.isSystemTx
  | .hash => record.hash

/-- The record with the given field values; without a type it is the legacy one. -/
def ofFields (value : (field : Field) → Option field.Value) : Record where
  type := (value .type).getD (0 : UInt64)
  chainId := value .chainId
  nonce := value .nonce
  recipient := value .recipient
  gas := value .gas
  gasPrice := value .gasPrice
  maxPriorityFeePerGas := value .maxPriorityFeePerGas
  maxFeePerGas := value .maxFeePerGas
  maxFeePerDataGas := value .maxFeePerDataGas
  value := value .value
  input := value .input
  data := value .data
  accessList := value .accessList
  blobVersionedHashes := value .blobVersionedHashes
  v := value .v
  r := value .r
  s := value .s
  sourceHash := value .sourceHash
  sender := value .sender
  mint := value .mint
  isSystemTx := value .isSystemTx
  hash := value .hash

@[simp] theorem ofFields_get (record : Record) : ofFields record.get = record := rfl

/-- Reads the value of a field. `null` leaves any field absent except the type. -/
def fieldReader (field : Field) : ValueReader (Option field.Value) :=
  if field = .type then field.shape.reader.map some else nullable field.shape.reader

def schema : Schema where
  Key := Field
  keys := Field.all
  name := Field.name
  Value field := Option field.Value
  reader := fieldReader

def ofMembers (members : List schema.Member) : Record :=
  ofFields fun field => (schema.value? field members).join

def reader : ValueReader Record :=
  schema.members.map ofMembers

def parse (text : String) : Except ReadError Record :=
  readText reader .malformed text.toList

def document (record : Record) : Document :=
  .object (Field.all.filterMap fun field =>
    (record.get field).map fun value => (field.name, field.shape.document value))

def print (record : Record) : String :=
  String.ofList (record.document.print .compact)

end Record

end TxEnvelope
