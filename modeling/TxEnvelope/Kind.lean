/-! The transaction kinds and their type bytes. -/

set_option autoImplicit false

namespace TxEnvelope

inductive Kind where
  | legacy
  | accessList
  | dynamicFee
  | blob
  | offchain
  | deposit
  deriving DecidableEq, Repr

namespace Kind

instance : Inhabited Kind := ⟨.legacy⟩

/-- Every kind, by rising type byte. -/
def all : List Kind :=
  [.legacy, .accessList, .dynamicFee, .blob, .offchain, .deposit]

def byte : Kind → UInt8
  | .legacy => 0x00
  | .accessList => 0x01
  | .dynamicFee => 0x02
  | .blob => 0x03
  | .offchain => 0x7d
  | .deposit => 0x7e

def name : Kind → String
  | .legacy => "legacy"
  | .accessList => "eip2930"
  | .dynamicFee => "eip1559"
  | .blob => "eip4844"
  | .offchain => "offchain"
  | .deposit => "deposit"

def code (kind : Kind) : UInt64 :=
  kind.byte.toUInt64

def ofByte? (byte : UInt8) : Option Kind :=
  all.find? fun kind => kind.byte == byte

def ofCode? (code : UInt64) : Option Kind :=
  all.find? fun kind => kind.code == code

instance : Ord Kind := ⟨fun a b => compare a.byte b.byte⟩

def isTyped (kind : Kind) : Bool :=
  kind != .legacy

/-- Whether transactions of the kind are injected by protocol machinery and carry no signature. -/
def isSystem : Kind → Bool
  | .offchain | .deposit => true
  | _ => false

def isKnownByte (byte : UInt8) : Bool :=
  (ofByte? byte).isSome

theorem mem_all (kind : Kind) : kind ∈ all := by
  cases kind <;> decide

@[simp] theorem ofByte?_byte (kind : Kind) : ofByte? kind.byte = some kind := by
  cases kind <;> decide

@[simp] theorem ofCode?_code (kind : Kind) : ofCode? kind.code = some kind := by
  cases kind <;> decide

theorem byte_of_ofByte? {byte : UInt8} {kind : Kind} (h : ofByte? byte = some kind) :
    kind.byte = byte := by
  simpa using List.find?_some h

theorem code_of_ofCode? {code : UInt64} {kind : Kind} (h : ofCode? code = some kind) :
    kind.code = code := by
  simpa using List.find?_some h

end Kind

end TxEnvelope
