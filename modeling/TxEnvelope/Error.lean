import TxEnvelope.Field
import TxEnvelope.Kind
import TxEnvelope.Rlp.Header
import TxEnvelope.Quantity

/-! Why a transaction is refused, and how each refusal is worded. -/

set_option autoImplicit false

namespace TxEnvelope

inductive SignatureError where
  | invalidR
  | invalidS
  | invalidV
  | unexpectedProtection
  deriving DecidableEq, Repr

def SignatureError.message : SignatureError → String
  | .invalidR => "r out of range"
  | .invalidS => "s out of range"
  | .invalidV => "invalid recovery id"
  | .unexpectedProtection => "unexpected replay protection"

inductive ReadError where
  | malformed
  | badQuantity (cause : Quantity.ParseError)
  | duplicateField (name : String)
  deriving DecidableEq, Repr

/-- The particulars of a refusal; a text that is merely malformed has none. -/
def ReadError.detail? : ReadError → Option String
  | .malformed => none
  | .badQuantity cause => some cause.message
  | .duplicateField name => some ("duplicate field `" ++ name ++ "`")

inductive Error where
  | missingField (field : Field)
  | unexpectedField (field : Field)
  | unsupportedType (code : UInt64)
  | invalidSignature (cause : SignatureError)
  | overflow (field : String)
  | rlp (cause : Rlp.Error)
  | json (cause : ReadError)
  deriving DecidableEq, Repr

def typeCodeText (code : UInt64) : String :=
  String.ofList (Quantity.ofUInt64 code).toHex

def Error.message : Error → String
  | .missingField field => "missing required field '" ++ field.name ++ "' in transaction"
  | .unexpectedField field => "unexpected field '" ++ field.name ++ "' in transaction"
  | .unsupportedType code => "transaction type " ++ typeCodeText code ++ " not supported"
  | .invalidSignature cause => "invalid transaction signature: " ++ cause.message
  | .overflow field => "value of field '" ++ field ++ "' overflows 256 bits"
  | .rlp cause => "rlp: " ++ cause.message
  | .json cause =>
    match cause.detail? with
    | none => "json"
    | some detail => "json: " ++ detail

/-- The cause behind a refusal, where it is a refusal of its own. -/
def Error.cause? : Error → Option String
  | .invalidSignature cause => some cause.message
  | .rlp cause => some cause.message
  | _ => none

/-- Narrows a quantity to 256 bits; a wider one is refused under the name of its field. -/
def Quantity.narrow (q : Quantity) (field : String) : Except Error UInt256 :=
  match q.toUInt256? with
  | none => .error (.overflow field)
  | some n => .ok n

end TxEnvelope
