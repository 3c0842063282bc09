/-! The tokens of a JSON text.

A string is kept as the text it denotes. One that spells half a surrogate pair
denotes no text and is kept apart: it may stand where a value is passed over,
and nowhere else. Of a number only a plain natural number is kept.
-/

set_option autoImplicit false

namespace TxEnvelope.Json

inductive Token where
  | openObject
  | closeObject
  | openArray
  | closeArray
  | colon
  | comma
  | text (content : List Char)
  | brokenText
  | natural (n : Nat)
  | otherNumber
  | bool (b : Bool)
  | null
  deriving DecidableEq, Repr

end TxEnvelope.Json
