import TxEnvelope.Json.Lexer

/-! Passing over a value of any shape and any depth.

A machine walks the tokens with the containers that are still open on a stack.
It stops behind the value, or refuses at the first token that cannot stand where
it is.
-/

set_option autoImplicit false

namespace TxEnvelope.Json

inductive Container where
  | array
  | object
  deriving DecidableEq, Repr

inductive Awaiting where
  | value
  | firstItem
  | firstKey
  | key
  | colon
  /-- A value has ended: its container goes on or closes. -/
  | more
  deriving DecidableEq, Repr

/-- The containers still open, innermost first, and what is looked for in the innermost. -/
structure Position where
  opened : List Container
  awaiting : Awaiting
  deriving DecidableEq, Repr

namespace Position

def start (opened : List Container) : Token → Option Position
  | .openArray => some ⟨.array :: opened, .firstItem⟩
  | .openObject => some ⟨.object :: opened, .firstKey⟩
  | .text _ | .brokenText | .natural _ | .otherNumber | .bool _ | .null => some ⟨opened, .more⟩
  | _ => none

def key (opened : List Container) : Token → Option Position
  | .text _ | .brokenText => some ⟨opened, .colon⟩
  | _ => none

def step (position : Position) (token : Token) : Option Position :=
  match position.awaiting, position.opened with
  | .value, opened => start opened token
  -- Only a container that has just been opened may close before a first element.
  | .firstItem, .array :: outer =>
    if token = .closeArray then some ⟨outer, .more⟩ else start (.array :: outer) token
  | .firstKey, .object :: outer =>
    if token = .closeObject then some ⟨outer, .more⟩ else key (.object :: outer) token
  | .key, opened => key opened token
  | .colon, opened => if token = .colon then some ⟨opened, .value⟩ else none
  | .more, .array :: outer =>
    match token with
    | .comma => some ⟨.array :: outer, .value⟩
    | .closeArray => some ⟨outer, .more⟩
    | _ => none
  | .more, .object :: outer =>
    match token with
    | .comma => some ⟨.object :: outer, .key⟩
    | .closeObject => some ⟨outer, .more⟩
    | _ => none
  | _, _ => none

/-- Walks on until nothing is open any more, and answers the text behind. -/
def run (position : Position) (input : List Char) : Option (List Char) :=
  match _next : next input with
  | none => none
  | some (token, rest) =>
    match position.step token with
    | none => none
    | some ⟨[], .more⟩ => some rest
    | some following => following.run rest
termination_by input.length
decreasing_by exact length_of_next _next

theorem length_of_run {position : Position} {input rest : List Char}
    (h : position.run input = some rest) : rest.length < input.length := by
  fun_induction position.run input with
  | case1 | case2 => simp at h
  | case3 position input token left taken =>
    rw [← Option.some.inj h]
    exact length_of_next taken
  | case4 position input token left taken following _ _ ih =>
    exact Nat.lt_trans (ih h) (length_of_next taken)

end Position

def skipValue (input : List Char) : Option (List Char) :=
  (Position.mk [] .value).run input

end TxEnvelope.Json
