import TxEnvelope.Hex

/-! JSON documents and their printing, on one line or indented. -/

set_option autoImplicit false

namespace TxEnvelope.Json

inductive Document where
  | text (content : List Char)
  | bool (b : Bool)
  | array (items : List Document)
  | object (members : List (String × Document))

def quoteChar (c : Char) : List Char :=
  if c = '\x22' then ['\\', '\x22']
  else if c = '\\' then ['\\', '\\']
  else if c = '\x08' then ['\\', 'b']
  else if c = '\t' then ['\\', 't']
  else if c = '\n' then ['\\', 'n']
  else if c = '\x0c' then ['\\', 'f']
  else if c = '\r' then ['\\', 'r']
  else if c.toNat < 0x20 then
    ['\\', 'u', '0', '0', Hex.digit (c.toNat / 16), Hex.digit (c.toNat % 16)]
  else [c]

def quote (content : List Char) : List Char :=
  '\x22' :: (content.flatMap quoteChar ++ ['\x22'])

/-- The blanks of a printed document: in front of an item or a closing bracket at a depth, and
behind a colon. -/
structure Layout where
  lineBreak : Nat → List Char
  afterColon : List Char

namespace Layout

def compact : Layout where
  lineBreak _ := []
  afterColon := []

/-- A line for every item, indented by two spaces for each level. -/
def indented : Layout where
  lineBreak depth := '\n' :: List.replicate (2 * depth) ' '
  afterColon := [' ']

end Layout

namespace Document

mutual

/-- The text of a document that stands at a depth. An empty container has no blanks in it. -/
def write (layout : Layout) (depth : Nat) : Document → List Char
  | .text content => quote content
  | .bool true => ['t', 'r', 'u', 'e']
  | .bool false => ['f', 'a', 'l', 's', 'e']
  | .array [] => ['[', ']']
  | .array (item :: items) =>
    '[' :: (layout.lineBreak (depth + 1) ++ write layout (depth + 1) item
      ++ writeItems layout (depth + 1) items ++ layout.lineBreak depth ++ [']'])
  | .object [] => ['\x7b', '\x7d']
  | .object ((key, value) :: members) =>
    '\x7b' :: (layout.lineBreak (depth + 1) ++ quote key.toList ++ ':' :: layout.afterColon
      ++ write layout (depth + 1) value ++ writeMembers layout (depth + 1) members
      ++ layout.lineBreak depth ++ ['\x7d'])

def writeItems (layout : Layout) (depth : Nat) : List Document → List Char
  | [] => []
  | item :: items =>
    ',' :: (layout.lineBreak depth ++ write layout depth item ++ writeItems layout depth items)

def writeMembers (layout : Layout) (depth : Nat) : List (String × Document) → List Char
  | [] => []
  | (key, value) :: members =>
    ',' :: (layout.lineBreak depth ++ quote key.toList ++ ':' :: layout.afterColon
      ++ write layout depth value ++ writeMembers layout depth members)

end

def print (layout : Layout) (document : Document) : List Char :=
  document.write layout 0

end Document

end TxEnvelope.Json
