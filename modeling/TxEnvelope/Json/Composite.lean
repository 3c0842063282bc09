import TxEnvelope.Error
import TxEnvelope.Json.Lexer
import TxEnvelope.Json.Skip
import TxEnvelope.Reader

/-! Readers of JSON values from the front of a text.

An array is read item by item. A value with named parts is described by a
schema and may be written as an object, in any order and with unknown members
between the known ones, or as an array of the parts in the schema's order.
Every text is read in one pass, so its first error is the one reported.
-/

set_option autoImplicit false

namespace TxEnvelope.Json

abbrev ValueReader (α : Type) := Reader Char ReadError α

def single {α : Type} (accept : Token → Except ReadError α) : ValueReader α where
  read input :=
    match next input with
    | none => .error .malformed
    | some (token, rest) => (accept token).map (·, rest)
  shrinks {input a rest} h := by
    split at h
    · simp at h
    · next token left taken =>
      cases found : accept token with
      | error e => simp [found, Except.map] at h
      | ok b =>
        simp only [found, Except.map, Except.ok.injEq, Prod.mk.injEq] at h
        exact h.2 ▸ length_of_next taken

def nullable {α : Type} (reader : ValueReader α) : ValueReader (Option α) where
  read input :=
    match next input with
    | some (.null, rest) => .ok (none, rest)
    | _ => (reader.map some).read input
  shrinks {input a rest} h := by
    split at h
    · next left taken =>
      simp only [Except.ok.injEq, Prod.mk.injEq] at h
      exact h.2 ▸ length_of_next taken
    · exact (reader.map some).shrinks h

section Array

variable {α : Type}

/-- The items of an array after an item, each behind a comma, up to the closing bracket. -/
def moreItems (item : ValueReader α) (input : List Char) :
    Except ReadError (List α × List Char) :=
  match _next : next input with
  | some (.closeArray, rest) => .ok ([], rest)
  | some (.comma, mid) =>
    match _read : item.read mid with
    | .error e => .error e
    | .ok (a, rest) =>
      match moreItems item rest with
      | .error e => .error e
      | .ok (items, rest) => .ok (a :: items, rest)
  | _ => .error .malformed
termination_by input.length
decreasing_by exact Nat.lt_trans (item.shrinks _read) (length_of_next _next)

theorem length_of_moreItems {item : ValueReader α} {input rest : List Char} {items : List α}
    (h : moreItems item input = .ok (items, rest)) : rest.length < input.length := by
  fun_induction moreItems item input generalizing items rest with
  | case1 input left taken =>
    simp only [Except.ok.injEq, Prod.mk.injEq] at h
    exact h.2 ▸ length_of_next taken
  | case2 | case3 | case5 => simp at h
  | case4 input mid taken a left read items' rest' more ih =>
    simp only [Except.ok.injEq, Prod.mk.injEq] at h
    rw [← h.2]
    exact Nat.lt_trans (ih more) (Nat.lt_trans (item.shrinks read) (length_of_next taken))

/-- Reads an array. Its first item is read as if it stood behind a comma. -/
def array (item : ValueReader α) : ValueReader (List α) where
  read input :=
    match next input with
    | some (.openArray, inside) =>
      match next inside with
      | some (.closeArray, rest) => .ok ([], rest)
      | _ => moreItems item (',' :: inside)
    | _ => .error .malformed
  shrinks {input items rest} h := by
    split at h
    · next inside opened =>
      have outer := length_of_next opened
      split at h
      · next left closed =>
        simp only [Except.ok.injEq, Prod.mk.injEq] at h
        exact h.2 ▸ Nat.lt_trans (length_of_next closed) outer
      · have inner := length_of_moreItems h
        rw [List.length_cons] at inner
        omega
    · simp at h

end Array

structure Schema where
  Key : Type
  [keyEq : DecidableEq Key]
  /-- The parts in the order of the array form. -/
  keys : List Key
  name : Key → String
  Value : Key → Type
  reader : (key : Key) → ValueReader (Value key)

namespace Schema

variable (schema : Schema)

instance : DecidableEq schema.Key := schema.keyEq

abbrev Member : Type := (key : schema.Key) × schema.Value key

def ofName? (key : List Char) : Option schema.Key :=
  schema.keys.find? fun known => (schema.name known).toList == key

def memberValue (key : schema.Key) (input : List Char) :
    Except ReadError (schema.Member × List Char) :=
  match next input with
  | some (.colon, rest) => ((schema.reader key).map (Sigma.mk key)).read rest
  | _ => .error .malformed

def unknownValue (input : List Char) : Except ReadError (List Char) :=
  match next input with
  | some (.colon, rest) =>
    match skipValue rest with
    | none => .error .malformed
    | some rest => .ok rest
  | _ => .error .malformed

theorem length_of_memberValue {schema : Schema} {key : schema.Key} {input rest : List Char}
    {member : schema.Member} (h : schema.memberValue key input = .ok (member, rest)) :
    rest.length < input.length := by
  unfold memberValue at h
  split at h
  · next left colon =>
    exact Nat.lt_trans (((schema.reader key).map (Sigma.mk key)).shrinks h) (length_of_next colon)
  · simp at h

theorem length_of_unknownValue {input rest : List Char} (h : unknownValue input = .ok rest) :
    rest.length < input.length := by
  unfold unknownValue at h
  split at h
  · next left colon =>
    split at h
    · simp at h
    · next passed =>
      rw [← Except.ok.inj h]
      exact Nat.lt_trans (Position.length_of_run passed) (length_of_next colon)
  · simp at h

/-- One member of an object. A known key that was seen before is refused at once, before its
value is looked at; an unknown one yields nothing. -/
def member (seen : List schema.Key) : ValueReader (Option schema.Member) where
  read input :=
    match next input with
    | some (.text key, rest) =>
      match schema.ofName? key with
      | none => (unknownValue rest).map (none, ·)
      | some known =>
        -- The refusal comes first: not even the colon behind a repeated key is looked at.
        if known ∈ seen then .error (.duplicateField (schema.name known))
        else (schema.memberValue known rest).map fun (found, rest) => (some found, rest)
    | _ => .error .malformed
  shrinks {input found rest} h := by
    split at h
    · next key tail taken =>
      have less := length_of_next taken
      split at h
      · cases passed : unknownValue tail with
        | error e => simp [passed, Except.map] at h
        | ok left =>
          simp only [passed, Except.map, Except.ok.injEq, Prod.mk.injEq] at h
          exact h.2 ▸ Nat.lt_trans (length_of_unknownValue passed) less
      · next known named =>
        split at h
        · simp at h
        · cases valued : schema.memberValue known tail with
          | error e => simp [valued, Except.map] at h
          | ok pair =>
            simp only [valued, Except.map, Except.ok.injEq, Prod.mk.injEq] at h
            exact h.2 ▸ Nat.lt_trans (length_of_memberValue valued) less
    · simp at h

def moreMembers (seen : List schema.Key) (input : List Char) :
    Except ReadError (List schema.Member × List Char) :=
  match _next : next input with
  | some (.closeObject, rest) => .ok ([], rest)
  | some (.comma, mid) =>
    match _read : (schema.member seen).read mid with
    | .error e => .error e
    | .ok (none, rest) => moreMembers seen rest
    | .ok (some found, rest) =>
      match moreMembers (found.1 :: seen) rest with
      | .error e => .error e
      | .ok (members, rest) => .ok (found :: members, rest)
  | _ => .error .malformed
termination_by input.length
decreasing_by
  all_goals exact Nat.lt_trans ((schema.member seen).shrinks _read) (length_of_next _next)

theorem length_of_moreMembers {schema : Schema} {seen : List schema.Key} {input rest : List Char}
    {members : List schema.Member} (h : schema.moreMembers seen input = .ok (members, rest)) :
    rest.length < input.length := by
  fun_induction schema.moreMembers seen input generalizing members rest with
  | case1 seen input left taken =>
    simp only [Except.ok.injEq, Prod.mk.injEq] at h
    exact h.2 ▸ length_of_next taken
  | case2 | case4 | case6 => simp at h
  | case3 seen input mid taken left read ih =>
    exact Nat.lt_trans (ih h)
      (Nat.lt_trans ((schema.member seen).shrinks read) (length_of_next taken))
  | case5 seen input mid taken found left read members' rest' more ih =>
    simp only [Except.ok.injEq, Prod.mk.injEq] at h
    rw [← h.2]
    exact Nat.lt_trans (ih more)
      (Nat.lt_trans ((schema.member seen).shrinks read) (length_of_next taken))

/-- The values of an array for the given parts, each behind a comma. The array may end early. -/
def moreValues (keys : List schema.Key) (input : List Char) :
    Except ReadError (List schema.Member × List Char) :=
  match next input, keys with
  | some (.closeArray, rest), _ => .ok ([], rest)
  | some (.comma, mid), key :: keys =>
    match (schema.reader key).read mid with
    | .error e => .error e
    | .ok (value, rest) =>
      match moreValues keys rest with
      | .error e => .error e
      | .ok (members, rest) => .ok (⟨key, value⟩ :: members, rest)
  | _, _ => .error .malformed
termination_by structural keys

theorem length_of_moreValues {schema : Schema} {keys : List schema.Key} {input rest : List Char}
    {members : List schema.Member} (h : schema.moreValues keys input = .ok (members, rest)) :
    rest.length < input.length := by
  fun_induction schema.moreValues keys input generalizing members rest with
  | case1 keys input left taken =>
    simp only [Except.ok.injEq, Prod.mk.injEq] at h
    exact h.2 ▸ length_of_next taken
  | case2 | case3 | case5 => simp at h
  | case4 input mid key keys taken value left read members' rest' more ih =>
    simp only [Except.ok.injEq, Prod.mk.injEq] at h
    rw [← h.2]
    exact Nat.lt_trans (ih more)
      (Nat.lt_trans ((schema.reader key).shrinks read) (length_of_next taken))

def members : ValueReader (List schema.Member) where
  read input :=
    match next input with
    | some (.openObject, inside) =>
      match next inside with
      | some (.closeObject, rest) => .ok ([], rest)
      | _ => schema.moreMembers [] (',' :: inside)
    | some (.openArray, inside) =>
      match next inside with
      | some (.closeArray, rest) => .ok ([], rest)
      | _ => schema.moreValues schema.keys (',' :: inside)
    | _ => .error .malformed
  shrinks {input found rest} h := by
    split at h
    · next inside opened =>
      have outer := length_of_next opened
      split at h
      · next left closed =>
        simp only [Except.ok.injEq, Prod.mk.injEq] at h
        exact h.2 ▸ Nat.lt_trans (length_of_next closed) outer
      · have inner := length_of_moreMembers h
        rw [List.length_cons] at inner
        omega
    · next inside opened =>
      have outer := length_of_next opened
      split at h
      · next left closed =>
        simp only [Except.ok.injEq, Prod.mk.injEq] at h
        exact h.2 ▸ Nat.lt_trans (length_of_next closed) outer
      · have inner := length_of_moreValues h
        rw [List.length_cons] at inner
        omega
    · simp at h

/-- The value of a part among members, the first one counting. -/
def value? (key : schema.Key) : List schema.Member → Option (schema.Value key)
  | [] => none
  | found :: members => if h : found.1 = key then some (h ▸ found.2) else value? key members

end Schema

/-- Reads a whole text as one value; anything but blanks behind it is refused as `trailing`. -/
def readText {ε α : Type} (reader : Reader Char ε α) (trailing : ε) (text : List Char) :
    Except ε α :=
  match reader.read text with
  | .error e => .error e
  | .ok (a, rest) => if skipBlanks rest = [] then .ok a else .error trailing

end TxEnvelope.Json
