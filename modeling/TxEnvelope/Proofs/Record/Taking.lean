import TxEnvelope.Proofs.Json.Composite
import TxEnvelope.Record.Basic

/-! What the readers of record fields make of their texts.

Each shape of field values decodes the values of its JSON forms, and its reader
takes them so. A byte string of a fixed width has one exception: an array that
has all its bytes and then an item that is no byte is left out here.
-/

set_option autoImplicit false

namespace TxEnvelope

open Json

def Json.textOr? {α : Type} (convert : List Char → Option α) (decode? : Tree → Option α) :
    Tree → Option α
  | .scalar (.text content) => convert content
  | tree => decode? tree

theorem textValue_eq_ok_iff {α : Type} {convert : List Char → Option α} {token : Token} {a : α} :
    textValue convert token = .ok a ↔
      ∃ content, token = .text content ∧ convert content = some a := by
  cases token with
  | text content => cases found : convert content <;> simp [textValue, found]
  | _ => simp [textValue]

namespace Integer

/-- A plain number or the text of one, if it needs no more than 64 bits. -/
def decode? : Tree → Option UInt64
  | .scalar (.natural n) => narrow? n
  | .scalar (.text content) => (parse? content).bind narrow?
  | _ => none

theorem takes_reader : Takes reader decode? fun _ => True := by
  refine takes_single (fun token n => ?_) (fun _ _ => ⟨by simp [textValue], by simp [decode?]⟩)
    fun _ _ => ⟨by simp [textValue], by simp [decode?]⟩
  cases token with
  | natural m => cases found : narrow? m <;> simp [decode?, found]
  | _ => simp [textValue_eq_ok_iff, decode?]

end Integer

namespace Quantity

def decode? : Tree → Option Quantity
  | .scalar (.text content) => (parse content).toOption
  | _ => none

theorem takes_reader : Takes reader decode? fun _ => True := by
  refine takes_single (fun token q => ?_) (fun _ _ => ⟨by simp, by simp [decode?]⟩)
    fun _ _ => ⟨by simp, by simp [decode?]⟩
  cases token with
  | text content => simp [mapError_eq_ok_iff, decode?, toOption_eq_some_iff]
  | _ => simp [decode?]

end Quantity

namespace Bytes

def byte? : Tree → Option UInt8
  | .scalar (.natural n) => if n < 256 then some (UInt8.ofNat n) else none
  | _ => none

def decode? : Tree → Option Bytes :=
  textOr? Hex.decode? (items? byte?)

theorem takes_byteReader : Takes byteReader byte? fun _ => True := by
  refine takes_single (fun token b => ?_) (fun _ _ => ⟨by simp, by simp [byte?]⟩)
    fun _ _ => ⟨by simp, by simp [byte?]⟩
  cases token with
  | natural n => by_cases small : n < 256 <;> simp [byte?, small]
  | _ => simp [byte?]

theorem takes_readerWith {items : ValueReader Bytes} {decode? : Tree → Option Bytes}
    {Plain : Tree → Prop} (takes : Takes items decode? Plain) :
    Takes (readerWith items) (textOr? Hex.decode? decode?) Plain := by
  intro tree input rest spelled plain bytes left
  have other := takes spelled plain bytes left
  simp only [readerWith]
  -- A string is taken through the conversion, and anything else as the array that it may be.
  split
  · next content behind text =>
    cases tree with
    | scalar token =>
      rw [spelled.next_scalar] at text
      cases text
      simp only [textOr?, map_eq_ok_iff, textValue_eq_ok_iff, Prod.mk.injEq]
      constructor
      · rintro ⟨_, ⟨_, ⟨⟩, found⟩, rfl, rfl⟩
        exact ⟨found, rfl⟩
      · rintro ⟨found, rfl⟩
        exact ⟨bytes, ⟨content, rfl, found⟩, rfl, rfl⟩
    | array | object =>
      obtain ⟨_, first⟩ := spelled.exists_next
      rw [first] at text
      cases text
  · next noText =>
    rw [other, textOr?]
    rintro content rfl
    exact noText content rest spelled.next_scalar

theorem takes_reader : Takes reader decode? fun _ => True :=
  (takes_readerWith takes_byteReader.array).mono fun _ _ _ _ => trivial

end Bytes

namespace FixedBytes

/-- Behind so many bytes there is an item that is no byte. -/
def Surplus (width : Nat) (items : List Tree) : Prop :=
  ∃ front item behind, items = front ++ item :: behind ∧ front.length = width ∧
    (∀ byte ∈ front, (Bytes.byte? byte).isSome) ∧ Bytes.byte? item = none

/-- The value is not an array with an item in excess that is no byte. -/
def Plain (width : Nat) (tree : Tree) : Prop :=
  ¬ Surplus width tree.items

def decode? (width : Nat) (tree : Tree) : Option (FixedBytes width) :=
  (Bytes.decode? tree).bind (ofBytes? width)

def sized? (width : Nat) (tree : Tree) : Option Bytes :=
  if tree.items.length = width then items? Bytes.byte? tree else none

theorem surplus_cons {width : Nat} {byte : Tree} {items : List Tree}
    (isByte : (Bytes.byte? byte).isSome) (surplus : Surplus width items) :
    Surplus (width + 1) (byte :: items) := by
  obtain ⟨front, item, behind, rfl, rfl, bytes, other⟩ := surplus
  exact ⟨byte :: front, item, behind, rfl, rfl, List.forall_mem_cons.2 ⟨isByte, bytes⟩, other⟩

theorem surplus_of_byte?_eq_none {item : Tree} {items : List Tree}
    (other : Bytes.byte? item = none) : Surplus 0 (item :: items) :=
  ⟨[], item, items, rfl, rfl, nofun, other⟩

theorem moreBytes_succ_eq_ok_iff {count : Nat} {input mid left : List Char} {bytes : Bytes}
    (comma : next input = some (.comma, mid)) :
    moreBytes (count + 1) input = .ok (bytes, left) ↔
      ∃ byte rest others, Bytes.byteReader.read mid = .ok (byte, rest) ∧
        moreBytes count rest = .ok (others, left) ∧ bytes = byte :: others := by
  rw [moreBytes, comma]
  constructor
  · intro more
    dsimp only at more
    split at more
    · cases more
    · next byte rest read =>
      split at more
      · cases more
      · next others rest' rests =>
        cases more
        exact ⟨byte, rest, others, read, rests, rfl⟩
  · rintro ⟨byte, rest, others, read, more, rfl⟩
    simp only [read, more]

theorem takes_moreBytes {count : Nat} {items : List Tree} {input rest : List Char}
    (spelled : ItemsSpelled items input rest) (plain : ¬ Surplus count items) (bytes : Bytes)
    (left : List Char) :
    moreBytes count input = .ok (bytes, left) ↔
      items.length = count ∧ items.mapM Bytes.byte? = some bytes ∧ left = rest := by
  induction count generalizing items input bytes with
  | zero =>
    cases spelled with
    | close closed => simp [moreBytes, endArray, closeArray, closed.next_eq, eq_comm]
    | @item item _ _ start mid _ comma first others =>
      -- A first item in excess is a byte, so the end is not looked for behind it.
      cases found : Bytes.byte? item with
      | none => exact absurd (surplus_of_byte?_eq_none found) plain
      | some byte =>
        have read := (Bytes.takes_byteReader first trivial byte mid).2 ⟨found, rfl⟩
        simp [moreBytes, endArray, comma.next_eq, read]
  | succ count ih =>
    cases spelled with
    | close closed => simp [moreBytes, closed.next_eq]
    | @item item items _ start mid _ comma first others =>
      rw [moreBytes_succ_eq_ok_iff comma.next_eq, mapM_cons_eq_some_iff, List.length_cons,
        Nat.succ_inj]
      have read := Bytes.takes_byteReader first trivial
      constructor
      · rintro ⟨byte, mid', others', one, more, rfl⟩
        obtain ⟨value, rfl⟩ := (read byte mid').1 one
        have plain' : ¬ Surplus count items := fun surplus =>
          plain (surplus_cons (by simp [value]) surplus)
        obtain ⟨short, values, rfl⟩ := (ih others plain' others').1 more
        exact ⟨short, ⟨byte, value, others', values, rfl⟩, rfl⟩
      · rintro ⟨short, ⟨byte, value, others', values, rfl⟩, rfl⟩
        have plain' : ¬ Surplus count items := fun surplus =>
          plain (surplus_cons (by simp [value]) surplus)
        exact ⟨byte, mid, others', (read byte mid).2 ⟨value, rfl⟩,
          (ih others plain' others').2 ⟨short, values, rfl⟩, rfl⟩

theorem takes_itemReader {width : Nat} (positive : 0 < width) :
    Takes (itemReader width) (sized? width) (Plain width) := by
  intro tree input rest spelled plain bytes left
  cases spelled with
  | scalar isScalar lexeme =>
    simp only [itemReader, lexeme.next_eq]
    cases isScalar <;> simp [sized?, items?]
  | emptyArray opened closed =>
    -- The bracket stands where the first byte is looked for.
    obtain ⟨width, rfl⟩ : ∃ width', width = width' + 1 := ⟨width - 1, by omega⟩
    simp [itemReader, opened.next_eq, moreBytes, Bytes.byteReader, single, closed.next_eq,
      Except.map, sized?, Tree.items]
  | array opened first others =>
    simp only [itemReader, opened.next_eq, sized?, items?, Tree.items]
    rw [takes_moreBytes (.item (.front .comma) first others) plain, ← and_assoc]
    simp
  | emptyObject opened closed | object opened first others =>
    simp [itemReader, opened.next_eq, sized?, items?]

theorem bind_sized? (width : Nat) (tree : Tree) :
    (sized? width tree).bind (ofBytes? width) =
      (items? Bytes.byte? tree).bind (ofBytes? width) := by
  rw [sized?]
  split
  · rfl
  · next other =>
    cases found : items? Bytes.byte? tree with
    | none => rfl
    | some bytes =>
      cases tree with
      | array items =>
        have same := length_of_mapM found
        rw [Option.bind_some, ofBytes?, dif_neg fun fits => other (same.symm.trans fits)]
        rfl
      | scalar | object => cases found

theorem takes_reader {width : Nat} (positive : 0 < width) :
    Takes (reader width) (decode? width) (Plain width) := by
  refine ((Bytes.takes_readerWith (takes_itemReader positive)).refine _).congr fun tree => ?_
  refine (congrArg (Option.bind _) (funext fun bytes => (?_ : _ = ofBytes? width bytes))).trans ?_
  · cases ofBytes? width bytes <;> rfl
  rw [decode?, Bytes.decode?]
  cases tree with
  | scalar token => cases token <;> first | rfl | exact bind_sized? width _
  | array | object => exact bind_sized? width _

end FixedBytes

namespace AccessEntry

def Part.decode? : (part : Part) → Tree → Option part.Value
  | .address => FixedBytes.decode? 20
  | .storageKeys => items? (FixedBytes.decode? 32)

def Part.Plain : Part → Tree → Prop
  | .address, tree => FixedBytes.Plain 20 tree
  | .storageKeys, tree => ∀ item ∈ tree.items, FixedBytes.Plain 32 item

theorem Part.takes_reader (part : Part) :
    Takes (schema.reader part) (part.decode?) (part.Plain) := by
  cases part with
  | address => exact FixedBytes.takes_reader (by decide)
  | storageKeys => exact (FixedBytes.takes_reader (by decide)).array

def decode? (tree : Tree) : Option AccessEntry :=
  (schema.members? Part.decode? tree).bind fun members => (ofMembers members).toOption

def Plain (tree : Tree) : Prop :=
  ∀ part ∈ schema.parts tree, Part.Plain part.1 part.2

theorem takes_reader : Takes reader decode? Plain :=
  (takes_members Part.takes_reader).refine ofMembers

end AccessEntry

namespace Shape

def decode? : (shape : Shape) → Tree → Option shape.Value
  | .integer => Integer.decode?
  | .quantity => Quantity.decode?
  | .address => FixedBytes.decode? 20
  | .hash => FixedBytes.decode? 32
  | .bytes => Bytes.decode?
  | .accessList => items? AccessEntry.decode?
  | .hashes => items? (FixedBytes.decode? 32)
  | .flag => fun
    | .scalar (.bool b) => some b
    | _ => none

/-- Nothing in the value that is read as a byte string of a fixed width is an array with an item in
excess that is no byte. -/
def Plain : Shape → Tree → Prop
  | .address, tree => FixedBytes.Plain 20 tree
  | .hash, tree => FixedBytes.Plain 32 tree
  | .accessList, tree => ∀ entry ∈ tree.items, AccessEntry.Plain entry
  | .hashes, tree => ∀ item ∈ tree.items, FixedBytes.Plain 32 item
  | .integer, _ | .quantity, _ | .bytes, _ | .flag, _ => True

theorem plain_scalar (shape : Shape) (token : Token) : shape.Plain (.scalar token) := by
  have none (width : Nat) : FixedBytes.Plain width (.scalar token) := by
    rintro ⟨front, item, behind, split, -⟩
    simp [Tree.items] at split
  cases shape with
  | address | hash => exact none _
  | accessList | hashes => exact nofun
  | integer | quantity | bytes | flag => trivial

theorem takes_flag {Plain : Tree → Prop} : Takes (reader .flag) (decode? .flag) Plain := by
  refine takes_single (fun token b => ?_) (fun _ _ => ⟨by simp, by simp [decode?]⟩)
    fun _ _ => ⟨by simp, by simp [decode?]⟩
  cases token <;> simp [decode?]

theorem takes_reader (shape : Shape) : Takes shape.reader shape.decode? shape.Plain := by
  cases shape with
  | integer => exact Integer.takes_reader
  | quantity => exact Quantity.takes_reader
  | address | hash => exact FixedBytes.takes_reader (by decide)
  | bytes => exact Bytes.takes_reader
  | accessList => exact AccessEntry.takes_reader.array
  | hashes => exact (FixedBytes.takes_reader (by decide)).array
  | flag => exact takes_flag

end Shape

namespace Record

/-- The value of a field, or none for `null`; the type is never `null`. -/
def decodeField? (field : Field) : Tree → Option (Option field.Value) :=
  if field = .type then fun tree => (field.shape.decode? tree).map some
  else nullOr? field.shape.decode?

theorem takes_fieldReader (field : Field) :
    Takes (fieldReader field) (decodeField? field) field.shape.Plain := by
  unfold fieldReader decodeField?
  split
  · exact (field.shape.takes_reader).map some
  · exact (field.shape.takes_reader).nullable

def decode? (tree : Tree) : Option Record :=
  (schema.members? decodeField? tree).map ofMembers

def Plain (tree : Tree) : Prop :=
  ∀ part ∈ schema.parts tree, Shape.Plain (Field.shape part.1) part.2

theorem takes_reader : Takes reader decode? Plain := by
  have members : Takes schema.members (schema.members? decodeField?) Plain :=
    @takes_members schema decodeField? (fun field => Shape.Plain (Field.shape field))
      takes_fieldReader
  exact members.map ofMembers

/-- How a text is spelled makes no difference to the record that it is read as. -/
theorem parse_eq_ok_iff {text : String} {tree : Tree} {rest : List Char}
    (spelled : tree.Spelled text.toList rest) (blank : Blank rest) (plain : Plain tree)
    (record : Record) : parse text = .ok record ↔ decode? tree = some record := by
  have read := takes_reader spelled plain
  rw [parse, readText]
  constructor
  · intro parsed
    split at parsed
    · cases parsed
    · next found left first =>
      split at parsed
      · cases parsed
        exact ((read _ _).1 first).1
      · cases parsed
  · intro decoded
    simp only [(read record rest).2 ⟨decoded, rfl⟩, skipBlanks_eq_nil blank, if_true]

end Record

end TxEnvelope
