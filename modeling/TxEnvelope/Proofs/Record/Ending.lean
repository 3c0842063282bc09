import TxEnvelope.Proofs.Json.Ending
import TxEnvelope.Proofs.Json.Surplus
import TxEnvelope.Proofs.Record.Taking

/-! Where the readers of record fields end.

They end behind their values, whether or not the values can be told from the
JSON alone. Only an array of bytes in which a string that denotes no text stands
where the array should close leads a reader astray.
-/

set_option autoImplicit false

namespace TxEnvelope

open Json

theorem Bytes.ends_readerWith {items : ValueReader Bytes} {Tame : Tree → Prop}
    (ends : Ends items Tame) : Ends (readerWith items) Tame := by
  intro tree input rest spelled tame bytes left read
  simp only [readerWith] at read
  split at read
  · next content behind text =>
    obtain ⟨_, -, same⟩ := map_eq_ok_iff.1 read
    cases same
    cases tree with
    | scalar token =>
      rw [spelled.next_scalar] at text
      cases text
      rfl
    | array | object =>
      obtain ⟨_, first⟩ := spelled.exists_next
      rw [first] at text
      cases text
  · exact ends spelled tame read

namespace FixedBytes

/-- Behind so many bytes there is a string that denotes no text. -/
def Torn (width : Nat) (items : List Tree) : Prop :=
  ∃ front behind, items = front ++ .scalar .brokenText :: behind ∧ front.length = width ∧
    ∀ byte ∈ front, (Bytes.byte? byte).isSome

def Tame (width : Nat) (tree : Tree) : Prop :=
  ¬ Torn width tree.items

theorem tame_scalar (width : Nat) (token : Token) : Tame width (.scalar token) := by
  rintro ⟨front, behind, split, -, -⟩
  cases front <;> cases split

theorem torn_cons {width : Nat} {byte : Tree} {items : List Tree}
    (isByte : (Bytes.byte? byte).isSome) (torn : Torn width items) :
    Torn (width + 1) (byte :: items) := by
  obtain ⟨front, behind, rfl, rfl, bytes⟩ := torn
  exact ⟨byte :: front, behind, rfl, rfl, List.forall_mem_cons.2 ⟨isByte, bytes⟩⟩

theorem ends_moreBytes {count : Nat} {items : List Tree} {input rest left : List Char}
    {bytes : Bytes} (spelled : ItemsSpelled items input rest) (tame : ¬ Torn count items)
    (read : moreBytes count input = .ok (bytes, left)) : left = rest := by
  -- The count is that of the bytes still wanted; at zero the end of the array is looked for.
  induction count generalizing items input bytes with
  | zero =>
    have whole : items.head? ≠ some (.scalar .brokenText) := by
      intro broken
      obtain ⟨behind, rfl⟩ := List.head?_eq_some_iff.1 broken
      exact tame ⟨[], behind, rfl, rfl, nofun⟩
    rw [moreBytes] at read
    split at read
    · cases read
    · next ended =>
      cases read
      exact spelled.endArray_eq whole ended
  | succ count ih =>
    cases spelled with
    | close closed =>
      rw [moreBytes, closed.next_eq] at read
      cases read
    | item comma first others =>
      obtain ⟨byte, mid, others', one, more, rfl⟩ :=
        (moreBytes_succ_eq_ok_iff comma.next_eq).1 read
      obtain ⟨value, rfl⟩ := (Bytes.takes_byteReader first trivial byte mid).1 one
      exact ih others (fun torn => tame (torn_cons (by simp [value]) torn)) more

theorem ends_itemReader {width : Nat} (positive : 0 < width) :
    Ends (itemReader width) (Tame width) := by
  intro tree input rest spelled tame bytes left read
  simp only [itemReader] at read
  cases spelled with
  | scalar isScalar lexeme =>
    rw [lexeme.next_eq] at read
    cases isScalar <;> cases read
  | emptyArray opened closed =>
    obtain ⟨width, rfl⟩ : ∃ width', width = width' + 1 := ⟨width - 1, by omega⟩
    simp [opened.next_eq, moreBytes, Bytes.byteReader, single, closed.next_eq, Except.map] at read
  | array opened first others =>
    simp only [opened.next_eq] at read
    exact ends_moreBytes (.item (.front .comma) first others) tame read
  | emptyObject opened | object opened =>
    rw [opened.next_eq] at read
    cases read

theorem ends_reader {width : Nat} (positive : 0 < width) : Ends (reader width) (Tame width) :=
  (Bytes.ends_readerWith (ends_itemReader positive)).refine _

end FixedBytes

namespace AccessEntry

def Part.Tame : Part → Tree → Prop
  | .address, tree => FixedBytes.Tame 20 tree
  | .storageKeys, tree => ∀ item ∈ tree.items, FixedBytes.Tame 32 item

theorem Part.ends_reader (part : Part) : Ends (schema.reader part) part.Tame := by
  cases part with
  | address => exact FixedBytes.ends_reader (by decide)
  | storageKeys => exact (FixedBytes.ends_reader (by decide)).array

def Tame (tree : Tree) : Prop :=
  ∀ part ∈ schema.parts tree, Part.Tame part.1 part.2

theorem ends_reader : Ends reader Tame := by
  have members : Ends schema.members Tame := fun tree input rest spelled tame found left read =>
    (ends_members Part.ends_reader spelled tame read).2
  exact members.refine ofMembers

end AccessEntry

namespace Shape

/-- Nothing in the value that is read as a byte string of a fixed width is an array that is torn
behind its bytes. -/
def Tame : Shape → Tree → Prop
  | .address, tree => FixedBytes.Tame 20 tree
  | .hash, tree => FixedBytes.Tame 32 tree
  | .accessList, tree => ∀ entry ∈ tree.items, AccessEntry.Tame entry
  | .hashes, tree => ∀ item ∈ tree.items, FixedBytes.Tame 32 item
  | .integer, _ | .quantity, _ | .bytes, _ | .flag, _ => True

theorem tame_scalar (shape : Shape) (token : Token) : shape.Tame (.scalar token) := by
  cases shape with
  | address | hash => exact FixedBytes.tame_scalar _ token
  | accessList | hashes => exact nofun
  | integer | quantity | bytes | flag => trivial

theorem ends_reader (shape : Shape) : Ends shape.reader shape.Tame := by
  cases shape with
  | integer | quantity | bytes | flag => exact (takes_reader _).ends
  | address | hash => exact FixedBytes.ends_reader (by decide)
  | accessList => exact AccessEntry.ends_reader.array
  | hashes => exact (FixedBytes.ends_reader (by decide)).array

end Shape

namespace Record

theorem ends_fieldReader (field : Field) : Ends (fieldReader field) field.shape.Tame := by
  unfold fieldReader
  split
  · exact field.shape.ends_reader.map some
  · exact field.shape.ends_reader.nullable

theorem length_items_le {text : String} {tree : Tree} {rest : List Char} {record : Record}
    (spelled : tree.Spelled text.toList rest)
    (tame : ∀ part ∈ schema.parts tree, Shape.Tame (Field.shape part.1) part.2)
    (read : parse text = .ok record) : tree.items.length ≤ 22 := by
  rw [parse, readText] at read
  split at read
  · cases read
  · next found left first =>
    obtain ⟨members, collected, -⟩ := Reader.map_eq_ok_iff.1 first
    exact (@ends_members schema (fun field => Shape.Tame (Field.shape field)) _ _ _ _
      ends_fieldReader _ spelled tame collected).1

end Record

end TxEnvelope
