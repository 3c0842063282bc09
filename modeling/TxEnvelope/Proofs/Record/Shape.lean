import TxEnvelope.Proofs.Json.Writing
import TxEnvelope.Proofs.Narrowing
import TxEnvelope.Proofs.Quantity
import TxEnvelope.Record.Basic

/-! Records are read back from the text that is written for them.

Each shape reads its own written values, so each field of a record does, and
with them the record as a whole: what is absent stays absent, and what is there
stays there, be it zero or empty.
-/

set_option autoImplicit false

namespace TxEnvelope

open Json

namespace Integer

theorem digit?_digit {v : Nat} (small : v < 16) : digit? 16 (Hex.digit v) = some v := by
  simp [digit?, Hex.value?_digit small, small]

theorem parse?_toHex (n : UInt64) :
    (parse? (Quantity.ofUInt64 n).toHex).bind narrow? = some n := by
  obtain ⟨values, written, -, small, denoted⟩ := (Quantity.ofUInt64 n).exists_hexDigits
  have counted : (values.map Hex.digit).filter (· != '_') = values.map Hex.digit := by
    have single : ∀ v : Fin 16, Hex.digit v ≠ '_' := by decide
    refine List.filter_eq_self.2 fun c mem => ?_
    obtain ⟨v, within, rfl⟩ := List.mem_map.1 mem
    simpa using single ⟨v, small v within⟩
  have digits : (values.map Hex.digit).mapM (digit? 16) = some values :=
    Hex.mapM_digit fun v mem => digit?_digit (small v mem)
  simp only [Quantity.toHex, written, parse?, splitBase, counted, digits, Option.map_some,
    Option.bind_some, denoted]
  exact Quantity.toUInt64?_eq_some_iff.2 rfl

theorem reads_document (n : UInt64) : Reads reader (document n) n := by
  apply reads_text
  simp only [textValue, parse?_toHex]

end Integer

theorem Quantity.reads_document (q : Quantity) : Reads reader (document q) q := by
  apply reads_text
  simp only [parse_toHex]
  rfl

theorem Bytes.reads_readerWith (items : ValueReader Bytes) (bytes : Bytes) :
    Reads (readerWith items) (document bytes) bytes := by
  intro layout depth blanks rest _ blank
  simp only [readerWith, next_append blank, document, Document.write, next_quote, textValue,
    Hex.decode?_encode]
  rfl

theorem Bytes.reads_document (bytes : Bytes) : Reads reader (document bytes) bytes :=
  reads_readerWith _ bytes

theorem FixedBytes.reads_document {width : Nat} (fixed : FixedBytes width) :
    Reads (reader width) fixed.document fixed := by
  apply (Bytes.reads_readerWith _ fixed.bytes).refine
  rw [ofBytes?_bytes]

namespace AccessEntry

theorem schema_named : schema.Named := by
  intro part
  cases part <;> decide

def entries (entry : AccessEntry) : List schema.Entry :=
  [(⟨.address, entry.address⟩, FixedBytes.document entry.address),
    (⟨.storageKeys, entry.storageKeys⟩, .array (entry.storageKeys.map FixedBytes.document))]

theorem reads_document (entry : AccessEntry) : Reads reader entry.document entry := by
  have parts : ∀ part ∈ entry.entries, Reads (schema.reader part.1.1) part.2 part.1.2 := by
    simp only [entries, List.forall_mem_cons]
    exact ⟨FixedBytes.reads_document _,
      reads_array fun key _ => FixedBytes.reads_document key, nofun⟩
  have distinct : [Part.address, Part.storageKeys].Nodup := by decide
  exact (reads_members schema_named parts distinct).refine rfl

end AccessEntry

/-- Every shape reads its written values back. -/
theorem Shape.reads_document (shape : Shape) (value : shape.Value) :
    Reads shape.reader (shape.document value) value := by
  cases shape with
  | integer => exact Integer.reads_document value
  | quantity => exact Quantity.reads_document value
  | address | hash => exact FixedBytes.reads_document value
  | bytes => exact Bytes.reads_document value
  | accessList => exact reads_array fun entry _ => AccessEntry.reads_document entry
  | hashes => exact reads_array fun hash _ => FixedBytes.reads_document hash
  | flag => exact reads_bool rfl

namespace Record

theorem schema_named : schema.Named := by
  intro field
  cases field <;> decide

def entries (record : Record) : List schema.Entry :=
  Field.all.filterMap fun field =>
    (record.get field).map fun value => (⟨field, some value⟩, field.shape.document value)

theorem document_eq (record : Record) :
    record.document = .object (record.entries.map (·.written)) := by
  rw [document, entries, List.map_filterMap]
  simp only [Option.map_map]
  rfl

theorem reads_entries (record : Record) :
    ∀ entry ∈ record.entries, Reads (schema.reader entry.1.1) entry.2 entry.1.2 := by
  intro entry mem
  obtain ⟨field, -, there⟩ := List.mem_filterMap.1 mem
  obtain ⟨value, found, rfl⟩ := Option.map_eq_some_iff.1 there
  show Reads (fieldReader field) (field.shape.document value) (some value)
  unfold fieldReader
  split
  · exact (field.shape.reads_document value).map some
  · exact (field.shape.reads_document value).nullable

theorem nodup_entries (record : Record) : (record.entries.map (·.1.1)).Nodup := by
  have fields : Field.all.Nodup := by decide
  refine List.pairwise_map.2 (List.Pairwise.filterMap _ ?_ fields)
  intro field other distinct entry one second two
  obtain ⟨value, -, rfl⟩ := Option.map_eq_some_iff.1 one
  obtain ⟨value', -, rfl⟩ := Option.map_eq_some_iff.1 two
  exact distinct

theorem value?_entries (record : Record) (field : Field) :
    schema.value? field (record.entries.map (·.1)) = (record.get field).map some := by
  have members : record.entries.map (·.1) = Field.all.filterMap fun field =>
      ((record.get field).map some).map (Sigma.mk (β := schema.Value) field) := by
    rw [entries, List.map_filterMap]
    congr 1
    funext field
    cases record.get field <;> rfl
  rw [members]
  exact (@value?_filterMap schema field (fun field => (record.get field).map some)
    Field.all).trans (if_pos (Field.mem_all field))

theorem ofMembers_entries (record : Record) : ofMembers (record.entries.map (·.1)) = record := by
  have kept (field : Field) :
      (schema.value? field (record.entries.map (·.1))).join = record.get field := by
    rw [value?_entries]
    cases record.get field <;> rfl
  exact (congrArg ofFields (funext kept)).trans record.ofFields_get

theorem reads_document (record : Record) : Reads reader record.document record := by
  have members := reads_members schema_named record.reads_entries record.nodup_entries
  rw [← document_eq] at members
  have read := members.map ofMembers
  rw [ofMembers_entries] at read
  exact read

/-- A text may have any blanks where a layout puts them, and behind it. -/
theorem parse_layout_append (record : Record) {layout : Layout} (blank : layout.IsBlank)
    {tail : List Char} (blankTail : Blank tail) :
    parse (String.ofList (record.document.print layout ++ tail)) = .ok record := by
  have read := record.reads_document.readText .malformed blank blank_nil blankTail
  rw [List.nil_append] at read
  rw [parse, String.toList_ofList, read]

theorem parse_layout (record : Record) {layout : Layout} (blank : layout.IsBlank) :
    parse (String.ofList (record.document.print layout)) = .ok record := by
  have read := record.parse_layout_append blank blank_nil
  rwa [List.append_nil] at read

theorem parse_print (record : Record) : parse record.print = .ok record :=
  record.parse_layout Layout.compact_isBlank

theorem map_name_entries (record : Record) :
    (record.entries.map (·.written)).map (·.1) =
      (Field.all.filter fun field => (record.get field).isSome).map Field.name := by
  rw [entries, List.map_filterMap, List.map_filterMap, ← List.filterMap_eq_filter,
    List.map_filterMap]
  congr 1
  funext field
  rw [Option.guard]
  cases record.get field <;> rfl

/-- Any record comes back from its text, on one line or indented, as it was, so that no two have
the same text. A field has a member in the text if it is there, be it with a zero, with nothing in
it or with `false`, and none if it is absent. -/
theorem record_text_round_trip (record : Record) :
    parse record.print = .ok record ∧
    parse (String.ofList (record.document.print .indented)) = .ok record ∧
    (∀ other : Record, record.print = other.print ↔ record = other) ∧
    ∃ members, record.document = .object members ∧
      members.map (·.1) =
        (Field.all.filter fun field => (record.get field).isSome).map Field.name := by
  refine ⟨record.parse_print, record.parse_layout Layout.indented_isBlank, fun other => ?_,
    _, record.document_eq, record.map_name_entries⟩
  constructor
  · intro same
    have read := record.parse_print
    rw [same, other.parse_print] at read
    exact (Except.ok.inj read).symm
  · rintro rfl
    rfl

-- What is there but empty is written like any other value.
example :
    print { value := some 0, input := some [], accessList := some [], isSystemTx := some false } =
      "\x7b\"type\":\"0x0\",\"value\":\"0x0\",\"input\":\"0x\",\"accessList\":[]," ++
        "\"isSystemTx\":false\x7d" := by
  decide +kernel

end Record

end TxEnvelope
