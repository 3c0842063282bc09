import TxEnvelope.Proofs.Json.Printing
import TxEnvelope.Proofs.Record.Ending
import TxEnvelope.Proofs.Record.Members

/-! The object form and the array form of a record.

An array gives its items to the fields in their order, and an object with the
same values under the names of the fields is the same record. An absent field is
`null`, or is left out where nothing follows it. The entries of an access list
have the two forms as well.
-/

set_option autoImplicit false

namespace TxEnvelope

open Json

namespace Json

variable {schema : Schema}

def Schema.objectForm (schema : Schema) (parts : List (schema.Key × Tree)) : Tree :=
  .object (parts.map fun part => (.text (schema.name part.1).toList, part.2))

theorem objectForm_values (values : schema.Key → Tree) (keys : List schema.Key) :
    schema.objectForm (keys.map fun key => (key, values key)) =
      .object (keys.map fun key => (.text (schema.name key).toList, values key)) := by
  rw [Schema.objectForm, List.map_map]
  rfl

theorem parts_objectForm (named : schema.Named) (parts : List (schema.Key × Tree)) :
    schema.parts (schema.objectForm parts) = parts := by
  rw [Schema.objectForm, Schema.parts]
  induction parts with
  | nil => rfl
  | cons part parts ih =>
    have found : schema.keyOf? (.text (schema.name part.1).toList) = some part.1 :=
      (keyOf?_eq_some_iff named).2 rfl
    rw [List.map_cons, known_cons, found]
    exact congrArg (part :: ·) ih

theorem wellFormed_objectForm (named : schema.Named) {parts : List (schema.Key × Tree)}
    (distinct : (parts.map (·.1)).Nodup) : schema.WellFormed (schema.objectForm parts) := by
  refine ⟨fun member mem => ?_, (congrArg (·.map (·.1)) (parts_objectForm named parts)) ▸ distinct⟩
  obtain ⟨part, -, rfl⟩ := List.mem_map.1 mem
  exact nofun

def Schema.arrayForm (schema : Schema) (values : schema.Key → Tree) (n : Nat) : Tree :=
  .array ((schema.keys.take n).map values)

theorem zip_map_take {α β : Type} (f : α → β) (as : List α) (n : Nat) :
    as.zip ((as.take n).map f) = (as.take n).map fun a => (a, f a) := by
  induction as generalizing n with
  | nil => simp
  | cons a as ih =>
    cases n with
    | zero => rfl
    | succ n => exact congrArg ((a, f a) :: ·) (ih n)

theorem parts_arrayForm (values : schema.Key → Tree) (n : Nat) :
    schema.parts (schema.arrayForm values n) =
      (schema.keys.take n).map fun key => (key, values key) :=
  zip_map_take values schema.keys n

theorem wellFormed_arrayForm (values : schema.Key → Tree) (n : Nat) :
    schema.WellFormed (schema.arrayForm values n) := by
  show ((schema.keys.take n).map values).length ≤ schema.keys.length
  rw [List.length_map, List.length_take]
  exact Nat.min_le_right _ _

theorem hasText_objectForm {parts : List (schema.Key × Tree)}
    (each : ∀ part ∈ parts, part.2.HasText) : (schema.objectForm parts).HasText := by
  have members := @hasText_object (parts.map fun part => ((schema.name part.1).toList, part.2))
    fun member mem => by
      obtain ⟨part, among, rfl⟩ := List.mem_map.1 mem
      exact each part among
  rwa [List.map_map] at members

theorem map_fst_zip_sublist {α β : Type} (as : List α) (bs : List β) :
    ((as.zip bs).map (·.1)).Sublist as := by
  induction as generalizing bs with
  | nil => exact .slnil
  | cons a as ih =>
    cases bs with
    | nil => exact List.nil_sublist _
    | cons b bs => exact (ih bs).cons_cons a

/-- An array says the same as the object that names its items. -/
theorem members?_array (named : schema.Named) (distinct : schema.keys.Nodup)
    (decode? : (key : schema.Key) → Tree → Option (schema.Value key)) {items : List Tree}
    (short : items.length ≤ schema.keys.length) :
    schema.members? decode? (.array items) =
      schema.members? decode? (schema.objectForm (schema.keys.zip items)) := by
  have object := wellFormed_objectForm named (distinct.sublist (map_fst_zip_sublist _ items))
  have array : schema.WellFormed (.array items) := short
  rw [Schema.members?, Schema.members?, if_pos array, if_pos object, parts_objectForm named]
  rfl

end Json

namespace AccessEntry

theorem decode?_eq_some_iff {tree address keys : Tree} (wellFormed : schema.WellFormed tree)
    (first : Schema.valuesOf Part.address (schema.parts tree) = [address])
    (second : Schema.valuesOf Part.storageKeys (schema.parts tree) = [keys]) {entry : AccessEntry} :
    decode? tree = some entry ↔ Part.address.decode? address = some entry.address ∧
      Part.storageKeys.decode? keys = some entry.storageKeys := by
  -- A part that is given once is looked up as the one value that is given.
  have value {found : List schema.Member} {part : Part} {value : Tree}
      (decoded : schema.decodeParts? Part.decode? (schema.parts tree) = some found)
      (once : Schema.valuesOf part (schema.parts tree) = [value]) :
      schema.value? part found = part.decode? value :=
    (value?_of_decodeParts? decoded part).trans
      (congrArg (fun values => values.head?.bind part.decode?) once)
  constructor
  · intro decoded
    obtain ⟨found, collected, made⟩ := Option.bind_eq_some_iff.1 decoded
    obtain ⟨-, collected⟩ := Schema.members?_eq_some_iff.1 collected
    have one := value collected first
    have two := value collected second
    rw [toOption_eq_some_iff, ofMembers] at made
    split at made
    · next address' keys' given given' =>
      cases made
      exact ⟨one.symm.trans given, two.symm.trans given'⟩
    · cases made
  · rintro ⟨one, two⟩
    have each : (schema.decodeParts? Part.decode? (schema.parts tree)).isSome := by
      refine isSome_decodeParts?_iff.2 fun part value mem => ?_
      cases part with
      | address =>
        obtain rfl := List.mem_singleton.1 (first ▸ mem)
        exact Option.isSome_iff_exists.2 ⟨_, one⟩
      | storageKeys =>
        obtain rfl := List.mem_singleton.1 (second ▸ mem)
        exact Option.isSome_iff_exists.2 ⟨_, two⟩
    obtain ⟨found, collected⟩ := Option.isSome_iff_exists.1 each
    refine Option.bind_eq_some_iff.2
      ⟨found, Schema.members?_eq_some_iff.2 ⟨wellFormed, collected⟩, ?_⟩
    have given := (value collected first).trans one
    have given' := (value collected second).trans two
    simp only [ofMembers, given, given']
    rfl

def written (entry : AccessEntry) : Part → Tree
  | .address => (FixedBytes.document entry.address).tree
  | .storageKeys => (Document.array (entry.storageKeys.map FixedBytes.document)).tree

inductive Presents (entry : AccessEntry) : Tree → Prop where
  | object : Presents entry (schema.objectForm
      [(Part.address, entry.written .address), (Part.storageKeys, entry.written .storageKeys)])
  | array : Presents entry (.array [entry.written .address, entry.written .storageKeys])

theorem presents_document (entry : AccessEntry) : entry.Presents entry.document.tree :=
  .object

end AccessEntry

theorem Shape.decode?_document (shape : Shape) (value : shape.Value)
    (plain : shape.Plain (shape.document value).tree) :
    shape.decode? (shape.document value).tree = some value := by
  have spelled := (shape.document value).spelled_write Layout.compact_isBlank 0 []
  have read := shape.reads_document value .compact 0 [] [] Layout.compact_isBlank blank_nil
  exact ((shape.takes_reader spelled plain value []).1 read).1

namespace AccessEntry

variable {entry : AccessEntry} {tree : Tree}

theorem plain_keys (keys : List Hash) :
    ∀ item ∈ (Document.array (keys.map FixedBytes.document)).tree.items,
      FixedBytes.Plain 32 item := by
  intro item mem
  rw [Document.tree, Tree.items, Document.trees_eq, List.map_map, List.mem_map] at mem
  obtain ⟨key, -, rfl⟩ := mem
  exact Shape.plain_scalar .hash _

theorem Presents.parts_eq (presents : entry.Presents tree) :
    schema.parts tree =
      [(Part.address, entry.written .address), (Part.storageKeys, entry.written .storageKeys)] := by
  cases presents with
  | object => exact parts_objectForm schema_named _
  | array => exact @parts_arrayForm schema entry.written 2

theorem Presents.wellFormed (presents : entry.Presents tree) : schema.WellFormed tree := by
  cases presents with
  | object =>
    have distinct : [Part.address, Part.storageKeys].Nodup := by decide
    exact wellFormed_objectForm schema_named distinct
  | array => exact @wellFormed_arrayForm schema entry.written 2

theorem Presents.plain (presents : entry.Presents tree) : Plain tree := by
  rw [Plain, presents.parts_eq]
  exact List.forall_mem_cons.2 ⟨Shape.plain_scalar .address _,
    List.forall_mem_singleton.2 (plain_keys entry.storageKeys)⟩

theorem Presents.decode?_eq (presents : entry.Presents tree) : decode? tree = some entry := by
  have first := congrArg (Schema.valuesOf Part.address) presents.parts_eq
  have second := congrArg (Schema.valuesOf Part.storageKeys) presents.parts_eq
  refine (decode?_eq_some_iff presents.wellFormed first second).2 ⟨?_, ?_⟩
  · exact Shape.decode?_document .address entry.address (Shape.plain_scalar .address _)
  · exact Shape.decode?_document .hashes entry.storageKeys (plain_keys entry.storageKeys)

theorem Presents.hasText (presents : entry.Presents tree) : tree.HasText := by
  have each (part : Part) : (entry.written part).HasText := by
    cases part <;> exact Document.hasText _
  cases presents with
  | object =>
    exact hasText_objectForm (List.forall_mem_cons.2 ⟨each .address,
      List.forall_mem_singleton.2 (each .storageKeys)⟩)
  | array =>
    exact hasText_array (List.forall_mem_cons.2 ⟨each .address,
      List.forall_mem_singleton.2 (each .storageKeys)⟩)

end AccessEntry

namespace Shape

/-- The JSON values that stand for a value of a shape: the one that is written for it, where the
entries of an access list may have either form. -/
def Presents : (shape : Shape) → shape.Value → Tree → Prop
  | .accessList, entries, tree => ∃ pairs : List (AccessEntry × Tree),
      pairs.map (·.1) = entries ∧ tree = .array (pairs.map (·.2)) ∧
        ∀ pair ∈ pairs, pair.1.Presents pair.2
  | shape, value, tree => tree = (shape.document value).tree

variable {shape : Shape} {value : shape.Value} {tree : Tree}

theorem Presents.plain (presents : shape.Presents value tree) : shape.Plain tree := by
  cases shape with
  | accessList =>
    obtain ⟨pairs, -, rfl, each⟩ := presents
    intro item mem
    obtain ⟨pair, among, rfl⟩ := List.mem_map.1 mem
    exact (each pair among).plain
  | hashes =>
    cases presents
    exact AccessEntry.plain_keys value
  | integer | quantity | address | hash | bytes | flag =>
    cases presents
    exact plain_scalar _ _

theorem decode?_null (shape : Shape) : shape.decode? (.scalar .null) = none := by
  cases shape <;> rfl

theorem Presents.decode?_eq (presents : shape.Presents value tree) :
    shape.decode? tree = some value := by
  cases shape with
  | accessList =>
    obtain ⟨pairs, rfl, rfl, each⟩ := presents
    exact mapM_map_eq_some fun pair mem => (each pair mem).decode?_eq
  | integer | quantity | address | hash | bytes | flag | hashes =>
    have plain := presents.plain
    cases presents
    exact decode?_document _ value plain

theorem Presents.hasText (presents : shape.Presents value tree) : tree.HasText := by
  cases shape with
  | accessList =>
    obtain ⟨pairs, -, rfl, each⟩ := presents
    refine hasText_array fun item mem => ?_
    obtain ⟨pair, among, rfl⟩ := List.mem_map.1 mem
    exact (each pair among).hasText
  | integer | quantity | address | hash | bytes | flag | hashes =>
    cases presents
    exact Document.hasText _

theorem presents_document (shape : Shape) (value : shape.Value) :
    shape.Presents value (shape.document value).tree := by
  cases shape with
  | accessList =>
    let pairs := value.map fun entry => (entry, entry.document.tree)
    refine ⟨pairs, List.map_map.trans (List.map_id value), ?_, fun pair mem => ?_⟩
    · rw [document, Document.tree, Document.trees_eq, List.map_map, List.map_map]
      rfl
    · obtain ⟨entry, -, rfl⟩ := List.mem_map.1 mem
      exact entry.presents_document
  | integer | quantity | address | hash | bytes | flag | hashes => exact rfl

end Shape

namespace Record

variable {record : Record} {values : Field → Tree}

/-- A JSON value for every field of the record, `null` for one that is absent. -/
def Presents (record : Record) (values : Field → Tree) : Prop :=
  ∀ field : Field, match record.get field with
    | none => values field = .scalar .null
    | some value => field.shape.Presents value (values field)

theorem Presents.of_none (presents : record.Presents values) {field : Field}
    (absent : record.get field = none) : values field = .scalar .null := by
  have own := presents field
  rw [absent] at own
  exact own

theorem Presents.of_some (presents : record.Presents values) {field : Field} {value : field.Value}
    (given : record.get field = some value) : field.shape.Presents value (values field) := by
  have own := presents field
  rw [given] at own
  exact own

theorem Presents.plain (presents : record.Presents values) (field : Field) :
    field.shape.Plain (values field) := by
  cases found : record.get field with
  | none =>
    rw [presents.of_none found]
    exact field.shape.plain_scalar _
  | some value => exact (presents.of_some found).plain

theorem decodeField?_eq_some {field : Field} {tree : Tree} {value : field.Value}
    (decoded : field.shape.decode? tree = some value) :
    decodeField? field tree = some (some value) := by
  have differs : tree ≠ .scalar .null := by
    rintro rfl
    rw [field.shape.decode?_null] at decoded
    cases decoded
  have some_ : (decodeField? field tree).isSome :=
    isSome_decodeField?_iff.2 (.inr (Option.isSome_iff_exists.2 ⟨value, decoded⟩))
  obtain ⟨found, decodes⟩ := Option.isSome_iff_exists.1 some_
  have same := @join_decodeField? field _ differs
  rw [decodes, decoded] at same
  exact decodes.trans (congrArg some same)

theorem Presents.decodeField?_eq (presents : record.Presents values) (field : Field) :
    decodeField? field (values field) = some (record.get field) := by
  cases found : record.get field with
  | none =>
    -- The type is never absent, and any other field takes `null` for no value.
    have other : field ≠ .type := by
      rintro rfl
      cases found
    rw [presents.of_none found, decodeField?, if_neg other]
    rfl
  | some value => exact decodeField?_eq_some (presents.of_some found).decode?_eq

/-- A JSON value that gives the fields of a record, all that are there among them, is the record. -/
theorem Presents.decode?_eq (presents : record.Presents values) {tree : Tree}
    {fields : List Field} (wellFormed : schema.WellFormed tree)
    (parts : schema.parts tree = fields.map fun field => (field, values field))
    (complete : ∀ field ∉ fields, record.get field = none) : decode? tree = some record := by
  let given : List schema.Member := fields.map fun field => ⟨field, record.get field⟩
  have decoded : schema.decodeParts? decodeField? (schema.parts tree) = some given := by
    rw [parts]
    refine mapM_map_eq_some fun field _ => ?_
    exact congrArg (Option.map _) (presents.decodeField?_eq field)
  -- Lookups are known among members that a filter has collected, so the list is said as such.
  have listed : given = fields.filterMap fun field =>
      (some (record.get field)).map (Sigma.mk (β := schema.Value) field) :=
    (congrFun List.filterMap_eq_map fields).symm
  have found (field : Field) : (schema.value? field given).join = record.get field := by
    rw [listed]
    refine (congrArg Option.join
      (@value?_filterMap schema field (fun field => some (record.get field)) fields)).trans ?_
    split
    · rfl
    · next missing => exact (complete field missing).symm
  refine Option.map_eq_some_iff.2
    ⟨given, Schema.members?_eq_some_iff.2 ⟨wellFormed, decoded⟩, ?_⟩
  exact (congrArg ofFields (funext found)).trans record.ofFields_get

theorem Presents.parse_eq (presents : record.Presents values) {tree : Tree} {fields : List Field}
    (wellFormed : schema.WellFormed tree)
    (parts : schema.parts tree = fields.map fun field => (field, values field))
    (complete : ∀ field ∉ fields, record.get field = none) {text : String} {rest : List Char}
    (spelled : tree.Spelled text.toList rest) (blank : Blank rest) : parse text = .ok record := by
  have plain : Plain tree := by
    rw [Plain, parts]
    intro part mem
    obtain ⟨field, -, rfl⟩ := List.mem_map.1 mem
    exact presents.plain field
  exact (parse_eq_ok_iff spelled blank plain record).2
    (presents.decode?_eq wellFormed parts complete)

theorem Presents.hasText (presents : record.Presents values) (field : Field) :
    (values field).HasText := by
  cases found : record.get field with
  | none =>
    rw [presents.of_none found]
    exact hasText_null
  | some value => exact (presents.of_some found).hasText

def written (record : Record) (field : Field) : Tree :=
  match record.get field with
  | none => .scalar .null
  | some value => (field.shape.document value).tree

theorem presents_written (record : Record) : record.Presents record.written := by
  intro field
  cases found : record.get field with
  | none => simp only [written, found]
  | some own =>
    simp only [written, found]
    exact field.shape.presents_document own

def givenFields (record : Record) : List Field :=
  Field.all.filter fun field => (record.get field).isSome

theorem tree_document (record : Record) :
    record.document.tree =
      schema.objectForm (record.givenFields.map fun field => (field, record.written field)) := by
  have members (fields : List Field) :
      Document.memberTrees (fields.filterMap fun field =>
        (record.get field).map fun value => (field.name, field.shape.document value)) =
      ((fields.filter fun field => (record.get field).isSome).map fun field =>
        (.text field.name.toList, record.written field)) := by
    induction fields with
    | nil => rfl
    | cons field fields ih =>
      cases found : record.get field with
      | none =>
        rw [List.filterMap_cons_none (by simp [found]), List.filter_cons_of_neg (by simp [found])]
        exact ih
      | some value =>
        rw [List.filterMap_cons_some (by rw [found]; rfl),
          List.filter_cons_of_pos (by simp [found]), List.map_cons, Document.memberTrees, ih,
          written, found]
  rw [document, Document.tree, members, givenFields]
  exact (@objectForm_values schema record.written _).symm

theorem nodup_pairs {fields : List Field} (distinct : fields.Nodup) (values : Field → Tree) :
    ((fields.map fun field => (field, values field)).map (·.1)).Nodup := by
  rw [List.map_map]
  exact (List.map_id fields).symm ▸ distinct

theorem itemsSpelled_nulls {items : List Tree} {mid rest : List Char}
    (others : ItemsSpelled items mid rest) (n : Nat) :
    ItemsSpelled (List.replicate n (.scalar .null) ++ items)
      ((List.replicate n ",null".toList).flatten ++ mid) rest := by
  induction n with
  | zero => exact others
  | succ n ih => exact .item (.front .comma) (.scalar .null (.front .null)) ih

/-- The object form and the array form of a record agree. In an array every field has its place:
one that is absent is `null`, and may be left out with all behind it where those are absent too. In
an object the fields stand under their names, in any order, and any that are absent may be left out.
Either way, and whichever form each entry of the access list has, every text of the values is read
as the record. An array of values that are not torn is read as the object that names them, and one
of more than twenty-two is not read at all. -/
theorem forms_agree (record : Record) :
    (∀ values : Field → Tree, record.Presents values →
      (∀ n, (∀ field ∈ Field.all.drop n, record.get field = none) →
        (∃ text : String, (schema.arrayForm values n).Spelled text.toList []) ∧
        ∀ (text : String) (rest : List Char), (schema.arrayForm values n).Spelled text.toList rest →
          Blank rest → parse text = .ok record) ∧
      ∀ fields : List Field, fields.Nodup → (∀ field ∉ fields, record.get field = none) →
        let object := schema.objectForm (fields.map fun field => (field, values field))
        (∃ text : String, object.Spelled text.toList []) ∧
        ∀ (text : String) (rest : List Char), object.Spelled text.toList rest → Blank rest →
          parse text = .ok record) ∧
    (record.Presents record.written ∧ parse record.print = .ok record ∧
      record.document.tree =
        schema.objectForm (record.givenFields.map fun field => (field, record.written field))) ∧
    (∀ items : List Tree, items.length ≤ 22 → Plain (.array items) →
      ∀ (text other : String) (rest behind : List Char),
        (Tree.array items).Spelled text.toList rest → Blank rest →
        (schema.objectForm (Field.all.zip items)).Spelled other.toList behind → Blank behind →
        (parse text = .ok record ↔ parse other = .ok record)) ∧
    ∀ items : List Tree, 22 < items.length →
      (∀ part ∈ Field.all.zip items, part.1.shape.Tame part.2) →
      ∀ (text : String) (rest : List Char), (Tree.array items).Spelled text.toList rest →
        parse text ≠ .ok record := by
  refine ⟨fun values presents => ⟨fun n absent => ?_, fun fields distinct absent => ?_⟩,
    ⟨record.presents_written, record.parse_print, record.tree_document⟩,
    fun items short plain text other rest behind array blank object blank' => ?_,
    fun items long tame text rest spelled read => ?_⟩
  · -- A field that an array does not reach is among those behind the cut.
    have complete : ∀ field ∉ Field.all.take n, record.get field = none := by
      intro field missing
      refine absent field ?_
      have all := field.mem_all
      rw [← List.take_append_drop n Field.all, List.mem_append] at all
      exact all.resolve_left missing
    refine ⟨(hasText_array fun item mem => ?_).exists_string, fun text rest spelled blank =>
      presents.parse_eq (wellFormed_arrayForm _ n) (@parts_arrayForm schema values n) complete
        spelled blank⟩
    obtain ⟨field, -, rfl⟩ := List.mem_map.1 mem
    exact presents.hasText field
  · refine ⟨(hasText_objectForm fun part mem => ?_).exists_string, fun text rest spelled blank =>
      presents.parse_eq (wellFormed_objectForm schema_named (nodup_pairs distinct values))
        (parts_objectForm schema_named _) absent spelled blank⟩
    obtain ⟨field, -, rfl⟩ := List.mem_map.1 mem
    exact presents.hasText field
  · -- Both forms give the same parts, so they are plain together and mean the same.
    have parts : schema.parts (schema.objectForm (Field.all.zip items)) =
        schema.parts (.array items) := parts_objectForm schema_named _
    have plain' : Plain (schema.objectForm (Field.all.zip items)) := by
      rw [Plain, parts]
      exact plain
    have distinct : Field.all.Nodup := by decide
    have same : decode? (.array items) = decode? (schema.objectForm (Field.all.zip items)) :=
      congrArg (Option.map ofMembers)
        (members?_array schema_named distinct decodeField? short)
    rw [parse_eq_ok_iff array blank plain, parse_eq_ok_iff object blank' plain', same]
  · exact absurd (length_items_le spelled tame read) (Nat.not_le_of_lt long)

/-- An access list entry in the short form, in an array that ends behind the list, and an array with
an item in excess. -/
theorem forms_agree_short_entry :
    let entry : AccessEntry := ⟨.zero 20, [.zero 32]⟩
    let record : Record := { type := 1, accessList := some [entry] }
    let list := Tree.array [.array [entry.written .address, entry.written .storageKeys]]
    let values := fun field => if field = .accessList then list else record.written field
    let item : Tree := .scalar (.text ['0', 'x', '1'])
    record.Presents values ∧ (∀ field ∈ Field.all.drop 13, record.get field = none) ∧
      (∃ text : String, (schema.arrayForm values 13).Spelled text.toList [] ∧
        parse text = .ok record) ∧
      (∃ text : String, (schema.objectForm [(.accessList, list), (.type, values .type)]).Spelled
        text.toList [] ∧ parse text = .ok record) ∧
      (parse "[\"0x1\"]" = .ok { type := 1 } ↔
        parse "\x7b\"type\":\"0x1\"\x7d" = .ok { type := 1 }) ∧
      ∀ text : String,
        (Tree.array (item :: List.replicate 22 (.scalar .null))).Spelled text.toList [] →
          parse text ≠ .ok record := by
  intro entry record list values item
  have presents : record.Presents values := by
    intro field
    by_cases own : field = .accessList
    · subst own
      exact ⟨[(entry, _)], rfl, rfl, List.forall_mem_singleton.2 .array⟩
    · have same : values field = record.written field := if_neg own
      rw [same]
      exact record.presents_written field
  have absent : ∀ field ∈ Field.all.drop 13, record.get field = none := by
    intro field behind
    cases field with
    | type | accessList => exact absurd behind (by decide)
    | _ => rfl
  have given : ∀ field ∉ [Field.accessList, .type], record.get field = none := by
    intro field missing
    cases field with
    | type | accessList => exact absurd (by decide) missing
    | _ => rfl
  obtain ⟨forms, -, -, long⟩ := forms_agree record
  obtain ⟨-, -, agree, -⟩ := forms_agree { type := 1 }
  obtain ⟨cut, named⟩ := forms values presents
  obtain ⟨⟨text, spelled⟩, read⟩ := cut 13 absent
  obtain ⟨⟨text', spelled'⟩, read'⟩ := named [.accessList, .type] (by decide) given
  refine ⟨presents, absent, ⟨text, spelled, read text [] spelled blank_nil⟩,
    ⟨text', spelled', read' text' [] spelled' blank_nil⟩, ?_, ?_⟩
  · have plain : Plain (.array [item]) :=
      List.forall_mem_singleton.2 (Shape.plain_scalar (Field.shape .type) _)
    refine agree [item] (by decide) plain _ _ [] [] ?_ blank_nil ?_ blank_nil
    · simp only [String.reduceToList]
      exact .array (.front .openArray) (.scalar (.text _) (.verbatim rfl _))
        (.close (.front .closeArray))
    · simp only [String.reduceToList]
      have named : schema.objectForm (Field.all.zip [item]) =
          .object [(.text ['t', 'y', 'p', 'e'], item)] := by
        have name : "type".toList = ['t', 'y', 'p', 'e'] := by simp only [String.reduceToList]
        exact congrArg (fun name => Tree.object [(.text name, item)]) name
      rw [named]
      exact .object (.front .openObject)
        (.mk (.text _) (.verbatim rfl _) (.front .colon) (.scalar (.text _) (.verbatim rfl _)))
        (.close (.front .closeObject))
  · intro text spelled
    refine long (item :: List.replicate 22 (.scalar .null)) (by decide) ?_ text [] spelled
    intro part mem
    obtain ⟨token, scalar⟩ : ∃ token, part.2 = .scalar token := by
      rcases List.mem_cons.1 (List.of_mem_zip mem).2 with first | other
      · exact ⟨_, first⟩
      · exact ⟨_, List.eq_of_mem_replicate other⟩
    rw [scalar]
    exact part.1.shape.tame_scalar token

/-- Where an address has an item in excess that breaks off inside, an array of twenty-three values
may be read. -/
theorem long_array_read :
    let zeros := '0' :: (List.replicate 19 [',', '0']).flatten
    let nulls (n : Nat) := (List.replicate n ",null".toList).flatten
    let torn := List.replicate 20 (Tree.scalar (.natural 0)) ++ [.scalar .brokenText]
    let items := .scalar (.text ['0', 'x', '0']) ::
      (List.replicate 2 (.scalar .null) ++ .array torn ::
        (List.replicate 18 (.scalar .null) ++ [.array []]))
    let text := String.ofList ("[\"0x0\"".toList ++ (nulls 2 ++ (",[".toList ++ (zeros ++
      (",\"\\ud800 ]".toList ++ (nulls 14 ++ (",[".toList ++ (zeros ++
        (",\"]".toList ++ (nulls 18 ++ ",[\t]]".toList))))))))))
    (Tree.array items).Spelled text.toList [] ∧ items.length = 23 ∧
      parse text = .ok { recipient := some (.zero 20), sender := some (.zero 20) } := by
  intro zeros nulls torn items text
  -- The torn string goes on to its quote, over what the reader takes for the end of the array.
  let content := " ]".toList ++ (nulls 14 ++ (",[".toList ++ (zeros ++ [','])))
  have broken (rest : List Char) :
      Lexeme .brokenText ("\"\\ud800".toList ++ (content ++ '\x22' :: rest)) rest := by
    simp only [String.reduceToList, List.cons_append, List.nil_append]
    exact .front (.brokenText (.piece (.unit rfl) (piecesSpelled_verbatim rfl rest)) rfl)
  have address (rest : List Char) : (Tree.array torn).Spelled
      ('[' :: (zeros ++ ',' :: ("\"\\ud800".toList ++ (content ++ '\x22' :: ']' :: rest))))
        rest :=
    .array (.front .openArray) (.scalar (.natural 0)
      (.front (@Token.Spelled.number _ ['0'] _ (.natural .zero) (numberEnds_comma _))))
      (itemsSpelled_zeros (.item (.front .comma) (.scalar .brokenText (broken _))
        (.close (.front .closeArray))) (numberEnds_comma _) 19)
  refine ⟨?_, rfl, ?_⟩
  · have ending : ItemsSpelled [.array []] ",[\t]]".toList [] := by
      simp only [String.reduceToList]
      exact .item (.front .comma)
        (.emptyArray (.front .openArray) (.blank rfl (.front .closeArray)))
        (.close (.front .closeArray))
    have behind := itemsSpelled_nulls (.item (.front .comma) (address _)
      (itemsSpelled_nulls ending 18)) 2
    have whole := Tree.Spelled.array (.front .openArray)
      (.scalar (.text ['0', 'x', '0']) (.verbatim rfl _)) behind
    rw [String.toList_ofList]
    simpa only [content, nulls, String.reduceToList, List.cons_append, List.nil_append,
      List.append_assoc] using whole
  · rw [parse, String.toList_ofList]
    exact toOption_eq_some_iff.1 (by decide +kernel)

end Record

end TxEnvelope
