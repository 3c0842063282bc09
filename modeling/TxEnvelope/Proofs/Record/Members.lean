import TxEnvelope.Proofs.Record.Shape
import TxEnvelope.Proofs.Record.Taking

/-! The record of an object is made of its known members.

An object text is read by what its members say of the fields of a record, each by
its name. The order of the members, blanks, the spelling of strings and members
with unknown names make no difference.
-/

set_option autoImplicit false

namespace TxEnvelope

open Json

namespace AccessEntry

theorem length_valuesNamed {members : List (Token × Tree)}
    (decoded : (decode? (.object members)).isSome) (part : Part) :
    (valuesNamed part.name members).length = 1 := by
  obtain ⟨entry, made⟩ := Option.isSome_iff_exists.1 decoded
  obtain ⟨found, collected, complete⟩ := Option.bind_eq_some_iff.1 made
  rw [toOption_eq_some_iff, ofMembers] at complete
  obtain ⟨-, each⟩ := (isSome_members?_object_iff schema_named).1
    (Option.isSome_iff_exists.2 ⟨found, collected⟩)
  have once : (valuesNamed part.name members).length ≤ 1 := (each part).1
  have given : valuesNamed part.name members ≠ [] := by
    intro missing
    have absent : schema.value? part found = none := by
      refine (value?_of_members?_object schema_named collected part).trans ?_
      exact congrArg (fun values => values.head?.bind part.decode?) missing
    split at complete
    · next address storageKeys first second => cases part <;> simp_all
    · cases complete
  have positive := List.length_pos_iff.2 given
  omega

end AccessEntry

namespace Record

variable {members : List (Token × Tree)} {record : Record}

theorem get_ofFields (value : (field : Field) → Option field.Value) (field : Field) :
    (ofFields value).get field = (value field).or (({} : Record).get field) := by
  cases field with
  | type =>
    show some ((value .type).getD (0 : UInt64)) = (value .type).or (some (0 : UInt64))
    cases value .type <;> rfl
  | _ => exact Option.or_none.symm

theorem isSome_decodeField?_iff {field : Field} {tree : Tree} :
    (decodeField? field tree).isSome ↔
      tree = .scalar .null ∧ field ≠ .type ∨ (field.shape.decode? tree).isSome := by
  unfold decodeField?
  split
  · next isType => simp [isType]
  · next other =>
    rw [nullOr?.eq_def]
    split
    · simp [other]
    · next notNull =>
      have differs : tree ≠ .scalar .null := notNull
      simp [differs]

theorem join_decodeField?_null (field : Field) :
    (decodeField? field (.scalar .null)).join = none := by
  unfold decodeField?
  split
  · next isType =>
    cases isType
    rfl
  · rfl

theorem join_decodeField? {field : Field} {tree : Tree} (differs : tree ≠ .scalar .null) :
    (decodeField? field tree).join = field.shape.decode? tree := by
  have kept (value : Option field.Value) : (value.map some).join = value := by
    cases value <;> rfl
  unfold decodeField?
  split
  · exact kept _
  · rw [nullOr?.eq_def]
    split
    · exact absurd rfl differs
    · exact kept _

/-- An object is the text of a record if every name denotes a text, no field is given twice and each
value that is given for a field is one of its own. -/
theorem isSome_decode?_object_iff :
    (decode? (.object members)).isSome ↔
      (∀ member ∈ members, member.1 ≠ .brokenText) ∧ ∀ field : Field,
        (valuesNamed field.name members).length ≤ 1 ∧
          ∀ tree ∈ valuesNamed field.name members, (decodeField? field tree).isSome := by
  rw [decode?, Option.isSome_map]
  exact isSome_members?_object_iff schema_named

theorem get_of_decode?_object (decoded : decode? (.object members) = some record) (field : Field) :
    record.get field =
      ((valuesNamed field.name members).head?.bind (decodeField? field)).join.or
        (({} : Record).get field) := by
  obtain ⟨found, collected, rfl⟩ := Option.map_eq_some_iff.1 decoded
  rw [ofMembers, get_ofFields]
  exact congrArg (fun value => value.join.or (({} : Record).get field))
    (value?_of_members?_object schema_named collected field)

theorem plain_object_iff :
    Plain (.object members) ↔
      ∀ field : Field, ∀ tree ∈ valuesNamed field.name members, field.shape.Plain tree :=
  @forall_known_iff schema schema_named members fun field => Shape.Plain (Field.shape field)

def known (members : List (Token × Tree)) : List (Token × Tree) :=
  members.filter fun member => Field.all.any fun field => member.1 = .text field.name.toList

theorem valuesNamed_known (field : Field) (members : List (Token × Tree)) :
    valuesNamed field.name (known members) = valuesNamed field.name members := by
  rw [valuesNamed, known, List.filter_filter]
  congr 2
  funext member
  rw [Bool.and_eq_left_iff_imp]
  intro named
  exact List.any_eq_true.2 ⟨field, field.mem_all, named⟩

theorem perm_valuesNamed {others : List (Token × Tree)} (same : (known others).Perm (known members))
    (field : Field) :
    (valuesNamed field.name others).Perm (valuesNamed field.name members) := by
  rw [← valuesNamed_known field others, ← valuesNamed_known field members]
  exact (same.filter _).map _

theorem length_valuesNamed_of_accessList {list : Tree} {parts : List (Token × Tree)}
    (decoded : (decodeField? .accessList list).isSome) (mem : .object parts ∈ list.items)
    (part : AccessEntry.Part) : (valuesNamed part.name parts).length = 1 := by
  rcases isSome_decodeField?_iff.1 decoded with ⟨rfl, -⟩ | entries
  · cases mem
  · cases list with
    | array items =>
      exact AccessEntry.length_valuesNamed (isSome_mapM_iff.1 entries _ mem) part
    | scalar | object => cases mem

theorem decode?_object_congr {others : List (Token × Tree)}
    (proper : ∀ member ∈ others, member.1 ≠ .brokenText)
    (same : (known others).Perm (known members))
    (decoded : decode? (.object members) = some record) :
    decode? (.object others) = some record := by
  obtain ⟨-, each⟩ := isSome_decode?_object_iff.1 (Option.isSome_iff_exists.2 ⟨record, decoded⟩)
  have given (field : Field) :
      valuesNamed field.name others = valuesNamed field.name members := by
    have perm := perm_valuesNamed same field
    have once := (each field).1
    match found : valuesNamed field.name members with
    | [] => rw [found] at perm; exact perm.eq_nil
    | [tree] => rw [found] at perm; exact List.perm_singleton.1 perm
    | _ :: _ :: _ => rw [found] at once; simp at once
  have success : (decode? (.object others)).isSome :=
    isSome_decode?_object_iff.2 ⟨proper, fun field => by rw [given]; exact each field⟩
  obtain ⟨other, decodedOther⟩ := Option.isSome_iff_exists.1 success
  have equal (field : Field) : other.get field = record.get field := by
    rw [get_of_decode?_object decodedOther, get_of_decode?_object decoded, given]
  rw [decodedOther, ← ofFields_get other, ← ofFields_get record, funext equal]

/-- An object text is read by its known members. It is a record if no field is given twice and every
value that is given for a field is one of its own, where `null` will do for any but the type. A
field then has the one value that is given for it, and is absent, or the type zero, without one or
with `null`. Another order of the members and other unknown ones lead to the same record, and an
entry of an access list that is written as an object has each of its parts once. -/
theorem object_read_by_known_members {text : String} {rest : List Char}
    (spelled : (Tree.object members).Spelled text.toList rest) (blank : Blank rest)
    (proper : ∀ member ∈ members, member.1 ≠ .brokenText)
    (plain : ∀ field : Field, ∀ tree ∈ valuesNamed field.name members, field.shape.Plain tree) :
    ((∃ record, parse text = .ok record) ↔ ∀ field : Field,
      (valuesNamed field.name members).length ≤ 1 ∧
        ∀ tree ∈ valuesNamed field.name members,
          tree = .scalar .null ∧ field ≠ .type ∨ (field.shape.decode? tree).isSome) ∧
    (∀ record, parse text = .ok record → ∀ field : Field,
      (valuesNamed field.name members = [] → record.get field = ({} : Record).get field) ∧
      ∀ tree, valuesNamed field.name members = [tree] →
        (tree = .scalar .null → record.get field = ({} : Record).get field) ∧
        (tree ≠ .scalar .null → record.get field = field.shape.decode? tree)) ∧
    (∀ (others : List (Token × Tree)) (other : String) (behind : List Char),
      (Tree.object others).Spelled other.toList behind → Blank behind →
      (∀ member ∈ others, member.1 ≠ .brokenText) → (known others).Perm (known members) →
      ∀ record, parse text = .ok record → parse other = .ok record) ∧
    (∀ record, parse text = .ok record →
      ∀ list ∈ valuesNamed Field.accessList.name members, ∀ parts, .object parts ∈ list.items →
        ∀ part : AccessEntry.Part, (valuesNamed part.name parts).length = 1) := by
  have read := parse_eq_ok_iff spelled blank (plain_object_iff.2 plain)
  -- In a record every field is given once at most, and with a value of its own.
  have each {record : Record} (parsed : parse text = .ok record) :=
    (isSome_decode?_object_iff.1 (Option.isSome_iff_exists.2 ⟨record, (read record).1 parsed⟩)).2
  refine ⟨?_, fun record parsed field => ⟨fun missing => ?_, fun tree one => ?_⟩,
    fun others other behind spelled' blank' proper' same record parsed => ?_,
    fun record parsed list given parts mem part => ?_⟩
  · simp only [read, ← Option.isSome_iff_exists, isSome_decode?_object_iff,
      isSome_decodeField?_iff]
    exact and_iff_right proper
  · rw [get_of_decode?_object ((read record).1 parsed), missing]
    rfl
  · have value := get_of_decode?_object ((read record).1 parsed) field
    rw [one, List.head?_cons, Option.bind_some] at value
    constructor
    · rintro rfl
      rw [value, join_decodeField?_null, Option.none_or]
    · intro differs
      rw [value, join_decodeField? differs]
      have own := (each parsed field).2 tree (by simp [one])
      rcases isSome_decodeField?_iff.1 own with ⟨null, -⟩ | own
      · exact absurd null differs
      · exact Option.or_of_isSome own
  · have plain' : Plain (.object others) := plain_object_iff.2 fun field tree mem =>
      plain field tree ((perm_valuesNamed same field).mem_iff.1 mem)
    exact (parse_eq_ok_iff spelled' blank' plain' record).2
      (decode?_object_congr proper' same ((read record).1 parsed))
  · exact length_valuesNamed_of_accessList ((each parsed .accessList).2 list given) mem part

/-- A nested name that denotes no text, a known name spelled with an escape, and another order. -/
theorem object_read_by_known_members_reordered :
    let text := " \x7b\"x\":[\x7b\"\\ud800\":\x7b\x7d\x7d],\"\\u0074o\":null ,\"type\":\"0x2\"\x7d "
    let other := "\x7b\"type\":\"0x2\",\"to\":null\x7d"
    parse text = .ok { type := 2 } ∧ parse other = .ok { type := 2 } := by
  intro text other
  let unknown : Token × Tree := (.text ['x'], .array [.object [(.brokenText, .object [])]])
  let recipient : Token × Tree := (.text ['t', 'o'], .scalar .null)
  let type : Token × Tree := (.text ['t', 'y', 'p', 'e'], .scalar (.text ['0', 'x', '2']))
  have spelled : (Tree.object [unknown, recipient, type]).Spelled text.toList [' '] := by
    simp only [text, String.reduceToList]
    have nested (rest : List Char) : (Tree.object [(.brokenText, .object [])]).Spelled
        ('\x7b' :: '\x22' :: '\\' :: 'u' :: 'd' :: '8' :: '0' :: '0' :: '\x22' :: ':' :: '\x7b' ::
          '\x7d' :: '\x7d' :: rest) rest :=
      .object (.front .openObject)
        (.mk .brokenText (.front (.brokenText (.piece (.unit rfl) .close) rfl)) (.front .colon)
          (.emptyObject (.front .openObject) (.front .closeObject)))
        (.close (.front .closeObject))
    have escaped (rest : List Char) : Lexeme recipient.1
        ('\x22' :: '\\' :: 'u' :: '0' :: '0' :: '7' :: '4' :: 'o' :: '\x22' :: rest) rest :=
      .front (.text (.piece (.unit rfl) (@piecesSpelled_verbatim ['o'] rfl rest)) rfl)
    exact .object (.blank rfl (.front .openObject))
      (.mk (.text _) (.verbatim rfl _) (.front .colon)
        (.array (.front .openArray) (nested _) (.close (.front .closeArray))))
      (.member (.front .comma)
        (.mk (.text _) (escaped _) (.front .colon) (.scalar .null (.front .null)))
      (.member (.blank rfl (.front .comma))
        (.mk (.text _) (.verbatim rfl _) (.front .colon)
          (.scalar (.text _) (.verbatim rfl _)))
      (.close (.front .closeObject))))
  have spelledOther : (Tree.object [type, recipient]).Spelled other.toList [] := by
    simp only [other, String.reduceToList]
    exact .object (.front .openObject)
      (.mk (.text _) (.verbatim rfl _) (.front .colon) (.scalar (.text _) (.verbatim rfl _)))
      (.member (.front .comma)
        (.mk (.text _) (.verbatim rfl _) (.front .colon) (.scalar .null (.front .null)))
      (.close (.front .closeObject)))
  have read : parse text = .ok { type := 2 } := toOption_eq_some_iff.1 (by decide +kernel)
  have plain : ∀ field : Field, ∀ tree ∈ valuesNamed field.name [unknown, recipient, type],
      field.shape.Plain tree := by
    intro field tree mem
    obtain ⟨member, among, rfl⟩ := List.mem_map.1 mem
    obtain ⟨among, named⟩ := List.mem_filter.1 among
    simp only [List.mem_cons, List.not_mem_nil, or_false] at among
    rcases among with rfl | rfl | rfl
    · have other : ∀ field ∈ Field.all, Token.text ['x'] ≠ .text field.name.toList := by decide
      exact absurd (of_decide_eq_true named) (other field field.mem_all)
    · exact field.shape.plain_scalar _
    · exact field.shape.plain_scalar _
  obtain ⟨-, -, others, -⟩ := object_read_by_known_members spelled
    (List.forall_mem_singleton.2 rfl) (by simp [unknown, recipient, type]) plain
  exact ⟨read, others _ _ _ spelledOther blank_nil (by simp [recipient, type])
    (.swap recipient type []) _ read⟩

theorem itemsSpelled_zeros {items : List Tree} {mid rest : List Char}
    (others : ItemsSpelled items mid rest) (ends : NumberEnds mid) (n : Nat) :
    ItemsSpelled (List.replicate n (.scalar (.natural 0)) ++ items)
      ((List.replicate n [',', '0']).flatten ++ mid) rest := by
  induction n with
  | zero => exact others
  | succ n ih =>
    have behind : NumberEnds ((List.replicate n [',', '0']).flatten ++ mid) := by
      cases n with
      | zero => exact ends
      | succ n => exact numberEnds_comma _
    exact .item (.front .comma)
      (.scalar (.natural 0) (.front (@Token.Spelled.number _ ['0'] _ (.natural .zero) behind))) ih

/-- Where an address has an item in excess that breaks off inside, the next member may be read as an
entry of the access list, and not at all without it. -/
theorem unknown_member_read_as_entry :
    let row := '0' :: (List.replicate 19 [',', '0']).flatten
    let zeros := List.replicate 20 (Tree.scalar (.natural 0))
    let list : Token × Tree := (.text "accessList".toList, .array [.object
      [(.text "storageKeys".toList, .array []),
        (.text "address".toList, .array (zeros ++ [.scalar .brokenText]))]])
    let unknown : Token × Tree := (.text (":0\x7d,[[".toList ++ (row ++ [','])),
      .array [.array [.array [], .array []]])
    let front := "\x7b\"accessList\":[\x7b\"storageKeys\":[],\"address\":[".toList ++
      (row ++ ",\"\\ud800 ],\"]\x7d]".toList)
    let text := String.ofList (front ++ (",\":0\x7d,[[".toList ++
      (row ++ ",\":[[[\t],[]]]\x7d".toList)))
    let shorter := String.ofList (front ++ ['\x7d'])
    ((Tree.object [list, unknown]).Spelled text.toList [] ∧
      (Tree.object [list]).Spelled shorter.toList []) ∧
      (∀ member ∈ [list, unknown], member.1 ≠ .brokenText) ∧ known [list, unknown] = [list] ∧
      Field.accessList.shape.decode? list.2 = none ∧
      parse text = .ok { accessList := some [⟨.zero 20, []⟩, ⟨.zero 20, []⟩] } ∧
      ∀ record, parse shorter ≠ .ok record := by
  intro row zeros list unknown front text shorter
  have item (rest : List Char) :
      Lexeme .brokenText ('\x22' :: '\\' :: 'u' :: 'd' :: '8' :: '0' :: '0' :: ' ' :: ']' :: ',' ::
        '\x22' :: rest) rest :=
    .front (.brokenText (.piece (.unit rfl) (@piecesSpelled_verbatim [' ', ']', ','] rfl rest)) rfl)
  have address (rest : List Char) : (Tree.array (zeros ++ [.scalar .brokenText])).Spelled
      ('[' :: (row ++ (",\"\\ud800 ],\"]".toList ++ rest))) rest := by
    simp only [String.reduceToList, List.cons_append, List.nil_append]
    have behind := itemsSpelled_zeros (.item (.front .comma) (.scalar .brokenText (item _))
      (.close (@Lexeme.front _ _ rest .closeArray))) (numberEnds_comma _) 19
    exact .array (.front .openArray) (.scalar (.natural 0)
      (.front (@Token.Spelled.number _ ['0'] _ (.natural .zero) (numberEnds_comma _)))) behind
  have listed (rest : List Char) : MemberSpelled list
      ("\"accessList\":[\x7b\"storageKeys\":[],\"address\":[".toList ++
        (row ++ (",\"\\ud800 ],\"]\x7d]".toList ++ rest))) rest := by
    simp only [String.reduceToList, List.cons_append, List.nil_append] at address ⊢
    exact .mk (.text _) (.verbatim rfl _) (.front .colon) (.array (.front .openArray)
      (.object (.front .openObject)
        (.mk (.text _) (.verbatim rfl _) (.front .colon)
          (.emptyArray (.front .openArray) (.front .closeArray)))
        (.member (.front .comma)
          (.mk (.text _) (.verbatim rfl _) (.front .colon) (address _))
        (.close (.front .closeObject))))
      (.close (.front .closeArray)))
  have named (rest : List Char) : Lexeme unknown.1
      ('\x22' :: (":0\x7d,[[".toList ++ (row ++ ',' :: '\x22' :: rest))) rest := by
    have whole := @Lexeme.verbatim (":0\x7d,[[".toList ++ (row ++ [','])) rfl rest
    simpa only [List.append_assoc, List.cons_append, List.nil_append] using whole
  refine ⟨⟨?_, ?_⟩, ?_, ?_, ?_, ?_, ?_⟩
  · simp only [text, front, String.toList_ofList, String.reduceToList, List.append_assoc,
      List.cons_append, List.nil_append] at listed named ⊢
    exact .object (.front .openObject) (listed _) (.member (.front .comma)
      (.mk (.text _) (named _) (.front .colon)
        (.array (.front .openArray) (.array (.front .openArray)
          (.emptyArray (.front .openArray) (.blank rfl (.front .closeArray)))
          (.item (.front .comma) (.emptyArray (.front .openArray) (.front .closeArray))
            (.close (.front .closeArray))))
          (.close (.front .closeArray))))
      (.close (.front .closeObject)))
  · simp only [shorter, front, String.toList_ofList, String.reduceToList, List.append_assoc,
      List.cons_append, List.nil_append] at listed ⊢
    exact .object (.front .openObject) (listed _) (.close (.front .closeObject))
  · simp [list, unknown]
  · rfl
  · rfl
  · rw [parse, String.toList_ofList]
    exact toOption_eq_some_iff.1 (by decide +kernel)
  · have failed : (parse shorter).toOption = none := by
      rw [parse, String.toList_ofList]
      decide +kernel
    intro record read
    rw [read] at failed
    cases failed

end Record

end TxEnvelope
