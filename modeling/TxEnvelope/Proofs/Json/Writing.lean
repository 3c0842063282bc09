import TxEnvelope.Json.Composite
import TxEnvelope.Proofs.Json.Lexing
import TxEnvelope.Proofs.Reader

/-! Reading back what is written.

A reader reads a document back if it takes every written form of it, in whatever
layout and between whatever blanks and further text. Readers of arrays and of
objects do so wherever the readers of their parts do.
-/

set_option autoImplicit false

namespace TxEnvelope.Json

structure Layout.IsBlank (layout : Layout) : Prop where
  lineBreak : ∀ depth, Blank (layout.lineBreak depth)
  afterColon : Blank layout.afterColon

theorem Layout.compact_isBlank : compact.IsBlank :=
  ⟨fun _ => blank_nil, blank_nil⟩

theorem Layout.indented_isBlank : indented.IsBlank := by
  constructor
  · intro depth c mem
    rcases List.mem_cons.1 mem with rfl | space
    · rfl
    · rw [List.eq_of_mem_replicate space]
      rfl
  · intro c mem
    rw [List.mem_singleton.1 mem]
    rfl

/-- The reader takes the written forms of a document for a value. -/
def Reads {α : Type} (reader : ValueReader α) (document : Document) (a : α) : Prop :=
  ∀ (layout : Layout) (depth : Nat) (blanks rest : List Char), layout.IsBlank → Blank blanks →
    reader.read (blanks ++ (document.write layout depth ++ rest)) = .ok (a, rest)

theorem Reads.readText {α : Type} {reader : ValueReader α} {document : Document} {a : α}
    (reads : Reads reader document a) (trailing : ReadError) {layout : Layout}
    (layoutBlank : layout.IsBlank) {before behind : List Char} (first : Blank before)
    (last : Blank behind) :
    Json.readText reader trailing (before ++ (document.print layout ++ behind)) = .ok a := by
  rw [Json.readText, Document.print, reads layout 0 before behind layoutBlank first]
  simp only [skipBlanks_eq_nil last, if_true]

def Document.head : Document → Token
  | .text content => .text content
  | .bool b => .bool b
  | .array _ => .openArray
  | .object _ => .openObject

theorem Document.next_write (document : Document) (layout : Layout) (depth : Nat)
    (rest : List Char) :
    ∃ tail, next (document.write layout depth ++ rest) = some (document.head, tail) := by
  cases document with
  | text content => exact ⟨rest, by rw [write, next_quote, head]⟩
  | bool b => cases b <;> exact ⟨rest, rfl⟩
  | array items => cases items <;> exact ⟨_, rfl⟩
  | object members =>
    rcases members with _ | ⟨⟨key, value⟩, members⟩ <;> exact ⟨_, rfl⟩

theorem reads_single {α : Type} {accept : Token → Except ReadError α} {document : Document} {a : α}
    (scalar : ∀ layout depth rest,
      next (document.write layout depth ++ rest) = some (document.head, rest))
    (accepted : accept document.head = .ok a) : Reads (single accept) document a := by
  intro layout depth blanks rest _ blank
  simp only [single, next_append blank, scalar, accepted]
  rfl

theorem reads_text {α : Type} {accept : Token → Except ReadError α} {content : List Char} {a : α}
    (accepted : accept (.text content) = .ok a) : Reads (single accept) (.text content) a :=
  reads_single (fun _ _ rest => next_quote content rest) accepted

theorem reads_bool {α : Type} {accept : Token → Except ReadError α} {b : Bool} {a : α}
    (accepted : accept (.bool b) = .ok a) : Reads (single accept) (.bool b) a :=
  reads_single (fun _ _ _ => by cases b <;> rfl) accepted

theorem Reads.refine {α β : Type} {reader : ValueReader α} {document : Document} {a : α} {b : β}
    {check : α → Except ReadError β} (reads : Reads reader document a) (checked : check a = .ok b) :
    Reads (reader.refine check) document b := by
  intro layout depth blanks rest layoutBlank blank
  exact Reader.refine_eq_ok_iff.2 ⟨a, reads layout depth blanks rest layoutBlank blank, checked⟩

theorem Reads.map {α β : Type} {reader : ValueReader α} {document : Document} {a : α}
    (reads : Reads reader document a) (f : α → β) : Reads (reader.map f) document (f a) :=
  reads.refine rfl

theorem Reads.nullable {α : Type} {reader : ValueReader α} {document : Document} {a : α}
    (reads : Reads reader document a) : Reads (nullable reader) document (some a) := by
  intro layout depth blanks rest layoutBlank blank
  obtain ⟨tail, start⟩ := document.next_write layout depth rest
  simp only [Json.nullable, next_append blank, start]
  split
  · next null =>
    cases document <;> simp [Document.head] at null
  · exact reads.map some layout depth blanks rest layoutBlank blank

section Array

variable {α : Type} {item : ValueReader α}

theorem moreItems_close {input rest : List Char} (close : next input = some (.closeArray, rest)) :
    moreItems item input = .ok ([], rest) := by
  rw [moreItems]
  split <;> simp_all

theorem moreItems_item {input mid rest last : List Char} {a : α} {items : List α}
    (comma : next input = some (.comma, mid)) (read : item.read mid = .ok (a, rest))
    (more : moreItems item rest = .ok (items, last)) :
    moreItems item input = .ok (a :: items, last) := by
  rw [moreItems]
  split
  · simp_all
  · next found =>
    rw [comma] at found
    cases found
    split
    · simp_all
    · simp_all
  · simp_all

/-- The items behind the first are read up to the bracket, each with the comma in front of it. -/
theorem moreItems_writeItems {write : α → Document} {items : List α}
    (reads : ∀ a ∈ items, Reads item (write a) a) {layout : Layout} (depth : Nat)
    (layoutBlank : layout.IsBlank) {close : List Char} (blank : Blank close) (rest : List Char) :
    moreItems item (Document.writeItems layout depth (items.map write) ++ (close ++ ']' :: rest))
      = .ok (items, rest) := by
  induction items with
  | nil =>
    apply moreItems_close
    rw [List.map_nil, Document.writeItems, List.nil_append, next_append blank, next_closeArray]
  | cons a items ih =>
    have others := ih fun b mem => reads b (List.mem_cons_of_mem a mem)
    simp only [List.map_cons, Document.writeItems, List.cons_append, List.append_assoc]
    apply moreItems_item (next_comma _) _ others
    exact reads a List.mem_cons_self layout depth _ _ layoutBlank (layoutBlank.lineBreak depth)

theorem reads_array {write : α → Document} {items : List α}
    (reads : ∀ a ∈ items, Reads item (write a) a) :
    Reads (array item) (.array (items.map write)) items := by
  intro layout depth blanks rest layoutBlank blank
  cases items with
  | nil =>
    simp only [array, next_append blank]
    rfl
  | cons a items =>
    -- What stands behind the opening bracket is an item list but for its first comma.
    have more := moreItems_writeItems reads (depth + 1) layoutBlank
      (layoutBlank.lineBreak depth) rest
    obtain ⟨tail, start⟩ := (write a).next_write layout (depth + 1)
      (Document.writeItems layout (depth + 1) (items.map write) ++
        (layout.lineBreak depth ++ ']' :: rest))
    have opened : next (Document.write layout depth (.array ((a :: items).map write)) ++ rest)
        = some (.openArray, layout.lineBreak (depth + 1) ++ ((write a).write layout (depth + 1) ++
          (Document.writeItems layout (depth + 1) (items.map write) ++
            (layout.lineBreak depth ++ ']' :: rest)))) := by
      simp only [List.map_cons, Document.write, List.cons_append, List.append_assoc,
        List.nil_append]
      rfl
    simp only [array, next_append blank, opened, next_append (layoutBlank.lineBreak _), start]
    simp only [List.map_cons, Document.writeItems, List.cons_append, List.append_assoc] at more
    split
    · next closed =>
      have head := congrArg Prod.fst (Option.some.inj closed)
      cases written : write a <;> simp [written, Document.head] at head
    · exact more

end Array

section Members

variable {schema : Schema}

/-- Every part of a schema is found again under its name. -/
def Schema.Named (schema : Schema) : Prop :=
  ∀ key, schema.ofName? (schema.name key).toList = some key

theorem moreMembers_close {seen : List schema.Key} {input rest : List Char}
    (close : next input = some (.closeObject, rest)) :
    schema.moreMembers seen input = .ok ([], rest) := by
  rw [Schema.moreMembers]
  split <;> simp_all

theorem moreMembers_known {seen : List schema.Key} {input mid rest last : List Char}
    {found : schema.Member} {members : List schema.Member}
    (comma : next input = some (.comma, mid))
    (read : (schema.member seen).read mid = .ok (some found, rest))
    (more : schema.moreMembers (found.1 :: seen) rest = .ok (members, last)) :
    schema.moreMembers seen input = .ok (found :: members, last) := by
  rw [Schema.moreMembers]
  split
  · simp_all
  · next taken =>
    rw [comma] at taken
    cases taken
    split <;> simp_all
  · simp_all

theorem member_known (named : schema.Named) {seen : List schema.Key} {key : schema.Key}
    {value : schema.Value key} {input mid inside rest : List Char}
    (name : next input = some (.text (schema.name key).toList, mid)) (fresh : key ∉ seen)
    (colon : next mid = some (.colon, inside))
    (read : (schema.reader key).read inside = .ok (value, rest)) :
    (schema.member seen).read input = .ok (some ⟨key, value⟩, rest) := by
  have member : schema.memberValue key mid = .ok (⟨key, value⟩, rest) := by
    rw [Schema.memberValue, colon]
    exact Reader.map_eq_ok_iff.2 ⟨value, read, rfl⟩
  simp only [Schema.member, name, named key, if_neg fresh, member]
  rfl

/-- A member and the document that is written for its value. -/
abbrev Schema.Entry (schema : Schema) : Type := schema.Member × Document

def Schema.Entry.written (entry : schema.Entry) : String × Document :=
  (schema.name entry.1.1, entry.2)

theorem Schema.Entry.written_mk (member : schema.Member) (document : Document) :
    written (member, document) = (schema.name member.1, document) := rfl

theorem moreMembers_writeMembers (named : schema.Named) {entries : List schema.Entry}
    (reads : ∀ entry ∈ entries, Reads (schema.reader entry.1.1) entry.2 entry.1.2)
    (distinct : (entries.map (·.1.1)).Nodup) (seen : List schema.Key)
    (fresh : ∀ entry ∈ entries, entry.1.1 ∉ seen) {layout : Layout} (depth : Nat)
    (layoutBlank : layout.IsBlank) {close : List Char} (blank : Blank close) (rest : List Char) :
    schema.moreMembers seen (Document.writeMembers layout depth (entries.map (·.written)) ++
      (close ++ '\x7d' :: rest)) = .ok (entries.map (·.1), rest) := by
  induction entries generalizing seen with
  | nil =>
    apply moreMembers_close
    rw [List.map_nil, Document.writeMembers, List.nil_append, next_append blank, next_closeObject]
  | cons entry entries ih =>
    obtain ⟨⟨key, value⟩, document⟩ := entry
    rw [List.map_cons, List.nodup_cons] at distinct
    -- The keys read so far are carried along, and no later entry is one of them.
    have unseen : ∀ other ∈ entries, other.1.1 ∉ key :: seen := by
      intro other mem again
      rcases List.mem_cons.1 again with same | earlier
      · exact distinct.1 (List.mem_map.2 ⟨other, mem, same⟩)
      · exact fresh other (List.mem_cons_of_mem _ mem) earlier
    have others := ih (fun other mem => reads other (List.mem_cons_of_mem _ mem)) distinct.2
      (key :: seen) unseen
    rw [List.map_cons, List.map_cons, Schema.Entry.written_mk]
    simp only [Document.writeMembers, List.cons_append, List.append_assoc]
    have read := reads _ List.mem_cons_self layout depth _
      (Document.writeMembers layout depth (entries.map (·.written)) ++ (close ++ '\x7d' :: rest))
      layoutBlank layoutBlank.afterColon
    have member := member_known named (next_append_quote (layoutBlank.lineBreak depth) _ _)
      (fresh _ List.mem_cons_self) (next_colon _) read
    exact moreMembers_known (next_comma _) member others

theorem members_empty {input inside rest : List Char}
    (opened : next input = some (.openObject, inside))
    (closed : next inside = some (.closeObject, rest)) :
    schema.members.read input = .ok ([], rest) := by
  simp only [Schema.members, opened, closed]

theorem members_object {input inside rest : List Char} {key : List Char}
    (opened : next input = some (.openObject, inside))
    (named : next inside = some (.text key, rest)) :
    schema.members.read input = schema.moreMembers [] (',' :: inside) := by
  simp only [Schema.members, opened, named]

theorem reads_members (named : schema.Named) {entries : List schema.Entry}
    (reads : ∀ entry ∈ entries, Reads (schema.reader entry.1.1) entry.2 entry.1.2)
    (distinct : (entries.map (·.1.1)).Nodup) :
    Reads schema.members (.object (entries.map (·.written))) (entries.map (·.1)) := by
  intro layout depth blanks rest layoutBlank blank
  cases entries with
  | nil =>
    have opened : next ('\x7b' :: '\x7d' :: rest) = some (.openObject, '\x7d' :: rest) :=
      next_openObject _
    rw [← next_append blank] at opened
    exact members_empty opened (next_closeObject rest)
  | cons entry entries =>
    obtain ⟨⟨key, value⟩, document⟩ := entry
    have more := moreMembers_writeMembers named reads distinct [] (fun _ _ => nofun)
      (depth + 1) layoutBlank (layoutBlank.lineBreak depth) rest
    rw [List.map_cons, Schema.Entry.written_mk] at more ⊢
    simp only [Document.writeMembers, Document.write, List.cons_append, List.append_assoc,
      List.nil_append] at more ⊢
    refine (members_object ?_ (next_append_quote (layoutBlank.lineBreak _) _ _)).trans more
    rw [next_append blank, next_openObject]

theorem value?_filterMap (key : schema.Key) (get : (key : schema.Key) → Option (schema.Value key))
    (keys : List schema.Key) :
    schema.value? key (keys.filterMap fun part => (get part).map (Sigma.mk part))
      = if key ∈ keys then get key else none := by
  induction keys with
  | nil => rfl
  | cons first keys ih =>
    cases found : get first with
    | none =>
      rw [List.filterMap_cons_none (by simp [found]), ih]
      by_cases same : key = first
      · subst same
        simp [found]
      · simp [same]
    | some value =>
      rw [List.filterMap_cons_some (by rw [found]; rfl), Schema.value?]
      by_cases same : first = key
      · subst same
        simp [found]
      · rw [dif_neg same, ih]
        simp [Ne.symm same]

end Members

end TxEnvelope.Json
