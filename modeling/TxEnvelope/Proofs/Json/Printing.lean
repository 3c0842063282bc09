import TxEnvelope.Proofs.Json.Grammar
import TxEnvelope.Proofs.Json.Taking

/-! What is printed is the text of a value.

A document stands for a value, and everything that is printed of it, in any
layout, is a text of that value.
-/

set_option autoImplicit false

namespace TxEnvelope.Json

/-- What is taken for the pieces of a string literal spells them. -/
theorem PiecesSpelled.of_pieces {found : List Piece} {input rest : List Char}
    (cut : pieces input = some (found, rest)) : PiecesSpelled found input rest := by
  have behind {tail left : List Char} {piece : Piece} {all : List Piece}
      (more : (pieces tail).map (fun found => (piece :: found.1, found.2)) = some (all, left)) :
      ∃ others, pieces tail = some (others, left) ∧ piece :: others = all := by
    obtain ⟨⟨others, left'⟩, cut, same⟩ := Option.map_eq_some_iff.1 more
    cases same
    exact ⟨others, cut, rfl⟩
  -- The cases that succeed are a closing quote, a unit, a short escape and a plain character.
  fun_induction pieces input generalizing found rest with
  | case1 | case3 | case4 | case6 | case8 => cases cut
  | case2 tail =>
    cases cut
    exact .close
  | case5 a b c d tail n hex quote ih =>
    obtain ⟨others, more, rfl⟩ := behind cut
    exact .piece (.unit hex) (ih more)
  | case7 e tail spelled c short quote ih =>
    obtain ⟨others, more, rfl⟩ := behind cut
    exact .piece (.escape short) (ih more)
  | case9 c tail quote slash printable ih =>
    obtain ⟨others, more, rfl⟩ := behind cut
    exact .piece (.plain quote slash printable) (ih more)

mutual

def Document.tree : Document → Tree
  | .text content => .scalar (.text content)
  | .bool b => .scalar (.bool b)
  | .array items => .array (trees items)
  | .object members => .object (memberTrees members)

def Document.trees : List Document → List Tree
  | [] => []
  | item :: items => item.tree :: trees items

def Document.memberTrees : List (String × Document) → List (Token × Tree)
  | [] => []
  | (name, value) :: members => (.text name.toList, value.tree) :: memberTrees members

end

theorem Document.trees_eq (items : List Document) : trees items = items.map tree := by
  induction items with
  | nil => rfl
  | cons item items ih => rw [trees, ih, List.map_cons]

theorem lexeme_quote (content rest : List Char) :
    Lexeme (.text content) (quote content ++ rest) rest := by
  obtain ⟨found, cut, denoted⟩ := pieces_flatMap_quoteChar content rest
  rw [quote, List.cons_append, List.append_assoc]
  exact .front (.text (.of_pieces cut) denoted)

section Blanks

variable {blanks input rest : List Char}

theorem Lexeme.append {token : Token} (blank : Blank blanks) (lexeme : Lexeme token input rest) :
    Lexeme token (blanks ++ input) rest := by
  cases lexeme with
  | mk own spelled =>
    rw [← List.append_assoc]
    exact .mk (List.forall_mem_append.2 ⟨blank, own⟩) spelled

theorem Tree.Spelled.append {tree : Tree} (blank : Blank blanks)
    (spelled : tree.Spelled input rest) :
    tree.Spelled (blanks ++ input) rest := by
  cases spelled with
  | scalar isScalar lexeme => exact .scalar isScalar (lexeme.append blank)
  | emptyArray opened closed => exact .emptyArray (opened.append blank) closed
  | array opened first others => exact .array (opened.append blank) first others
  | emptyObject opened closed => exact .emptyObject (opened.append blank) closed
  | object opened first others => exact .object (opened.append blank) first others

end Blanks

section Written

variable {layout : Layout}

mutual

/-- What is written for a document is a text of its value. -/
theorem Document.spelled_write (layoutBlank : layout.IsBlank) (document : Document) (depth : Nat)
    (rest : List Char) : document.tree.Spelled (document.write layout depth ++ rest) rest := by
  match document with
  | .text content => exact .scalar (.text content) (lexeme_quote content rest)
  | .bool true => exact .scalar (.bool true) (.front .yes)
  | .bool false => exact .scalar (.bool false) (.front .no)
  | .array [] => exact .emptyArray (.front .openArray) (.front .closeArray)
  | .array (item :: items) =>
    simp only [write, List.cons_append, List.append_assoc, List.nil_append]
    exact .array (.front .openArray)
      ((spelled_write layoutBlank item (depth + 1) _).append (layoutBlank.lineBreak (depth + 1)))
      (spelled_writeItems layoutBlank items (depth + 1) (layoutBlank.lineBreak depth) rest)
  | .object [] => exact .emptyObject (.front .openObject) (.front .closeObject)
  | .object ((name, value) :: members) =>
    simp only [write, List.cons_append, List.append_assoc, List.nil_append]
    exact .object (.front .openObject)
      (.mk (.text _) ((lexeme_quote _ _).append (layoutBlank.lineBreak (depth + 1)))
        (.front .colon)
        ((spelled_write layoutBlank value (depth + 1) _).append layoutBlank.afterColon))
      (spelled_writeMembers layoutBlank members (depth + 1) (layoutBlank.lineBreak depth) rest)

theorem Document.spelled_writeItems (layoutBlank : layout.IsBlank) (items : List Document)
    (depth : Nat) {close : List Char} (blank : Blank close) (rest : List Char) :
    ItemsSpelled (trees items) (writeItems layout depth items ++ (close ++ ']' :: rest)) rest := by
  match items with
  | [] =>
    rw [writeItems, List.nil_append]
    exact .close (.mk blank .closeArray)
  | item :: items =>
    simp only [writeItems, List.cons_append, List.append_assoc]
    exact .item (.front .comma)
      ((spelled_write layoutBlank item depth _).append (layoutBlank.lineBreak depth))
      (spelled_writeItems layoutBlank items depth blank rest)

theorem Document.spelled_writeMembers (layoutBlank : layout.IsBlank)
    (members : List (String × Document)) (depth : Nat) {close : List Char} (blank : Blank close)
    (rest : List Char) :
    MembersSpelled (memberTrees members)
      (writeMembers layout depth members ++ (close ++ '\x7d' :: rest)) rest := by
  match members with
  | [] =>
    rw [writeMembers, List.nil_append]
    exact .close (.mk blank .closeObject)
  | (name, value) :: members =>
    simp only [writeMembers, List.cons_append, List.append_assoc]
    exact .member (.front .comma)
      (.mk (.text _) ((lexeme_quote _ _).append (layoutBlank.lineBreak depth)) (.front .colon)
        ((spelled_write layoutBlank value depth _).append layoutBlank.afterColon))
      (spelled_writeMembers layoutBlank members depth blank rest)

end

end Written

section Texts

/-- A text of the value may stand in front of any other text. -/
def Tree.HasText (tree : Tree) : Prop :=
  ∃ text, ∀ rest, tree.Spelled (text ++ rest) rest

theorem Tree.HasText.exists_string {tree : Tree} (has : tree.HasText) :
    ∃ text : String, tree.Spelled text.toList [] := by
  obtain ⟨text, spelled⟩ := has
  refine ⟨String.ofList text, ?_⟩
  rw [String.toList_ofList, ← List.append_nil text]
  exact spelled []

theorem Document.hasText (document : Document) : document.tree.HasText :=
  ⟨document.write .compact 0, document.spelled_write Layout.compact_isBlank 0⟩

theorem hasText_null : Tree.HasText (.scalar .null) :=
  ⟨['n', 'u', 'l', 'l'], fun _ => .scalar .null (.front .null)⟩

theorem exists_itemsSpelled {items : List Tree} (each : ∀ item ∈ items, item.HasText) :
    ∃ text, ∀ rest, ItemsSpelled items (text ++ ']' :: rest) rest := by
  induction items with
  | nil => exact ⟨[], fun _ => .close (.front .closeArray)⟩
  | cons item items ih =>
    obtain ⟨⟨first, one⟩, others⟩ := List.forall_mem_cons.1 each
    obtain ⟨text, more⟩ := ih others
    refine ⟨',' :: (first ++ text), fun rest => ?_⟩
    rw [List.cons_append, List.append_assoc]
    exact .item (.front .comma) (one _) (more rest)

theorem hasText_array {items : List Tree} (each : ∀ item ∈ items, item.HasText) :
    (Tree.array items).HasText := by
  cases items with
  | nil => exact ⟨['[', ']'], fun _ => .emptyArray (.front .openArray) (.front .closeArray)⟩
  | cons item items =>
    obtain ⟨⟨first, one⟩, others⟩ := List.forall_mem_cons.1 each
    obtain ⟨text, more⟩ := exists_itemsSpelled others
    refine ⟨'[' :: (first ++ (text ++ [']'])), fun rest => ?_⟩
    simp only [List.cons_append, List.append_assoc, List.nil_append]
    exact .array (.front .openArray) (one _) (more rest)

theorem memberSpelled_quote {content text : List Char} {value : Tree}
    (spelled : ∀ rest, value.Spelled (text ++ rest) rest) (rest : List Char) :
    MemberSpelled (.text content, value) (quote content ++ ':' :: (text ++ rest)) rest :=
  .mk (.text content) (lexeme_quote content _) (.front .colon) (spelled rest)

theorem exists_membersSpelled {members : List (List Char × Tree)}
    (each : ∀ member ∈ members, member.2.HasText) :
    ∃ text, ∀ rest, MembersSpelled (members.map fun member => (.text member.1, member.2))
      (text ++ '\x7d' :: rest) rest := by
  induction members with
  | nil => exact ⟨[], fun _ => .close (.front .closeObject)⟩
  | cons member members ih =>
    obtain ⟨⟨first, one⟩, others⟩ := List.forall_mem_cons.1 each
    obtain ⟨text, more⟩ := ih others
    refine ⟨',' :: (quote member.1 ++ ':' :: (first ++ text)), fun rest => ?_⟩
    simp only [List.cons_append, List.append_assoc]
    exact .member (.front .comma) (memberSpelled_quote one _) (more rest)

theorem hasText_object {members : List (List Char × Tree)}
    (each : ∀ member ∈ members, member.2.HasText) :
    (Tree.object (members.map fun member => (.text member.1, member.2))).HasText := by
  cases members with
  | nil =>
    exact ⟨['\x7b', '\x7d'], fun _ => .emptyObject (.front .openObject) (.front .closeObject)⟩
  | cons member members =>
    obtain ⟨⟨first, one⟩, others⟩ := List.forall_mem_cons.1 each
    obtain ⟨text, more⟩ := exists_membersSpelled others
    refine ⟨'\x7b' :: (quote member.1 ++ ':' :: (first ++ (text ++ ['\x7d']))), fun rest => ?_⟩
    simp only [List.cons_append, List.append_assoc, List.nil_append]
    exact .object (.front .openObject) (memberSpelled_quote one _) (more rest)

end Texts

end TxEnvelope.Json
