import TxEnvelope.Proofs.Json.Skipping
import TxEnvelope.Proofs.Json.Writing

/-! What a reader makes of the texts of a value.

A reader takes values by a decoding if it succeeds on a text of a value just where
the decoding does, with the same result, and leaves just what is behind the value.
The spelling then makes no difference. The readers of arrays take values wherever
the readers of their items do.
-/

set_option autoImplicit false

namespace TxEnvelope.Json

theorem isSome_mapM_iff {α β : Type} {f : α → Option β} {as : List α} :
    (as.mapM f).isSome ↔ ∀ a ∈ as, (f a).isSome := by
  induction as with
  | nil => simp
  | cons a as ih =>
    rw [List.forall_mem_cons, ← ih]
    simp only [Option.isSome_iff_exists, mapM_cons_eq_some_iff]
    constructor
    · rintro ⟨_, value, first, others, rests, rfl⟩
      exact ⟨⟨value, first⟩, others, rests⟩
    · rintro ⟨⟨value, first⟩, others, rests⟩
      exact ⟨_, value, first, others, rests, rfl⟩

/-- The reader succeeds on the texts of plain values just as `decode?` does on the values. -/
def Takes {α : Type} (reader : ValueReader α) (decode? : Tree → Option α) (Plain : Tree → Prop) :
    Prop :=
  ∀ ⦃tree : Tree⦄ ⦃input rest : List Char⦄, tree.Spelled input rest → Plain tree →
    ∀ (a : α) (left : List Char),
      reader.read input = .ok (a, left) ↔ decode? tree = some a ∧ left = rest

section Tokens

variable {tree : Tree} {input rest : List Char}

def Tree.head : Tree → Token
  | .scalar token => token
  | .array _ => .openArray
  | .object _ => .openObject

theorem Tree.Spelled.exists_next (spelled : tree.Spelled input rest) :
    ∃ behind, next input = some (tree.head, behind) := by
  cases spelled with
  | scalar isScalar lexeme => exact ⟨_, lexeme.next_eq⟩
  | emptyArray opened closed | array opened first others => exact ⟨_, opened.next_eq⟩
  | emptyObject opened closed | object opened first others => exact ⟨_, opened.next_eq⟩

theorem Tree.Spelled.next_scalar {token : Token} (spelled : Spelled (.scalar token) input rest) :
    next input = some (token, rest) := by
  cases spelled with
  | scalar isScalar lexeme => exact lexeme.next_eq

theorem Tree.Spelled.next_ne_closeArray (spelled : tree.Spelled input rest) (left : List Char) :
    next input ≠ some (.closeArray, left) := by
  obtain ⟨behind, first⟩ := spelled.exists_next
  rw [first]
  intro closed
  cases spelled with
  | scalar isScalar lexeme =>
    exact isScalar.ne_closeArray (congrArg Prod.fst (Option.some.inj closed))
  | emptyArray | array | emptyObject | object => cases closed

theorem MemberSpelled.next_ne_closeObject {member : Token × Tree}
    (spelled : MemberSpelled member input rest) (left : List Char) :
    next input ≠ some (.closeObject, left) := by
  obtain ⟨isName, behind, first⟩ := spelled.exists_next
  rw [first]
  exact fun closed => isName.ne_closeObject (congrArg Prod.fst (Option.some.inj closed))

end Tokens

section Scalars

variable {α β : Type} {reader : ValueReader α} {decode? : Tree → Option α} {Plain : Tree → Prop}

theorem Takes.congr {other? : Tree → Option α} (takes : Takes reader decode? Plain)
    (same : ∀ tree, decode? tree = other? tree) : Takes reader other? Plain := by
  intro tree input rest spelled plain a left
  rw [← same]
  exact takes spelled plain a left

theorem Takes.mono {Plain' : Tree → Prop} (takes : Takes reader decode? Plain)
    (plain : ∀ tree, Plain' tree → Plain tree) : Takes reader decode? Plain' :=
  fun tree _ _ spelled holds => takes spelled (plain tree holds)

theorem takes_single {accept : Token → Except ReadError α}
    (scalar : ∀ token a, accept token = .ok a ↔ decode? (.scalar token) = some a)
    (array : ∀ items a, accept .openArray ≠ .ok a ∧ decode? (.array items) ≠ some a)
    (object : ∀ members a, accept .openObject ≠ .ok a ∧ decode? (.object members) ≠ some a) :
    Takes (single accept) decode? Plain := by
  intro tree input rest spelled _ a left
  have read {token : Token} {behind : List Char} (first : next input = some (token, behind)) :
      (single accept).read input = .ok (a, left) ↔ accept token = .ok a ∧ left = behind := by
    simp only [single, first, map_eq_ok_iff, Prod.mk.injEq]
    constructor
    · rintro ⟨_, accepted, rfl, rfl⟩
      exact ⟨accepted, rfl⟩
    · rintro ⟨accepted, rfl⟩
      exact ⟨a, accepted, rfl, rfl⟩
  obtain ⟨behind, first⟩ := spelled.exists_next
  cases tree with
  | scalar token => rw [read spelled.next_scalar, scalar]
  | array items => simp only [read first, Tree.head, array items a, false_and]
  | object members => simp only [read first, Tree.head, object members a, false_and]

theorem Takes.refine (takes : Takes reader decode? Plain) (check : α → Except ReadError β) :
    Takes (reader.refine check) (fun tree => (decode? tree).bind fun a => (check a).toOption)
      Plain := by
  intro tree input rest spelled plain b left
  rw [Reader.refine_eq_ok_iff]
  simp only [takes spelled plain, Option.bind_eq_some_iff, toOption_eq_some_iff]
  constructor
  · rintro ⟨a, ⟨found, rfl⟩, checked⟩
    exact ⟨⟨a, found, checked⟩, rfl⟩
  · rintro ⟨⟨a, found, checked⟩, rfl⟩
    exact ⟨a, ⟨found, rfl⟩, checked⟩

theorem Takes.map (takes : Takes reader decode? Plain) (f : α → β) :
    Takes (reader.map f) (fun tree => (decode? tree).map f) Plain :=
  (takes.refine fun a => .ok (f a)).congr fun tree => by cases decode? tree <;> rfl

def nullOr? (decode? : Tree → Option α) : Tree → Option (Option α)
  | .scalar .null => some none
  | tree => (decode? tree).map some

theorem Takes.nullable (takes : Takes reader decode? Plain) :
    Takes (nullable reader) (nullOr? decode?) Plain := by
  intro tree input rest spelled plain value left
  have present := takes.map some spelled plain value left
  simp only [Json.nullable]
  split
  · next behind null =>
    -- No other value starts as `null` does.
    cases tree with
    | scalar token =>
      rw [spelled.next_scalar] at null
      cases null
      simp [nullOr?, eq_comm]
    | array | object =>
      obtain ⟨_, first⟩ := spelled.exists_next
      rw [first] at null
      cases null
  · next other =>
    rw [present, nullOr?]
    rintro rfl
    exact other rest spelled.next_scalar

end Scalars

section Arrays

variable {α : Type} {item : ValueReader α} {decode? : Tree → Option α} {Plain : Tree → Prop}

theorem moreItems_eq_ok_iff {input mid last : List Char} {items : List α}
    (comma : next input = some (.comma, mid)) :
    moreItems item input = .ok (items, last) ↔
      ∃ a rest others, item.read mid = .ok (a, rest) ∧ moreItems item rest = .ok (others, last) ∧
        items = a :: others := by
  constructor
  · intro more
    -- Behind a comma only an item can stand, read before those that follow it.
    rw [moreItems] at more
    split at more
    · next closed => simp [comma] at closed
    · next taken =>
      rw [comma] at taken
      cases taken
      split at more
      · cases more
      · next a rest read =>
        split at more
        · cases more
        · next others rest' rests =>
          cases more
          exact ⟨a, rest, others, read, rests, rfl⟩
    · cases more
  · rintro ⟨a, rest, others, read, more, rfl⟩
    exact moreItems_item comma read more

/-- The items of an array, of which there are none in anything else. -/
def Tree.items : Tree → List Tree
  | .array items => items
  | _ => []

def items? (decode? : Tree → Option α) : Tree → Option (List α)
  | .array items => items.mapM decode?
  | _ => none

theorem Takes.moreItems (takes : Takes item decode? Plain) {items : List Tree}
    {input rest : List Char} (spelled : ItemsSpelled items input rest)
    (plain : ∀ tree ∈ items, Plain tree) (values : List α) (left : List Char) :
    moreItems item input = .ok (values, left) ↔ items.mapM decode? = some values ∧ left = rest := by
  induction items generalizing input values with
  | nil =>
    cases spelled with
    | close closed => simp [moreItems_close closed.next_eq, eq_comm]
  | cons tree items ih =>
    cases spelled with
    | item comma first others =>
      rw [List.forall_mem_cons] at plain
      rw [moreItems_eq_ok_iff comma.next_eq, mapM_cons_eq_some_iff]
      constructor
      · rintro ⟨a, mid, others', read, more, rfl⟩
        obtain ⟨value, rfl⟩ := (takes first plain.1 a mid).1 read
        obtain ⟨values, rfl⟩ := (ih others plain.2 others').1 more
        exact ⟨⟨a, value, others', values, rfl⟩, rfl⟩
      · rintro ⟨⟨a, value, others', values, rfl⟩, rfl⟩
        exact ⟨a, _, others', (takes first plain.1 a _).2 ⟨value, rfl⟩,
          (ih others plain.2 others').2 ⟨values, rfl⟩, rfl⟩

theorem Takes.array (takes : Takes item decode? Plain) :
    Takes (array item) (items? decode?) fun tree => ∀ item ∈ tree.items, Plain item := by
  intro tree input rest spelled plain values left
  cases spelled with
  | scalar isScalar lexeme =>
    simp only [Json.array, lexeme.next_eq]
    cases isScalar <;> simp [items?]
  | emptyArray opened closed => simp [Json.array, opened.next_eq, closed.next_eq, items?, eq_comm]
  | array opened first others =>
    have behind := takes.moreItems (.item (.front .comma) first others) plain values left
    simp only [Json.array, opened.next_eq]
    split
    · next closed => exact absurd closed (first.next_ne_closeArray _)
    · exact behind
  | emptyObject opened closed | object opened first others =>
    simp [Json.array, opened.next_eq, items?]

end Arrays

end TxEnvelope.Json
