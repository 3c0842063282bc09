import TxEnvelope.Proofs.Json.Composite

/-! Where a reader ends.

A reader that succeeds on the text of a value ends behind it, unless there is
something in the value that it loses its way in. So the parts of a composite
value are read one behind the other, and an array with more items than there are
parts is never read.
-/

set_option autoImplicit false

namespace TxEnvelope.Json

/-- On the texts of tame values the reader leaves just what is behind them, if it succeeds. -/
def Ends {α : Type} (reader : ValueReader α) (Tame : Tree → Prop) : Prop :=
  ∀ ⦃tree : Tree⦄ ⦃input rest : List Char⦄, tree.Spelled input rest → Tame tree →
    ∀ ⦃a : α⦄ ⦃left : List Char⦄, reader.read input = .ok (a, left) → left = rest

section Values

variable {α β : Type} {reader : ValueReader α} {Tame : Tree → Prop}

theorem Takes.ends {decode? : Tree → Option α} (takes : Takes reader decode? Tame) :
    Ends reader Tame := by
  intro tree input rest spelled tame a left read
  exact ((takes spelled tame a left).1 read).2

theorem Ends.refine (ends : Ends reader Tame) (check : α → Except ReadError β) :
    Ends (reader.refine check) Tame := by
  intro tree input rest spelled tame b left read
  obtain ⟨a, first, -⟩ := Reader.refine_eq_ok_iff.1 read
  exact ends spelled tame first

theorem Ends.map (ends : Ends reader Tame) (f : α → β) : Ends (reader.map f) Tame :=
  ends.refine fun a => .ok (f a)

theorem Ends.nullable (ends : Ends reader Tame) : Ends (nullable reader) Tame := by
  intro tree input rest spelled tame value left read
  simp only [Json.nullable] at read
  split at read
  · next behind null =>
    cases read
    cases tree with
    | scalar token =>
      rw [spelled.next_scalar] at null
      cases null
      rfl
    | array | object =>
      obtain ⟨_, first⟩ := spelled.exists_next
      rw [first] at null
      cases null
  · exact ends.map some spelled tame read

theorem Ends.moreItems (ends : Ends reader Tame) {items : List Tree} {input rest : List Char}
    (spelled : ItemsSpelled items input rest) (tame : ∀ tree ∈ items, Tame tree) {values : List α}
    {left : List Char} (read : moreItems reader input = .ok (values, left)) : left = rest := by
  induction items generalizing input values with
  | nil =>
    cases spelled with
    | close closed =>
      rw [moreItems_close closed.next_eq] at read
      cases read
      rfl
  | cons tree items ih =>
    rw [List.forall_mem_cons] at tame
    cases spelled with
    | item comma first others =>
      obtain ⟨a, mid, values', one, more, rfl⟩ := (moreItems_eq_ok_iff comma.next_eq).1 read
      obtain rfl := ends first tame.1 one
      exact ih others tame.2 more

theorem Ends.array (ends : Ends reader Tame) :
    Ends (array reader) fun tree => ∀ item ∈ tree.items, Tame item := by
  intro tree input rest spelled tame values left read
  simp only [Json.array] at read
  cases spelled with
  | scalar isScalar lexeme =>
    rw [lexeme.next_eq] at read
    cases isScalar <;> cases read
  | emptyArray opened closed =>
    simp only [opened.next_eq, closed.next_eq] at read
    cases read
    rfl
  | array opened first others =>
    simp only [opened.next_eq] at read
    split at read
    · next closed => exact absurd closed (first.next_ne_closeArray _)
    · exact ends.moreItems (.item (.front .comma) first others) tame read
  | emptyObject opened | object opened =>
    rw [opened.next_eq] at read
    cases read

end Values

section Composite

variable {schema : Schema} {Tame : schema.Key → Tree → Prop} {input rest left : List Char}
  {found : List schema.Member}

theorem Ends.member {seen : List schema.Key} {key : schema.Key} {name : List Char} {value : Tree}
    {member : Option schema.Member} (ends : Ends (schema.reader key) (Tame key))
    (spelled : MemberSpelled (.text name, value) input rest)
    (known : schema.ofName? name = some key) (tame : Tame key value)
    (read : (schema.member seen).read input = .ok (member, left)) :
    left = rest ∧ member.isSome := by
  cases spelled with
  | mk isName named colon spelled =>
    simp only [Schema.member, named.next_eq, known] at read
    split at read
    · cases read
    · obtain ⟨⟨one, behind⟩, valued, same⟩ := map_eq_ok_iff.1 read
      cases same
      rw [Schema.memberValue, colon.next_eq] at valued
      exact ⟨ends.map (Sigma.mk key) spelled tame valued, rfl⟩

theorem ends_moreMembers (ends : ∀ key, Ends (schema.reader key) (Tame key))
    {members : List (Token × Tree)} (spelled : MembersSpelled members input rest)
    (tame : ∀ part ∈ schema.known members, Tame part.1 part.2) {seen : List schema.Key}
    (read : schema.moreMembers seen input = .ok (found, left)) : left = rest := by
  -- The parts seen before grow from one member to the next, so they are generalised.
  induction members generalizing input seen found with
  | nil =>
    cases spelled with
    | close closed =>
      rw [moreMembers_close closed.next_eq] at read
      cases read
      rfl
  | cons member members ih =>
    obtain ⟨name, value⟩ := member
    cases spelled with
    | @member _ _ _ start mid _ comma first others =>
      rw [known_cons] at tame
      rcases first.exists_next.1 with content | _
      · cases known : schema.ofName? content with
        | none =>
          simp only [Schema.keyOf?, known] at tame
          rw [moreMembers_skip comma.next_eq (member_unknown first known)] at read
          exact ih others tame read
        | some key =>
          simp only [Schema.keyOf?, known, List.forall_mem_cons] at tame
          -- A member with a known name is never passed over.
          have notable (left : List Char) :
              (schema.member seen).read start ≠ .ok (none, left) := by
            intro nothing
            cases ((ends key).member first known tame.1 nothing).2
          obtain ⟨entry, behind, entries, one, more, rfl⟩ :=
            (moreMembers_eq_ok_iff comma.next_eq notable).1 read
          obtain ⟨rfl, -⟩ := (ends key).member first known tame.1 one
          exact ih others tame.2 more
      · rw [moreMembers_eq_ok_iff comma.next_eq (by simp [member_broken first])] at read
        obtain ⟨entry, behind, entries, one, -⟩ := read
        rw [member_broken first] at one
        cases one

theorem ends_moreValues (ends : ∀ key, Ends (schema.reader key) (Tame key))
    {keys : List schema.Key} {items : List Tree} (spelled : ItemsSpelled items input rest)
    (tame : ∀ part ∈ keys.zip items, Tame part.1 part.2)
    (read : schema.moreValues keys input = .ok (found, left)) :
    items.length ≤ keys.length ∧ left = rest := by
  -- Items and parts are used up together; the array has to be at its end first.
  induction items generalizing keys input found with
  | nil =>
    cases spelled with
    | close closed =>
      cases keys <;> rw [Schema.moreValues.eq_def, closed.next_eq] at read <;> cases read <;> simp
  | cons item items ih =>
    cases spelled with
    | item comma first others =>
      cases keys with
      | nil =>
        rw [Schema.moreValues.eq_def, comma.next_eq] at read
        cases read
      | cons key keys =>
        rw [List.zip_cons_cons, List.forall_mem_cons] at tame
        obtain ⟨value, mid, entries, one, more, rfl⟩ :=
          (moreValues_eq_ok_iff comma.next_eq).1 read
        obtain rfl := ends key first tame.1 one
        obtain ⟨short, rfl⟩ := ih others tame.2 more
        exact ⟨Nat.succ_le_succ short, rfl⟩

/-- A composite value is read to its end, and as an array only without items in excess. -/
theorem ends_members (ends : ∀ key, Ends (schema.reader key) (Tame key)) {tree : Tree}
    (spelled : tree.Spelled input rest) (tame : ∀ part ∈ schema.parts tree, Tame part.1 part.2)
    (read : schema.members.read input = .ok (found, left)) :
    tree.items.length ≤ schema.keys.length ∧ left = rest := by
  simp only [Schema.members] at read
  cases spelled with
  | scalar isScalar lexeme =>
    rw [lexeme.next_eq] at read
    cases isScalar <;> cases read
  | emptyArray opened closed =>
    simp only [opened.next_eq, closed.next_eq] at read
    cases read
    exact ⟨Nat.zero_le _, rfl⟩
  | array opened first others =>
    simp only [opened.next_eq] at read
    split at read
    · next closed => exact absurd closed (first.next_ne_closeArray _)
    · exact ends_moreValues ends (.item (.front .comma) first others) tame read
  | emptyObject opened closed =>
    simp only [opened.next_eq, closed.next_eq] at read
    cases read
    exact ⟨Nat.zero_le _, rfl⟩
  | object opened first others =>
    simp only [opened.next_eq] at read
    split at read
    · next closed => exact absurd closed (first.next_ne_closeObject _)
    · exact ⟨Nat.zero_le _, ends_moreMembers ends (.member (.front .comma) first others) tame read⟩

end Composite

end TxEnvelope.Json
