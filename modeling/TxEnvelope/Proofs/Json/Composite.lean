import TxEnvelope.Proofs.Json.Taking

/-! What the readers of composite values make of their texts.

An object is read member by member in one pass, an array item by item. Either way
a composite value is taken part by part, if the parts are written in a form that
can be read at all: no part twice, no name that denotes no text, no item in excess.
Unknown members leave no trace.
-/

set_option autoImplicit false

namespace TxEnvelope.Json

variable {schema : Schema}

theorem ofName?_eq_some_iff (named : schema.Named) {name : List Char} {key : schema.Key} :
    schema.ofName? name = some key ↔ name = (schema.name key).toList := by
  constructor
  · intro found
    unfold Schema.ofName? at found
    have same := List.find?_some found
    exact (eq_of_beq same).symm
  · rintro rfl
    exact named key

namespace Schema

def keyOf? (schema : Schema) : Token → Option schema.Key
  | .text name => schema.ofName? name
  | _ => none

/-- The parts among the members of an object, with their values. -/
def known (schema : Schema) (members : List (Token × Tree)) : List (schema.Key × Tree) :=
  members.filterMap fun member => (schema.keyOf? member.1).map (·, member.2)

/-- The parts of a composite value in either form, with their values. -/
def parts (schema : Schema) : Tree → List (schema.Key × Tree)
  | .scalar _ => []
  | .array items => schema.keys.zip items
  | .object members => schema.known members

/-- The parts of a composite value are written in a form that can be read: an array has no items
in excess, and an object has no name that denotes no text and no part twice. -/
def WellFormed (schema : Schema) : Tree → Prop
  | .scalar _ => False
  | .array items => items.length ≤ schema.keys.length
  | .object members =>
    (∀ member ∈ members, member.1 ≠ .brokenText) ∧ ((schema.known members).map (·.1)).Nodup

instance : DecidablePred schema.WellFormed
  | .scalar _ => inferInstanceAs (Decidable False)
  | .array items => inferInstanceAs (Decidable (items.length ≤ schema.keys.length))
  | .object members => inferInstanceAs (Decidable
      ((∀ member ∈ members, member.1 ≠ .brokenText) ∧ ((schema.known members).map (·.1)).Nodup))

variable (decode? : (key : schema.Key) → Tree → Option (schema.Value key))

def decodeParts? (parts : List (schema.Key × Tree)) : Option (List schema.Member) :=
  parts.mapM fun part => (decode? part.1 part.2).map (Sigma.mk part.1)

def members? (tree : Tree) : Option (List schema.Member) :=
  if schema.WellFormed tree then decodeParts? decode? (schema.parts tree) else none

end Schema

section Object

variable {decode? : (key : schema.Key) → Tree → Option (schema.Value key)}
  {Plain : schema.Key → Tree → Prop} {seen : List schema.Key} {input mid last : List Char}
  {members : List schema.Member}

theorem unknownValue_eq {value : Tree} {start rest : List Char} (colon : Lexeme .colon input start)
    (spelled : value.Spelled start rest) : Schema.unknownValue input = .ok rest := by
  rw [Schema.unknownValue, colon.next_eq]
  simp only [spelled.skipValue_eq]

theorem memberValue_eq_ok_iff {key : schema.Key} {value : Tree} {start rest : List Char}
    (takes : Takes (schema.reader key) (decode? key) (Plain key))
    (colon : Lexeme .colon input start) (spelled : value.Spelled start rest)
    (plain : Plain key value) (member : schema.Member) (left : List Char) :
    schema.memberValue key input = .ok (member, left) ↔
      (decode? key value).map (Sigma.mk key) = some member ∧ left = rest := by
  rw [Schema.memberValue, colon.next_eq]
  exact takes.map (Sigma.mk key) spelled plain member left

theorem member_unknown {name : List Char} {value : Tree} {rest : List Char}
    (spelled : MemberSpelled (.text name, value) input rest)
    (unknown : schema.ofName? name = none) :
    (schema.member seen).read input = .ok (none, rest) := by
  cases spelled with
  | mk isName named colon spelled =>
    simp only [Schema.member, named.next_eq, unknown, unknownValue_eq colon spelled]
    rfl

theorem member_eq_ok_iff {key : schema.Key} {name : List Char} {value : Tree} {rest : List Char}
    (takes : Takes (schema.reader key) (decode? key) (Plain key))
    (spelled : MemberSpelled (.text name, value) input rest)
    (known : schema.ofName? name = some key) (plain : Plain key value)
    (found : Option schema.Member) (left : List Char) :
    (schema.member seen).read input = .ok (found, left) ↔
      key ∉ seen ∧ ∃ member, (decode? key value).map (Sigma.mk key) = some member ∧
        found = some member ∧ left = rest := by
  cases spelled with
  | mk isName named colon spelled =>
    simp only [Schema.member, named.next_eq, known]
    -- A key that was seen before is refused without a look at its value.
    split
    · next again => simp [again]
    · next fresh =>
      simp only [map_eq_ok_iff, Prod.exists, Prod.mk.injEq, fresh, not_false_eq_true, true_and]
      constructor
      · rintro ⟨member, _, read, rfl, rfl⟩
        obtain ⟨decoded, rfl⟩ :=
          (memberValue_eq_ok_iff takes colon spelled plain member _).1 read
        exact ⟨member, decoded, rfl, rfl⟩
      · rintro ⟨member, decoded, rfl, rfl⟩
        exact ⟨member, left,
          (memberValue_eq_ok_iff takes colon spelled plain member left).2 ⟨decoded, rfl⟩, rfl, rfl⟩

theorem member_broken {value : Tree} {rest : List Char}
    (spelled : MemberSpelled (.brokenText, value) input rest) :
    (schema.member seen).read input = .error .malformed := by
  cases spelled with
  | mk isName named colon spelled => simp only [Schema.member, named.next_eq]

theorem moreMembers_skip {rest : List Char} (comma : next input = some (.comma, mid))
    (read : (schema.member seen).read mid = .ok (none, rest)) :
    schema.moreMembers seen input = schema.moreMembers seen rest := by
  rw [Schema.moreMembers.eq_def schema seen input]
  split
  · simp_all
  · next taken =>
    rw [comma] at taken
    cases taken
    split <;> simp_all
  · simp_all

theorem moreMembers_eq_ok_iff (comma : next input = some (.comma, mid))
    (notable : ∀ rest, (schema.member seen).read mid ≠ .ok (none, rest)) :
    schema.moreMembers seen input = .ok (members, last) ↔
      ∃ found rest others, (schema.member seen).read mid = .ok (some found, rest) ∧
        schema.moreMembers (found.1 :: seen) rest = .ok (others, last) ∧
        members = found :: others := by
  constructor
  · intro more
    -- Behind a comma only a member can stand, read before those that follow it.
    rw [Schema.moreMembers] at more
    split at more
    · next closed => simp [comma] at closed
    · next taken =>
      rw [comma] at taken
      cases taken
      split at more
      · cases more
      · next rest read => exact absurd read (notable rest)
      · next found rest read =>
        split at more
        · cases more
        · next others rest' rests =>
          cases more
          exact ⟨found, rest, others, read, rests, rfl⟩
    · cases more
  · rintro ⟨found, rest, others, read, more, rfl⟩
    exact moreMembers_known comma read more

theorem known_cons (name : Token) (value : Tree) (members : List (Token × Tree)) :
    schema.known ((name, value) :: members) =
      match schema.keyOf? name with
      | none => schema.known members
      | some key => (key, value) :: schema.known members := by
  cases found : schema.keyOf? name <;> simp [Schema.known, found]

def Schema.Fresh (seen : List schema.Key) (parts : List (schema.Key × Tree)) : Prop :=
  (parts.map (·.1)).Nodup ∧ ∀ part ∈ parts, part.1 ∉ seen

theorem fresh_cons_iff {key : schema.Key} {value : Tree} {parts : List (schema.Key × Tree)} :
    Schema.Fresh seen ((key, value) :: parts) ↔
      key ∉ seen ∧ Schema.Fresh (key :: seen) parts := by
  rw [Schema.Fresh, Schema.Fresh, List.map_cons, List.nodup_cons, List.forall_mem_cons]
  simp only [List.mem_cons, not_or, List.mem_map, not_exists, not_and]
  constructor
  · rintro ⟨⟨other, distinct⟩, fresh, unseen⟩
    exact ⟨fresh, distinct, fun part mem => ⟨other part mem, unseen part mem⟩⟩
  · rintro ⟨fresh, distinct, unseen⟩
    exact ⟨⟨fun part mem => (unseen part mem).1, distinct⟩, fresh,
      fun part mem => (unseen part mem).2⟩

theorem takes_moreMembers (takes : ∀ key, Takes (schema.reader key) (decode? key) (Plain key))
    {members : List (Token × Tree)} {input rest : List Char}
    (spelled : MembersSpelled members input rest)
    (plain : ∀ part ∈ schema.known members, Plain part.1 part.2) (seen : List schema.Key)
    (found : List schema.Member) (left : List Char) :
    schema.moreMembers seen input = .ok (found, left) ↔
      ((∀ member ∈ members, member.1 ≠ .brokenText) ∧
        Schema.Fresh seen (schema.known members)) ∧
      schema.decodeParts? decode? (schema.known members) = some found ∧ left = rest := by
  induction members generalizing input seen found with
  | nil =>
    cases spelled with
    | close closed =>
      rw [moreMembers_close closed.next_eq]
      simp [Schema.known, Schema.decodeParts?, Schema.Fresh, eq_comm]
  | cons member members ih =>
    obtain ⟨name, value⟩ := member
    cases spelled with
    | @member _ _ _ start mid _ comma first others =>
      rw [List.forall_mem_cons]
      rw [known_cons] at plain ⊢
      -- The name is that of a part, that of none, or denotes no text at all.
      rcases first.exists_next.1 with content | _
      · cases known : schema.ofName? content with
        | none =>
          simp only [Schema.keyOf?, known] at plain ⊢
          rw [moreMembers_skip comma.next_eq (member_unknown first known), ih others plain]
          simp
        | some key =>
          simp only [Schema.keyOf?, known, List.forall_mem_cons] at plain ⊢
          have read (found : Option schema.Member) (left : List Char) :
              (schema.member seen).read start = .ok (found, left) ↔ _ :=
            member_eq_ok_iff (takes key) first known plain.1 found left
          have notable (left : List Char) :
              (schema.member seen).read start ≠ .ok (none, left) := by
            rw [Ne, read]
            simp
          rw [moreMembers_eq_ok_iff comma.next_eq notable, fresh_cons_iff, Schema.decodeParts?,
            mapM_cons_eq_some_iff]
          constructor
          · rintro ⟨entry, mid', entries, one, more, rfl⟩
            obtain ⟨fresh, _, decoded, ⟨⟩, rfl⟩ := (read _ _).1 one
            obtain ⟨value', -, rfl⟩ := Option.map_eq_some_iff.1 decoded
            obtain ⟨⟨proper, unseen⟩, decodes, rfl⟩ := (ih others plain.2 _ entries).1 more
            exact ⟨⟨⟨by simp, proper⟩, fresh, unseen⟩, ⟨_, decoded, entries, decodes, rfl⟩, rfl⟩
          · rintro ⟨⟨⟨-, proper⟩, fresh, unseen⟩, ⟨entry, decoded, entries, decodes, rfl⟩, rfl⟩
            obtain ⟨value', -, rfl⟩ := Option.map_eq_some_iff.1 decoded
            exact ⟨_, mid, entries, (read _ _).2 ⟨fresh, _, decoded, rfl, rfl⟩,
              (ih others plain.2 _ entries).2 ⟨⟨proper, unseen⟩, decodes, rfl⟩, rfl⟩
      · have failed : (schema.member seen).read start = .error .malformed := member_broken first
        rw [moreMembers_eq_ok_iff comma.next_eq (by simp [failed])]
        simp [failed]

end Object

section Values

variable {decode? : (key : schema.Key) → Tree → Option (schema.Value key)}
  {Plain : schema.Key → Tree → Prop} {input mid last : List Char} {members : List schema.Member}

theorem moreValues_eq_ok_iff {key : schema.Key} {keys : List schema.Key}
    (comma : next input = some (.comma, mid)) :
    schema.moreValues (key :: keys) input = .ok (members, last) ↔
      ∃ value rest others, (schema.reader key).read mid = .ok (value, rest) ∧
        schema.moreValues keys rest = .ok (others, last) ∧ members = ⟨key, value⟩ :: others := by
  rw [Schema.moreValues.eq_def, comma]
  constructor
  · intro more
    dsimp only at more
    split at more
    · cases more
    · next value rest read =>
      split at more
      · cases more
      · next others rest' rests =>
        cases more
        exact ⟨value, rest, others, read, rests, rfl⟩
  · rintro ⟨value, rest, others, read, more, rfl⟩
    simp only [read, more]

theorem takes_moreValues (takes : ∀ key, Takes (schema.reader key) (decode? key) (Plain key))
    {keys : List schema.Key} {items : List Tree} {input rest : List Char}
    (spelled : ItemsSpelled items input rest)
    (plain : ∀ part ∈ keys.zip items, Plain part.1 part.2) (found : List schema.Member)
    (left : List Char) :
    schema.moreValues keys input = .ok (found, left) ↔
      items.length ≤ keys.length ∧
      schema.decodeParts? decode? (keys.zip items) = some found ∧ left = rest := by
  -- Items and parts are used up together; what is left of the parts is generalised.
  induction items generalizing keys input found with
  | nil =>
    cases spelled with
    | close closed =>
      cases keys <;> simp [Schema.moreValues, closed.next_eq, Schema.decodeParts?, eq_comm]
  | cons item items ih =>
    cases spelled with
    | @item _ _ _ start mid _ comma first others =>
      cases keys with
      | nil => simp [Schema.moreValues, comma.next_eq]
      | cons key keys =>
        rw [List.zip_cons_cons, List.forall_mem_cons] at plain
        rw [moreValues_eq_ok_iff comma.next_eq, List.zip_cons_cons, Schema.decodeParts?,
          mapM_cons_eq_some_iff, List.length_cons, List.length_cons, Nat.succ_le_succ_iff]
        constructor
        · rintro ⟨value, mid', others', read, more, rfl⟩
          obtain ⟨decoded, rfl⟩ := (takes key first plain.1 value mid').1 read
          obtain ⟨short, decodes, rfl⟩ := (ih others plain.2 others').1 more
          exact ⟨short, ⟨_, congrArg (Option.map _) decoded, others', decodes, rfl⟩, rfl⟩
        · rintro ⟨short, ⟨entry, decoded, others', decodes, rfl⟩, rfl⟩
          obtain ⟨value, found, rfl⟩ := Option.map_eq_some_iff.1 decoded
          exact ⟨value, mid, others', (takes key first plain.1 value mid).2 ⟨found, rfl⟩,
            (ih others plain.2 others').2 ⟨short, decodes, rfl⟩, rfl⟩

end Values

theorem Schema.members?_eq_some_iff
    {decode? : (key : schema.Key) → Tree → Option (schema.Value key)} {tree : Tree}
    {found : List schema.Member} :
    schema.members? decode? tree = some found ↔
      schema.WellFormed tree ∧ schema.decodeParts? decode? (schema.parts tree) = some found := by
  rw [Schema.members?]
  split
  · next fine => simp [fine]
  · next wrong => simp [wrong]

/-- A composite value is taken part by part, in either of its forms. -/
theorem takes_members {decode? : (key : schema.Key) → Tree → Option (schema.Value key)}
    {Plain : schema.Key → Tree → Prop}
    (takes : ∀ key, Takes (schema.reader key) (decode? key) (Plain key)) :
    Takes schema.members (schema.members? decode?)
      fun tree => ∀ part ∈ schema.parts tree, Plain part.1 part.2 := by
  intro tree input rest spelled plain found left
  rw [Schema.members?_eq_some_iff]
  -- The first item or member is read as if behind a comma, which the lists have as well.
  cases spelled with
  | scalar isScalar lexeme =>
    simp only [Schema.members, lexeme.next_eq]
    cases isScalar <;> simp [Schema.WellFormed]
  | emptyArray opened closed =>
    simp [Schema.members, opened.next_eq, closed.next_eq, Schema.WellFormed, Schema.parts,
      Schema.decodeParts?, eq_comm]
  | array opened first others =>
    have behind := takes_moreValues takes (.item (.front .comma) first others) plain found left
    rw [and_assoc]
    simp only [Schema.members, opened.next_eq]
    split
    · next closed => exact absurd closed (first.next_ne_closeArray _)
    · exact behind
  | emptyObject opened closed =>
    simp [Schema.members, opened.next_eq, closed.next_eq, Schema.WellFormed, Schema.parts,
      Schema.known, Schema.decodeParts?, eq_comm]
  | object opened first others =>
    have behind := takes_moreMembers takes (.member (.front .comma) first others) plain [] found
      left
    simp only [Schema.members, opened.next_eq]
    split
    · next closed => exact absurd closed (first.next_ne_closeObject _)
    · rw [behind]
      simp [Schema.WellFormed, Schema.Fresh, Schema.parts, and_assoc]

section Named

variable {decode? : (key : schema.Key) → Tree → Option (schema.Value key)}

def valuesNamed (name : String) (members : List (Token × Tree)) : List Tree :=
  (members.filter fun member => member.1 = .text name.toList).map (·.2)

def Schema.valuesOf (key : schema.Key) (parts : List (schema.Key × Tree)) : List Tree :=
  (parts.filter fun part => part.1 = key).map (·.2)

theorem Schema.valuesOf_cons (key other : schema.Key) (value : Tree)
    (parts : List (schema.Key × Tree)) :
    Schema.valuesOf key ((other, value) :: parts) =
      if other = key then value :: Schema.valuesOf key parts else Schema.valuesOf key parts := by
  unfold Schema.valuesOf
  split
  · next same => simp [same]
  · next differs => simp [differs]

theorem Schema.mem_valuesOf_iff {key : schema.Key} {value : Tree}
    {parts : List (schema.Key × Tree)} :
    value ∈ Schema.valuesOf key parts ↔ (key, value) ∈ parts := by
  simp [Schema.valuesOf]

theorem keyOf?_eq_some_iff (named : schema.Named) {token : Token} {key : schema.Key} :
    schema.keyOf? token = some key ↔ token = .text (schema.name key).toList := by
  cases token with
  | text name => simp [Schema.keyOf?, ofName?_eq_some_iff named]
  | _ => simp [Schema.keyOf?]

theorem valuesOf_known (named : schema.Named) (key : schema.Key) (members : List (Token × Tree)) :
    Schema.valuesOf key (schema.known members) = valuesNamed (schema.name key) members := by
  induction members with
  | nil => rfl
  | cons member members ih =>
    obtain ⟨name, value⟩ := member
    have same : schema.keyOf? name = some key ↔ name = .text (schema.name key).toList :=
      keyOf?_eq_some_iff named
    rw [known_cons]
    cases found : schema.keyOf? name with
    | none =>
      have other : name ≠ .text (schema.name key).toList := fun eq => by
        rw [← same, found] at eq
        cases eq
      simp [ih, valuesNamed, other]
    | some known =>
      rw [found, Option.some.injEq] at same
      simp only [Schema.valuesOf_cons, ih]
      by_cases eq : known = key
      · simp [eq, valuesNamed, same.1 eq]
      · simp [eq, valuesNamed, mt same.2 eq]

theorem forall_known_iff (named : schema.Named) {members : List (Token × Tree)}
    {p : schema.Key → Tree → Prop} :
    (∀ part ∈ schema.known members, p part.1 part.2) ↔
      ∀ key, ∀ value ∈ valuesNamed (schema.name key) members, p key value := by
  simp only [← valuesOf_known named, Schema.mem_valuesOf_iff, Prod.forall]

theorem nodup_iff_valuesOf {parts : List (schema.Key × Tree)} :
    (parts.map (·.1)).Nodup ↔ ∀ key, (Schema.valuesOf key parts).length ≤ 1 := by
  simp only [List.nodup_iff_count, Schema.valuesOf, List.length_map,
    ← List.countP_eq_length_filter, List.count_eq_countP, List.countP_map]
  rfl

theorem isSome_decodeParts?_iff {parts : List (schema.Key × Tree)} :
    (schema.decodeParts? decode? parts).isSome ↔
      ∀ key, ∀ value ∈ Schema.valuesOf key parts, (decode? key value).isSome := by
  simp only [Schema.decodeParts?, isSome_mapM_iff, Option.isSome_map, Schema.mem_valuesOf_iff,
    Prod.forall]

theorem value?_of_decodeParts? {parts : List (schema.Key × Tree)} {found : List schema.Member}
    (decoded : schema.decodeParts? decode? parts = some found) (key : schema.Key) :
    schema.value? key found = (Schema.valuesOf key parts).head?.bind (decode? key) := by
  induction parts generalizing found with
  | nil =>
    cases decoded
    rfl
  | cons part parts ih =>
    obtain ⟨other, value⟩ := part
    obtain ⟨member, first, members, others, rfl⟩ := mapM_cons_eq_some_iff.1 decoded
    obtain ⟨result, decodes, rfl⟩ := Option.map_eq_some_iff.1 first
    rw [Schema.value?, Schema.valuesOf_cons]
    split
    · next same =>
      cases same
      exact decodes.symm
    · exact ih others

/-- An object is decoded if every name denotes a text, no part is given twice and each value that is
given for a part is one of its own. -/
theorem isSome_members?_object_iff (named : schema.Named) {members : List (Token × Tree)} :
    (schema.members? decode? (.object members)).isSome ↔
      (∀ member ∈ members, member.1 ≠ .brokenText) ∧ ∀ key,
        (valuesNamed (schema.name key) members).length ≤ 1 ∧
          ∀ value ∈ valuesNamed (schema.name key) members, (decode? key value).isSome := by
  have wellFormed : schema.WellFormed (.object members) ↔
      (∀ member ∈ members, member.1 ≠ .brokenText) ∧
        ∀ key, (valuesNamed (schema.name key) members).length ≤ 1 := by
    simp only [Schema.WellFormed, nodup_iff_valuesOf, valuesOf_known named]
  have decodes : (schema.decodeParts? decode? (schema.known members)).isSome ↔ _ :=
    isSome_decodeParts?_iff
  simp only [valuesOf_known named] at decodes
  simp only [Option.isSome_iff_exists, Schema.members?_eq_some_iff, wellFormed,
    exists_and_left, forall_and] at decodes ⊢
  rw [Schema.parts, decodes, and_assoc]

/-- The decoded value of a part is that of the first member with its name. -/
theorem value?_of_members?_object (named : schema.Named) {members : List (Token × Tree)}
    {found : List schema.Member} (decoded : schema.members? decode? (.object members) = some found)
    (key : schema.Key) :
    schema.value? key found = (valuesNamed (schema.name key) members).head?.bind (decode? key) := by
  rw [← valuesOf_known named]
  exact value?_of_decodeParts? (Schema.members?_eq_some_iff.1 decoded).2 key

end Named

end TxEnvelope.Json
