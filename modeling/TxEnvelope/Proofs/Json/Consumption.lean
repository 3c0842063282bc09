import TxEnvelope.Proofs.Json.Printing
import TxEnvelope.Proofs.Json.Surplus

/-! How much of a text a reader takes off.

A reader that succeeds has taken off at least as many characters as the value it
found weighs. Of a composite value the weights of the parts add up, because the
parts are read one behind the other.
-/

set_option autoImplicit false

namespace TxEnvelope.Json

/-- On success at least as many characters are gone as the value weighs. -/
def Consumes {α : Type} (reader : ValueReader α) (weight : α → Nat) : Prop :=
  ∀ ⦃input : List Char⦄ ⦃a : α⦄ ⦃rest : List Char⦄, reader.read input = .ok (a, rest) →
    weight a + rest.length ≤ input.length

section Tokens

theorem length_of_piecesSpelled {found : List Piece} {input rest : List Char}
    (spelled : PiecesSpelled found input rest) :
    found.length + 1 + rest.length ≤ input.length := by
  induction spelled with
  | close => rw [List.length_nil, List.length_cons]; omega
  | piece one others ih =>
    rw [List.length_cons]
    cases one <;> simp only [List.length_cons] at ih ⊢ <;> omega

theorem length_of_map_cons {c : Char} {bound : Nat} {result : Option (List Char)}
    {content : List Char} (short : ∀ content, result = some content → content.length ≤ bound)
    (more : result.map (c :: ·) = some content) : content.length ≤ bound + 1 := by
  obtain ⟨content', denoted, rfl⟩ := Option.map_eq_some_iff.1 more
  exact Nat.succ_le_succ (short content' denoted)

theorem length_of_textOf? {found : List Piece} {content : List Char}
    (denoted : textOf? found = some content) : content.length ≤ found.length := by
  fun_induction textOf? found generalizing content with
  | case1 =>
    cases denoted
    exact Nat.le_refl _
  | case2 c others ih => exact length_of_map_cons (fun _ => ih) denoted
  | case3 hi lo others high low ih =>
    exact Nat.le_succ_of_le (length_of_map_cons (fun _ => ih) denoted)
  | case4 | case5 | case7 => cases denoted
  | case6 hi lo others high low ih => exact length_of_map_cons (fun _ => ih) denoted
  | case8 n others alone half ih => exact length_of_map_cons (fun _ => ih) denoted

theorem pieces_of_next {content input rest : List Char}
    (taken : next input = some (.text content, rest)) :
    ∃ tail found, skipBlanks input = '\x22' :: tail ∧ pieces tail = some (found, rest) ∧
      textOf? found = some content := by
  unfold next at taken
  split at taken
  · cases taken
  · next c tail start =>
    have number {signed : Bool} {input : List Char}
        (scanned : scanNumber signed input = some (.text content, rest)) : False := by
      rcases number_of_scanNumber scanned with ⟨n, same⟩ | same <;> cases same
    -- Only a quote begins a text: the other arms end in a token of another kind.
    unfold scan at taken
    split at taken
    case h_7 =>
      unfold scanText at taken
      split at taken
      · cases taken
      · next found left cut =>
        split at taken
        · cases taken
        · next content' denoted =>
          cases taken
          exact ⟨tail, found, start, cut, denoted⟩
    all_goals first
      | exact (number taken).elim
      | cases taken
      | (split at taken <;> cases taken)

/-- The characters that a token takes at least. -/
def Token.size : Token → Nat
  | .text content => content.length + 2
  | _ => 1

theorem size_of_next {input rest : List Char} {token : Token}
    (taken : next input = some (token, rest)) : token.size + rest.length ≤ input.length := by
  have less := length_of_next taken
  cases token with
  | text content =>
    obtain ⟨tail, found, start, cut, denoted⟩ := pieces_of_next taken
    have front := (List.dropWhile_sublist (l := input) isBlank).length_le
    have spelled := length_of_piecesSpelled (.of_pieces cut)
    have short := length_of_textOf? denoted
    rw [show input.dropWhile isBlank = '\x22' :: tail from start, List.length_cons] at front
    rw [Token.size]
    omega
  | _ =>
    simp only [Token.size]
    omega

end Tokens

section Values

variable {α β : Type} {reader : ValueReader α} {weight : α → Nat}

theorem consumes_one (reader : ValueReader α) : Consumes reader fun _ => 1 := by
  intro input a rest read
  rw [Nat.add_comm]
  exact reader.shrinks read

theorem consumes_single {accept : Token → Except ReadError α}
    (light : ∀ token a, accept token = .ok a → weight a ≤ token.size) :
    Consumes (single accept) weight := by
  intro input a rest read
  simp only [single] at read
  split at read
  · cases read
  · next token behind taken =>
    obtain ⟨a', accepted, same⟩ := map_eq_ok_iff.1 read
    cases same
    have less := light token a accepted
    have size := size_of_next taken
    omega

theorem Consumes.refine {weight' : β → Nat} (consumes : Consumes reader weight)
    {check : α → Except ReadError β} (light : ∀ a b, check a = .ok b → weight' b ≤ weight a) :
    Consumes (reader.refine check) weight' := by
  intro input b rest read
  obtain ⟨a, first, checked⟩ := Reader.refine_eq_ok_iff.1 read
  exact Nat.le_trans (Nat.add_le_add_right (light a b checked) _) (consumes first)

theorem Consumes.map {weight' : β → Nat} (consumes : Consumes reader weight) {f : α → β}
    (light : ∀ a, weight' (f a) ≤ weight a) : Consumes (reader.map f) weight' := by
  refine consumes.refine fun a b same => ?_
  cases same
  exact light a

theorem Consumes.mono {weight' : α → Nat} (consumes : Consumes reader weight)
    (light : ∀ a, weight' a ≤ weight a) : Consumes reader weight' :=
  fun _ a _ read => Nat.le_trans (Nat.add_le_add_right (light a) _) (consumes read)

theorem Consumes.nullable (consumes : Consumes reader weight) :
    Consumes (nullable reader) fun value => value.elim 0 weight := by
  intro input value rest read
  simp only [Json.nullable] at read
  split at read
  · next behind null =>
    cases read
    exact Nat.le_trans (Nat.le_of_eq (Nat.zero_add _)) (Nat.le_of_lt (length_of_next null))
  · have some_ : Consumes (reader.map some) fun value => value.elim 0 weight :=
      consumes.map fun a => Nat.le_refl _
    exact some_ read

theorem Consumes.moreItems (consumes : Consumes reader weight) {input rest : List Char}
    {items : List α} (read : moreItems reader input = .ok (items, rest)) :
    (items.map fun a => weight a + 1).sum + 1 + rest.length ≤ input.length := by
  fun_induction Json.moreItems reader input generalizing items rest with
  | case1 input left taken =>
    cases read
    have less := length_of_next taken
    rw [List.map_nil, List.sum_nil]
    omega
  | case2 | case3 | case5 => cases read
  | case4 input mid taken a left first items' rest' more ih =>
    cases read
    have less := length_of_next taken
    have one := consumes first
    have others := ih more
    rw [List.map_cons, List.sum_cons]
    omega

theorem Consumes.array (consumes : Consumes reader weight) :
    Consumes (array reader) fun items => (items.map fun a => weight a + 1).sum + 1 := by
  intro input items rest read
  show (items.map fun a => weight a + 1).sum + 1 + rest.length ≤ input.length
  simp only [Json.array] at read
  split at read
  · next inside opened =>
    have outer := length_of_next opened
    split at read
    · next behind closed =>
      cases read
      have inner := length_of_next closed
      rw [List.map_nil, List.sum_nil]
      omega
    · -- What is inside is read as if a comma stood in front of it.
      have inner := consumes.moreItems read
      rw [List.length_cons] at inner
      omega
  · cases read

theorem Consumes.array_const {width : Nat} (consumes : Consumes reader fun _ => width) :
    Consumes (Json.array reader) fun items => (width + 1) * items.length + 1 := by
  refine consumes.array.mono fun items => ?_
  have total : (items.map fun _ => width + 1).sum = (width + 1) * items.length := by
    rw [List.map_const', List.sum_replicate_nat, Nat.mul_comm]
  exact Nat.le_of_eq (congrArg (· + 1) total.symm)

end Values

section Composite

variable {schema : Schema} {weight : (key : schema.Key) → schema.Value key → Nat}
  {input rest : List Char} {found : List schema.Member}

def Schema.weigh (weight : (key : schema.Key) → schema.Value key → Nat)
    (found : List schema.Member) : Nat :=
  (found.map fun member => weight member.1 member.2).sum

theorem weigh_nil : Schema.weigh weight ([] : List schema.Member) = 0 :=
  List.sum_nil

theorem weigh_cons (member : schema.Member) (found : List schema.Member) :
    Schema.weigh weight (member :: found) =
      weight member.1 member.2 + Schema.weigh weight found :=
  List.sum_cons

theorem length_of_memberValue {key : schema.Key} {member : schema.Member}
    (consumes : Consumes (schema.reader key) (weight key))
    (read : schema.memberValue key input = .ok (member, rest)) :
    weight member.1 member.2 + rest.length ≤ input.length := by
  have tagged : Consumes ((schema.reader key).map (Sigma.mk key))
      fun member => weight member.1 member.2 := consumes.map fun _ => Nat.le_refl _
  rw [Schema.memberValue] at read
  split at read
  · next behind colon => exact Nat.le_trans (tagged read) (Nat.le_of_lt (length_of_next colon))
  · cases read

theorem length_of_member (consumes : ∀ key, Consumes (schema.reader key) (weight key))
    {seen : List schema.Key} {member : Option schema.Member}
    (read : (schema.member seen).read input = .ok (member, rest)) :
    Schema.weigh weight member.toList + rest.length ≤ input.length := by
  cases member with
  | none =>
    have less := (schema.member seen).shrinks read
    exact Nat.le_trans (Nat.le_of_eq (Nat.zero_add _)) (Nat.le_of_lt less)
  | some member =>
    simp only [Schema.member] at read
    split at read
    · next name behind taken =>
      split at read
      · obtain ⟨_, -, same⟩ := map_eq_ok_iff.1 read
        cases same
      · next key known =>
        split at read
        · cases read
        · obtain ⟨⟨_, left⟩, valued, same⟩ := map_eq_ok_iff.1 read
          cases same
          exact Nat.le_trans (length_of_memberValue (consumes key) valued)
            (Nat.le_of_lt (length_of_next taken))
    · cases read

theorem length_of_moreMembers (consumes : ∀ key, Consumes (schema.reader key) (weight key))
    {seen : List schema.Key} (read : schema.moreMembers seen input = .ok (found, rest)) :
    Schema.weigh weight found + 1 + rest.length ≤ input.length := by
  fun_induction schema.moreMembers seen input generalizing found rest with
  | case1 seen input left taken =>
    cases read
    have less := length_of_next taken
    rw [weigh_nil]
    omega
  | case2 | case4 | case6 => cases read
  | case3 seen input mid taken left first ih =>
    -- A member with an unknown name counts nothing, but something of the text is gone.
    have less := length_of_next taken
    have one := (schema.member seen).shrinks first
    have others := ih read
    omega
  | case5 seen input mid taken member left first found' rest' more ih =>
    cases read
    have less := length_of_next taken
    have one := length_of_member consumes first
    have others := ih more
    rw [weigh_cons]
    rw [Option.toList_some, weigh_cons] at one
    omega

theorem length_of_moreValues (consumes : ∀ key, Consumes (schema.reader key) (weight key))
    {keys : List schema.Key} (read : schema.moreValues keys input = .ok (found, rest)) :
    Schema.weigh weight found + 1 + rest.length ≤ input.length := by
  fun_induction schema.moreValues keys input generalizing found rest with
  | case1 keys input left taken =>
    cases read
    have less := length_of_next taken
    rw [weigh_nil]
    omega
  | case2 | case3 | case5 => cases read
  | case4 input mid key keys taken value left first found' rest' more ih =>
    cases read
    have less := length_of_next taken
    have one := consumes key first
    have others := ih more
    rw [weigh_cons]
    dsimp only
    omega

theorem consumes_members (consumes : ∀ key, Consumes (schema.reader key) (weight key)) :
    Consumes schema.members fun found => Schema.weigh weight found + 1 := by
  intro input found rest read
  show Schema.weigh weight found + 1 + rest.length ≤ input.length
  -- Brackets with nothing between them take two characters, more than they weigh.
  have empty {left : List Char} (less : left.length < input.length) :
      Schema.weigh weight ([] : List schema.Member) + 1 + left.length ≤ input.length := by
    rw [weigh_nil]
    omega
  simp only [Schema.members] at read
  split at read
  · next inside opened =>
    have outer := length_of_next opened
    split at read
    · next behind closed =>
      cases read
      exact empty (Nat.lt_trans (length_of_next closed) outer)
    · exact Nat.le_trans (length_of_moreMembers consumes read) outer
  · next inside opened =>
    have outer := length_of_next opened
    split at read
    · next behind closed =>
      cases read
      exact empty (Nat.lt_trans (length_of_next closed) outer)
    · exact Nat.le_trans (length_of_moreValues consumes read) outer
  · cases read

theorem sum_map_le {α : Type} {keys : List α} (distinct : keys.Nodup) {f g : α → Nat} {one : α}
    {extra : Nat} (grown : f one ≤ extra + g one) (same : ∀ key, key ≠ one → f key = g key) :
    (keys.map f).sum ≤ extra + (keys.map g).sum := by
  classical
  induction keys with
  | nil => exact Nat.zero_le _
  | cons key keys ih =>
    obtain ⟨absent, distinct⟩ := List.nodup_cons.1 distinct
    rw [List.map_cons, List.map_cons, List.sum_cons, List.sum_cons]
    by_cases own : key = one
    · -- The key that grows stands nowhere else, so the rest of the sum is as it was.
      subst own
      have others : keys.map f = keys.map g :=
        List.map_congr_left fun other mem => same other fun equal => absent (equal ▸ mem)
      rw [others]
      omega
    · have first := same key own
      have others := ih distinct
      omega

theorem sum_value?_le {keys : List schema.Key} (distinct : keys.Nodup)
    (found : List schema.Member) :
    (keys.map fun key => (schema.value? key found).elim 0 (weight key)).sum ≤
      Schema.weigh weight found := by
  induction found with
  | nil =>
    have nothing : (keys.map fun key => (schema.value? key []).elim 0 (weight key)) =
        keys.map fun _ => 0 := rfl
    rw [nothing, List.map_const', List.sum_replicate_nat]
    exact Nat.le_of_eq (Nat.mul_zero _)
  | cons member found ih =>
    rw [weigh_cons]
    -- A member in front is the one that counts for its own part and changes no other.
    let before (key : schema.Key) := (schema.value? key found).elim 0 (weight key)
    let after (key : schema.Key) := (schema.value? key (member :: found)).elim 0 (weight key)
    have own : after member.1 ≤ weight member.1 member.2 + before member.1 := by
      simp only [after, Schema.value?, dif_pos, Option.elim_some]
      exact Nat.le_add_right _ _
    have others (key : schema.Key) (other : key ≠ member.1) : after key = before key := by
      simp only [after, before, Schema.value?, dif_neg (Ne.symm other)]
    exact Nat.le_trans (sum_map_le distinct own others) (Nat.add_le_add_left ih _)

end Composite

end TxEnvelope.Json
