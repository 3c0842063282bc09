import TxEnvelope.Json.Skip
import TxEnvelope.Proofs.Json.Grammar

/-! Values of any shape and any depth are passed over exactly.

The machine that walks a value needs nothing but its position: from wherever a
value may start it comes to where a value has ended, with the same containers
open, behind every text of the value.
-/

set_option autoImplicit false

namespace TxEnvelope.Json

namespace Position

/-- Walks on from a position, unless nothing is open any more. -/
def resume (position : Position) (rest : List Char) : Option (List Char) :=
  if position = ⟨[], .more⟩ then some rest else position.run rest

@[simp] theorem resume_cons (container : Container) (outer : List Container) (awaiting : Awaiting)
    (rest : List Char) :
    resume ⟨container :: outer, awaiting⟩ rest = run ⟨container :: outer, awaiting⟩ rest :=
  if_neg (by simp)

theorem run_eq {position following : Position} {token : Token} {input rest : List Char}
    (lexeme : Lexeme token input rest) (moved : position.step token = some following) :
    position.run input = following.resume rest := by
  rw [run, resume]
  split
  · next failed => simp [lexeme.next_eq] at failed
  · next taken =>
    rw [lexeme.next_eq] at taken
    cases taken
    rw [moved]
    split
    · next refused => cases refused
    · next ended => rw [if_pos (Option.some.inj ended)]
    · next other going =>
      cases going
      rw [if_neg other]

/-- Any token but a closing bracket is taken for the start of a value. -/
def SeeksValue (position : Position) (opened : List Container) : Prop :=
  ∀ token, token ≠ .closeArray → position.step token = start opened token

def SeeksMember (position : Position) (outer : List Container) : Prop :=
  ∀ token, token ≠ .closeObject → position.step token = key (.object :: outer) token

theorem seeksValue_value (opened : List Container) : SeeksValue ⟨opened, .value⟩ opened :=
  fun _ _ => rfl

theorem seeksValue_firstItem (outer : List Container) :
    SeeksValue ⟨.array :: outer, .firstItem⟩ (.array :: outer) :=
  fun _ other => if_neg other

theorem seeksMember_key (outer : List Container) : SeeksMember ⟨.object :: outer, .key⟩ outer :=
  fun _ _ => rfl

theorem seeksMember_firstKey (outer : List Container) :
    SeeksMember ⟨.object :: outer, .firstKey⟩ outer :=
  fun _ other => if_neg other

theorem start_eq {token : Token} (isScalar : token.IsScalar) (opened : List Container) :
    start opened token = some ⟨opened, .more⟩ := by
  cases isScalar <;> rfl

theorem key_eq {token : Token} (isName : token.IsName) (opened : List Container) :
    key opened token = some ⟨opened, .colon⟩ := by
  cases isName <;> rfl

-- Each statement is about all positions of its sort at once, so the containers around a value take
-- no part in the induction, which is on how the text is spelled.
mutual

theorem run_value {tree : Tree} {input rest : List Char} {position : Position}
    {opened : List Container} :
    tree.Spelled input rest → SeeksValue position opened →
      position.run input = resume ⟨opened, .more⟩ rest
  | .scalar isScalar lexeme, seeks =>
    run_eq lexeme ((seeks _ isScalar.ne_closeArray).trans (start_eq isScalar opened))
  | .emptyArray opening closing, seeks => by
    rw [run_eq opening (seeks _ (by simp)), resume_cons]
    exact run_eq closing rfl
  | .array opening first others, seeks => by
    rw [run_eq opening (seeks _ (by simp)), resume_cons,
      run_value first (seeksValue_firstItem opened), resume_cons]
    exact run_items others
  | .emptyObject opening closing, seeks => by
    rw [run_eq opening (seeks _ (by simp)), resume_cons]
    exact run_eq closing rfl
  | .object opening first others, seeks => by
    rw [run_eq opening (seeks _ (by simp)), resume_cons,
      run_member first (seeksMember_firstKey opened)]
    exact run_members others

theorem run_items {items : List Tree} {input rest : List Char} {outer : List Container} :
    ItemsSpelled items input rest →
      run ⟨.array :: outer, .more⟩ input = resume ⟨outer, .more⟩ rest
  | .close closing => run_eq closing rfl
  | .item comma first others => by
    rw [run_eq comma rfl, resume_cons, run_value first (seeksValue_value _), resume_cons]
    exact run_items others

theorem run_member {member : Token × Tree} {input rest : List Char} {position : Position}
    {outer : List Container} :
    MemberSpelled member input rest → SeeksMember position outer →
      position.run input = run ⟨.object :: outer, .more⟩ rest
  | .mk isName named colon spelled, seeks => by
    have moved := (seeks _ isName.ne_closeObject).trans (key_eq isName (.object :: outer))
    rw [run_eq named moved, resume_cons, run_eq colon rfl, resume_cons,
      run_value spelled (seeksValue_value _), resume_cons]

theorem run_members {members : List (Token × Tree)} {input rest : List Char}
    {outer : List Container} :
    MembersSpelled members input rest →
      run ⟨.object :: outer, .more⟩ input = resume ⟨outer, .more⟩ rest
  | .close closing => run_eq closing rfl
  | .member comma first others => by
    rw [run_eq comma rfl, resume_cons, run_member first (seeksMember_key _)]
    exact run_members others

end

end Position

/-- What is left behind a value is left when it is passed over. -/
theorem Tree.Spelled.skipValue_eq {tree : Tree} {input rest : List Char}
    (spelled : tree.Spelled input rest) : skipValue input = some rest :=
  Position.run_value spelled (Position.seeksValue_value [])

end TxEnvelope.Json
