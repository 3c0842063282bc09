import TxEnvelope.Inspect.Arguments

/-! What the arguments of the inspection command say.

The arguments are described by a grammar that does not mention how they are
read: flags anywhere, one name, at most one operand. They are read as exactly
what they say.
-/

set_option autoImplicit false

namespace TxEnvelope.Inspect

/-- Arguments behind the name of a subcommand, with the operand that stands among them. -/
inductive Operands : List String → Option String → Prop where
  | nil : Operands [] none
  | closed : Operands ["--"] none
  | marked {operand : String} : Operands ["--", operand] (some operand)
  | flag {flag : String} {rest : List String} {operand : Option String} :
    isVerbosity flag = true → Operands rest operand → Operands (flag :: rest) operand
  | plain {operand : String} {rest : List String} :
    isOption operand = false → Operands rest none → Operands (operand :: rest) (some operand)

def Subcommand.name : Subcommand → String
  | .json => "json"
  | .raw => "raw"

inductive Calls : List String → Subcommand → Option String → Prop where
  | name {subcommand : Subcommand} {rest : List String} {operand : Option String} :
    Operands rest operand → Calls (subcommand.name :: rest) subcommand operand
  | flag {flag : String} {rest : List String} {subcommand : Subcommand}
    {operand : Option String} : isVerbosity flag = true → Calls rest subcommand operand →
    Calls (flag :: rest) subcommand operand

/-- Where a call is directed: to its operand, to the variable in its place, to standard input. -/
inductive Directs (environment : Environment) : List String → Subcommand → Source → Prop where
  | path {arguments : List String} {path : String} :
    Calls arguments .json (some path) → path ≠ "" → Directs environment arguments .json (.file path)
  | pathVariable {arguments : List String} {path : String} : Calls arguments .json none →
    environment.path = some path → path ≠ "" → Directs environment arguments .json (.file path)
  | pathless {arguments : List String} : Calls arguments .json none → environment.path = none →
    Directs environment arguments .json .stdin
  | hex {arguments : List String} {text : String} :
    Calls arguments .raw (some text) → Directs environment arguments .raw (.given text)
  | hexVariable {arguments : List String} {text : String} : Calls arguments .raw none →
    environment.hex = some text → Directs environment arguments .raw (.given text)
  | hexless {arguments : List String} : Calls arguments .raw none → environment.hex = none →
    Directs environment arguments .raw .stdin

section Shapes

variable {argument flag : String} {rest : List String} {value : Option String}

theorem isOption_of_isVerbosity (verbose : isVerbosity argument = true) :
    isOption argument = true := by
  simp only [isVerbosity, Bool.or_eq_true, beq_iff_eq] at verbose
  rcases verbose with rfl | short
  · decide
  · unfold isOption
    split at short
    · rename_i spelled
      simp only [spelled]
    · cases short

theorem operands_dashes_iff :
    Operands ("--" :: rest) value ↔
      rest = [] ∧ value = none ∨ ∃ operand, rest = [operand] ∧ value = some operand := by
  constructor
  · intro spelled
    cases spelled with
    | closed => exact .inl ⟨rfl, rfl⟩
    | marked => exact .inr ⟨_, rfl, rfl⟩
    | flag verbose => exact absurd verbose (by decide)
    | plain option => exact absurd option (by decide)
  · rintro (⟨rfl, rfl⟩ | ⟨operand, rfl, rfl⟩)
    · exact .closed
    · exact .marked

theorem operands_flag_iff (verbose : isVerbosity flag = true) :
    Operands (flag :: rest) value ↔ Operands rest value := by
  constructor
  · intro spelled
    cases spelled with
    | closed => exact absurd verbose (by decide)
    | marked => exact absurd verbose (by decide)
    | flag _ spelled => exact spelled
    | plain option => rw [isOption_of_isVerbosity verbose] at option; cases option
  · exact .flag verbose

theorem operands_plain_iff (dashes : argument ≠ "--") (quiet : isVerbosity argument = false) :
    Operands (argument :: rest) value ↔
      isOption argument = false ∧ Operands rest none ∧ value = some argument := by
  constructor
  · intro spelled
    cases spelled with
    | closed => exact absurd rfl dashes
    | marked => exact absurd rfl dashes
    | flag verbose => rw [quiet] at verbose; cases verbose
    | plain option spelled => exact ⟨option, spelled, rfl⟩
  · rintro ⟨option, spelled, rfl⟩
    exact .plain option spelled

end Shapes

section Reading

variable {arguments : List String} {value : Option String} {subcommand : Subcommand}
  {environment : Environment} {source : Source}

theorem operand_some_iff {first : String} :
    operand (some first) arguments = some value ↔
      Operands arguments none ∧ value = some first := by
  induction arguments with
  | nil => simp [operand, Operands.nil, eq_comm]
  | cons argument rest ih =>
    by_cases dashes : argument = "--"
    · subst dashes
      rw [operands_dashes_iff]
      cases rest <;> simp [operand, eq_comm]
    · cases quiet : isVerbosity argument with
      | true => simp [operand, dashes, quiet, ih, operands_flag_iff quiet]
      | false => simp [operand, dashes, quiet, operands_plain_iff dashes quiet]

theorem operand_none_iff :
    operand none arguments = some value ↔ Operands arguments value := by
  induction arguments with
  | nil =>
    constructor
    · rintro ⟨⟩
      exact .nil
    · rintro ⟨⟩
      rfl
  | cons argument rest ih =>
    by_cases dashes : argument = "--"
    · subst dashes
      rw [operands_dashes_iff]
      -- Behind the dashes one argument is an operand, whatever it looks like, and two are too many.
      rcases rest with _ | ⟨last, _ | _⟩ <;> simp [operand, eq_comm]
    · cases quiet : isVerbosity argument with
      | true => simp [operand, dashes, quiet, ih, operands_flag_iff quiet]
      | false =>
        simp [operand, dashes, quiet, operands_plain_iff dashes quiet, operand_some_iff]

theorem ofName?_eq_some_iff {name : String} :
    Subcommand.ofName? name = some subcommand ↔ name = subcommand.name := by
  unfold Subcommand.ofName?
  cases subcommand <;> grind [Subcommand.name]

theorem calls_bare (subcommand : Subcommand) : Calls [subcommand.name] subcommand none :=
  .name .nil

theorem calls_operand (subcommand : Subcommand) {operand : String}
    (plain : isOption operand = false) :
    Calls [subcommand.name, operand] subcommand (some operand) :=
  .name (.plain plain .nil)

theorem calls_flag_iff {flag : String} (verbose : isVerbosity flag = true) :
    Calls (flag :: arguments) subcommand value ↔ Calls arguments subcommand value := by
  constructor
  · intro called
    cases called with
    | name _ => cases subcommand <;> exact absurd verbose (by decide)
    | flag _ called => exact called
  · exact .flag verbose

theorem calls_name_iff {name : String} (quiet : isVerbosity name = false) :
    Calls (name :: arguments) subcommand value ↔
      name = subcommand.name ∧ Operands arguments value := by
  constructor
  · intro called
    cases called with
    | name spelled => exact ⟨rfl, spelled⟩
    | flag verbose => rw [quiet] at verbose; cases verbose
  · rintro ⟨rfl, spelled⟩
    exact .name spelled

theorem parseArguments_eq_some_iff :
    parseArguments arguments = some (subcommand, value) ↔ Calls arguments subcommand value := by
  induction arguments with
  | nil => exact ⟨nofun, nofun⟩
  | cons argument rest ih =>
    cases quiet : isVerbosity argument with
    | true => rw [calls_flag_iff quiet, ← ih, parseArguments, if_pos quiet]
    | false =>
      rw [calls_name_iff quiet, ← ofName?_eq_some_iff, ← operand_none_iff, parseArguments,
        if_neg (by simp [quiet])]
      cases Subcommand.ofName? argument with
      | none => exact ⟨nofun, nofun⟩
      | some named => cases operand none rest <;> simp

theorem directs_of_plan (planned : plan arguments environment = some (subcommand, source)) :
    Directs environment arguments subcommand source := by
  cases parsed : parseArguments arguments with
  | none => simp [plan, parsed] at planned
  | some call =>
    obtain ⟨called, operand⟩ := call
    have calls := parseArguments_eq_some_iff.1 parsed
    cases called with
    | json =>
      cases operand with
      | some path =>
        obtain ⟨there, rfl, rfl⟩ : path ≠ "" ∧ .json = subcommand ∧ .file path = source := by
          simpa [plan, parsed] using planned
        exact .path calls there
      | none =>
        -- Only a missing operand leaves the choice to the variable.
        cases standIn : environment.path with
        | some path =>
          obtain ⟨there, rfl, rfl⟩ : path ≠ "" ∧ .json = subcommand ∧ .file path = source := by
            simpa [plan, parsed, standIn] using planned
          exact .pathVariable calls standIn there
        | none =>
          obtain ⟨rfl, rfl⟩ : .json = subcommand ∧ .stdin = source := by
            simpa [plan, parsed, standIn] using planned
          exact .pathless calls standIn
    | raw =>
      cases operand with
      | some text =>
        obtain ⟨rfl, rfl⟩ : .raw = subcommand ∧ .given text = source := by
          simpa [plan, parsed] using planned
        exact .hex calls
      | none =>
        cases standIn : environment.hex with
        | some text =>
          obtain ⟨rfl, rfl⟩ : .raw = subcommand ∧ .given text = source := by
            simpa [plan, parsed, standIn] using planned
          exact .hexVariable calls standIn
        | none =>
          obtain ⟨rfl, rfl⟩ : .raw = subcommand ∧ .stdin = source := by
            simpa [plan, parsed, standIn] using planned
          exact .hexless calls standIn

theorem plan_of_directs (directed : Directs environment arguments subcommand source) :
    plan arguments environment = some (subcommand, source) := by
  have parsed {operand : Option String} (calls : Calls arguments subcommand operand) :=
    parseArguments_eq_some_iff.2 calls
  cases directed with
  | path calls there => simp [plan, parsed calls, there]
  | pathVariable calls standIn there => simp [plan, parsed calls, standIn, there]
  | pathless calls standIn => simp [plan, parsed calls, standIn]
  | hex calls => simp [plan, parsed calls]
  | hexVariable calls standIn => simp [plan, parsed calls, standIn]
  | hexless calls standIn => simp [plan, parsed calls, standIn]

/-- A call reads from where it is directed; a call that is directed nowhere is a misuse. -/
theorem plan_eq_some_iff :
    plan arguments environment = some (subcommand, source) ↔
      Directs environment arguments subcommand source :=
  ⟨directs_of_plan, plan_of_directs⟩

end Reading

end TxEnvelope.Inspect
