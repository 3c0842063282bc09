import TxEnvelope.Proofs.BigEndian
import TxEnvelope.Proofs.Hex

/-! The grammar of hex quantities.

The accepted texts are a marker and one or more hex digits, of any number and either letter
case, and what they denote is the positional value of the digits. Writing gives back the one
spelling of a number that is lower case and has no zero in front.
-/

set_option autoImplicit false

namespace TxEnvelope

namespace Hex

/-- The digits of either letter case; the lower-case ones stand at the place of their value. -/
def digitChars : List Char :=
  ['0', '1', '2', '3', '4', '5', '6', '7', '8', '9',
    'a', 'b', 'c', 'd', 'e', 'f', 'A', 'B', 'C', 'D', 'E', 'F']

def IsDigit (c : Char) : Prop := c ∈ digitChars

instance : DecidablePred IsDigit := fun c => inferInstanceAs (Decidable (c ∈ digitChars))

def digitValue (c : Char) : Nat := digitChars.idxOf c.toLower

def number : List Char → Nat
  | [] => 0
  | c :: digits => digitValue c * 16 ^ digits.length + number digits

theorem IsDigit.exists_place {c : Char} (digit : IsDigit c) : ∃ place, digitChars.get place = c :=
  List.mem_iff_get.1 digit

theorem IsDigit.toNat_lt {c : Char} (digit : IsDigit c) : c.toNat < 128 := by
  have all : ∀ place, (digitChars.get place).toNat < 128 := by decide
  obtain ⟨place, rfl⟩ := digit.exists_place
  exact all place

theorem IsDigit.digitValue_lt {c : Char} (digit : IsDigit c) : digitValue c < 16 := by
  have all : ∀ place, digitValue (digitChars.get place) < 16 := by decide
  obtain ⟨place, rfl⟩ := digit.exists_place
  exact all place

theorem IsDigit.digit_digitValue {c : Char} (isDigit : IsDigit c) :
    digit (digitValue c) = c.toLower := by
  have all : ∀ place,
      digit (digitValue (digitChars.get place)) = (digitChars.get place).toLower := by decide
  obtain ⟨place, rfl⟩ := isDigit.exists_place
  exact all place

theorem IsDigit.digitValue_eq_zero_iff {c : Char} (digit : IsDigit c) :
    digitValue c = 0 ↔ c.toLower = '0' := by
  have all : ∀ place,
      digitValue (digitChars.get place) = 0 ↔ (digitChars.get place).toLower = '0' := by decide
  obtain ⟨place, rfl⟩ := digit.exists_place
  exact all place

theorem value?_eq (c : Char) : value? c = if IsDigit c then some (digitValue c) else none := by
  have plain : ∀ code : Fin 128, value? (Char.ofNat code) =
      if IsDigit (Char.ofNat code) then some (digitValue (Char.ofNat code)) else none := by
    decide +kernel
  by_cases ascii : c.toNat < 128
  · obtain ⟨code, rfl⟩ := exists_code ascii
    exact plain code
  · have other : ¬ IsDigit c := fun digit => ascii digit.toNat_lt
    have unread : ∀ v, value? c ≠ some v := fun v digit => ascii (toNat_lt_of_value? digit)
    rw [if_neg other, Option.eq_none_iff_forall_ne_some.2 unread]

theorem mapM_value?_eq_some_iff {digits : List Char} {values : List Nat} :
    digits.mapM value? = some values ↔
      (∀ c ∈ digits, IsDigit c) ∧ digits.map digitValue = values := by
  induction digits generalizing values with
  | nil => simp
  | cons c digits ih =>
    simp only [mapM_cons_eq_some_iff, ih, value?_eq, List.forall_mem_cons, List.map_cons]
    by_cases digit : IsDigit c
    · simp only [digit, if_true, true_and, Option.some.injEq, exists_eq_left']
      constructor
      · rintro ⟨others, ⟨valid, rfl⟩, rfl⟩
        exact ⟨valid, rfl⟩
      · rintro ⟨valid, rfl⟩
        exact ⟨_, ⟨valid, rfl⟩, rfl⟩
    · simp [digit]

theorem mapM_value?_eq_none_iff {digits : List Char} :
    digits.mapM value? = none ↔ ∃ c ∈ digits, ¬ IsDigit c := by
  rw [Option.eq_none_iff_forall_ne_some]
  constructor
  · intro unread
    refine Classical.byContradiction fun none => ?_
    have valid : ∀ c ∈ digits, IsDigit c := by simpa using none
    exact unread _ (mapM_value?_eq_some_iff.2 ⟨valid, rfl⟩)
  · rintro ⟨c, mem, other⟩ values read
    exact other ((mapM_value?_eq_some_iff.1 read).1 c mem)

theorem digitValues_lt {digits : List Char} (valid : ∀ c ∈ digits, IsDigit c) :
    ∀ v ∈ digits.map digitValue, v < 16 := by
  intro v mem
  obtain ⟨c, digit, rfl⟩ := List.mem_map.1 mem
  exact (valid c digit).digitValue_lt

theorem value_map_digitValue (digits : List Char) :
    Positional.value 16 (digits.map digitValue) = number digits := by
  induction digits with
  | nil => rfl
  | cons c digits ih =>
    rw [List.map_cons, Positional.value_cons, ih, List.length_map]
    rfl

theorem number_lt {digits : List Char} (valid : ∀ c ∈ digits, IsDigit c) :
    number digits < 16 ^ digits.length := by
  rw [← value_map_digitValue, ← List.length_map]
  exact Positional.value_lt (digitValues_lt valid)

theorem map_digit_dropWhile {digits : List Char} (valid : ∀ c ∈ digits, IsDigit c) :
    ((digits.map digitValue).dropWhile (· == 0)).map digit =
      (digits.map Char.toLower).dropWhile (· == '0') := by
  induction digits with
  | nil => rfl
  | cons c digits ih =>
    rw [List.forall_mem_cons] at valid
    rw [List.map_cons, List.map_cons]
    by_cases zero : digitValue c = 0
    · have written : c.toLower = '0' := valid.1.digitValue_eq_zero_iff.1 zero
      rw [List.dropWhile_cons_of_pos (by simpa using zero),
        List.dropWhile_cons_of_pos (by simpa using written), ih valid.2]
    · have written : c.toLower ≠ '0' := zero ∘ valid.1.digitValue_eq_zero_iff.2
      rw [List.dropWhile_cons_of_neg (by simpa using zero),
        List.dropWhile_cons_of_neg (by simpa using written), List.map_cons,
        valid.1.digit_digitValue, List.map_map]
      exact congrArg _ (List.map_congr_left fun d mem => (valid.2 d mem).digit_digitValue)

/-- The digits of a number; without any they denote zero, which is written as one digit. -/
def orZero : List Char → List Char
  | [] => ['0']
  | digits => digits

theorem orZero_of_ne_nil {digits : List Char} (some_ : digits ≠ []) : orZero digits = digits := by
  cases digits with
  | nil => exact absurd rfl some_
  | cons c digits => rfl

end Hex

namespace Quantity

def markers : List (List Char) := [['0', 'x'], ['0', 'X']]

/-- A text in lower case and without the zeros that lead its digits; with no digit left, one
zero stays. -/
def canonical (text : List Char) : List Char :=
  let lower := text.map Char.toLower
  lower.take 2 ++ Hex.orZero ((lower.drop 2).dropWhile (· == '0'))

section Reading

variable {text marker digits : List Char} {q : Quantity} {e : ParseError}

theorem parse_marked (known : marker ∈ markers) (digits : List Char) :
    parse (marker ++ digits) = ofDigits digits := by
  simp only [markers, List.mem_cons, List.not_mem_nil, or_false] at known
  rcases known with rfl | rfl
  · rfl
  · rfl

theorem canonical_marked (known : marker ∈ markers) (digits : List Char) :
    canonical (marker ++ digits) =
      '0' :: 'x' :: Hex.orZero ((digits.map Char.toLower).dropWhile (· == '0')) := by
  simp only [markers, List.mem_cons, List.not_mem_nil, or_false] at known
  rcases known with rfl | rfl
  · rfl
  · rfl

theorem parse_unmarked (unmarked : ∀ marker ∈ markers, ¬ marker <+: text) :
    parse text = .error .missingMarker := by
  unfold parse
  split
  · next digits => exact absurd (List.prefix_append ['0', 'x'] digits) (unmarked _ (by decide))
  · next digits => exact absurd (List.prefix_append ['0', 'X'] digits) (unmarked _ (by decide))
  · rfl

theorem ofDigits_eq_ok_iff : ofDigits digits = .ok q ↔
    digits ≠ [] ∧ (∀ c ∈ digits, Hex.IsDigit c) ∧ q.toNat = Hex.number digits := by
  cases digits with
  | nil => simp [ofDigits]
  | cons c digits =>
    rw [ofDigits]
    split
    · next unread =>
      obtain ⟨d, mem, other⟩ := Hex.mapM_value?_eq_none_iff.1 unread
      constructor
      · intro read
        cases read
      · rintro ⟨-, valid, -⟩
        exact absurd (valid d mem) other
    · next values read =>
      obtain ⟨valid, rfl⟩ := Hex.mapM_value?_eq_some_iff.1 read
      have some_ : c :: digits ≠ [] := List.cons_ne_nil c digits
      rw [Hex.value_map_digitValue, Except.ok.injEq, Quantity.ext_iff, eq_comm, and_iff_right some_,
        and_iff_right valid]
    · simp

theorem ofDigits_eq_error_iff : ofDigits digits = .error e ↔
    (digits = [] ∧ e = .empty) ∨
      (digits ≠ [] ∧ (∃ c ∈ digits, ¬ Hex.IsDigit c) ∧ e = .invalidDigit) := by
  cases digits with
  | nil => simp [ofDigits, eq_comm]
  | cons c digits =>
    have some_ : c :: digits ≠ [] := List.cons_ne_nil c digits
    rw [ofDigits]
    split
    · next unread =>
      have other := Hex.mapM_value?_eq_none_iff.1 unread
      rw [Except.error.injEq, eq_comm, and_iff_right some_, and_iff_right other]
      simp
    · next values read =>
      have valid := (Hex.mapM_value?_eq_some_iff.1 read).1
      constructor
      · intro refused
        cases refused
      · rintro (⟨empty, -⟩ | ⟨-, ⟨d, mem, other⟩, -⟩)
        · exact absurd empty some_
        · exact absurd (valid d mem) other
    · simp

theorem exists_marked_or (text : List Char) :
    (∃ marker ∈ markers, ∃ digits, text = marker ++ digits) ∨
      ∀ marker ∈ markers, ¬ marker <+: text := by
  by_cases marked : ∃ marker ∈ markers, marker <+: text
  · obtain ⟨marker, known, digits, whole⟩ := marked
    exact .inl ⟨marker, known, digits, whole.symm⟩
  · exact .inr fun marker known start => marked ⟨marker, known, start⟩

theorem parse_eq_ok_iff : parse text = .ok q ↔
    ∃ marker ∈ markers, ∃ digits, text = marker ++ digits ∧ digits ≠ [] ∧
      (∀ c ∈ digits, Hex.IsDigit c) ∧ q.toNat = Hex.number digits := by
  constructor
  · intro read
    rcases exists_marked_or text with ⟨marker, known, digits, rfl⟩ | unmarked
    · rw [parse_marked known] at read
      exact ⟨marker, known, digits, rfl, ofDigits_eq_ok_iff.1 read⟩
    · rw [parse_unmarked unmarked] at read
      cases read
  · rintro ⟨marker, known, digits, rfl, valid⟩
    rw [parse_marked known]
    exact ofDigits_eq_ok_iff.2 valid

theorem parse_eq_error_iff : parse text = .error e ↔
    ((∀ marker ∈ markers, ¬ marker <+: text) ∧ e = .missingMarker) ∨
      (text ∈ markers ∧ e = .empty) ∨
      ((∃ marker ∈ markers, ∃ digits, text = marker ++ digits ∧ digits ≠ [] ∧
        ∃ c ∈ digits, ¬ Hex.IsDigit c) ∧ e = .invalidDigit) := by
  constructor
  · intro refused
    -- A text has a marker or none, and only behind one the digits are looked at.
    rcases exists_marked_or text with ⟨marker, known, digits, rfl⟩ | unmarked
    · rw [parse_marked known, ofDigits_eq_error_iff] at refused
      rcases refused with ⟨rfl, rfl⟩ | ⟨some_, other, rfl⟩
      · rw [List.append_nil]
        exact .inr (.inl ⟨known, rfl⟩)
      · exact .inr (.inr ⟨⟨marker, known, digits, rfl, some_, other⟩, rfl⟩)
    · rw [parse_unmarked unmarked] at refused
      cases refused
      exact .inl ⟨unmarked, rfl⟩
  · rintro (⟨unmarked, rfl⟩ | ⟨known, rfl⟩ | ⟨⟨marker, known, digits, rfl, some_, other⟩, rfl⟩)
    · exact parse_unmarked unmarked
    · have read := parse_marked known []
      rwa [List.append_nil] at read
    · rw [parse_marked known]
      exact ofDigits_eq_error_iff.2 (.inr ⟨some_, other, rfl⟩)

end Reading

section Writing

variable (q : Quantity)

theorem exists_hexDigits : ∃ values : List Nat,
    q.hexDigits = values.map Hex.digit ∧ values ≠ [] ∧ (∀ v ∈ values, v < 16) ∧
      Positional.value 16 values = q.toNat := by
  unfold hexDigits
  split
  · next zero => exact ⟨[0], rfl, nofun, by simp, by simp [zero, Positional.value]⟩
  · next positive =>
    have denoted : Positional.value 16 (Positional.digits 16 q.toNat) = q.toNat :=
      Positional.value_digits (by decide) _
    refine ⟨Positional.digits 16 q.toNat, rfl, fun none => positive ?_,
      fun v mem => Positional.lt_of_mem_digits (by decide) mem, denoted⟩
    rw [← denoted, none]
    rfl

theorem parse_toHex : parse q.toHex = .ok q := by
  obtain ⟨values, written, some_, small, denoted⟩ := q.exists_hexDigits
  rw [toHex, written, parse]
  cases values with
  | nil => exact absurd rfl some_
  | cons v values =>
    have read := Hex.mapM_digit fun w mem => Hex.value?_digit (small w mem)
    rw [List.map_cons] at read ⊢
    simp only [ofDigits, read, denoted]

theorem hexDigits_eq_orZero :
    q.hexDigits = Hex.orZero ((Positional.digits 16 q.toNat).map Hex.digit) := by
  unfold hexDigits
  split
  · next zero =>
    rw [zero, Positional.digits_zero]
    rfl
  · next positive =>
    refine (Hex.orZero_of_ne_nil ?_).symm
    rw [Positional.digits_of_pos (by decide) (Nat.pos_of_ne_zero positive), List.map_append]
    exact List.append_ne_nil_of_right_ne_nil _ (by simp)

theorem toLower_toHex : q.toHex.map Char.toLower = q.toHex := by
  obtain ⟨values, written, -, small, -⟩ := q.exists_hexDigits
  rw [toHex, written, List.map_cons, List.map_cons, Hex.toLower_digits small]
  rfl

theorem exists_toHex : ∃ first rest, q.toHex = '0' :: 'x' :: first :: rest ∧
    if q = 0 then first = '0' ∧ rest = [] else first ≠ '0' := by
  by_cases zero : q = 0
  · subst zero
    exact ⟨'0', [], rfl, rfl, rfl⟩
  · have positive : q.toNat ≠ 0 := fun none => zero (Quantity.ext none)
    have lead := Positional.head?_digits (b := 16) (by decide) q.toNat
    rw [toHex, hexDigits, if_neg positive]
    -- Digits that denote more than zero are there, and do not start with a zero.
    cases shape : Positional.digits 16 q.toNat with
    | nil =>
      have denoted := Positional.value_digits (b := 16) (by decide) q.toNat
      rw [shape] at denoted
      exact absurd denoted.symm positive
    | cons v values =>
      have small : v < 16 := Positional.lt_of_mem_digits (n := q.toNat) (by decide) (by simp [shape])
      have all : ∀ w : Fin 16, Hex.digit w = '0' → w.val = 0 := by decide
      refine ⟨Hex.digit v, values.map Hex.digit, rfl, ?_⟩
      rw [if_neg zero]
      intro written
      have none : v = 0 := all ⟨v, small⟩ written
      apply lead
      rw [shape, List.head?_cons, none]

end Writing

theorem toHex_of_parse {text : List Char} {q : Quantity} (read : parse text = .ok q) :
    q.toHex = canonical text := by
  obtain ⟨marker, known, digits, rfl, -, valid, denoted⟩ := parse_eq_ok_iff.1 read
  have small := Hex.digitValues_lt valid
  -- Both sides are what is left of the digits without the zeros in front, as values and as text.
  rw [canonical_marked known, ← Hex.map_digit_dropWhile valid,
    ← Positional.digits_value_eq_dropWhile (by decide) small, Hex.value_map_digitValue, ← denoted,
    ← hexDigits_eq_orZero]
  rfl

/-- A text is read exactly if it is a marker with one or more hex digits after it, as the number
that the digits denote. Otherwise the refusal names the first of the three things that is missing:
the marker, any digit, or a digit at every place. A quantity comes back from its written form, which
is lower case and has no zero in front unless it is all of zero; and a text that was read is
written as its own canonical form. -/
theorem hex_text_grammar :
    (∀ (text : List Char) (q : Quantity), parse text = .ok q ↔
      ∃ marker ∈ markers, ∃ digits, text = marker ++ digits ∧ digits ≠ [] ∧
        (∀ c ∈ digits, Hex.IsDigit c) ∧ q.toNat = Hex.number digits) ∧
    (∀ (text : List Char) (e : ParseError), parse text = .error e ↔
      ((∀ marker ∈ markers, ¬ marker <+: text) ∧ e = .missingMarker) ∨
      (text ∈ markers ∧ e = .empty) ∨
      ((∃ marker ∈ markers, ∃ digits, text = marker ++ digits ∧ digits ≠ [] ∧
        ∃ c ∈ digits, ¬ Hex.IsDigit c) ∧ e = .invalidDigit)) ∧
    (∀ q : Quantity, parse q.toHex = .ok q ∧ q.toHex.map Char.toLower = q.toHex ∧
      ∃ first rest, q.toHex = '0' :: 'x' :: first :: rest ∧
        if q = 0 then first = '0' ∧ rest = [] else first ≠ '0') ∧
    ∀ (text : List Char) (q : Quantity), parse text = .ok q → q.toHex = canonical text :=
  ⟨fun _ _ => parse_eq_ok_iff, fun _ _ => parse_eq_error_iff,
    fun q => ⟨q.parse_toHex, q.toLower_toHex, q.exists_toHex⟩, fun _ _ => toHex_of_parse⟩

/-- A text with the other marker, leading zeros and both letter cases, and one with a separator
between its digits. -/
theorem hex_text_grammar_mixed :
    let text := ['0', 'X', '0', '0', 'a', 'B', 'c']
    let separated := ['0', 'x', '1', '_', '0']
    parse text = .ok 0xabc ∧ (0xabc : Quantity).toHex = canonical text ∧
      canonical text = ['0', 'x', 'a', 'b', 'c'] ∧ parse separated = .error .invalidDigit := by
  intro text separated
  obtain ⟨accepted, refused, -, normal⟩ := hex_text_grammar
  have read : parse text = .ok 0xabc := (accepted text _).2
    ⟨['0', 'X'], by decide, ['0', '0', 'a', 'B', 'c'], rfl, nofun,
      by simp [Hex.IsDigit, Hex.digitChars], by decide⟩
  refine ⟨read, normal text _ read, by decide, (refused separated _).2 (.inr (.inr ⟨?_, rfl⟩))⟩
  exact ⟨['0', 'x'], by decide, ['1', '_', '0'], rfl, nofun, '_', by decide, by decide⟩

end Quantity

end TxEnvelope
