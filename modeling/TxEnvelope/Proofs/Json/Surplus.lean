import TxEnvelope.Json.Surplus
import TxEnvelope.Proofs.Hex
import TxEnvelope.Proofs.Json.Taking

/-! Where the end of an array is looked for behind an item in excess.

The attempt to read a number gets through any item that stands for itself and
denotes something, or stops at a digit, where no bracket can follow. So the end
that is found is that of the array, unless the item is a string that denotes no
text.
-/

set_option autoImplicit false

namespace TxEnvelope.Json

namespace Surplus

section Strings

variable {input mid rest : List Char}

theorem dropBytes_succ {c : Char} (single : c.utf8Size = 1) (count : Nat) (rest : List Char) :
    dropBytes (count + 1) (c :: rest) = dropBytes count rest := by
  rw [dropBytes, single, if_pos (Nat.le_add_left 1 count), Nat.add_sub_cancel]

theorem passString_escape (passed : passEscape input = some (true, rest)) :
    passString ('\\' :: input) = passString rest := by
  rw [passString.eq_def]
  simp only [Char.reduceEq, if_false, if_true]
  split <;> simp_all

theorem passUnit_hex {a b c d : Char} {n : Nat} (hex : unit? a b c d = some n)
    (rest : List Char) : passUnit (a :: b :: c :: d :: rest) = some (some n, rest) := by
  have single : ∀ digit ∈ [a, b, c, d], digit.utf8Size = 1 := by
    obtain ⟨values, digits, -⟩ := Option.map_eq_some_iff.1 hex
    intro digit mem
    obtain ⟨v, value⟩ := Option.isSome_iff_exists.1
      (isSome_mapM_iff.1 (Option.isSome_iff_exists.2 ⟨values, digits⟩) digit mem)
    exact Hex.utf8Size_of_value? value
  simp only [List.forall_mem_cons] at single
  obtain ⟨first, second, third, fourth, -⟩ := single
  rw [passUnit, dropBytes_succ first, dropBytes_succ second, dropBytes_succ third,
    dropBytes_succ fourth, dropBytes]
  simp only [hex, Option.map_some]

theorem passString_char {c : Char} (spelled : (Piece.char c).Spelled input mid) :
    passString input = passString mid := by
  cases spelled with
  | plain quote slash printable =>
    rw [passString.eq_def]
    simp only [if_neg quote, if_neg slash, if_neg printable]
  | @escape e _ _ short =>
    have other : e ≠ 'u' := by
      rintro rfl
      cases short
    apply passString_escape
    simp only [passEscape, if_neg other, short, Option.isSome_some, if_true]

theorem passString_unit {n : Nat} (spelled : (Piece.unit n).Spelled input mid)
    (high : isHighSurrogate n = false) (low : isLowSurrogate n = false) :
    passString input = passString mid := by
  cases spelled with
  | unit hex =>
    apply passString_escape
    simp [passEscape, passUnicode, passUnit_hex hex, high, low]

theorem passString_pair {hi lo : Nat} (first : (Piece.unit hi).Spelled input mid)
    (second : (Piece.unit lo).Spelled mid rest) (high : isHighSurrogate hi = true)
    (low : isLowSurrogate lo = true) : passString input = passString rest := by
  have half : isLowSurrogate hi = false := by
    simp only [isHighSurrogate, isLowSurrogate, Bool.and_eq_true, decide_eq_true_eq,
      Bool.and_eq_false_iff, decide_eq_false_iff_not] at high ⊢
    omega
  cases first with
  | unit hex =>
    cases second with
    | unit hex' =>
      apply passString_escape
      simp [passEscape, passUnicode, passUnit_hex hex, passUnit_hex hex', high, low, half]

/-- A string that denotes a text is passed over to its closing quote. -/
theorem passString_spelled {found : List Piece} {content : List Char}
    (spelled : PiecesSpelled found input rest) (denoted : textOf? found = some content) :
    passString input = some rest := by
  -- Surrogates are the cases: a pair is one character, and half of one denotes no text.
  fun_induction textOf? found generalizing input content with
  | case1 =>
    cases spelled with
    | close => rw [passString.eq_def]; rfl
  | case2 c found ih =>
    obtain ⟨content', denoted', rfl⟩ := Option.map_eq_some_iff.1 denoted
    cases spelled with
    | piece first others =>
      rw [passString_char first, ih others denoted']
  | case3 hi lo found high low ih =>
    obtain ⟨content', denoted', rfl⟩ := Option.map_eq_some_iff.1 denoted
    cases spelled with
    | piece first others =>
      cases others with
      | piece second others => rw [passString_pair first second high low, ih others denoted']
  | case4 | case5 | case7 => cases denoted
  | case6 n lo found high low ih =>
    obtain ⟨content', denoted', rfl⟩ := Option.map_eq_some_iff.1 denoted
    cases spelled with
    | piece first others =>
      rw [passString_unit first (Bool.eq_false_iff.2 high) (Bool.eq_false_iff.2 low),
        ih others denoted']
  | case8 n found _ half ih =>
    obtain ⟨content', denoted', rfl⟩ := Option.map_eq_some_iff.1 denoted
    rw [Bool.or_eq_true, not_or] at half
    cases spelled with
    | piece first others =>
      rw [passString_unit first (Bool.eq_false_iff.2 half.1) (Bool.eq_false_iff.2 half.2),
        ih others denoted']

end Strings

section Numbers

variable {whole fraction exponent rest : List Char}

theorem passExponentDigits_append (bounded : Bool) (power : Nat) {digits : List Char}
    (spelled : ∀ c ∈ digits, c.isDigit = true) (last : NoDigit rest) :
    ∃ left, (∀ c ∈ left, c.isDigit = true) ∧
      passExponentDigits bounded power (digits ++ rest) = left ++ rest := by
  -- The power so far changes with every digit, and may end the run before the digits do.
  induction digits generalizing power with
  | nil =>
    refine ⟨[], nofun, ?_⟩
    cases rest with
    | nil => rfl
    | cons c rest => simp [passExponentDigits, last c rfl]
  | cons c digits ih =>
    rw [List.forall_mem_cons] at spelled
    simp only [List.cons_append, passExponentDigits, spelled.1, if_true]
    split
    · exact ⟨digits, spelled.2, rfl⟩
    · exact ih _ spelled.2

theorem passScale_append (isZero : Bool) (power : Exponent exponent) (ends : NumberEnds rest) :
    ∃ left, (∀ c ∈ left, c.isDigit = true) ∧
      passScale isZero (exponent ++ rest) = some (left ++ rest) := by
  cases power with
  | absent =>
    refine ⟨[], nofun, ?_⟩
    cases rest with
    | nil => rfl
    | cons c rest =>
      have first := ends c rfl
      simp [passScale, first]
  | @present e sign digits marker signed spelled =>
    obtain ⟨c, digits, rfl⟩ := List.exists_cons_of_ne_nil spelled.1
    have digit := spelled.2 c List.mem_cons_self
    have others : ∀ d ∈ digits, d.isDigit = true := fun d mem => spelled.2 d (.tail c mem)
    have unsigned : exponentSign (c :: (digits ++ rest)) = (false, c :: (digits ++ rest)) := by
      unfold exponentSign
      split
      · next found =>
        rw [(List.cons.inj found).1] at digit
        cases digit
      · next found =>
        rw [(List.cons.inj found).1] at digit
        cases digit
      · rfl
    simp only [List.cons_append, List.append_assoc, passScale, if_pos marker]
    have run (bounded : Bool) :=
      passExponentDigits_append bounded (c.toNat - 48) others ends.noDigit
    rcases signed with rfl | rfl | rfl
    · obtain ⟨left, digits', passed⟩ := run (!isZero && !false)
      exact ⟨left, digits', by simp [passExponent, unsigned, digit, ← passed]⟩
    · obtain ⟨left, digits', passed⟩ := run (!isZero && !false)
      exact ⟨left, digits', by simp [passExponent, exponentSign, digit, ← passed]⟩
    · obtain ⟨left, digits', passed⟩ := run (!isZero && !true)
      exact ⟨left, digits', by simp [passExponent, exponentSign, digit, ← passed]⟩

theorem passNumber_append (spelled : Whole whole) (broken : Fraction fraction)
    (power : Exponent exponent) (ends : NumberEnds rest) :
    ∃ left, (∀ c ∈ left, c.isDigit = true) ∧
      passNumber (whole ++ (fraction ++ (exponent ++ rest))) = some (left ++ rest) := by
  have marked := power.marked ends
  simp only [passNumber, wholeDigits_append spelled (broken.noDigit power ends),
    if_neg spelled.ne_nil, List.drop_left]
  cases broken with
  | absent =>
    rw [List.nil_append]
    split
    · next point => exact absurd rfl (marked '.' (by rw [point]; rfl)).2
    · exact passScale_append _ power ends
  | @present digits spelled' =>
    have taken := takeWhile_digits spelled' fun c first => (marked c first).1
    rw [List.cons_append]
    simp only [taken, if_neg spelled'.1, List.drop_left]
    exact passScale_append _ power ends

theorem pass_whole (spelled : Whole whole) (rest : List Char) :
    pass (whole ++ rest) = passNumber (whole ++ rest) := by
  obtain ⟨c, digits, rfl, digit⟩ := spelled.exists_digit
  unfold pass
  simp only [List.cons_append]
  split <;> first | cases digit | rw [if_pos digit]

end Numbers

/-- Behind an item that stands for itself and denotes something, digits are left at most. -/
theorem pass_spelled {token : Token} (isScalar : token.IsScalar) (whole : token ≠ .brokenText)
    {input rest : List Char} (spelled : token.Spelled input rest) :
    ∃ left, (∀ c ∈ left, c.isDigit = true) ∧ pass input = some (left ++ rest) := by
  cases spelled with
  | text spelled denoted => exact ⟨[], nofun, passString_spelled spelled denoted⟩
  | yes | no | null => exact ⟨[], nofun, rfl⟩
  | brokenText => exact absurd rfl whole
  | number numeral ends =>
    cases numeral with
    | natural spelled =>
      obtain ⟨left, digits, passed⟩ := passNumber_append spelled .absent .absent ends
      refine ⟨left, digits, ?_⟩
      rw [pass_whole spelled]
      exact passed
    | scaled spelled broken power scaled =>
      obtain ⟨left, digits, passed⟩ := passNumber_append spelled broken power ends
      refine ⟨left, digits, ?_⟩
      rw [List.append_assoc, List.append_assoc, pass_whole spelled, passed]
    | negative spelled broken power =>
      obtain ⟨left, digits, passed⟩ := passNumber_append spelled broken power ends
      refine ⟨left, digits, ?_⟩
      rw [List.cons_append, List.append_assoc, List.append_assoc]
      exact passed
  | openObject | closeObject | openArray | closeArray | colon | comma => cases isScalar

end Surplus

theorem scanNumber_ne_closeArray (signed : Bool) (input rest : List Char) :
    scanNumber signed input ≠ some (.closeArray, rest) := by
  intro scanned
  rcases number_of_scanNumber scanned with ⟨n, same⟩ | same <;> cases same

theorem closeArray_digit {c : Char} (digit : c.isDigit = true) (rest : List Char) :
    closeArray (c :: rest) = none := by
  rw [closeArray, next_cons (isBlank_of_isDigit digit), scan_digit digit]
  split
  · next left closed => exact absurd closed (scanNumber_ne_closeArray _ _ _)
  · rfl

theorem ItemsSpelled.closeArray_eq {items : List Tree} {input left rest : List Char}
    (spelled : ItemsSpelled items input rest) (closed : closeArray input = some left) :
    left = rest := by
  cases spelled with
  | close bracket =>
    rw [closeArray, bracket.next_eq] at closed
    exact (Option.some.inj closed).symm
  | item comma first others =>
    rw [closeArray, comma.next_eq] at closed
    cases closed

/-- The end of an array is found behind its items, unless the one that is passed over is a string
that denotes no text. -/
theorem ItemsSpelled.endArray_eq {α : Type} {item : ValueReader α} {items : List Tree}
    {input left rest : List Char} (spelled : ItemsSpelled items input rest)
    (whole : items.head? ≠ some (.scalar .brokenText)) (ended : endArray item input = some left) :
    left = rest := by
  cases spelled with
  | close bracket =>
    rw [endArray, bracket.next_eq] at ended
    exact (ItemsSpelled.close bracket).closeArray_eq ended
  | item comma first others =>
    rw [endArray, comma.next_eq] at ended
    dsimp only at ended
    split at ended
    · cases ended
    · obtain ⟨behind, passed, closed⟩ := Option.bind_eq_some_iff.1 ended
      cases first with
      | @scalar token _ _ isScalar lexeme =>
        cases lexeme with
        | mk blank spelled =>
          have denotes : token ≠ .brokenText := fun broken => whole (by rw [broken]; rfl)
          obtain ⟨digits, isDigit, stopped⟩ := Surplus.pass_spelled isScalar denotes spelled
          rw [skipBlanks_append blank, spelled.skipBlanks_eq, stopped] at passed
          cases passed
          cases digits with
          | nil => exact others.closeArray_eq closed
          | cons c digits =>
            rw [List.cons_append, closeArray_digit (isDigit c List.mem_cons_self)] at closed
            cases closed
      | emptyArray opened | array opened =>
        cases opened with
        | mk blank spelled =>
          cases spelled with
          | openArray =>
            -- A bracket is not passed over, and neither is a brace.
            rw [skipBlanks_append blank] at passed
            cases passed
            cases closed
          | number numeral => cases numeral
      | emptyObject opened | object opened =>
        cases opened with
        | mk blank spelled =>
          cases spelled with
          | openObject =>
            rw [skipBlanks_append blank] at passed
            cases passed
            cases closed
          | number numeral => cases numeral

end TxEnvelope.Json
