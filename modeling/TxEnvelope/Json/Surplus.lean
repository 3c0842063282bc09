import TxEnvelope.Json.Composite

/-! The end of an array whose number of items is known.

Behind the last item the closing bracket may follow at once, or a comma and the
bracket, or a comma, one surplus item that cannot be read, and the bracket.
Such an item is passed over as far as an attempt to read a number gets into it,
and the bracket has to stand where the attempt was given up, be it in the
middle of a word. The attempt goes byte by byte; where it is given up between
the bytes of one character no bracket can follow.
-/

set_option autoImplicit false

namespace TxEnvelope.Json.Surplus

/-- The text behind its first `count` bytes, unless they end inside a character or it is shorter. -/
def dropBytes : Nat → List Char → Option (List Char)
  | 0, text => some text
  | _ + 1, [] => none
  | count + 1, c :: text =>
    if c.utf8Size ≤ count + 1 then dropBytes (count + 1 - c.utf8Size) text else none

/-- Passes over a word. The byte that departs from it is the last one looked at. -/
def passWord : List Char → List Char → Option (List Char)
  | [], text => some text
  | letter :: word, text =>
    if text.head? = some letter then passWord word text.tail else dropBytes 1 text

/-- Passes over the four bytes behind an escape's `u`, with the unit that they spell, if any. -/
def passUnit (text : List Char) : Option (Option Nat × List Char) :=
  let unit :=
    match text with
    | a :: b :: c :: d :: _ => unit? a b c d
    | _ => none
  (dropBytes 4 text).map (unit, ·)

/-- Passes over an escape behind its `u`, and tells whether it stands for a character. -/
def passUnicode (text : List Char) : Option (Bool × List Char) :=
  match passUnit text with
  | none => none
  | some (none, rest) => some (false, rest)
  | some (some n, rest) =>
    if isLowSurrogate n then some (false, rest)
    else if isHighSurrogate n then
      -- The low half has to be spelled by an escape that follows at once.
      match rest with
      | '\\' :: 'u' :: rest => (passUnit rest).map fun (low, rest) => (low.any isLowSurrogate, rest)
      | '\\' :: rest => (dropBytes 1 rest).map (false, ·)
      | rest => (dropBytes 1 rest).map (false, ·)
    else some (true, rest)

def passEscape : List Char → Option (Bool × List Char)
  | [] => none
  | e :: rest =>
    if e = 'u' then passUnicode rest
    else if (escape? e).isSome then some (true, rest)
    else (dropBytes 1 (e :: rest)).map (false, ·)

theorem length_of_dropBytes {count : Nat} {text rest : List Char}
    (h : dropBytes count text = some rest) : rest.length ≤ text.length := by
  fun_induction dropBytes count text with
  | case1 text => exact Nat.le_of_eq (congrArg List.length (Option.some.inj h).symm)
  | case2 | case4 => simp at h
  | case3 count c text fits ih => exact Nat.le_succ_of_le (ih h)

theorem length_of_passWord {word text rest : List Char} (h : passWord word text = some rest) :
    rest.length ≤ text.length := by
  fun_induction passWord word text with
  | case1 text => exact Nat.le_of_eq (congrArg List.length (Option.some.inj h).symm)
  | case2 letter word text same ih =>
    have less := ih h
    rw [List.length_tail] at less
    omega
  | case3 letter word text differs => exact length_of_dropBytes h

theorem length_of_passUnit {text rest : List Char} {unit : Option Nat}
    (h : passUnit text = some (unit, rest)) : rest.length ≤ text.length := by
  simp only [passUnit, Option.map_eq_some_iff, Prod.mk.injEq] at h
  obtain ⟨left, dropped, -, rfl⟩ := h
  exact length_of_dropBytes dropped

theorem length_of_passUnicode {text rest : List Char} {whole : Bool}
    (h : passUnicode text = some (whole, rest)) : rest.length ≤ text.length := by
  unfold passUnicode at h
  split at h
  · simp at h
  · next left passed =>
    simp only [Option.some.injEq, Prod.mk.injEq] at h
    exact h.2 ▸ length_of_passUnit passed
  · next n left passed =>
    have first := length_of_passUnit passed
    split at h
    · simp only [Option.some.injEq, Prod.mk.injEq] at h
      exact h.2 ▸ first
    · split at h
      · split at h
        · next behind =>
          simp only [Option.map_eq_some_iff, Prod.mk.injEq, Prod.exists] at h
          obtain ⟨low, last, second, -, rfl⟩ := h
          have := length_of_passUnit second
          simp only [List.length_cons] at first
          omega
        · next behind _ =>
          simp only [Option.map_eq_some_iff, Prod.mk.injEq] at h
          obtain ⟨last, dropped, -, rfl⟩ := h
          have := length_of_dropBytes dropped
          simp only [List.length_cons] at first
          omega
        · simp only [Option.map_eq_some_iff, Prod.mk.injEq] at h
          obtain ⟨last, dropped, -, rfl⟩ := h
          exact Nat.le_trans (length_of_dropBytes dropped) first
      · simp only [Option.some.injEq, Prod.mk.injEq] at h
        exact h.2 ▸ first

theorem length_of_passEscape {text rest : List Char} {whole : Bool}
    (h : passEscape text = some (whole, rest)) : rest.length ≤ text.length := by
  unfold passEscape at h
  split at h
  · simp at h
  · next e left =>
    split at h
    · exact Nat.le_succ_of_le (length_of_passUnicode h)
    · split at h
      · simp only [Option.some.injEq, Prod.mk.injEq] at h
        exact h.2 ▸ Nat.le_succ _
      · simp only [Option.map_eq_some_iff, Prod.mk.injEq] at h
        obtain ⟨last, dropped, -, rfl⟩ := h
        exact length_of_dropBytes dropped

/-- Passes over a string literal behind its opening quote. A control character or an escape that
stands for no character is the last thing looked at. -/
def passString (text : List Char) : Option (List Char) :=
  match text with
  | [] => none
  | c :: rest =>
    if c = '\x22' then some rest
    else if c = '\\' then
      match _escape : passEscape rest with
      | none => none
      | some (false, rest) => some rest
      | some (true, rest) => passString rest
    else if c.toNat < 0x20 then some rest
    else passString rest
termination_by text.length
decreasing_by
  · exact Nat.lt_succ_of_le (length_of_passEscape _escape)
  · exact Nat.lt_succ_self _

theorem length_of_passString {text rest : List Char} (h : passString text = some rest) :
    rest.length ≤ text.length := by
  fun_induction passString text with
  | case1 | case3 => simp at h
  | case2 | case6 => exact Option.some.inj h ▸ Nat.le_succ _
  | case4 tail left escape _ =>
    exact Nat.le_succ_of_le (Option.some.inj h ▸ length_of_passEscape escape)
  | case5 tail left escape _ ih =>
    exact Nat.le_succ_of_le (Nat.le_trans (ih h) (length_of_passEscape escape))
  | case7 c tail _ _ _ ih => exact Nat.le_succ_of_le (ih h)

/-- Passes over the further digits of an exponent. A bounded one ends with the digit that takes it
out of 31 bits. -/
def passExponentDigits (bounded : Bool) (exponent : Nat) : List Char → List Char
  | [] => []
  | c :: rest =>
    if c.isDigit then
      let exponent := exponent * 10 + (c.toNat - 48)
      if bounded && 0x80000000 ≤ exponent then rest else passExponentDigits bounded exponent rest
    else c :: rest

def exponentSign : List Char → Bool × List Char
  | '-' :: rest => (true, rest)
  | '+' :: rest => (false, rest)
  | rest => (false, rest)

/-- Passes over an exponent behind its `e`. It is bounded where it makes a number too large, so
not for zero and not if it is negative. -/
def passExponent (isZero : Bool) (text : List Char) : Option (List Char) :=
  let (negative, digits) := exponentSign text
  match digits with
  | [] => none
  | c :: rest =>
    if c.isDigit then some (passExponentDigits (!isZero && !negative) (c.toNat - 48) rest)
    else dropBytes 1 (c :: rest)

def passScale (isZero : Bool) : List Char → Option (List Char)
  | [] => some []
  | c :: rest => if c = 'e' ∨ c = 'E' then passExponent isZero rest else some (c :: rest)

def passNumber (text : List Char) : Option (List Char) :=
  let whole := wholeDigits text
  if whole = [] then dropBytes 1 text
  else
    match text.drop whole.length with
    | '.' :: rest =>
      let fraction := rest.takeWhile Char.isDigit
      if fraction = [] then some rest
      else passScale ((whole ++ fraction).all (· == '0')) (rest.drop fraction.length)
    | rest => passScale (whole.all (· == '0')) rest

/-- Passes over what an attempt to read a number looks at. Neither a bracket nor a brace nor
anything that starts no value is looked at. -/
def pass : List Char → Option (List Char)
  | [] => none
  | c :: rest =>
    match c with
    | '\x22' => passString rest
    | 'n' => passWord ['u', 'l', 'l'] rest
    | 't' => passWord ['r', 'u', 'e'] rest
    | 'f' => passWord ['a', 'l', 's', 'e'] rest
    | '-' => passNumber rest
    | c => if c.isDigit then passNumber (c :: rest) else some (c :: rest)

theorem length_of_passExponentDigits (bounded : Bool) (exponent : Nat) (text : List Char) :
    (passExponentDigits bounded exponent text).length ≤ text.length := by
  fun_induction passExponentDigits bounded exponent text with
  | case1 | case4 => exact Nat.le_refl _
  | case2 => exact Nat.le_succ _
  | case3 _ c rest _ _ _ ih => exact Nat.le_succ_of_le ih

theorem length_of_exponentSign (text : List Char) :
    (exponentSign text).2.length ≤ text.length := by
  unfold exponentSign
  split <;> simp

theorem length_of_passExponent {isZero : Bool} {text rest : List Char}
    (h : passExponent isZero text = some rest) : rest.length ≤ text.length := by
  have sign := length_of_exponentSign text
  unfold passExponent at h
  dsimp only at h
  split at h
  · simp at h
  · next c tail found =>
    rw [found] at sign
    split at h
    · have digits := length_of_passExponentDigits (!isZero && !(exponentSign text).1)
        (c.toNat - 48) tail
      rw [Option.some.inj h] at digits
      rw [List.length_cons] at sign
      omega
    · exact Nat.le_trans (length_of_dropBytes h) sign

theorem length_of_passScale {isZero : Bool} {text rest : List Char}
    (h : passScale isZero text = some rest) : rest.length ≤ text.length := by
  unfold passScale at h
  split at h
  · exact Option.some.inj h ▸ Nat.le_refl _
  · split at h
    · exact Nat.le_succ_of_le (length_of_passExponent h)
    · exact Option.some.inj h ▸ Nat.le_refl _

theorem length_of_passNumber {text rest : List Char} (h : passNumber text = some rest) :
    rest.length ≤ text.length := by
  unfold passNumber at h
  dsimp only at h
  have dropped := (List.drop_sublist (wholeDigits text).length text).length_le
  split at h
  · exact length_of_dropBytes h
  · split at h
    · next tail point =>
      rw [point, List.length_cons] at dropped
      split at h
      · rw [← Option.some.inj h]
        omega
      · have scale := length_of_passScale h
        rw [List.length_drop] at scale
        omega
    · exact Nat.le_trans (length_of_passScale h) dropped

theorem length_of_pass {text rest : List Char} (h : pass text = some rest) :
    rest.length ≤ text.length := by
  unfold pass at h
  split at h
  · simp at h
  · split at h
    · exact Nat.le_succ_of_le (length_of_passString h)
    · exact Nat.le_succ_of_le (length_of_passWord h)
    · exact Nat.le_succ_of_le (length_of_passWord h)
    · exact Nat.le_succ_of_le (length_of_passWord h)
    · exact Nat.le_succ_of_le (length_of_passNumber h)
    · split at h
      · exact length_of_passNumber h
      · exact Option.some.inj h ▸ Nat.le_refl _

end Surplus

def closeArray (text : List Char) : Option (List Char) :=
  match next text with
  | some (.closeArray, rest) => some rest
  | _ => none

def endArray {α : Type} (item : ValueReader α) (input : List Char) : Option (List Char) :=
  match next input with
  | some (.comma, mid) =>
    match item.read mid with
    | .ok _ => none
    | .error _ => (Surplus.pass (skipBlanks mid)).bind closeArray
  | _ => closeArray input

theorem length_of_closeArray {text rest : List Char} (h : closeArray text = some rest) :
    rest.length < text.length := by
  unfold closeArray at h
  split at h
  · next left closed => exact Option.some.inj h ▸ length_of_next closed
  · simp at h

theorem length_of_endArray {α : Type} {item : ValueReader α} {input rest : List Char}
    (h : endArray item input = some rest) : rest.length < input.length := by
  unfold endArray at h
  split at h
  · next mid comma =>
    split at h
    · simp at h
    · obtain ⟨left, passed, closed⟩ := Option.bind_eq_some_iff.1 h
      have blanks := (List.dropWhile_sublist (l := mid) isBlank).length_le
      have first := length_of_next comma
      have second := Surplus.length_of_pass passed
      have third := length_of_closeArray closed
      unfold skipBlanks at second
      omega
  · exact length_of_closeArray h

end TxEnvelope.Json
