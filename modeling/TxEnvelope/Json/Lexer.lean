import TxEnvelope.Hex
import TxEnvelope.Json.Token

/-! The tokens of a JSON text, taken off its front one by one.

Blanks are space, tab, line feed and carriage return. Nothing behind a token is
looked at before it is asked for, so whoever reads a text in order meets its
first error first.
-/

set_option autoImplicit false

namespace TxEnvelope.Json

def isBlank (c : Char) : Bool :=
  c == ' ' || c == '\t' || c == '\n' || c == '\r'

/-- One element of a string literal: a character, or a UTF-16 unit spelled in hex. -/
inductive Piece where
  | char (c : Char)
  | unit (n : Nat)
  deriving DecidableEq, Repr

def escape? : Char → Option Char
  | '\x22' => some '\x22'
  | '\\' => some '\\'
  | '/' => some '/'
  | 'b' => some '\x08'
  | 'f' => some '\x0c'
  | 'n' => some '\n'
  | 'r' => some '\r'
  | 't' => some '\t'
  | _ => none

def unit? (a b c d : Char) : Option Nat :=
  ([a, b, c, d].mapM Hex.value?).map (Positional.value 16)

/-- The pieces of a string literal up to its closing quote, and what follows that. -/
def pieces : List Char → Option (List Piece × List Char)
  | [] => none
  | c :: rest =>
    if c = '\x22' then some ([], rest)
    else if c = '\\' then
      match rest with
      | [] => none
      | 'u' :: a :: b :: c :: d :: rest =>
        match unit? a b c d with
        | none => none
        | some n => (pieces rest).map fun (found, rest) => (.unit n :: found, rest)
      | e :: rest =>
        match escape? e with
        | none => none
        | some c => (pieces rest).map fun (found, rest) => (.char c :: found, rest)
    -- A control character may only be spelled by an escape.
    else if c.toNat < 0x20 then none
    else (pieces rest).map fun (found, rest) => (.char c :: found, rest)

def isHighSurrogate (n : Nat) : Bool :=
  0xd800 ≤ n && n < 0xdc00

def isLowSurrogate (n : Nat) : Bool :=
  0xdc00 ≤ n && n < 0xe000

/-- The text that pieces denote, if every surrogate among them is one of a pair. -/
def textOf? : List Piece → Option (List Char)
  | [] => some []
  | .char c :: rest => (textOf? rest).map (c :: ·)
  | .unit hi :: .unit lo :: rest =>
    -- A high half counts only with its low half right behind it. A unit that is no half is
    -- read alone, and the next one may then begin a pair.
    if isHighSurrogate hi then
      if isLowSurrogate lo then
        (textOf? rest).map (Char.ofNat (0x10000 + (hi - 0xd800) * 0x400 + (lo - 0xdc00)) :: ·)
      else none
    else if isLowSurrogate hi then none
    else (textOf? (.unit lo :: rest)).map (Char.ofNat hi :: ·)
  | .unit n :: rest =>
    if isHighSurrogate n || isLowSurrogate n then none
    else (textOf? rest).map (Char.ofNat n :: ·)

def scanText (input : List Char) : Option (Token × List Char) :=
  match pieces input with
  | none => none
  | some (found, rest) =>
    match textOf? found with
    | none => some (.brokenText, rest)
    | some content => some (.text content, rest)

def passDigits (input : List Char) : Option (List Char) :=
  match input with
  | c :: rest => if c.isDigit then some (rest.dropWhile Char.isDigit) else none
  | [] => none

/-- Passes over a fraction, if there is one, and tells whether there was. -/
def passFraction : List Char → Option (Bool × List Char)
  | '.' :: rest => (passDigits rest).map (true, ·)
  | rest => some (false, rest)

def passExponent : List Char → Option (Bool × List Char)
  | c :: rest =>
    if c = 'e' ∨ c = 'E' then
      match rest with
      | '+' :: digits | '-' :: digits => (passDigits digits).map (true, ·)
      | digits => (passDigits digits).map (true, ·)
    else some (false, c :: rest)
  | [] => some (false, [])

/-- The digits in front of a number's fraction; a zero stands alone. -/
def wholeDigits : List Char → List Char
  | '0' :: _ => ['0']
  | input => input.takeWhile Char.isDigit

def decimalValue (digits : List Char) : Nat :=
  Positional.value 10 (digits.map fun c => c.toNat - 48)

def scanNumber (signed : Bool) (input : List Char) : Option (Token × List Char) :=
  let whole := wholeDigits input
  if whole = [] then none
  else
    match passFraction (input.drop whole.length) with
    | none => none
    | some (fraction, rest) =>
      match passExponent rest with
      | none => none
      | some (exponent, rest) =>
        -- The value of a signed, broken or scaled number is never needed, only its end.
        if signed || fraction || exponent then some (.otherNumber, rest)
        else some (.natural (decimalValue whole), rest)

def scan (c : Char) (rest : List Char) : Option (Token × List Char) :=
  match c with
  | '\x7b' => some (.openObject, rest)
  | '\x7d' => some (.closeObject, rest)
  | '[' => some (.openArray, rest)
  | ']' => some (.closeArray, rest)
  | ':' => some (.colon, rest)
  | ',' => some (.comma, rest)
  | '\x22' => scanText rest
  | '-' => scanNumber true rest
  | 't' =>
    match rest with
    | 'r' :: 'u' :: 'e' :: rest => some (.bool true, rest)
    | _ => none
  | 'f' =>
    match rest with
    | 'a' :: 'l' :: 's' :: 'e' :: rest => some (.bool false, rest)
    | _ => none
  | 'n' =>
    match rest with
    | 'u' :: 'l' :: 'l' :: rest => some (.null, rest)
    | _ => none
  | c => scanNumber false (c :: rest)

theorem length_of_pieces {input rest : List Char} {found : List Piece}
    (h : pieces input = some (found, rest)) : rest.length < input.length := by
  fun_induction pieces input generalizing found rest <;>
    simp_all only [Option.map_eq_some_iff, Option.some.injEq, Prod.mk.injEq, reduceCtorEq,
      List.length_cons, Prod.exists] <;> grind

theorem length_of_scanText {input rest : List Char} {token : Token}
    (h : scanText input = some (token, rest)) : rest.length < input.length := by
  unfold scanText at h
  split at h
  · simp at h
  · next found left cut =>
    have less := length_of_pieces cut
    split at h <;> simp only [Option.some.injEq, Prod.mk.injEq] at h <;> rwa [← h.2]

theorem length_of_passDigits {input rest : List Char} (h : passDigits input = some rest) :
    rest.length ≤ input.length := by
  unfold passDigits at h
  split at h
  · next c tail =>
    split at h
    · have := (List.dropWhile_sublist (l := tail) Char.isDigit).length_le
      rw [← Option.some.inj h, List.length_cons]
      omega
    · simp at h
  · simp at h

theorem length_of_passFraction {input rest : List Char} {found : Bool}
    (h : passFraction input = some (found, rest)) : rest.length ≤ input.length := by
  unfold passFraction at h
  split at h
  · simp only [Option.map_eq_some_iff, Prod.mk.injEq] at h
    obtain ⟨left, digits, -, rfl⟩ := h
    have := length_of_passDigits digits
    simp only [List.length_cons]
    omega
  · simp only [Option.some.injEq, Prod.mk.injEq] at h
    exact Nat.le_of_eq (congrArg List.length h.2.symm)

theorem length_of_passExponent {input rest : List Char} {found : Bool}
    (h : passExponent input = some (found, rest)) : rest.length ≤ input.length := by
  unfold passExponent at h
  split at h
  · split at h
    · split at h <;> simp only [Option.map_eq_some_iff, Prod.mk.injEq] at h <;>
        obtain ⟨left, digits, -, rfl⟩ := h <;> have := length_of_passDigits digits <;>
        simp only [List.length_cons] <;> omega
    · simp only [Option.some.injEq, Prod.mk.injEq] at h
      exact Nat.le_of_eq (congrArg List.length h.2.symm)
  · simp only [Option.some.injEq, Prod.mk.injEq] at h
    simp [← h.2]

theorem length_of_scanNumber {signed : Bool} {input rest : List Char} {token : Token}
    (h : scanNumber signed input = some (token, rest)) : rest.length < input.length := by
  unfold scanNumber at h
  dsimp only at h
  split at h
  · simp at h
  · next some_digits =>
    have start : 0 < (wholeDigits input).length := List.length_pos_iff.2 some_digits
    have within : (wholeDigits input).length ≤ input.length := by
      unfold wholeDigits
      split
      · simp
      · exact (List.takeWhile_sublist _).length_le
    split at h
    · simp at h
    · next fraction =>
      have first := length_of_passFraction fraction
      rw [List.length_drop] at first
      split at h
      · simp at h
      · next exponent =>
        have second := length_of_passExponent exponent
        split at h <;> simp only [Option.some.injEq, Prod.mk.injEq] at h <;> rw [← h.2] <;> omega

theorem length_of_scan {c : Char} {input rest : List Char} {token : Token}
    (h : scan c input = some (token, rest)) : rest.length < (c :: input).length := by
  unfold scan at h
  split at h
  all_goals first
    | exact length_of_scanNumber h
    | exact Nat.lt_succ_of_lt (length_of_scanText h)
    | exact Nat.lt_succ_of_lt (length_of_scanNumber h)
    | (simp only [Option.some.injEq, Prod.mk.injEq] at h; rw [← h.2]; simp)
    | (split at h
       · simp only [Option.some.injEq, Prod.mk.injEq] at h
         rw [← h.2]
         simp only [List.length_cons]
         omega
       · simp at h)

def skipBlanks (input : List Char) : List Char :=
  input.dropWhile isBlank

def next (input : List Char) : Option (Token × List Char) :=
  match skipBlanks input with
  | [] => none
  | c :: rest => scan c rest

theorem length_of_next {input rest : List Char} {token : Token}
    (h : next input = some (token, rest)) : rest.length < input.length := by
  have blanks := (List.dropWhile_sublist (l := input) isBlank).length_le
  unfold next skipBlanks at h
  split at h
  · simp at h
  · next c tail found =>
    have scanned := length_of_scan h
    rw [found] at blanks
    omega

end TxEnvelope.Json
