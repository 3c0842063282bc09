import TxEnvelope.Json.Document
import TxEnvelope.Json.Lexer
import TxEnvelope.Proofs.BigEndian

/-! What the lexer makes of written text.

Blanks in front of a token do not count. A written string is one token, and its
content is what was written, be it spelled by itself, by a short escape or by
its number.
-/

set_option autoImplicit false

namespace TxEnvelope.Json

def Blank (text : List Char) : Prop :=
  ∀ c ∈ text, isBlank c = true

theorem blank_nil : Blank [] :=
  nofun

theorem skipBlanks_append {blanks : List Char} (blank : Blank blanks) (text : List Char) :
    skipBlanks (blanks ++ text) = skipBlanks text :=
  List.dropWhile_append_of_pos blank

theorem skipBlanks_eq_nil {blanks : List Char} (blank : Blank blanks) : skipBlanks blanks = [] := by
  rw [← List.append_nil blanks, skipBlanks_append blank]
  rfl

theorem next_append {blanks : List Char} (blank : Blank blanks) (text : List Char) :
    next (blanks ++ text) = next text := by
  rw [next, next, skipBlanks_append blank]

theorem next_cons {c : Char} (solid : isBlank c = false) (rest : List Char) :
    next (c :: rest) = scan c rest := by
  rw [next, skipBlanks, List.dropWhile_cons_of_neg (by simp [solid])]

@[simp] theorem next_openObject (rest : List Char) :
    next ('\x7b' :: rest) = some (.openObject, rest) := rfl

@[simp] theorem next_closeObject (rest : List Char) :
    next ('\x7d' :: rest) = some (.closeObject, rest) := rfl

@[simp] theorem next_closeArray (rest : List Char) :
    next (']' :: rest) = some (.closeArray, rest) := rfl

@[simp] theorem next_colon (rest : List Char) : next (':' :: rest) = some (.colon, rest) := rfl

@[simp] theorem next_comma (rest : List Char) : next (',' :: rest) = some (.comma, rest) := rfl

section Text

theorem textOf?_char (c : Char) (found : List Piece) :
    textOf? (.char c :: found) = (textOf? found).map (c :: ·) := by
  rw [textOf?]

theorem textOf?_unit {n : Nat} (low : n < 0xd800) (found : List Piece) :
    textOf? (.unit n :: found) = (textOf? found).map (Char.ofNat n :: ·) := by
  have high : isHighSurrogate n = false := by
    simp only [isHighSurrogate, Bool.and_eq_false_iff, decide_eq_false_iff_not]
    omega
  have second : isLowSurrogate n = false := by
    simp only [isLowSurrogate, Bool.and_eq_false_iff, decide_eq_false_iff_not]
    omega
  cases found with
  | nil => simp [textOf?, high, second]
  | cons piece found =>
    cases piece <;> simp [textOf?, high, second]

theorem unit?_byte {n : Nat} (small : n < 256) :
    unit? '0' '0' (Hex.digit (n / 16)) (Hex.digit (n % 16)) = some n := by
  have zero : Hex.value? '0' = some 0 := by decide
  have high : Hex.value? (Hex.digit (n / 16)) = some (n / 16) := Hex.value?_digit (by omega)
  have low : Hex.value? (Hex.digit (n % 16)) = some (n % 16) := Hex.value?_digit (by omega)
  simp [unit?, zero, high, low, Positional.value]
  omega

theorem pieces_escape {e c : Char} (short : escape? e = some c) (tail : List Char) :
    pieces ('\\' :: e :: tail)
      = (pieces tail).map fun (found, rest) => (.char c :: found, rest) := by
  have spelled : e ≠ 'u' := by
    rintro rfl
    cases short
  rw [pieces.eq_def]
  simp only [Char.reduceEq, if_false, if_true]
  split
  · next h => simp at h
  · next h => exact absurd (List.cons.inj h).1 spelled
  · next e' rest' _ h =>
    obtain ⟨rfl, rfl⟩ := List.cons.inj h
    rw [short]

theorem pieces_unit {a b c d : Char} {n : Nat} (spelled : unit? a b c d = some n)
    (tail : List Char) :
    pieces ('\\' :: 'u' :: a :: b :: c :: d :: tail)
      = (pieces tail).map fun (found, rest) => (.unit n :: found, rest) := by
  rw [pieces.eq_def]
  simp [spelled]

theorem pieces_plain {c : Char} (quote : c ≠ '\x22') (slash : c ≠ '\\') (plain : ¬ c.toNat < 0x20)
    (tail : List Char) :
    pieces (c :: tail) = (pieces tail).map fun (found, rest) => (.char c :: found, rest) := by
  rw [pieces.eq_def]
  simp only [if_neg quote, if_neg slash, if_neg plain]

theorem pieces_quoteChar (c : Char) : ∃ piece,
    (∀ tail, pieces (quoteChar c ++ tail)
      = (pieces tail).map fun (found, rest) => (piece :: found, rest)) ∧
    ∀ found, textOf? (piece :: found) = (textOf? found).map (c :: ·) := by
  have short {e : Char} (escape : escape? e = some c) : ∃ piece,
      (∀ tail, pieces (['\\', e] ++ tail)
        = (pieces tail).map fun (found, rest) => (piece :: found, rest)) ∧
      ∀ found, textOf? (piece :: found) = (textOf? found).map (c :: ·) :=
    ⟨.char c, pieces_escape escape, textOf?_char c⟩
  by_cases named : c ∈ ['\x22', '\\', '\x08', '\t', '\n', '\x0c', '\r']
  · simp only [List.mem_cons, List.not_mem_nil, or_false] at named
    rcases named with rfl | rfl | rfl | rfl | rfl | rfl | rfl <;> exact short rfl
  · simp only [List.mem_cons, List.not_mem_nil, or_false, not_or] at named
    obtain ⟨quote, slash, backspace, tab, line, feed, ret⟩ := named
    rw [quoteChar, if_neg quote, if_neg slash, if_neg backspace, if_neg tab, if_neg line,
      if_neg feed, if_neg ret]
    split
    · next control =>
      refine ⟨.unit c.toNat, pieces_unit (unit?_byte (by omega)), fun found => ?_⟩
      rw [textOf?_unit (by omega), Char.ofNat_toNat]
    · next plain => exact ⟨.char c, pieces_plain quote slash plain, textOf?_char c⟩

theorem pieces_flatMap_quoteChar (content rest : List Char) : ∃ found,
    pieces (content.flatMap quoteChar ++ '\x22' :: rest) = some (found, rest) ∧
      textOf? found = some content := by
  induction content with
  | nil => exact ⟨[], by rw [List.flatMap_nil, List.nil_append, pieces.eq_def]; rfl, rfl⟩
  | cons c content ih =>
    obtain ⟨found, split, denoted⟩ := ih
    obtain ⟨piece, one, denotes⟩ := pieces_quoteChar c
    refine ⟨piece :: found, ?_, ?_⟩
    · rw [List.flatMap_cons, List.append_assoc, one, split]
      rfl
    · rw [denotes, denoted]
      rfl

/-- A written string is one token, whatever follows it. -/
theorem next_quote (content rest : List Char) :
    next (quote content ++ rest) = some (.text content, rest) := by
  obtain ⟨found, split, denoted⟩ := pieces_flatMap_quoteChar content rest
  have literal : quote content ++ rest
      = '\x22' :: (content.flatMap quoteChar ++ '\x22' :: rest) := by
    simp [quote]
  rw [literal, next_cons (by decide)]
  simp [scan, scanText, split, denoted]

theorem next_append_quote {blanks : List Char} (blank : Blank blanks)
    (content rest : List Char) :
    next (blanks ++ (quote content ++ rest)) = some (.text content, rest) := by
  rw [next_append blank, next_quote]

/-- Escapes of every sort, a character outside the first plane among them. -/
example : next (quote ['a', '\x22', '\n', '\x01', '/', '😀'] ++ ['0'])
    = some (.text ['a', '\x22', '\n', '\x01', '/', '😀'], ['0']) := by
  decide

end Text

end TxEnvelope.Json
