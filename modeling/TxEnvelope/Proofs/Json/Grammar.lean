import TxEnvelope.Proofs.Json.Lexing

/-! The texts of JSON values.

A text is related to the value at its front and to what is left behind it. The
tokens come first, each with any blanks before it; values are put together from
them. The lexer takes every token off such a text as it is spelled there.
-/

set_option autoImplicit false

namespace TxEnvelope.Json

section Strings

inductive Piece.Spelled : Piece → List Char → List Char → Prop where
  | plain {c : Char} {rest : List Char} (quote : c ≠ '\x22') (slash : c ≠ '\\')
    (printable : ¬ c.toNat < 0x20) : Spelled (.char c) (c :: rest) rest
  | escape {e c : Char} {rest : List Char} (short : escape? e = some c) :
    Spelled (.char c) ('\\' :: e :: rest) rest
  | unit {a b c d : Char} {n : Nat} {rest : List Char} (hex : unit? a b c d = some n) :
    Spelled (.unit n) ('\\' :: 'u' :: a :: b :: c :: d :: rest) rest

inductive PiecesSpelled : List Piece → List Char → List Char → Prop where
  | close {rest : List Char} : PiecesSpelled [] ('\x22' :: rest) rest
  | piece {piece : Piece} {found : List Piece} {input mid rest : List Char}
    (first : piece.Spelled input mid) (others : PiecesSpelled found mid rest) :
    PiecesSpelled (piece :: found) input rest

theorem Piece.Spelled.pieces_eq {piece : Piece} {input rest : List Char}
    (spelled : piece.Spelled input rest) :
    pieces input = (pieces rest).map fun (found, rest) => (piece :: found, rest) := by
  cases spelled with
  | plain quote slash printable => exact pieces_plain quote slash printable rest
  | escape short => exact pieces_escape short rest
  | unit hex => exact pieces_unit hex rest

theorem PiecesSpelled.pieces_eq {found : List Piece} {input rest : List Char}
    (spelled : PiecesSpelled found input rest) : pieces input = some (found, rest) := by
  induction spelled with
  | close => rw [pieces.eq_def]; rfl
  | piece first others ih => rw [first.pieces_eq, ih, Option.map_some]

end Strings

section Numbers

def Digits (text : List Char) : Prop :=
  text ≠ [] ∧ ∀ c ∈ text, c.isDigit = true

/-- The digits in front of a number's fraction. -/
inductive Whole : List Char → Prop where
  | zero : Whole ['0']
  | positive {digits : List Char} (spelled : Digits digits) (leads : digits.head? ≠ some '0') :
    Whole digits

inductive Fraction : List Char → Prop where
  | absent : Fraction []
  | present {digits : List Char} (spelled : Digits digits) : Fraction ('.' :: digits)

inductive Exponent : List Char → Prop where
  | absent : Exponent []
  | present {e : Char} {sign digits : List Char} (marker : e = 'e' ∨ e = 'E')
    (signed : sign = [] ∨ sign = ['+'] ∨ sign = ['-']) (spelled : Digits digits) :
    Exponent (e :: (sign ++ digits))

/-- A number, of which only the value of a plain natural one is kept. -/
inductive Numeral : Token → List Char → Prop where
  | natural {whole : List Char} (spelled : Whole whole) :
    Numeral (.natural (decimalValue whole)) whole
  | scaled {whole fraction exponent : List Char} (spelled : Whole whole)
    (broken : Fraction fraction) (power : Exponent exponent)
    (scaled : fraction ≠ [] ∨ exponent ≠ []) :
    Numeral .otherNumber (whole ++ (fraction ++ exponent))
  | negative {whole fraction exponent : List Char} (spelled : Whole whole)
    (broken : Fraction fraction) (power : Exponent exponent) :
    Numeral .otherNumber ('-' :: (whole ++ (fraction ++ exponent)))

def NoDigit (rest : List Char) : Prop :=
  ∀ c ∈ rest.head?, c.isDigit = false

/-- Nothing comes next that would make a number longer, as where a blank, a comma or a closing
bracket follows it, or nothing at all. -/
def NumberEnds (rest : List Char) : Prop :=
  ∀ c ∈ rest.head?, c.isDigit = false ∧ c ≠ '.' ∧ c ≠ 'e' ∧ c ≠ 'E'

variable {whole fraction exponent rest : List Char}

theorem NumberEnds.noDigit (ends : NumberEnds rest) : NoDigit rest :=
  fun c first => (ends c first).1

theorem numberEnds_comma (rest : List Char) : NumberEnds (',' :: rest) := by
  rintro c ⟨⟩
  simp

theorem takeWhile_digits {digits : List Char} (spelled : Digits digits) (last : NoDigit rest) :
    (digits ++ rest).takeWhile Char.isDigit = digits := by
  rw [List.takeWhile_append_of_pos spelled.2]
  cases rest with
  | nil => simp
  | cons c rest => simp [last c rfl]

theorem dropWhile_digits {digits : List Char} (spelled : ∀ c ∈ digits, c.isDigit = true)
    (last : NoDigit rest) : (digits ++ rest).dropWhile Char.isDigit = rest := by
  rw [List.dropWhile_append_of_pos spelled]
  cases rest with
  | nil => rfl
  | cons c rest => simp [last c rfl]

theorem passDigits_append {digits : List Char} (spelled : Digits digits) (last : NoDigit rest) :
    passDigits (digits ++ rest) = some rest := by
  obtain ⟨c, digits, rfl⟩ := List.exists_cons_of_ne_nil spelled.1
  have first := spelled.2 c List.mem_cons_self
  have others := dropWhile_digits (fun d mem => spelled.2 d (List.mem_cons_of_mem c mem)) last
  simp [passDigits, first, others]

theorem Whole.ne_nil (spelled : Whole whole) : whole ≠ [] := by
  cases spelled with
  | zero => simp
  | positive spelled leads => exact spelled.1

theorem wholeDigits_append (spelled : Whole whole) (last : NoDigit rest) :
    wholeDigits (whole ++ rest) = whole := by
  cases spelled with
  | zero => rfl
  | positive spelled leads =>
    obtain ⟨c, digits, rfl⟩ := List.exists_cons_of_ne_nil spelled.1
    have taken := takeWhile_digits spelled last
    unfold wholeDigits
    split
    · next tail zero =>
      rw [List.cons_append, List.cons.injEq] at zero
      exact absurd (congrArg some zero.1) leads
    · exact taken

theorem passFraction_append (broken : Fraction fraction) (last : NoDigit rest)
    (point : rest.head? ≠ some '.') :
    passFraction (fraction ++ rest) = some (!fraction.isEmpty, rest) := by
  cases broken with
  | absent =>
    unfold passFraction
    split
    · next found => exact absurd (congrArg List.head? found) point
    · rfl
  | present spelled =>
    simp only [List.cons_append, passFraction, passDigits_append spelled last, Option.map_some,
      List.isEmpty_cons, Bool.not_false]

theorem passExponent_append (power : Exponent exponent) (ends : NumberEnds rest) :
    passExponent (exponent ++ rest) = some (!exponent.isEmpty, rest) := by
  cases power with
  | absent =>
    cases rest with
    | nil => rfl
    | cons c rest =>
      have first := ends c rfl
      simp [passExponent, first]
  | @present e sign digits marker signed spelled =>
    have passed := passDigits_append spelled ends.noDigit
    simp only [List.cons_append, List.append_assoc, passExponent, if_pos marker]
    rcases signed with rfl | rfl | rfl
    · obtain ⟨c, digits, rfl⟩ := List.exists_cons_of_ne_nil spelled.1
      have first := spelled.2 c List.mem_cons_self
      simp only [List.nil_append]
      split
      · next found =>
        rw [(List.cons.inj found).1] at first
        cases first
      · next found =>
        rw [(List.cons.inj found).1] at first
        cases first
      · rw [passed]; rfl
    · simp [passed]
    · simp [passed]

theorem Exponent.marked (power : Exponent exponent) (ends : NumberEnds rest) :
    ∀ c ∈ (exponent ++ rest).head?, c.isDigit = false ∧ c ≠ '.' := by
  cases power with
  | absent => exact fun c first => ⟨(ends c first).1, (ends c first).2.1⟩
  | present marker signed spelled =>
    rintro c ⟨⟩
    rcases marker with rfl | rfl <;> decide

theorem Fraction.noDigit (broken : Fraction fraction) (power : Exponent exponent)
    (ends : NumberEnds rest) : NoDigit (fraction ++ (exponent ++ rest)) := by
  cases broken with
  | absent => exact fun c first => (power.marked ends c first).1
  | present spelled =>
    rintro c ⟨⟩
    rfl

/-- A number is passed over to its end, and told apart by what follows its whole part. -/
theorem scanNumber_append (signed : Bool) (spelled : Whole whole) (broken : Fraction fraction)
    (power : Exponent exponent) (ends : NumberEnds rest) :
    scanNumber signed (whole ++ (fraction ++ (exponent ++ rest))) =
      some (if signed || !fraction.isEmpty || !exponent.isEmpty then .otherNumber
        else .natural (decimalValue whole), rest) := by
  have marked := power.marked ends
  have fractionPassed := passFraction_append broken (fun c first => (marked c first).1)
    (fun point => (marked '.' point).2 rfl)
  simp only [scanNumber, wholeDigits_append spelled (broken.noDigit power ends),
    if_neg spelled.ne_nil, List.drop_left, fractionPassed, passExponent_append power ends]
  split <;> rfl

theorem number_of_scanNumber {signed : Bool} {token : Token} {input rest : List Char}
    (scanned : scanNumber signed input = some (token, rest)) :
    (∃ n, token = .natural n) ∨ token = .otherNumber := by
  simp only [scanNumber] at scanned
  repeat' split at scanned
  all_goals cases scanned
  · exact .inr rfl
  · exact .inl ⟨_, rfl⟩

theorem scan_digit {c : Char} (digit : c.isDigit = true) (rest : List Char) :
    scan c rest = scanNumber false (c :: rest) := by
  unfold scan
  split <;> first | rfl | cases digit

theorem isBlank_of_isDigit {c : Char} (digit : c.isDigit = true) : isBlank c = false := by
  rw [isBlank]
  simp only [Bool.or_eq_false_iff, beq_eq_false_iff_ne, ne_eq]
  refine ⟨⟨⟨?_, ?_⟩, ?_⟩, ?_⟩ <;> rintro rfl <;> cases digit

theorem Whole.exists_digit (spelled : Whole whole) :
    ∃ c digits, whole = c :: digits ∧ c.isDigit = true := by
  cases spelled with
  | zero => exact ⟨'0', [], rfl, rfl⟩
  | positive spelled leads =>
    obtain ⟨c, digits, rfl⟩ := List.exists_cons_of_ne_nil spelled.1
    exact ⟨c, digits, rfl, spelled.2 c List.mem_cons_self⟩

theorem next_whole (spelled : Whole whole) (rest : List Char) :
    next (whole ++ rest) = scanNumber false (whole ++ rest) := by
  obtain ⟨c, digits, rfl, digit⟩ := spelled.exists_digit
  rw [List.cons_append, next_cons (isBlank_of_isDigit digit), scan_digit digit]

theorem Numeral.next_eq {token : Token} {text : List Char} (numeral : Numeral token text)
    (ends : NumberEnds rest) : next (text ++ rest) = some (token, rest) := by
  cases numeral with
  | natural spelled =>
    have scanned := scanNumber_append false spelled .absent .absent ends
    rw [next_whole spelled]
    exact scanned
  | scaled spelled broken power scaled =>
    rw [List.append_assoc, List.append_assoc, next_whole spelled,
      scanNumber_append false spelled broken power ends]
    rcases scaled with scaled | scaled <;> simp [scaled]
  | negative spelled broken power =>
    rw [List.cons_append, List.append_assoc, List.append_assoc, next_cons (by decide)]
    exact scanNumber_append true spelled broken power ends

theorem Numeral.exists_cons {token : Token} {text : List Char} (numeral : Numeral token text) :
    ∃ c tail, text = c :: tail ∧ isBlank c = false := by
  cases numeral with
  | natural spelled | scaled spelled =>
    obtain ⟨c, digits, rfl, digit⟩ := spelled.exists_digit
    exact ⟨c, _, rfl, isBlank_of_isDigit digit⟩
  | negative => exact ⟨'-', _, rfl, rfl⟩

end Numbers

section Tokens

inductive Token.Spelled : Token → List Char → List Char → Prop where
  | openObject {rest : List Char} : Spelled .openObject ('\x7b' :: rest) rest
  | closeObject {rest : List Char} : Spelled .closeObject ('\x7d' :: rest) rest
  | openArray {rest : List Char} : Spelled .openArray ('[' :: rest) rest
  | closeArray {rest : List Char} : Spelled .closeArray (']' :: rest) rest
  | colon {rest : List Char} : Spelled .colon (':' :: rest) rest
  | comma {rest : List Char} : Spelled .comma (',' :: rest) rest
  | text {found : List Piece} {content input rest : List Char}
    (spelled : PiecesSpelled found input rest) (denoted : textOf? found = some content) :
    Spelled (.text content) ('\x22' :: input) rest
  | brokenText {found : List Piece} {input rest : List Char}
    (spelled : PiecesSpelled found input rest) (broken : textOf? found = none) :
    Spelled .brokenText ('\x22' :: input) rest
  | number {token : Token} {text rest : List Char} (numeral : Numeral token text)
    (ends : NumberEnds rest) : Spelled token (text ++ rest) rest
  | yes {rest : List Char} : Spelled (.bool true) ('t' :: 'r' :: 'u' :: 'e' :: rest) rest
  | no {rest : List Char} : Spelled (.bool false) ('f' :: 'a' :: 'l' :: 's' :: 'e' :: rest) rest
  | null {rest : List Char} : Spelled .null ('n' :: 'u' :: 'l' :: 'l' :: rest) rest

theorem next_quoted (input : List Char) : next ('\x22' :: input) = scanText input :=
  next_cons (by decide) input

theorem Token.Spelled.next_eq {token : Token} {input rest : List Char}
    (spelled : token.Spelled input rest) : next input = some (token, rest) := by
  cases spelled with
  | openObject | closeObject | openArray | closeArray | colon | comma | yes | no | null => rfl
  | text spelled denoted => simp only [next_quoted, scanText, spelled.pieces_eq, denoted]
  | brokenText spelled broken => simp only [next_quoted, scanText, spelled.pieces_eq, broken]
  | number numeral ends => exact numeral.next_eq ends

theorem Token.Spelled.skipBlanks_eq {token : Token} {input rest : List Char}
    (spelled : token.Spelled input rest) : skipBlanks input = input := by
  cases spelled with
  | number numeral ends =>
    obtain ⟨c, tail, rfl, solid⟩ := numeral.exists_cons
    rw [skipBlanks, List.cons_append, List.dropWhile_cons_of_neg (by simp [solid])]
  | _ => rfl

/-- A token with any blanks before it. -/
inductive Lexeme (token : Token) : List Char → List Char → Prop where
  | mk {blanks input rest : List Char} (blank : Blank blanks)
    (spelled : token.Spelled input rest) : Lexeme token (blanks ++ input) rest

theorem Lexeme.front {token : Token} {input rest : List Char}
    (spelled : token.Spelled input rest) : Lexeme token input rest :=
  .mk blank_nil spelled

theorem Lexeme.blank {token : Token} {c : Char} {input rest : List Char}
    (space : isBlank c = true) (lexeme : Lexeme token input rest) :
    Lexeme token (c :: input) rest := by
  cases lexeme with
  | @mk blanks input _ blank spelled =>
    exact .mk (List.forall_mem_cons.2 ⟨space, blank⟩) spelled

/-- A character that may stand in a string literal as it is. -/
def isVerbatim (c : Char) : Bool :=
  c != '\x22' && c != '\\' && 0x20 ≤ c.toNat

theorem piecesSpelled_verbatim {content : List Char} (verbatim : content.all isVerbatim = true)
    (rest : List Char) :
    PiecesSpelled (content.map .char) (content ++ '\x22' :: rest) rest := by
  induction content with
  | nil => exact .close
  | cons c content ih =>
    rw [List.all_cons, Bool.and_eq_true] at verbatim
    simp only [isVerbatim, Bool.and_eq_true, bne_iff_ne, decide_eq_true_eq] at verbatim
    exact .piece (.plain verbatim.1.1.1 verbatim.1.1.2 (Nat.not_lt.2 verbatim.1.2)) (ih verbatim.2)

theorem textOf?_map_char (content : List Char) : textOf? (content.map .char) = some content := by
  induction content with
  | nil => rfl
  | cons c content ih => rw [List.map_cons, textOf?_char, ih, Option.map_some]

theorem Lexeme.verbatim {content : List Char} (verbatim : content.all isVerbatim = true)
    (rest : List Char) : Lexeme (.text content) ('\x22' :: (content ++ '\x22' :: rest)) rest :=
  .front (.text (piecesSpelled_verbatim verbatim rest) (textOf?_map_char content))

theorem Lexeme.next_eq {token : Token} {input rest : List Char} (lexeme : Lexeme token input rest) :
    next input = some (token, rest) := by
  cases lexeme with
  | mk blank spelled => rw [next_append blank, spelled.next_eq]

end Tokens

/-- A JSON value. What stands for itself is its token, and so is the name of a member. -/
inductive Tree where
  | scalar (token : Token)
  | array (items : List Tree)
  | object (members : List (Token × Tree))

inductive Token.IsScalar : Token → Prop where
  | text (content : List Char) : IsScalar (.text content)
  | brokenText : IsScalar .brokenText
  | natural (n : Nat) : IsScalar (.natural n)
  | otherNumber : IsScalar .otherNumber
  | bool (b : Bool) : IsScalar (.bool b)
  | null : IsScalar .null

theorem Token.IsScalar.ne_closeArray {token : Token} (isScalar : token.IsScalar) :
    token ≠ .closeArray := by
  cases isScalar <;> simp

inductive Token.IsName : Token → Prop where
  | text (content : List Char) : IsName (.text content)
  | brokenText : IsName .brokenText

theorem Token.IsName.ne_closeObject {token : Token} (isName : token.IsName) :
    token ≠ .closeObject := by
  cases isName <;> simp

mutual

inductive Tree.Spelled : Tree → List Char → List Char → Prop where
  | scalar {token : Token} {input rest : List Char} (isScalar : token.IsScalar)
    (lexeme : Lexeme token input rest) : Tree.Spelled (.scalar token) input rest
  | emptyArray {input inside rest : List Char} (opened : Lexeme .openArray input inside)
    (closed : Lexeme .closeArray inside rest) : Tree.Spelled (.array []) input rest
  | array {item : Tree} {items : List Tree} {input inside mid rest : List Char}
    (opened : Lexeme .openArray input inside) (first : item.Spelled inside mid)
    (others : ItemsSpelled items mid rest) : Tree.Spelled (.array (item :: items)) input rest
  | emptyObject {input inside rest : List Char} (opened : Lexeme .openObject input inside)
    (closed : Lexeme .closeObject inside rest) : Tree.Spelled (.object []) input rest
  | object {member : Token × Tree} {members : List (Token × Tree)}
    {input inside mid rest : List Char} (opened : Lexeme .openObject input inside)
    (first : MemberSpelled member inside mid) (others : MembersSpelled members mid rest) :
    Tree.Spelled (.object (member :: members)) input rest

/-- The items of an array after an item, each behind a comma, up to the closing bracket. -/
inductive ItemsSpelled : List Tree → List Char → List Char → Prop where
  | close {input rest : List Char} (closed : Lexeme .closeArray input rest) :
    ItemsSpelled [] input rest
  | item {item : Tree} {items : List Tree} {input start mid rest : List Char}
    (comma : Lexeme .comma input start) (first : item.Spelled start mid)
    (others : ItemsSpelled items mid rest) : ItemsSpelled (item :: items) input rest

inductive MemberSpelled : Token × Tree → List Char → List Char → Prop where
  | mk {name : Token} {value : Tree} {input behind start rest : List Char}
    (isName : name.IsName) (named : Lexeme name input behind)
    (colon : Lexeme .colon behind start) (spelled : value.Spelled start rest) :
    MemberSpelled (name, value) input rest

inductive MembersSpelled : List (Token × Tree) → List Char → List Char → Prop where
  | close {input rest : List Char} (closed : Lexeme .closeObject input rest) :
    MembersSpelled [] input rest
  | member {member : Token × Tree} {members : List (Token × Tree)}
    {input start mid rest : List Char} (comma : Lexeme .comma input start)
    (first : MemberSpelled member start mid) (others : MembersSpelled members mid rest) :
    MembersSpelled (member :: members) input rest

end

theorem MemberSpelled.exists_next {member : Token × Tree} {input rest : List Char}
    (spelled : MemberSpelled member input rest) :
    member.1.IsName ∧ ∃ behind, next input = some (member.1, behind) := by
  cases spelled with
  | mk isName named colon spelled => exact ⟨isName, _, named.next_eq⟩

end TxEnvelope.Json
