import TxEnvelope.Hex
import TxEnvelope.Proofs.Reader

/-! Hex text is read back as what it was written for. -/

set_option autoImplicit false

namespace TxEnvelope

theorem exists_code {c : Char} {bound : Nat} (small : c.toNat < bound) :
    ∃ code : Fin bound, Char.ofNat code = c :=
  ⟨⟨c.toNat, small⟩, Char.ofNat_toNat c⟩

namespace Hex

theorem le_of_value? {c : Char} {v : Nat} (digit : value? c = some v) : c.val ≤ 0x7f := by
  unfold value? at digit
  simp only [Char.le_def] at digit
  split at digit
  · next decimal => exact UInt32.le_trans decimal.2 (by decide)
  · split at digit
    · next lower => exact UInt32.le_trans lower.2 (by decide)
    · split at digit
      · next upper => exact UInt32.le_trans upper.2 (by decide)
      · cases digit

theorem toNat_lt_of_value? {c : Char} {v : Nat} (digit : value? c = some v) : c.toNat < 128 :=
  Nat.lt_succ_of_le (UInt32.le_iff_toNat_le.1 (le_of_value? digit))

theorem utf8Size_of_value? {c : Char} {v : Nat} (digit : value? c = some v) :
    c.utf8Size = 1 :=
  if_pos (le_of_value? digit)

theorem value?_toLower (c : Char) : value? c.toLower = value? c := by
  by_cases upper : c.val ≥ 'A'.val ∧ c.val ≤ 'Z'.val
  · have all : ∀ code : Fin 91,
        value? (Char.ofNat code).toLower = value? (Char.ofNat code) := by decide
    have small : c.toNat < 91 := Nat.lt_succ_of_le (UInt32.le_iff_toNat_le.1 upper.2)
    obtain ⟨code, rfl⟩ := exists_code small
    exact all code
  · have kept : c.toLower = c := dif_neg upper
    rw [kept]

theorem mapM_digit {read : Char → Option Nat} {values : List Nat}
    (reads : ∀ v ∈ values, read (digit v) = some v) :
    (values.map digit).mapM read = some values := by
  induction values with
  | nil => rfl
  | cons v values ih =>
    rw [List.map_cons, List.mapM_cons, reads v List.mem_cons_self,
      ih fun w mem => reads w (List.mem_cons_of_mem v mem)]
    rfl

theorem ofText_cons (c : Char) (text : List Char) :
    Bytes.ofText (c :: text) = String.utf8EncodeChar c ++ Bytes.ofText text :=
  List.flatMap_cons

theorem length_utf8EncodeChar {c : Char}
    (plain : ∀ byte ∈ String.utf8EncodeChar c, byte ≤ 0x7f) :
    (String.utf8EncodeChar c).length = 1 := by
  rw [String.length_utf8EncodeChar, Char.utf8Size_eq_one_iff]
  refine UInt32.le_iff_toNat_le.2 (Nat.le_of_not_lt fun above => ?_)
  have above : 127 < c.val.toNat := above
  have lead : ∃ byte ∈ String.utf8EncodeChar c, 127 < byte.toNat := by
    simp only [String.utf8EncodeChar, if_neg (Nat.not_le_of_lt above)]
    split
    · exact ⟨_, List.mem_cons_self, by rw [UInt8.toNat_ofNat']; omega⟩
    · split <;> exact ⟨_, List.mem_cons_self, by rw [UInt8.toNat_ofNat']; omega⟩
  obtain ⟨byte, mem, large⟩ := lead
  exact absurd (UInt8.le_iff_toNat_le.1 (plain byte mem)) (Nat.not_le_of_lt large)

theorem length_ofText {text : List Char} (plain : ∀ byte ∈ Bytes.ofText text, byte ≤ 0x7f) :
    (Bytes.ofText text).length = text.length := by
  induction text with
  | nil => rfl
  | cons c text ih =>
    rw [ofText_cons, List.forall_mem_append] at plain
    rw [ofText_cons, List.length_append, length_utf8EncodeChar plain.1, ih plain.2,
      List.length_cons, Nat.add_comm]

section Digits

variable {text : List Char} {values : List Nat} {bytes : Bytes} {position : Nat}

theorem nibbles_ofText (read : text.mapM value? = some values) (position : Nat) :
    nibbles position (Bytes.ofText text) = .ok values := by
  induction text generalizing values position with
  | nil =>
    cases read
    rfl
  | cons c text ih =>
    obtain ⟨v, first, values', more, rfl⟩ := mapM_cons_eq_some_iff.1 read
    have single := String.utf8EncodeChar_eq_singleton (utf8Size_of_value? first)
    have byte : (c.val.toUInt8).toNat = c.toNat := by
      have small := toNat_lt_of_value? first
      show c.toNat % 256 = c.toNat
      omega
    rw [ofText_cons, single, List.singleton_append, nibbles, byte, Char.ofNat_toNat, first]
    simp only [ih more]
    rfl

theorem length_of_nibbles (read : nibbles position bytes = .ok values) :
    values.length = bytes.length := by
  induction bytes generalizing values position with
  | nil =>
    cases read
    rfl
  | cons byte bytes ih =>
    rw [nibbles] at read
    split at read
    · cases read
    · obtain ⟨values', more, rfl⟩ := map_eq_ok_iff.1 read
      rw [List.length_cons, List.length_cons, ih more]

theorem le_of_nibbles (read : nibbles position bytes = .ok values) :
    ∀ byte ∈ bytes, byte ≤ 0x7f := by
  have single : ∀ code : Fin 256, (value? (Char.ofNat code)).isSome → code.val ≤ 0x7f := by
    decide +kernel
  induction bytes generalizing values position with
  | nil => exact nofun
  | cons byte bytes ih =>
    rw [nibbles] at read
    split at read
    · cases read
    · next v digit =>
      obtain ⟨values', more, -⟩ := map_eq_ok_iff.1 read
      have small := single ⟨byte.toNat, byte.toNat_lt⟩ (Option.isSome_of_mem digit)
      exact List.forall_mem_cons.2 ⟨UInt8.le_iff_toNat_le.2 small, ih more⟩

theorem withoutMarker_ofText (read : text.mapM value? = some values) :
    withoutMarker (Bytes.ofText text) = Bytes.ofText text := by
  have digits := nibbles_ofText read 0
  unfold withoutMarker
  split
  · next rest marked =>
    rw [marked] at digits
    cases digits
  · next rest marked =>
    rw [marked] at digits
    cases digits
  · rfl

end Digits

def halves (bytes : Bytes) : List Nat :=
  bytes.flatMap fun byte => [byte.toNat / 16, byte.toNat % 16]

theorem digitsOf_eq (bytes : Bytes) : digitsOf bytes = (halves bytes).map digit := by
  rw [digitsOf, halves, List.map_flatMap]
  rfl

theorem halves_lt {bytes : Bytes} : ∀ v ∈ halves bytes, v < 16 := by
  intro v mem
  obtain ⟨byte, -, half⟩ := List.mem_flatMap.1 mem
  have bound := byte.toNat_lt
  simp only [List.mem_cons, List.not_mem_nil, or_false] at half
  omega

theorem pack_halves (bytes : Bytes) : pack (halves bytes) = bytes := by
  induction bytes with
  | nil => rfl
  | cons byte bytes ih =>
    rw [halves, List.flatMap_cons, List.cons_append, List.cons_append, List.nil_append, pack]
    rw [show byte.toNat / 16 * 16 + byte.toNat % 16 = byte.toNat by omega, UInt8.ofNat_toNat]
    exact congrArg _ ih

theorem length_halves (bytes : Bytes) : (halves bytes).length = 2 * bytes.length := by
  induction bytes with
  | nil => rfl
  | cons byte bytes ih =>
    rw [halves, List.flatMap_cons, List.length_append, ← halves, ih]
    simp only [List.length_cons, List.length_nil]
    omega

theorem length_pack (values : List Nat) : (pack values).length = values.length / 2 := by
  fun_induction pack values with
  | case1 hi lo rest ih =>
    rw [List.length_cons, ih, List.length_cons, List.length_cons]
    omega
  | case2 values short =>
    match values with
    | [] | [v] => simp
    | hi :: lo :: rest => exact absurd rfl (short hi lo rest)

/-- The hex text of a byte string in any spelling: with or without a marker, and with digits of
either letter case. -/
def Spells (text : List Char) (bytes : Bytes) : Prop :=
  ∃ marker ∈ [[], ['0', 'x'], ['0', 'X']], ∃ digits : List Char,
    text = marker ++ digits ∧ digits.map Char.toLower = digitsOf bytes

theorem mapM_of_toLower {digits : List Char} {bytes : Bytes}
    (same : digits.map Char.toLower = digitsOf bytes) :
    digits.mapM value? = some (halves bytes) := by
  have lower : (digits.map Char.toLower).mapM value? = some (halves bytes) := by
    rw [same, digitsOf_eq]
    exact mapM_digit fun v mem => value?_digit (halves_lt v mem)
  rw [List.mapM_map] at lower
  exact (congrArg (digits.mapM ·) (funext value?_toLower)).symm.trans lower

/-- Byte strings come back from every spelling of their hex text. -/
theorem Spells.decode_eq {text : List Char} {bytes : Bytes} (spells : Spells text bytes) :
    decode (Bytes.ofText text) = .ok bytes := by
  obtain ⟨marker, known, digits, rfl, same⟩ := spells
  have values := mapM_of_toLower same
  have unmarked : withoutMarker (Bytes.ofText (marker ++ digits)) = Bytes.ofText digits := by
    simp only [List.mem_cons, List.not_mem_nil, or_false] at known
    rcases known with rfl | rfl | rfl
    · exact withoutMarker_ofText values
    · rfl
    · rfl
  have read := nibbles_ofText values 0
  have even : ¬ (Bytes.ofText digits).length % 2 = 1 := by
    rw [← length_of_nibbles read, length_halves]
    omega
  simp only [decode, unmarked, if_neg even, read, Except.map, pack_halves]

theorem toLower_digits {values : List Nat} (small : ∀ v ∈ values, v < 16) :
    (values.map digit).map Char.toLower = values.map digit := by
  have single : ∀ v : Fin 16, (digit v).toLower = digit v := by decide
  rw [List.map_map]
  exact List.map_congr_left fun v mem => single ⟨v, small v mem⟩

theorem toLower_digitsOf (bytes : Bytes) : (digitsOf bytes).map Char.toLower = digitsOf bytes := by
  rw [digitsOf_eq]
  exact toLower_digits halves_lt

theorem spells_toUpper (bytes : Bytes) : Spells ((digitsOf bytes).map Char.toUpper) bytes := by
  have single : ∀ v : Fin 16, (digit v).toUpper.toLower = digit v := by decide
  refine ⟨[], by simp, _, rfl, ?_⟩
  rw [digitsOf_eq, List.map_map, List.map_map]
  exact List.map_congr_left fun v mem => single ⟨v, halves_lt v mem⟩

theorem spells_encode (bytes : Bytes) : Spells (encode bytes) bytes :=
  ⟨['0', 'x'], by simp, digitsOf bytes, rfl, toLower_digitsOf bytes⟩

theorem decode?_encode (bytes : Bytes) : decode? (encode bytes) = some bytes := by
  rw [decode?, (spells_encode bytes).decode_eq]
  rfl

theorem length_of_decode? {text : List Char} {bytes : Bytes} (read : decode? text = some bytes) :
    2 * bytes.length ≤ text.length := by
  rw [decode?, toOption_eq_some_iff, decode] at read
  split at read
  · cases read
  · obtain ⟨values, digits, rfl⟩ := map_eq_ok_iff.1 read
    -- Neither a marker nor digits go beyond plain text, so a byte is a character.
    have marked : ∃ marker, Bytes.ofText text = marker ++ withoutMarker (Bytes.ofText text) ∧
        ∀ byte ∈ marker, byte ≤ 0x7f := by
      have plain {byte : UInt8} (le : byte ≤ 0x7f) : ∀ mark ∈ [0x30, byte], mark ≤ 0x7f :=
        List.forall_mem_cons.2 ⟨by decide, List.forall_mem_singleton.2 le⟩
      unfold withoutMarker
      split
      · next rest start => exact ⟨[0x30, 0x78], start, plain (by decide)⟩
      · next rest start => exact ⟨[0x30, 0x58], start, plain (by decide)⟩
      · exact ⟨[], rfl, nofun⟩
    obtain ⟨marker, whole, plain⟩ := marked
    have length := length_ofText fun byte (mem : byte ∈ Bytes.ofText text) => by
      rw [whole, List.mem_append] at mem
      exact mem.elim (plain byte) (le_of_nibbles digits byte)
    have counted := length_of_nibbles digits
    have total := congrArg List.length whole
    rw [List.length_append] at total
    rw [length_pack]
    omega

end Hex

end TxEnvelope
