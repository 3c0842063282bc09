import TxEnvelope.Proofs.BigEndian
import TxEnvelope.Rlp.Codec

/-! Headers are spelled in one way only.

`Header.Announces` says without the reader which bytes announce which header.
Reading accepts exactly that, so a payload with its header in front of it can
be told from every other byte string.
-/

set_option autoImplicit false

namespace TxEnvelope.Rlp

namespace Header

theorem length_width_le {payload : Nat} (fits : payload < 2 ^ 64) :
    (Bytes.ofNat payload).length ≤ 8 :=
  (Bytes.length_ofNat_le_iff _ _).2 (by simpa using fits)

theorem length_encode (header : Header) : header.encode.length = size header.payload := by
  unfold encode size
  split
  · rfl
  · rw [List.length_cons, Bytes.length_ofNat (by omega)]
    omega

theorem base_le (isList : Bool) : 0x80 ≤ base isList ∧ base isList ≤ 0xc0 := by
  cases isList <;> decide

theorem encode_of_lt {header : Header} (short : header.payload < 56) :
    header.encode = [UInt8.ofNat (base header.isList + header.payload)] := by
  rw [encode, if_pos short]

theorem encode_of_le {header : Header} (long : 56 ≤ header.payload) :
    header.encode = UInt8.ofNat (base header.isList + 55 + (Bytes.ofNat header.payload).length)
      :: Bytes.ofNat header.payload := by
  rw [encode, if_neg (by omega)]

theorem encode_eq_cons {header : Header} (small : header.payload < 2 ^ 64) :
    ∃ byte tail, header.encode = byte :: tail ∧ base header.isList ≤ byte.toNat := by
  have sort := base_le header.isList
  by_cases short : header.payload < 56
  · refine ⟨_, _, encode_of_lt short, ?_⟩
    rw [UInt8.toNat_ofNat']
    omega
  · have width := length_width_le small
    refine ⟨_, _, encode_of_le (by omega), ?_⟩
    rw [UInt8.toNat_ofNat']
    omega

theorem decode_self {byte : UInt8} (below : byte < 0x80) (rest : Bytes) :
    decode (byte :: rest) = .ok (⟨false, 1⟩, byte :: rest) := by
  have code : byte.toNat < 0x80 := UInt8.lt_iff_toNat_lt.1 below
  simp only [decode, if_pos code]

theorem decode_short {isList : Bool} {payload : Nat} (short : payload < 56) (rest : Bytes) :
    decode (UInt8.ofNat (base isList + payload) :: rest)
      = if isList then fits ⟨true, payload⟩ rest else decodeShortString payload rest := by
  cases isList with
  | false =>
    have code : (UInt8.ofNat (base false + payload)).toNat = 0x80 + payload := by
      simp [base]
      omega
    simp only [decode, code]
    rw [if_neg (by omega), if_pos (by omega), Nat.add_sub_cancel_left]
    rfl
  | true =>
    have code : (UInt8.ofNat (base true + payload)).toNat = 0xc0 + payload := by
      simp [base]
      omega
    simp only [decode, code]
    rw [if_neg (by omega), if_neg (by omega), if_neg (by omega), if_pos (by omega),
      Nat.add_sub_cancel_left]
    rfl

theorem decode_long {isList : Bool} {width : Nat} (pos : 0 < width) (le : width ≤ 8)
    (rest : Bytes) :
    decode (UInt8.ofNat (base isList + 55 + width) :: rest) = decodeLong isList width rest := by
  cases isList with
  | false =>
    have code : (UInt8.ofNat (base false + 55 + width)).toNat = 0xb7 + width := by
      simp [base]
      omega
    simp only [decode, code]
    rw [if_neg (by omega), if_neg (by omega), if_pos (by omega), Nat.add_sub_cancel_left]
  | true =>
    have code : (UInt8.ofNat (base true + 55 + width)).toNat = 0xf7 + width := by
      simp [base]
      omega
    simp only [decode, code]
    rw [if_neg (by omega), if_neg (by omega), if_neg (by omega), if_neg (by omega),
      Nat.add_sub_cancel_left]

theorem code_cases (byte : UInt8) :
    byte < 0x80 ∨ (∃ isList, ∃ payload < 56, byte = UInt8.ofNat (base isList + payload)) ∨
      ∃ isList, ∃ width, 0 < width ∧ width ≤ 8 ∧ byte = UInt8.ofNat (base isList + 55 + width) := by
  have below := byte.toNat_lt
  have code : ∀ {n : Nat}, byte.toNat = n → byte = UInt8.ofNat n := by
    intro n same
    rw [← same, UInt8.ofNat_toNat]
  by_cases own : byte.toNat < 0x80
  · exact .inl (UInt8.lt_iff_toNat_lt.2 own)
  · apply Or.inr
    by_cases shortString : byte.toNat < 0xb8
    · exact .inl ⟨false, byte.toNat - 0x80, by omega, code (by simp [base]; omega)⟩
    · by_cases longString : byte.toNat < 0xc0
      · exact .inr ⟨false, byte.toNat - 0xb7, by omega, by omega, code (by simp [base]; omega)⟩
      · by_cases shortList : byte.toNat < 0xf8
        · exact .inl ⟨true, byte.toNat - 0xc0, by omega, code (by simp [base]; omega)⟩
        · exact .inr ⟨true, byte.toNat - 0xf7, by omega, by omega, code (by simp [base]; omega)⟩

theorem fits_of_le {header : Header} {rest : Bytes} (there : header.payload ≤ rest.length) :
    fits header rest = .ok (header, rest) := by
  rw [fits, if_neg (by omega)]

/-- The bytes `input` announce `header`, with `left` behind the announcement. -/
inductive Announces : Bytes → Header → Bytes → Prop where
  /-- A byte below `0x80` announces itself and stays. -/
  | own {byte : UInt8} {rest : Bytes} : byte < 0x80 →
      Announces (byte :: rest) ⟨false, 1⟩ (byte :: rest)
  /-- Any other item has its header in front of its payload. -/
  | spelled {header : Header} {left : Bytes} : header.payload < 2 ^ 64 →
      header.payload ≤ left.length → (header = ⟨false, 1⟩ → ∀ byte ∈ left.head?, ¬ byte < 0x80) →
      Announces (header.encode ++ left) header left

theorem decodeShortString_eq_ok_iff {payload : Nat} {rest left : Bytes} {header : Header} :
    decodeShortString payload rest = .ok (header, left) ↔
      header = ⟨false, payload⟩ ∧ left = rest ∧ payload ≤ rest.length ∧
        (payload = 1 → ∀ byte ∈ rest.head?, ¬ byte < 0x80) := by
  unfold decodeShortString fits
  cases rest with
  | nil => grind
  | cons byte rest => grind

theorem decodeLong_ofNat {isList : Bool} {payload : Nat} {left : Bytes} (long : 56 ≤ payload)
    (there : payload ≤ left.length) :
    decodeLong isList (Bytes.ofNat payload).length (Bytes.ofNat payload ++ left)
      = .ok (⟨isList, payload⟩, left) := by
  have lead : (Bytes.ofNat payload ++ left).head? ≠ some 0 := by
    have width := Bytes.head?_ofNat payload
    cases shape : Bytes.ofNat payload with
    | nil => exact absurd shape (Bytes.ofNat_ne_nil (by omega))
    | cons byte bytes =>
      rw [shape] at width
      exact width
  rw [decodeLong, if_neg (by simp), if_neg lead, List.take_left, List.drop_left,
    Bytes.toNat_ofNat]
  simp only [if_neg (show ¬ payload < 56 by omega)]
  exact fits_of_le there

theorem eq_of_decodeLong {isList : Bool} {width : Nat} {rest left : Bytes} {header : Header}
    (pos : 0 < width) (h : decodeLong isList width rest = .ok (header, left)) :
    header.isList = isList ∧ 56 ≤ header.payload ∧ header.payload ≤ left.length ∧
      (Bytes.ofNat header.payload).length = width ∧ rest = Bytes.ofNat header.payload ++ left := by
  unfold decodeLong at h
  split at h
  · simp at h
  · next enough =>
    split at h
    · simp at h
    · next lead =>
      dsimp only at h
      split at h
      · simp at h
      · next long =>
        obtain ⟨rfl, rfl, there⟩ := fits_eq_ok h
        -- A length without a leading zero is spelled as it would be written.
        have start : (rest.take width).head? ≠ some 0 := by
          rwa [List.head?_take, if_neg (by omega)]
        have spelled : Bytes.ofNat (Bytes.toNat (rest.take width)) = rest.take width :=
          Bytes.ofNat_toNat start
        refine ⟨rfl, by simpa using long, there, ?_, ?_⟩
        · rw [spelled, List.length_take]
          omega
        · rw [spelled, List.take_append_drop]

theorem decode_eq_ok_iff {input left : Bytes} {header : Header} :
    decode input = .ok (header, left) ↔ Announces input header left := by
  constructor
  · intro h
    cases input with
    | nil => simp [decode] at h
    | cons byte rest =>
      -- The ranges of the first byte are the ways to announce an item.
      rcases code_cases byte with below | ⟨isList, payload, short, rfl⟩ |
        ⟨isList, width, pos, le, rfl⟩
      · rw [decode_self below] at h
        cases h
        exact .own below
      · rw [decode_short short] at h
        have read : header = ⟨isList, payload⟩ ∧ left = rest ∧ payload ≤ rest.length ∧
            (header = ⟨false, 1⟩ → ∀ byte ∈ rest.head?, ¬ byte < 0x80) := by
          cases isList with
          | false =>
            obtain ⟨rfl, rfl, there, plain⟩ := decodeShortString_eq_ok_iff.1 h
            exact ⟨rfl, rfl, there, fun one => plain (by simpa using one)⟩
          | true =>
            obtain ⟨rfl, rfl, there⟩ := fits_eq_ok h
            exact ⟨rfl, rfl, there, by simp⟩
        obtain ⟨rfl, rfl, there, plain⟩ := read
        have spelled := Announces.spelled (show payload < 2 ^ 64 by omega) there plain
        rwa [encode_of_lt short] at spelled
      · rw [decode_long pos le] at h
        obtain ⟨rfl, long, there, same, rfl⟩ := eq_of_decodeLong pos h
        have small : header.payload < 2 ^ 64 := by
          have narrow := (Bytes.length_ofNat_le_iff header.payload 8).1 (by omega)
          simpa using narrow
        have spelled := Announces.spelled small there fun one => by simp [one] at long
        rwa [encode_of_le long, same] at spelled
  · intro announced
    cases announced with
    | own below => exact decode_self below _
    | spelled small there plain =>
      obtain ⟨isList, payload⟩ := header
      simp only at small there plain
      -- The length alone tells in which range the header is written.
      by_cases short : payload < 56
      · rw [encode_of_lt short, List.singleton_append, decode_short short]
        cases isList with
        | false =>
          exact decodeShortString_eq_ok_iff.2
            ⟨rfl, rfl, there, fun one => plain (by rw [one])⟩
        | true => exact fits_of_le there
      · have long : 56 ≤ payload := by omega
        have width := List.length_pos_iff.2 (Bytes.ofNat_ne_nil (show 0 < payload by omega))
        rw [encode_of_le long, List.cons_append, decode_long width (length_width_le small),
          decodeLong_ofNat long there]

theorem decode_encode_list {payload : Nat} {left : Bytes} (small : payload < 2 ^ 64)
    (there : payload ≤ left.length) :
    decode ((Header.mk true payload).encode ++ left) = .ok (⟨true, payload⟩, left) :=
  decode_eq_ok_iff.2 (.spelled small there (by simp))

end Header

theorem payloadReader_list_eq_ok_iff {input payload rest : Bytes} :
    (payloadReader true).read input = .ok (payload, rest) ↔
      payload.length < 2 ^ 64 ∧
        input = (Header.mk true payload.length).encode ++ (payload ++ rest) := by
  constructor
  · intro h
    simp only [payloadReader] at h
    split at h
    · simp at h
    · next header left found =>
      split at h
      · next sort =>
        simp only [Except.ok.injEq, Prod.mk.injEq] at h
        obtain ⟨rfl, rfl⟩ := h
        -- A byte that announces itself is a string, so a list has its header in front.
        cases Header.decode_eq_ok_iff.1 found with
        | own below => simp at sort
        | spelled small there plain =>
          have length := List.length_take_of_le there
          rw [length, List.take_append_drop, ← sort]
          exact ⟨small, rfl⟩
      · simp at h
  · rintro ⟨small, rfl⟩
    have there : payload.length ≤ (payload ++ rest).length := by simp
    simp [payloadReader, Header.decode_encode_list small there]

theorem encodeString_of_lt {byte : UInt8} (below : byte < 0x80) : encodeString [byte] = [byte] := by
  simp [encodeString, below]

theorem encodeString_of_not_own {payload : Bytes}
    (plain : payload.length = 1 → ∀ byte ∈ payload.head?, ¬ byte < 0x80) :
    encodeString payload = (Header.mk false payload.length).encode ++ payload := by
  unfold encodeString
  split
  · next byte => simp [plain rfl byte (by simp)]
  · rfl

theorem announces_encodeString {payload : Bytes} (small : payload.length < 2 ^ 64) (rest : Bytes) :
    Header.Announces (encodeString payload ++ rest) ⟨false, payload.length⟩ (payload ++ rest) := by
  by_cases plain : payload.length = 1 → ∀ byte ∈ payload.head?, ¬ byte < 0x80
  · rw [encodeString_of_not_own plain, List.append_assoc]
    refine .spelled small (by simp) fun one byte mem => ?_
    have single : payload.length = 1 := congrArg Header.payload one
    apply plain single byte
    cases payload with
    | nil => simp at single
    | cons first payload => exact mem
  · simp only [Classical.not_imp, Classical.not_forall, Decidable.not_not] at plain
    obtain ⟨single, byte, first, below⟩ := plain
    obtain ⟨other, rfl⟩ := List.length_eq_one_iff.1 single
    obtain rfl : other = byte := by simpa using first
    rw [encodeString_of_lt below]
    exact .own below

theorem payloadReader_string_eq_ok_iff {input payload rest : Bytes} :
    (payloadReader false).read input = .ok (payload, rest) ↔
      payload.length < 2 ^ 64 ∧ input = encodeString payload ++ rest := by
  constructor
  · intro h
    simp only [payloadReader] at h
    split at h
    · simp at h
    · next header left found =>
      split at h
      · next sort =>
        simp only [Except.ok.injEq, Prod.mk.injEq] at h
        obtain ⟨rfl, rfl⟩ := h
        cases Header.decode_eq_ok_iff.1 found with
        | own below => simp [encodeString_of_lt below]
        | spelled small there plain =>
          obtain ⟨isList, size⟩ := header
          obtain rfl : isList = false := sort
          simp only at small there plain ⊢
          have length := List.length_take_of_le there
          -- A single byte behind a header is one that could not have stood for itself.
          have marked : (left.take size).length = 1 →
              ∀ byte ∈ (left.take size).head?, ¬ byte < 0x80 := by
            rw [length]
            intro one byte mem
            apply plain (by rw [one]) byte
            rwa [List.head?_take, if_neg (by omega)] at mem
          refine ⟨by omega, ?_⟩
          rw [encodeString_of_not_own marked, length, List.append_assoc, List.take_append_drop]
      · simp at h
  · rintro ⟨small, rfl⟩
    simp [payloadReader, Header.decode_eq_ok_iff.2 (announces_encodeString small rest)]

theorem length_encodeString (payload : Bytes) :
    (encodeString payload).length = stringLength payload := by
  unfold encodeString stringLength
  split
  · split
    · rfl
    · rw [List.length_append, Header.length_encode]
      rfl
  · rw [List.length_append, Header.length_encode]

theorem length_le_encodeString (payload : Bytes) :
    payload.length ≤ (encodeString payload).length := by
  unfold encodeString
  split
  · split <;> simp
  · simp

end TxEnvelope.Rlp
