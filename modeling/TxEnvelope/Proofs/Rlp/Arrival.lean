import TxEnvelope.Proofs.Rlp.Scalar

/-! Reading from bytes that are still arriving.

A reader is steady if what stands behind its input never changes its answer, except
the answer that the input is too short. Items are read steadily, since an item says how
many bytes it takes and is not looked into before they are all there. So what a lawful
codec writes is too short wherever it is cut off.
-/

set_option autoImplicit false

namespace TxEnvelope

/-- More symbols behind the input change no answer but the refusal `short`. -/
structure Steady {σ ε α : Type} (short : ε) (read : List σ → Except ε (α × List σ)) : Prop where
  ok : ∀ {input : List σ} {a : α} {rest : List σ}, read input = .ok (a, rest) →
    ∀ more, read (input ++ more) = .ok (a, rest ++ more)
  error : ∀ {input : List σ} {e : ε}, read input = .error e → e ≠ short →
    ∀ more, read (input ++ more) = .error e

namespace Steady

variable {σ ε ε' α β : Type} {short : ε}

theorem read_of_cut {read : List σ → Except ε (α × List σ)} (steady : Steady short read)
    {part whole : List σ} {a : α} (found : read whole = .ok (a, [])) (start : part <+: whole)
    (strict : part ≠ whole) : read part = .error short := by
  obtain ⟨missing, rfl⟩ := start
  cases early : read part with
  | ok result =>
    obtain ⟨b, rest⟩ := result
    have later := steady.ok early missing
    rw [found] at later
    obtain ⟨-, left⟩ := Prod.mk.inj (Except.ok.inj later)
    obtain rfl : missing = [] := (List.append_eq_nil_iff.1 left.symm).2
    exact absurd (List.append_nil part).symm strict
  | error e =>
    by_cases same : e = short
    · rw [same]
    · have later := steady.error early same missing
      rw [found] at later
      cases later

theorem refuse (e : ε) : Steady short fun _ : List σ => (.error e : Except ε (α × List σ)) where
  ok := nofun
  error h _ _ := h

theorem accept (a : α) (front : List σ) :
    Steady short fun tail => (.ok (a, front ++ tail) : Except ε (α × List σ)) where
  ok {input} _ _ h more := by
    cases h
    exact congrArg (fun left => Except.ok (a, left)) (List.append_assoc front input more).symm
  error h := by cases h

theorem behind {read : List σ → Except ε (α × List σ)} (steady : Steady short read) (head : σ) :
    Steady short fun tail => read (head :: tail) where
  ok h more := steady.ok h more
  error h other more := steady.error h other more

theorem of_cons {read : List σ → Except ε (α × List σ)} (empty : read [] = .error short)
    (each : ∀ head, Steady short fun tail => read (head :: tail)) : Steady short read where
  ok {input a rest} h more := by
    cases input with
    | nil =>
      rw [empty] at h
      cases h
    | cons head tail => exact (each head).ok h more
  error {input e} h other more := by
    cases input with
    | nil =>
      rw [empty] at h
      cases h
      exact absurd rfl other
    | cons head tail => exact (each head).error h other more

theorem mapError {read : List σ → Except ε (α × List σ)} (steady : Steady short read)
    (f : ε → ε') : Steady (f short) fun input => (read input).mapError f where
  ok h more := mapError_eq_ok_iff.2 (steady.ok (mapError_eq_ok_iff.1 h) more)
  error {input e'} h other more := by
    cases found : read input with
    | ok result =>
      rw [found] at h
      cases h
    | error e =>
      rw [found] at h
      cases h
      have same : e ≠ short := fun same => other (congrArg f same)
      simp only [steady.error found same more]
      rfl

theorem refine {reader : Reader σ ε α} (steady : Steady short reader.read)
    (check : α → Except ε β) : Steady short (reader.refine check).read where
  ok h more := by
    obtain ⟨a, read, checked⟩ := Reader.refine_eq_ok_iff.1 h
    exact Reader.refine_eq_ok_iff.2 ⟨a, steady.ok read more, checked⟩
  error h other more := by
    rcases Reader.refine_eq_error_iff.1 h with failed | ⟨a, rest, read, refused⟩
    · exact Reader.refine_eq_error_iff.2 (.inl (steady.error failed other more))
    · exact Reader.refine_eq_error_iff.2 (.inr ⟨a, _, steady.ok read more, refused⟩)

theorem map {reader : Reader σ ε α} (steady : Steady short reader.read) (f : α → β) :
    Steady short (reader.map f).read :=
  steady.refine _

theorem both {first : Reader σ ε α} {second : Reader σ ε β} (one : Steady short first.read)
    (two : Steady short second.read) : Steady short (first.both second).read where
  ok h more := by
    obtain ⟨mid, left, right⟩ := Reader.both_eq_ok_iff.1 h
    exact Reader.both_eq_ok_iff.2 ⟨_, one.ok left more, two.ok right more⟩
  error h other more := by
    rcases Reader.both_eq_error_iff.1 h with failed | ⟨a, mid, left, failed⟩
    · exact Reader.both_eq_error_iff.2 (.inl (one.error failed other more))
    · exact Reader.both_eq_error_iff.2
        (.inr ⟨a, _, one.ok left more, two.error failed other more⟩)

end Steady

namespace Rlp

namespace Header

theorem fits_steady (header : Header) : Steady .inputTooShort (fits header) where
  ok {input a rest} h more := by
    obtain ⟨rfl, rfl, there⟩ := fits_eq_ok h
    refine fits_of_le ?_
    rw [List.length_append]
    omega
  error {input e} h other more := by
    unfold fits at h
    split at h
    · cases h
      exact absurd rfl other
    · cases h

theorem decodeShortString_steady (payload : Nat) :
    Steady .inputTooShort (decodeShortString payload) := by
  by_cases one : payload = 1
  · subst one
    refine .of_cons rfl fun byte => ?_
    by_cases below : byte < 0x80
    · simp only [decodeShortString, if_true, if_pos below]
      exact .refuse _
    · simp only [decodeShortString, if_true, if_neg below]
      exact (fits_steady ⟨false, 1⟩).behind byte
  · have same : decodeShortString payload = fits ⟨false, payload⟩ := by
      funext rest
      exact if_neg one
    rw [same]
    exact fits_steady ⟨false, payload⟩

theorem decodeLong_steady {isList : Bool} {width : Nat} (pos : 0 < width) :
    Steady .inputTooShort (decodeLong isList width) where
  ok {input header left} h more := by
    obtain ⟨rfl, long, there, rfl, rfl⟩ := eq_of_decodeLong pos h
    rw [List.append_assoc]
    refine decodeLong_ofNat long ?_
    rw [List.length_append]
    omega
  error {input e} h other more := by
    -- Both runs look at the same bytes for the length, so the checks on it come out alike.
    unfold decodeLong at h ⊢
    split at h
    · cases h
      exact absurd rfl other
    · next enough =>
      obtain ⟨byte, tail, rfl⟩ : ∃ byte tail, input = byte :: tail :=
        List.exists_cons_of_length_pos (by omega)
      have lead : (byte :: tail ++ more).head? = (byte :: tail).head? := rfl
      rw [if_neg (by rw [List.length_append]; omega), lead,
        List.take_append_of_le_length (by omega), List.drop_append_of_le_length (by omega)]
      split at h
      · next zero =>
        rw [if_pos zero]
        exact h
      · next lead =>
        rw [if_neg lead]
        dsimp only at h ⊢
        split at h
        · next short =>
          rw [if_pos short]
          exact h
        · next long =>
          rw [if_neg long]
          exact (fits_steady _).error h other more

theorem decode_steady : Steady .inputTooShort decode := by
  refine .of_cons rfl fun byte => ?_
  rcases code_cases byte with below | ⟨isList, payload, short, rfl⟩ | ⟨isList, width, pos, le, rfl⟩
  · simp only [decode_self below]
    exact .accept _ [byte]
  · simp only [decode_short short]
    cases isList with
    | false => exact decodeShortString_steady payload
    | true => exact fits_steady ⟨true, payload⟩
  · simp only [decode_long pos le]
    exact decodeLong_steady pos

end Header

theorem payloadReader_steady (isList : Bool) :
    Steady .inputTooShort (payloadReader isList).read where
  ok {input payload rest} h more := by
    simp only [payloadReader] at h ⊢
    split at h
    · cases h
    · next header left found =>
      -- The payload is cut off inside the bytes that were there before.
      have there := (Header.decode_bounds found).1
      rw [Header.decode_steady.ok found more]
      dsimp only
      split at h
      · next sort =>
        cases h
        rw [if_pos sort, List.take_append_of_le_length there, List.drop_append_of_le_length there]
      · cases h
  error {input e} h other more := by
    simp only [payloadReader] at h ⊢
    split at h
    · next failed =>
      cases h
      rw [Header.decode_steady.error failed other more]
    · next header left found =>
      rw [Header.decode_steady.ok found more]
      dsimp only
      split at h
      · cases h
      · next sort =>
        rw [if_neg sort]
        exact h

namespace Codec

variable {α β : Type}

theorem string_steady (ofPayload : Bytes → Except Error α) :
    Steady .inputTooShort ((payloadReader false).refine ofPayload).read :=
  (payloadReader_steady false).refine ofPayload

theorem list_steady (codec : Codec α) : Steady .inputTooShort codec.list.read :=
  (payloadReader_steady true).refine codec.readAll

theorem enclosed_steady (codec : Codec α) : Steady .inputTooShort codec.enclosed.read :=
  (payloadReader_steady true).refine codec.readExactly

section Enclosed

variable {codec : Codec α} {normal : α → α}

/-- Bytes of the payload behind the items of a value show how far the items went. -/
theorem enclosed_of_surplus (laws : codec.Lawful normal) (a : α) {surplus : Bytes}
    (more : surplus ≠ []) (small : (codec.encode a ++ surplus).length < 2 ^ 64) (rest : Bytes) :
    codec.enclosed.read ((Header.mk true (codec.encode a ++ surplus).length).encode
        ++ (codec.encode a ++ surplus ++ rest))
      = .error
          (.listLengthMismatch (codec.encode a ++ surplus).length (codec.encode a).length) := by
  refine Reader.refine_eq_error_iff.2 (.inr ⟨codec.encode a ++ surplus, rest, ?_, ?_⟩)
  · exact payloadReader_list_eq_ok_iff.2 ⟨small, rfl⟩
  · rw [List.length_append] at small ⊢
    rw [readExactly, laws.read_encode a surplus (by omega)]
    dsimp only
    rw [if_neg more, List.length_append, Nat.add_sub_cancel]

/-- Items that are cut off by the end of the payload are too short, whatever comes behind it. -/
theorem enclosed_of_cut (laws : codec.Lawful normal) (steady : Steady .inputTooShort codec.read)
    {a : α} (small : (codec.encode a).length < 2 ^ 64) {part : Bytes}
    (start : part <+: codec.encode a) (strict : part ≠ codec.encode a) (rest : Bytes) :
    codec.enclosed.read ((Header.mk true part.length).encode ++ (part ++ rest))
      = .error .inputTooShort := by
  have whole := laws.read_encode a [] small
  rw [List.append_nil] at whole
  refine Reader.refine_eq_error_iff.2 (.inr ⟨part, rest, ?_, ?_⟩)
  · exact payloadReader_list_eq_ok_iff.2 ⟨Nat.lt_of_le_of_lt start.length_le small, rfl⟩
  · rw [readExactly, steady.read_of_cut whole start strict]

end Enclosed

theorem quantity_steady : Steady .inputTooShort quantity.read := string_steady _

theorem uint64_steady : Steady .inputTooShort uint64.read := string_steady _

theorem uint256_steady : Steady .inputTooShort uint256.read := string_steady _

theorem flag_steady : Steady .inputTooShort flag.read := string_steady _

theorem bytes_steady : Steady .inputTooShort bytes.read := string_steady _

theorem fixedBytes_steady (width : Nat) : Steady .inputTooShort (fixedBytes width).read :=
  string_steady _

theorem optionalQuantity_steady : Steady .inputTooShort optionalQuantity.read :=
  quantity_steady.map _

theorem optionalAddress_steady : Steady .inputTooShort optionalAddress.read := by
  refine .of_cons rfl fun byte => ?_
  by_cases absent : byte = 0x80
  · simp only [optionalAddress, if_pos absent]
    exact .accept none []
  · simp only [optionalAddress, if_neg absent]
    exact ((fixedBytes_steady 20).map some).behind byte

end Codec

end Rlp

end TxEnvelope
