import TxEnvelope.Proofs.Json.Consumption
import TxEnvelope.Proofs.Record.Shape

/-! How much a record can hold.

Each field weighs as much as its value takes in canonical bytes, up to a
constant, and what is read as a record weighs no more than its text has
characters.
-/

set_option autoImplicit false

namespace TxEnvelope

open Json

namespace Quantity

/-- The bytes that a quantity takes. -/
def bulk (q : Quantity) : Nat :=
  q.toBytes.length

theorem bulk_le_of_parse {text : List Char} {q : Quantity} (read : parse text = .ok q) :
    q.bulk ≤ text.length := by
  obtain ⟨marker, -, digits, rfl, -, valid, denoted⟩ := parse_eq_ok_iff.1 read
  -- As many digits in base 16 denote less than in base 256.
  have bound : q.toNat < 256 ^ digits.length := by
    rw [denoted]
    exact Nat.lt_of_lt_of_le (Hex.number_lt valid) (Nat.pow_le_pow_left (by decide) _)
  have bytes : q.bulk ≤ digits.length := (Bytes.length_ofNat_le_iff _ _).2 bound
  rw [List.length_append]
  exact Nat.le_add_left_of_le bytes

theorem consumes_reader : Consumes reader bulk := by
  refine consumes_single fun token q accepted => ?_
  cases token with
  | text content =>
    rw [mapError_eq_ok_iff] at accepted
    exact Nat.le_add_right_of_le (bulk_le_of_parse accepted)
  | _ => cases accepted

end Quantity

namespace Bytes

theorem consumes_readerWith {items : ValueReader Bytes}
    (consumes : Consumes items fun bytes => 2 * bytes.length + 1) :
    Consumes (readerWith items) fun bytes => 2 * bytes.length + 1 := by
  intro input bytes rest read
  simp only [readerWith] at read
  split at read
  · next content behind taken =>
    obtain ⟨bytes', converted, same⟩ := map_eq_ok_iff.1 read
    cases same
    have size := size_of_next taken
    have decoded : Hex.decode? content = some bytes := by
      simp only [textValue] at converted
      split at converted
      · cases converted
      · next found => exact found.trans (congrArg some (Except.ok.inj converted))
    have short := Hex.length_of_decode? decoded
    rw [Token.size] at size
    show 2 * bytes.length + 1 + rest.length ≤ input.length
    omega
  · exact consumes read

theorem consumes_reader : Consumes reader fun bytes => 2 * bytes.length + 1 := by
  exact consumes_readerWith (consumes_one byteReader).array_const

end Bytes

namespace FixedBytes

theorem length_of_moreBytes_eq {count : Nat} {input rest : List Char} {bytes : Bytes}
    (read : moreBytes count input = .ok (bytes, rest)) :
    2 * bytes.length + 1 + rest.length ≤ input.length := by
  fun_induction moreBytes count input generalizing bytes rest with
  | case1 | case3 | case4 | case6 => cases read
  | case2 input left ended =>
    cases read
    have less := length_of_endArray ended
    rw [List.length_nil]
    omega
  | case5 input count mid taken byte left first bytes' rest' more ih =>
    cases read
    have comma := length_of_next taken
    have one := Bytes.byteReader.shrinks first
    have others := ih more
    rw [List.length_cons]
    omega

theorem consumes_itemReader (width : Nat) :
    Consumes (itemReader width) fun bytes => 2 * bytes.length + 1 := by
  intro input bytes rest read
  simp only [itemReader] at read
  split at read
  · next inside opened =>
    exact Nat.le_trans (length_of_moreBytes_eq read) (length_of_next opened)
  · cases read

theorem consumes_reader (width : Nat) : Consumes (reader width) fun _ => 2 * width + 1 := by
  refine (Bytes.consumes_readerWith (consumes_itemReader width)).refine fun bytes fixed made => ?_
  split at made
  · cases made
  · next found =>
    cases made
    have length := fixed.length_eq
    rw [bytes_of_ofBytes? found] at length
    show 2 * width + 1 ≤ 2 * bytes.length + 1
    omega

end FixedBytes

namespace AccessEntry

/-- The bytes that an entry takes, with every header at its longest, and one more. -/
def bulk (entry : AccessEntry) : Nat :=
  39 + 33 * entry.storageKeys.length + 1

def Part.weight : (part : Part) → part.Value → Nat
  | .address, _ => 41
  | .storageKeys, keys => 66 * keys.length + 1

theorem Part.consumes_reader (part : Part) : Consumes (schema.reader part) part.weight := by
  cases part with
  | address => exact FixedBytes.consumes_reader 20
  | storageKeys => exact (FixedBytes.consumes_reader 32).array_const

theorem consumes_reader : Consumes reader fun entry => 39 + 33 * entry.storageKeys.length := by
  refine (consumes_members Part.consumes_reader).refine fun found entry made => ?_
  have distinct : [Part.address, Part.storageKeys].Nodup := by decide
  have weighed : (schema.value? Part.address found).elim 0 (Part.weight .address) +
      ((schema.value? Part.storageKeys found).elim 0 (Part.weight .storageKeys) + 0) ≤
      Schema.weigh Part.weight found := @sum_value?_le schema Part.weight _ distinct found
  unfold ofMembers at made
  split at made
  · next address keys one two =>
    cases made
    rw [one, two] at weighed
    have parts : 41 + (66 * List.length (α := Hash) keys + 1 + 0) ≤
        Schema.weigh Part.weight found := weighed
    show 39 + 33 * List.length (α := Hash) keys ≤ Schema.weigh Part.weight found + 1
    omega
  · cases made

end AccessEntry

namespace Shape

def bulk : (shape : Shape) → shape.Value → Nat
  | .quantity, q => q.bulk
  | .bytes, content => content.length
  | .accessList, entries => (entries.map AccessEntry.bulk).sum
  | .hashes, items => 33 * items.length
  | .integer, _ | .address, _ | .hash, _ | .flag, _ => 0

theorem consumes_reader (shape : Shape) : Consumes shape.reader shape.bulk := by
  cases shape with
  | integer | flag => exact (consumes_one _).mono fun _ => Nat.zero_le _
  | address | hash => exact (FixedBytes.consumes_reader _).mono fun _ => Nat.zero_le _
  | quantity => exact Quantity.consumes_reader
  | bytes =>
    refine Bytes.consumes_reader.mono fun content => ?_
    rw [bulk]
    omega
  | accessList => exact AccessEntry.consumes_reader.array.mono fun _ => Nat.le_succ _
  | hashes =>
    refine (FixedBytes.consumes_reader 32).array_const.mono fun items => ?_
    rw [bulk]
    omega

end Shape

namespace Record

def bulkOf (record : Record) (field : Field) : Nat :=
  (record.get field).elim 0 field.shape.bulk

def bulk (record : Record) : Nat :=
  (Field.all.map record.bulkOf).sum

theorem consumes_fieldReader (field : Field) :
    Consumes (fieldReader field) fun value => value.elim 0 field.shape.bulk := by
  unfold fieldReader
  split
  · exact field.shape.consumes_reader.map fun _ => Nat.le_refl _
  · exact field.shape.consumes_reader.nullable

theorem elim_join {α : Type} (value : Option (Option α)) (weight : α → Nat) :
    value.join.elim 0 weight = value.elim 0 fun value => value.elim 0 weight := by
  cases value <;> rfl

theorem bulkOf_ofMembers (found : List schema.Member) (field : Field) :
    (ofMembers found).bulkOf field =
      (schema.value? field found).elim 0 fun value => value.elim 0 field.shape.bulk := by
  cases field with
  | type =>
    -- The type has a default, but it weighs nothing, be it given or not.
    show 0 = _
    rcases schema.value? Field.type found with _ | _ | _ <;> rfl
  | _ => exact elim_join _ _

theorem consumes_reader : Consumes reader bulk := by
  have members := @consumes_members schema _ consumes_fieldReader
  refine members.map fun found => ?_
  have distinct : Field.all.Nodup := by decide
  have weighed := @sum_value?_le schema
    (fun field value => value.elim 0 (Field.shape field).bulk) _ distinct found
  refine Nat.le_succ_of_le (Nat.le_trans (Nat.le_of_eq ?_) weighed)
  exact congrArg List.sum (List.map_congr_left fun field _ => bulkOf_ofMembers found field)

theorem bulk_le_of_parse {text : String} {record : Record} (read : parse text = .ok record) :
    record.bulk ≤ text.toList.length := by
  rw [parse, readText] at read
  split at read
  · cases read
  · next found rest first =>
    split at read
    · cases read
      exact Nat.le_of_add_right_le (consumes_reader first)
    · cases read

end Record

end TxEnvelope
