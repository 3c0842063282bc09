import TxEnvelope.Proofs.Envelope
import TxEnvelope.Proofs.Record.Size
import TxEnvelope.Proofs.Transaction.Length

/-! Canonical bytes are hardly longer than the text they come from.

Every item takes what its value weighs and a constant more, so a transaction
that is read from a text has canonical bytes of about the length of the text at
most.
-/

set_option autoImplicit false

namespace TxEnvelope

open Rlp Rlp.Codec

namespace Rlp

theorem Header.size_le {payload : Nat} (small : payload < 2 ^ 64) : Header.size payload ≤ 9 := by
  unfold size
  split
  · omega
  · have width := length_width_le small
    rw [Bytes.length_ofNat (by omega)] at width
    omega

theorem stringLength_le {payload : Bytes} (small : payload.length < 2 ^ 64) :
    stringLength payload ≤ payload.length + 9 := by
  have header := Header.size_le small
  unfold stringLength
  split
  · split <;> simp
  · omega

theorem integerLength_le {n width : Nat} (narrow : n < 256 ^ width) (short : width ≤ 55) :
    integerLength n ≤ width + 9 := by
  have fits : n < 256 ^ 55 := Nat.lt_of_lt_of_le narrow (Nat.pow_le_pow_right (by decide) short)
  have length := (Bytes.length_ofNat_le_iff n width).2 narrow
  have told := @stringLength_le (Bytes.ofNat n) (by omega)
  rw [integerLength_eq fits]
  omega

theorem Header.size_add_le {payload bound : Nat} (le : payload ≤ bound) (small : bound < 2 ^ 64) :
    Header.size payload + payload ≤ bound + 9 := by
  have header := @size_le payload (by omega)
  omega

theorem Codec.totalLength_const {α : Type} {codec : Codec α} {width : Nat}
    (same : ∀ a, codec.length a = width) (items : List α) :
    codec.totalLength items = width * items.length := by
  induction items with
  | nil => rfl
  | cons a items ih =>
    rw [totalLength, List.foldr_cons, same, ← totalLength, ih, List.length_cons, Nat.mul_succ,
      Nat.add_comm]

theorem Codec.length_fixedBytes {width : Nat} (some_ : width ≠ 1) (short : width < 56)
    (fixed : FixedBytes width) : (fixedBytes width).length fixed = width + 1 := by
  have length := fixed.length_eq
  show stringLength fixed.bytes = width + 1
  rw [stringLength_of_length_ne_one (by omega), Header.size, if_pos (by omega)]
  omega

end Rlp

theorem AccessEntry.length_le {entry : AccessEntry} (small : entry.bulk < 2 ^ 63) :
    AccessEntry.fields.measured.length entry ≤ entry.bulk := by
  rw [bulk] at small
  have address : (fixedBytes 20).length entry.address = 21 :=
    length_fixedBytes (by decide) (by decide) _
  have total := totalLength_const (@length_fixedBytes 32 (by decide) (by decide)) entry.storageKeys
  have keys := Header.size_add_le (Nat.le_of_eq total) (by omega)
  -- The header of the keys is counted here, that of the entry itself comes on top.
  have fields : AccessEntry.fields.length entry ≤ 30 + 33 * entry.storageKeys.length := by
    show (fixedBytes 20).length entry.address + (fixedBytes 32).list.length entry.storageKeys ≤ _
    rw [address]
    exact Nat.le_trans (Nat.add_le_add_left keys 21) (by omega)
  exact Nat.le_trans (Header.size_add_le fields (by omega)) (by rw [bulk]; omega)

theorem AccessList.length_le {list : AccessList}
    (small : (list.map AccessEntry.bulk).sum < 2 ^ 63) :
    AccessList.codec.length list ≤ (list.map AccessEntry.bulk).sum + 9 := by
  have entries :
      AccessEntry.fields.measured.totalLength list ≤ (list.map AccessEntry.bulk).sum := by
    induction list with
    | nil => exact Nat.le_refl _
    | cons entry list ih =>
      rw [List.map_cons, List.sum_cons] at small ⊢
      rw [totalLength, List.foldr_cons, ← totalLength]
      have one := @AccessEntry.length_le entry (by omega)
      have others := ih (by omega)
      omega
  exact Header.size_add_le entries (by omega)

namespace Transaction

/-- The fields of a record that the items of a body carry, in their order. -/
def carried : Transaction → List Field
  | .legacy _ => [.nonce, .gasPrice, .gas, .recipient, .value, .input, .v, .r, .s]
  | .accessList _ =>
    [.chainId, .nonce, .gasPrice, .gas, .recipient, .value, .input, .accessList, .v, .r, .s]
  | .dynamicFee _ =>
    [.chainId, .nonce, .maxPriorityFeePerGas, .maxFeePerGas, .gas, .recipient, .value, .input,
      .accessList, .v, .r, .s]
  | .blob _ =>
    [.chainId, .nonce, .maxPriorityFeePerGas, .maxFeePerGas, .gas, .recipient, .value, .input,
      .accessList, .maxFeePerDataGas, .blobVersionedHashes, .v, .r, .s]
  | .deposit _ | .annotatedDeposit _ _ =>
    [.sourceHash, .sender, .recipient, .mint, .value, .gas, .isSystemTx, .input]
  | .offchain _ => [.sourceHash, .sender, .recipient, .mint, .value, .gas, .isSystemTx, .data]

theorem length_carried (tx : Transaction) : tx.carried.length = tx.items.length := by
  cases tx <;> rfl

theorem sum_carried_le (tx : Transaction) (weight : Field → Nat) :
    (tx.carried.map weight).sum ≤ (Field.all.map weight).sum := by
  cases tx <;>
    simp only [carried, Field.all, List.map_cons, List.map_nil, List.sum_cons, List.sum_nil] <;>
    omega

end Transaction

section Items

theorem told_uint64_le (n : UInt64) : (uint64.item n).told ≤ 64 :=
  Nat.le_trans (@integerLength_le n.toNat 8 n.toNat_lt (by decide)) (by decide)

theorem told_uint256_le (n : UInt256) : (uint256.item n).told ≤ 64 :=
  Nat.le_trans (@integerLength_le n.toNat 32 n.isLt (by decide)) (by decide)

theorem told_flag_le (b : Bool) : (flag.item b).told ≤ 64 := by
  show 1 ≤ 64
  decide

theorem told_hash_le (hash : Hash) : ((fixedBytes 32).item hash).told ≤ 64 := by
  have told : ((fixedBytes 32).item hash).told = 33 := length_fixedBytes (by decide) (by decide) _
  omega

theorem told_address_le (address : Address) : ((fixedBytes 20).item address).told ≤ 64 := by
  have told : ((fixedBytes 20).item address).told = 21 :=
    length_fixedBytes (by decide) (by decide) _
  omega

theorem told_recipient_le (recipient : Option Address) :
    (optionalAddress.item recipient).told ≤ 64 := by
  cases recipient with
  | none => exact Nat.le_trans (by decide) (Nat.le_add_left 64 0)
  | some address => exact told_address_le address

theorem told_bytes_le {content : Bytes} (small : content.length < 2 ^ 63) :
    (bytes.item content).told ≤ content.length + 64 := by
  have told := @stringLength_le content (by omega)
  exact Nat.le_trans told (Nat.add_le_add_left (by decide) _)

theorem told_quantity_le {q : Quantity} (small : q.bulk < 2 ^ 63) :
    (quantity.item q).told ≤ q.bulk + 64 :=
  told_bytes_le small

theorem told_accessList_le {list : AccessList} (small : (list.map AccessEntry.bulk).sum < 2 ^ 63) :
    (AccessList.codec.item list).told ≤ (list.map AccessEntry.bulk).sum + 64 :=
  Nat.le_trans (AccessList.length_le small) (Nat.add_le_add_left (by decide) _)

theorem told_hashes_le {hashes : List Hash} (small : 33 * hashes.length < 2 ^ 63) :
    ((fixedBytes 32).list.item hashes).told ≤ 33 * hashes.length + 64 := by
  have total := totalLength_const (@length_fixedBytes 32 (by decide) (by decide)) hashes
  have told := Header.size_add_le (Nat.le_of_eq total) (by omega)
  exact Nat.le_trans told (Nat.add_le_add_left (by decide) _)

end Items

theorem weight_le_of_some {α : Type} {weight : α → Nat} {value : Option α} {a : α}
    (given : value = some a) : weight a ≤ value.elim 0 weight := by
  rw [given]
  exact Nat.le_refl _

namespace Record

variable {record : Record} {item : Item} {weight : Nat} {field : Field}

/-- An item that carries a field takes what the value weighs and a constant. -/
def Carries (record : Record) (item : Item) (field : Field) : Prop :=
  item.told ≤ record.bulkOf field + 64

theorem carries_of_le (bounded : item.told ≤ 64) : record.Carries item field :=
  Nat.le_trans bounded (Nat.le_add_left 64 _)

theorem carries_of_weight (small : ∀ field, record.bulkOf field < 2 ^ 63)
    (light : weight ≤ record.bulkOf field) (told : weight < 2 ^ 63 → item.told ≤ weight + 64) :
    record.Carries item field :=
  Nat.le_trans (told (Nat.lt_of_le_of_lt light (small field))) (Nat.add_le_add_right light 64)

theorem sum_told_le {items : List Item} {fields : List Field}
    (length : fields.length = items.length)
    (each : ∀ pair ∈ items.zip fields, record.Carries pair.1 pair.2) :
    (items.map Item.told).sum ≤ (fields.map record.bulkOf).sum + 64 * items.length := by
  induction items generalizing fields with
  | nil => exact Nat.zero_le _
  | cons item items ih =>
    cases fields with
    | nil => cases length
    | cons field fields =>
      rw [List.zip_cons_cons, List.forall_mem_cons] at each
      have first : item.told ≤ record.bulkOf field + 64 := each.1
      have others := ih (Nat.succ.inj length) each.2
      simp only [List.map_cons, List.sum_cons, List.length_cons]
      omega

theorem bulkOf_le_bulk (record : Record) (field : Field) : record.bulkOf field ≤ record.bulk := by
  obtain ⟨front, behind, split⟩ := List.append_of_mem field.mem_all
  rw [bulk, split, List.map_append, List.sum_append, List.map_cons, List.sum_cons]
  omega

section Small

variable (small : ∀ field, record.bulkOf field < 2 ^ 63)

include small

theorem carries_accessList {list : AccessList} (given : record.accessList.getD [] = list) :
    record.Carries (AccessList.codec.item list) .accessList := by
  refine carries_of_weight small ?_ told_accessList_le
  subst given
  show _ ≤ record.accessList.elim 0 fun list => (list.map AccessEntry.bulk).sum
  cases record.accessList <;> exact Nat.le_refl _

theorem carries_mint {mint : Option Quantity} (given : record.mint = mint) :
    record.Carries (optionalQuantity.item mint) .mint := by
  have told : (mint.getD 0).bulk < 2 ^ 63 → (optionalQuantity.item mint).told ≤ _ :=
    told_quantity_le
  refine carries_of_weight small ?_ told
  subst given
  show _ ≤ record.mint.elim 0 Quantity.bulk
  cases record.mint with
  | none => simp [Quantity.bulk, Quantity.toBytes]
  | some q => exact Nat.le_refl _

theorem carries_call {input : Option Bytes} {tx : SystemTx} {field : Field}
    (described : record.DescribesCall input tx)
    (content : tx.input.length ≤ record.bulkOf field) :
    ∀ pair ∈ (Transaction.deposit tx).items.zip
      [.sourceHash, .sender, .recipient, .mint, .value, .gas, .isSystemTx, field],
      record.Carries pair.1 pair.2 := by
  obtain ⟨-, -, -, mint, value, -, -, -⟩ := described
  simp only [Transaction.items, List.zip_cons_cons, List.forall_mem_cons]
  exact ⟨carries_of_le (told_hash_le _), carries_of_le (told_address_le _),
    carries_of_le (told_recipient_le _), carries_mint small mint,
    carries_of_weight small (weight_le_of_some value) told_quantity_le,
    carries_of_le (told_uint64_le _), carries_of_le (told_flag_le _),
    carries_of_weight small content told_bytes_le, List.forall_mem_nil _⟩

theorem Describes.carries {tx : Transaction} (described : record.Describes tx) :
    ∀ pair ∈ tx.items.zip tx.carried, record.Carries pair.1 pair.2 := by
  have ofSome {field : Field} {value : Option Quantity} {q : Quantity}
      (own : record.bulkOf field = value.elim 0 Quantity.bulk) (given : value = some q) :
      record.Carries (quantity.item q) field :=
    carries_of_weight small (own ▸ weight_le_of_some given) told_quantity_le
  -- The items of a kind stand as its fields do in `carried`: the narrow ones are bounded alone, the
  -- others by the weight of their field.
  cases tx with
  | legacy tx =>
    obtain ⟨-, price, -, -, value, input, triple⟩ := described
    obtain ⟨v, r, s⟩ := signature?_eq_some_iff.1 triple
    simp only [Transaction.items, Transaction.carried, List.zip_cons_cons, List.forall_mem_cons]
    exact ⟨carries_of_le (told_uint64_le _), ofSome rfl price, carries_of_le (told_uint64_le _),
      carries_of_le (told_recipient_le _), ofSome rfl value,
      carries_of_weight small (weight_le_of_some input) told_bytes_le,
      ofSome rfl v, ofSome rfl r, ofSome rfl s, List.forall_mem_nil _⟩
  | accessList tx =>
    obtain ⟨chain, -, price, -, -, value, input, list, triple⟩ := described
    obtain ⟨v, r, s⟩ := signature?_eq_some_iff.1 triple
    simp only [Transaction.items, Transaction.carried, List.zip_cons_cons, List.forall_mem_cons]
    exact ⟨ofSome rfl chain, carries_of_le (told_uint64_le _), ofSome rfl price,
      carries_of_le (told_uint64_le _), carries_of_le (told_recipient_le _), ofSome rfl value,
      carries_of_weight small (weight_le_of_some input) told_bytes_le,
      carries_accessList small list, ofSome rfl v, ofSome rfl r, ofSome rfl s,
      List.forall_mem_nil _⟩
  | dynamicFee tx =>
    obtain ⟨chain, -, tip, cap, -, -, value, input, list, triple⟩ := described
    obtain ⟨v, r, s⟩ := signature?_eq_some_iff.1 triple
    simp only [Transaction.items, Transaction.carried, List.zip_cons_cons, List.forall_mem_cons]
    exact ⟨ofSome rfl chain, carries_of_le (told_uint64_le _), ofSome rfl tip, ofSome rfl cap,
      carries_of_le (told_uint64_le _), carries_of_le (told_recipient_le _), ofSome rfl value,
      carries_of_weight small (weight_le_of_some input) told_bytes_le,
      carries_accessList small list, ofSome rfl v, ofSome rfl r, ofSome rfl s,
      List.forall_mem_nil _⟩
  | blob tx =>
    -- All numbers of a blob transaction have a bounded width.
    obtain ⟨-, -, -, -, -, -, -, input, list, -, hashes, -⟩ := described
    simp only [Transaction.items, Transaction.carried, List.zip_cons_cons, List.forall_mem_cons]
    exact ⟨carries_of_le (told_uint256_le _), carries_of_le (told_uint64_le _),
      carries_of_le (told_uint256_le _), carries_of_le (told_uint256_le _),
      carries_of_le (told_uint64_le _), carries_of_le (told_recipient_le _),
      carries_of_le (told_uint256_le _),
      carries_of_weight small (weight_le_of_some input) told_bytes_le,
      carries_accessList small list, carries_of_le (told_uint256_le _),
      carries_of_weight small (weight_le_of_some hashes) told_hashes_le,
      carries_of_le (told_uint256_le _), carries_of_le (told_uint256_le _),
      carries_of_le (told_uint256_le _), List.forall_mem_nil _⟩
  | deposit tx | annotatedDeposit tx nonce =>
    obtain ⟨call, -⟩ := described
    have input := call.2.2.2.2.2.2.2
    exact carries_call small call (weight_le_of_some input)
  | offchain tx =>
    have input := described.2.2.2.2.2.2.2
    exact carries_call small described (weight_le_of_some input)

end Small

theorem Describes.fieldsLength_le {tx : Transaction} (described : record.Describes tx)
    (light : record.bulk < 2 ^ 63) :
    tx.fieldsLength ≤ record.bulk + 64 * 14 := by
  have small := fun field => Nat.lt_of_le_of_lt (record.bulkOf_le_bulk field) light
  have summed := sum_told_le tx.length_carried (described.carries small)
  have once := tx.sum_carried_le record.bulkOf
  have few : tx.items.length ≤ 14 := by
    cases tx <;> simp [Transaction.items]
  rw [Transaction.fieldsLength_eq_sum]
  rw [← bulk] at once
  omega

end Record

/-- What is read from a text is written in fewer bytes than can be counted in 64 bits. -/
theorem Envelope.length_encode_lt {text : String} {envelope : Envelope}
    (short : text.toList.length < 2 ^ 63) (read : ofJson text = .ok envelope) :
    envelope.transaction.encode.length < 2 ^ 64 := by
  unfold ofJson at read
  split at read
  · cases read
  · next record parsed =>
    obtain ⟨tx, built, rfl⟩ := map_eq_ok_iff.1 read
    obtain ⟨-, -, described⟩ := Record.toTransaction_eq_ok_iff.1 built
    have light := Record.bulk_le_of_parse parsed
    have fields := described.fieldsLength_le (by omega)
    have header := @Header.size_le tx.fieldsLength (by omega)
    show tx.encode.length < 2 ^ 64
    rw [Transaction.encode, Transaction.encodeBody_eq, List.length_append, List.length_append,
      Header.length_encode, Transaction.length_encodeFields]
    have flag : tx.typeFlag.toList.length ≤ 1 := by
      cases tx.typeFlag <;> simp
    dsimp only
    omega

end TxEnvelope
