import TxEnvelope.Proofs.Network

/-! The lengths that are told beforehand are those of what is written.

The length of a body is summed up from the lengths of its items before any of
them is written, and its header names that sum. Term by term it is what the
items take, so every header names exactly the payload behind it.
-/

set_option autoImplicit false

namespace TxEnvelope

open Rlp

namespace Rlp

/-- An item of a list with the length that is told for it. -/
structure Item where
  told : Nat
  written : Bytes

def Item.IsExact (item : Item) : Prop :=
  item.told = item.written.length

def Codec.item {α : Type} (codec : Codec α) (a : α) : Item :=
  ⟨codec.length a, codec.encode a⟩

theorem Codec.Lawful.item_isExact {α : Type} {codec : Codec α} {normal : α → α}
    (laws : codec.Lawful normal) (a : α) : (codec.item a).IsExact :=
  (laws.length_encode a).symm

/-- A list as it is written, and what is inside it. -/
structure Frame where
  written : Bytes
  payload : Bytes

def Frame.IsNamed (frame : Frame) : Prop :=
  frame.written = (Header.mk true frame.payload.length).encode ++ frame.payload

theorem Frame.IsNamed.length_le {frame : Frame} (named : frame.IsNamed) :
    frame.payload.length ≤ frame.written.length := by
  rw [named, List.length_append]
  exact Nat.le_add_left _ _

theorem Frame.IsNamed.decode {frame : Frame} (named : frame.IsNamed)
    (small : frame.payload.length < 2 ^ 64) (rest : Bytes) :
    Header.decode (frame.written ++ rest)
      = .ok (⟨true, frame.payload.length⟩, frame.payload ++ rest) := by
  rw [named, List.append_assoc]
  refine Header.decode_encode_list small ?_
  rw [List.length_append]
  exact Nat.le_add_right _ _

def Codec.listFrame {α : Type} (codec : Codec α) (items : List α) : Frame :=
  ⟨codec.list.encode items, items.flatMap codec.encode⟩

theorem Codec.Lawful.listFrame_isNamed {α : Type} {codec : Codec α} {normal : α → α}
    (laws : codec.Lawful normal) (items : List α) : (codec.listFrame items).IsNamed := by
  rw [Frame.IsNamed, listFrame, Codec.encode_list, laws.length_flatMap]

end Rlp

open Rlp.Codec

namespace Transaction

def items : Transaction → List Item
  | .legacy tx =>
    [uint64.item tx.nonce, quantity.item tx.gasPrice, uint64.item tx.gasLimit,
      optionalAddress.item tx.recipient, quantity.item tx.value, bytes.item tx.input,
      quantity.item tx.signature.v, quantity.item tx.signature.r, quantity.item tx.signature.s]
  | .accessList tx =>
    [quantity.item tx.chainId, uint64.item tx.nonce, quantity.item tx.gasPrice,
      uint64.item tx.gasLimit, optionalAddress.item tx.recipient, quantity.item tx.value,
      bytes.item tx.input, AccessList.codec.item tx.accessList,
      quantity.item tx.signature.v, quantity.item tx.signature.r, quantity.item tx.signature.s]
  | .dynamicFee tx =>
    [quantity.item tx.chainId, uint64.item tx.nonce, quantity.item tx.tipCap,
      quantity.item tx.feeCap, uint64.item tx.gasLimit, optionalAddress.item tx.recipient,
      quantity.item tx.value, bytes.item tx.input, AccessList.codec.item tx.accessList,
      quantity.item tx.signature.v, quantity.item tx.signature.r, quantity.item tx.signature.s]
  | .blob tx =>
    [uint256.item tx.chainId, uint64.item tx.nonce, uint256.item tx.tipCap,
      uint256.item tx.feeCap, uint64.item tx.gasLimit, optionalAddress.item tx.recipient,
      uint256.item tx.value, bytes.item tx.input, AccessList.codec.item tx.accessList,
      uint256.item tx.blobFeeCap, (fixedBytes 32).list.item tx.blobHashes,
      uint256.item tx.signature.v, uint256.item tx.signature.r, uint256.item tx.signature.s]
  | .deposit tx | .annotatedDeposit tx _ | .offchain tx =>
    [(fixedBytes 32).item tx.sourceHash, (fixedBytes 20).item tx.sender,
      optionalAddress.item tx.recipient, optionalQuantity.item tx.mint, quantity.item tx.value,
      uint64.item tx.gasLimit, flag.item tx.isSystem, bytes.item tx.input]

theorem fieldsLength_eq_sum (tx : Transaction) :
    tx.fieldsLength = (tx.items.map Item.told).sum := by
  cases tx <;> rfl

theorem encodeFields_eq_flatMap (tx : Transaction) :
    tx.encodeFields = tx.items.flatMap Item.written := by
  cases tx <;>
    simp [encodeFields, kind, content, Kind.fields, LegacyTx.fields, AccessListTx.fields,
      DynamicFeeTx.fields, BlobTx.fields, SystemTx.fields, Signature.fields, both, convert, items,
      Codec.item]

theorem items_exact (tx : Transaction) : ∀ item ∈ tx.items, item.IsExact := by
  cases tx <;>
    simp only [items, List.forall_mem_cons, List.not_mem_nil, false_implies, implies_true, and_true,
      quantity_lawful.item_isExact, uint64_lawful.item_isExact, uint256_lawful.item_isExact,
      flag_lawful.item_isExact, bytes_lawful.item_isExact, (fixedBytes_lawful _).item_isExact,
      optionalAddress_lawful.item_isExact, optionalQuantity_lawful.item_isExact,
      AccessList.codec_lawful.item_isExact, (fixedBytes_lawful _).list_id.item_isExact]

end Transaction

def AccessEntry.frames (entry : AccessEntry) : List Frame :=
  [⟨AccessEntry.fields.measured.encode entry, AccessEntry.fields.encode entry⟩,
    (fixedBytes 32).listFrame entry.storageKeys]

def AccessList.frames (list : AccessList) : List Frame :=
  AccessEntry.fields.measured.listFrame list :: list.flatMap AccessEntry.frames

theorem AccessEntry.frames_named (entry : AccessEntry) : ∀ frame ∈ entry.frames, frame.IsNamed := by
  refine List.forall_mem_cons.2 ⟨?_, List.forall_mem_singleton.2 ?_⟩
  · rw [Frame.IsNamed, encode_measured, AccessEntry.fields_lawful.length_encode]
  · exact (fixedBytes_lawful 32).listFrame_isNamed entry.storageKeys

theorem AccessEntry.frame_length_le (entry : AccessEntry) :
    ∀ frame ∈ entry.frames,
      frame.payload.length ≤ (AccessEntry.fields.measured.encode entry).length := by
  have outer := (List.forall_mem_cons.1 entry.frames_named).1.length_le
  have inner := (List.forall_mem_cons.1 (List.forall_mem_cons.1 entry.frames_named).2).1.length_le
  have keys : ((fixedBytes 32).listFrame entry.storageKeys).written.length ≤
      (AccessEntry.fields.encode entry).length := by
    show _ ≤ ((fixedBytes 20).encode entry.address ++ _).length
    rw [List.length_append]
    exact Nat.le_add_left _ _
  exact List.forall_mem_cons.2
    ⟨outer, List.forall_mem_singleton.2 (Nat.le_trans inner (Nat.le_trans keys outer))⟩

theorem AccessList.frames_named (list : AccessList) :
    ∀ frame ∈ AccessList.frames list, frame.IsNamed := by
  refine List.forall_mem_cons.2
    ⟨AccessEntry.fields_lawful.measured.listFrame_isNamed list, fun frame mem => ?_⟩
  obtain ⟨entry, -, inside⟩ := List.mem_flatMap.1 mem
  exact entry.frames_named frame inside

theorem AccessList.frame_length_le (list : AccessList) :
    ∀ frame ∈ AccessList.frames list,
      frame.payload.length ≤ (AccessList.codec.encode list).length := by
  have whole := (List.forall_mem_cons.1 (AccessList.frames_named list)).1.length_le
  refine List.forall_mem_cons.2 ⟨whole, fun frame mem => ?_⟩
  obtain ⟨entry, listed, inside⟩ := List.mem_flatMap.1 mem
  have inEntry := entry.frame_length_le frame inside
  have inList := Reader.length_le_flatMap AccessEntry.fields.measured.encode listed
  exact Nat.le_trans inEntry (Nat.le_trans inList whole)

namespace Transaction

/-- Every list that is written with the transaction: its body and the lists inside that. -/
def frames (tx : Transaction) : List Frame :=
  ⟨tx.encodeBody, tx.encodeFields⟩ ::
    match tx with
    | .accessList tx => AccessList.frames tx.accessList
    | .dynamicFee tx => AccessList.frames tx.accessList
    | .blob tx => AccessList.frames tx.accessList ++ [(fixedBytes 32).listFrame tx.blobHashes]
    | _ => []

theorem frames_named (tx : Transaction) : ∀ frame ∈ tx.frames, frame.IsNamed := by
  refine List.forall_mem_cons.2 ⟨?_, ?_⟩
  · rw [Frame.IsNamed, length_encodeFields, encodeBody_eq]
  · cases tx with
    | accessList tx | dynamicFee tx => exact AccessList.frames_named tx.accessList
    | blob tx =>
      refine List.forall_mem_append.2 ⟨AccessList.frames_named tx.accessList, ?_⟩
      exact List.forall_mem_singleton.2 ((fixedBytes_lawful 32).listFrame_isNamed tx.blobHashes)
    | _ => exact nofun

theorem item_length_le {tx : Transaction} {item : Item} (mem : item ∈ tx.items) :
    item.written.length ≤ tx.encodeFields.length := by
  rw [encodeFields_eq_flatMap]
  exact Reader.length_le_flatMap Item.written mem

theorem frame_length_le (tx : Transaction) :
    ∀ frame ∈ tx.frames, frame.payload.length ≤ tx.encodeFields.length := by
  refine List.forall_mem_cons.2 ⟨Nat.le_refl _, ?_⟩
  have inList {list : AccessList} (written : AccessList.codec.item list ∈ tx.items) :
      ∀ frame ∈ AccessList.frames list, frame.payload.length ≤ tx.encodeFields.length :=
    fun frame mem =>
      Nat.le_trans (AccessList.frame_length_le list frame mem) (item_length_le written)
  cases tx with
  | accessList tx | dynamicFee tx => exact inList (by simp [items])
  | blob tx =>
    refine List.forall_mem_append.2 ⟨inList (by simp [items]), List.forall_mem_singleton.2 ?_⟩
    have hashes : (fixedBytes 32).list.item tx.blobHashes ∈ (blob tx).items := by simp [items]
    have named := (fixedBytes_lawful 32).listFrame_isNamed tx.blobHashes
    exact Nat.le_trans named.length_le (item_length_le hashes)
  | _ => exact nofun

theorem length_encodeNetwork (tx : Transaction) : tx.encodeNetwork.length = tx.networkLength := by
  rw [encodeNetwork, networkHeader, networkLength, List.length_append, length_encode]
  split
  · rw [Header.length_encode]
  · exact Nat.zero_add _

theorem decode_encodeNetwork {tx : Transaction} (typed : tx.kind.isTyped = true)
    (small : tx.encode.length < 2 ^ 64) (rest : Bytes) :
    Header.decode (tx.encodeNetwork ++ rest)
      = .ok (⟨false, tx.encode.length⟩, tx.encode ++ rest) := by
  rw [encodeNetwork, networkHeader, if_pos typed, ← length_encode, List.append_assoc]
  refine Header.decode_eq_ok_iff.2 (.spelled small ?_ fun one => ?_)
  · rw [List.length_append]
    exact Nat.le_add_right _ _
  · exact absurd (congrArg Header.payload one) (length_encode_ne_one typed)

/-- The lengths that are told beforehand are exact: of the fields, as the sum over their items, of
the body, of the canonical bytes and of the network form. So every header that is written, of the
body, of a list inside it or of the network form, is read as naming exactly the payload behind
it. -/
theorem told_lengths_exact (tx : Transaction) :
    tx.fieldsLength = tx.encodeFields.length ∧
    tx.bodyLength = tx.encodeBody.length ∧
    tx.encodedLength = tx.encode.length ∧
    tx.networkLength = tx.encodeNetwork.length ∧
    (tx.fieldsLength = (tx.items.map Item.told).sum ∧
      tx.encodeFields = tx.items.flatMap Item.written ∧ ∀ item ∈ tx.items, item.IsExact) ∧
    (tx.encode.length < 2 ^ 64 → ∀ rest,
      (∀ frame ∈ tx.frames, Header.decode (frame.written ++ rest)
        = .ok (⟨true, frame.payload.length⟩, frame.payload ++ rest)) ∧
      (tx.kind.isTyped → Header.decode (tx.encodeNetwork ++ rest)
        = .ok (⟨false, tx.encode.length⟩, tx.encode ++ rest))) := by
  refine ⟨(length_encodeFields tx).symm, (length_encodeBody tx).symm, (length_encode tx).symm,
    (length_encodeNetwork tx).symm,
    ⟨fieldsLength_eq_sum tx, encodeFields_eq_flatMap tx, items_exact tx⟩,
    fun small rest => ⟨fun frame mem => ?_, fun typed => ?_⟩⟩
  · have fields := tx.fieldsLength_le
    rw [← length_encodeFields] at fields
    have inside := tx.frame_length_le frame mem
    exact (tx.frames_named frame mem).decode (by omega) rest
  · exact decode_encodeNetwork typed small rest

/-- Of a blob transaction: its body, its access list, the one entry with its keys, and its
hashes. -/
theorem told_lengths_exact_nested :
    let tx : Transaction := .blob ⟨1, 0, 2, 3, 21000, none, 4, [5, 6],
      [⟨.zero 20, [.zero 32]⟩], 7, [.zero 32], ⟨0, 1, 1⟩⟩
    tx.encode.length < 2 ^ 64 ∧ tx.kind.isTyped ∧ tx.networkLength = tx.encodeNetwork.length ∧
      tx.fieldsLength = 108 ∧ tx.frames.length = 5 ∧
      (∀ frame ∈ tx.frames, Header.decode (frame.written ++ [9])
        = .ok (⟨true, frame.payload.length⟩, frame.payload ++ [9])) ∧
      Header.decode (tx.encodeNetwork ++ [9])
        = .ok (⟨false, tx.encode.length⟩, tx.encode ++ [9]) := by
  intro tx
  have small : tx.encode.length < 2 ^ 64 := by decide +kernel
  obtain ⟨-, -, -, network, -, headers⟩ := told_lengths_exact tx
  obtain ⟨inside, outside⟩ := headers small [9]
  exact ⟨small, rfl, network, by decide +kernel, rfl, inside, outside rfl⟩

end Transaction

end TxEnvelope
