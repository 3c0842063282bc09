import TxEnvelope.Proofs.Record.Rules
import TxEnvelope.Transaction.Accessors

/-! Which records are accepted, and as what.

A record is turned into a transaction exactly if it follows the row of its kind,
and the transaction carries its values unchanged.
-/

set_option autoImplicit false

namespace TxEnvelope.Record

variable {record : Record}

theorem describes_of_toLegacy {tx : LegacyTx} (h : record.toLegacy = .ok tx) :
    record.Describes (.legacy tx) ∧ tx.signature.Accepted .legacy := by
  simp only [toLegacy, bind_eq_ok_iff, require_eq_ok_iff, requireSignature_eq_ok_iff,
    Signature.validate_eq_ok_iff, get] at h
  obtain ⟨nonce, hnonce, gas, hgas, price, hprice, value, hvalue, input, hinput, signature, triple,
    done, accepted, built⟩ := h
  cases built
  exact ⟨⟨hnonce, hprice, hgas, rfl, hvalue, hinput, triple⟩, accepted⟩

theorem describes_of_toAccessList {tx : AccessListTx} (h : record.toAccessList = .ok tx) :
    record.Describes (.accessList tx) ∧ tx.signature.Accepted .typed := by
  simp only [toAccessList, bind_eq_ok_iff, require_eq_ok_iff, requireSignature_eq_ok_iff,
    Signature.validate_eq_ok_iff, get] at h
  obtain ⟨chain, hchain, nonce, hnonce, gas, hgas, price, hprice, value, hvalue, input, hinput,
    signature, triple, done, accepted, built⟩ := h
  cases built
  exact ⟨⟨hchain, hnonce, hprice, hgas, rfl, hvalue, hinput, rfl, triple⟩, accepted⟩

theorem describes_of_toDynamicFee {tx : DynamicFeeTx} (h : record.toDynamicFee = .ok tx) :
    record.Describes (.dynamicFee tx) ∧ tx.signature.Accepted .typed := by
  simp only [toDynamicFee, bind_eq_ok_iff, require_eq_ok_iff, requireSignature_eq_ok_iff,
    Signature.validate_eq_ok_iff, get] at h
  obtain ⟨chain, hchain, nonce, hnonce, gas, hgas, tip, htip, cap, hcap, value, hvalue, input,
    hinput, signature, triple, done, accepted, built⟩ := h
  cases built
  exact ⟨⟨hchain, hnonce, htip, hcap, hgas, rfl, hvalue, hinput, rfl, triple⟩, accepted⟩

theorem describes_of_toBlob {tx : BlobTx} (h : record.toBlob = .ok tx) :
    record.Describes (.blob tx) ∧ (tx.signature.map .ofUInt256).Accepted .typed := by
  simp only [toBlob, bind_eq_ok_iff, require_eq_ok_iff, requireSignature_eq_ok_iff,
    Signature.validate_eq_ok_iff, Signature.narrow_eq_ok_iff, get] at h
  obtain ⟨_, hchain, chain, chainFits, nonce, hnonce, gas, hgas, _, htip, tip, tipFits, _, hcap,
    cap, capFits, _, hblob, blob, blobFits, _, hvalue, value, valueFits, input, hinput, hashes,
    hhashes, _, triple, signature, rfl, done, accepted, built⟩ := h
  obtain rfl := narrow_eq_ok_iff.1 chainFits
  obtain rfl := narrow_eq_ok_iff.1 tipFits
  obtain rfl := narrow_eq_ok_iff.1 capFits
  obtain rfl := narrow_eq_ok_iff.1 blobFits
  obtain rfl := narrow_eq_ok_iff.1 valueFits
  cases built
  exact ⟨⟨hchain, hnonce, htip, hcap, hgas, rfl, hvalue, hinput, rfl, hblob, hhashes, triple⟩,
    accepted⟩

theorem toSystem_eq_ok_iff {input : Option Bytes} {field : Field} {tx : SystemTx} :
    record.toSystem input field = .ok tx ↔ record.DescribesCall input tx := by
  cases input with
  | none =>
    simp [toSystem, bind_eq_ok_iff, DescribesCall]
  | some content =>
    simp only [toSystem, bind_eq_ok_iff, require_eq_ok_iff, DescribesCall, get]
    constructor
    · rintro ⟨gas, hgas, value, hvalue, _, ⟨⟩, sender, hsender, source, hsource, h⟩
      cases h
      exact ⟨hsource, hsender, rfl, rfl, hvalue, hgas, rfl, rfl⟩
    · rintro ⟨hsource, hsender, hrecipient, hmint, hvalue, hgas, hflag, hinput⟩
      refine ⟨_, hgas, _, hvalue, _, rfl, _, hsender, _, hsource, ?_⟩
      rw [hrecipient, hmint, hflag, Option.some.inj hinput]
      rfl

/-- A deposit refuses what belongs to signed kinds, unless it is a zero of theirs. -/
theorem toDeposit_eq_ok_iff {tx : Transaction} :
    record.toDeposit = .ok tx ↔ tx.kind = .deposit ∧ record.Describes tx ∧
      (∀ field ∈ Kind.deposit.forbidden, record.get field = none) ∧
      ∀ field ∈ Kind.deposit.zeroOnly,
        record.get field = none ∨ record.number? field = some 0 := by
  -- The check speaks of a quantity, the rule of the number that it is.
  have zero {quantity : Option Quantity} :
      quantity.bind (Shape.toNat? .quantity) = some 0 ↔ quantity = some 0 :=
    Shape.bind_quantity_eq_some_iff
  simp only [toDeposit, bind_eq_ok_iff, forbid_eq_ok_iff, forbidNonzero_eq_ok_iff, exists_const,
    toSystem_eq_ok_iff, Kind.forbidden, Kind.zeroOnly, List.forall_mem_cons, List.not_mem_nil,
    false_implies, implies_true, and_true]
  constructor
  · rintro ⟨list, cap, tip, price, v, r, s, inner, call, built⟩
    have described : tx.kind = .deposit ∧ record.Describes tx := by
      split at built
      · next plain =>
        cases built
        exact ⟨rfl, call, plain⟩
      · next nonce annotated =>
        cases built
        exact ⟨rfl, call, annotated⟩
    exact ⟨described.1, described.2, ⟨list, cap, tip⟩, price.imp_right zero.2, v.imp_right zero.2,
      r.imp_right zero.2, s.imp_right zero.2⟩
  · rintro ⟨kind, described, ⟨list, cap, tip⟩, price, v, r, s⟩
    refine ⟨list, cap, tip, price.imp_right zero.1, v.imp_right zero.1, r.imp_right zero.1,
      s.imp_right zero.1, ?_⟩
    cases tx with
    | deposit inner =>
      refine ⟨inner, described.1, ?_⟩
      rw [described.2]
      rfl
    | annotatedDeposit inner nonce =>
      refine ⟨inner, described.1, ?_⟩
      rw [described.2]
      rfl
    | _ => cases kind

/-- The nonce of an offchain call is not used, so only its absence or zero is let through. -/
theorem toOffchain_eq_ok_iff {tx : SystemTx} :
    record.toOffchain = .ok tx ↔ record.Describes (.offchain tx) ∧
      (∀ field ∈ Kind.offchain.forbidden, record.get field = none) ∧
      ∀ field ∈ Kind.offchain.zeroOnly,
        record.get field = none ∨ record.number? field = some 0 := by
  have zero : record.number? .nonce = some 0 ↔ record.nonce = some 0 :=
    Shape.bind_integer_eq_some_iff (by decide)
  simp only [Kind.forbidden, Kind.zeroOnly, List.forall_mem_cons, List.not_mem_nil, false_implies,
    implies_true, and_true, zero, Describes, ← @toSystem_eq_ok_iff record record.data .data tx]
  simp only [toOffchain, bind_eq_ok_iff, forbid_eq_ok_iff, exists_const]
  constructor
  · rintro ⟨list, v, r, s, cap, tip, price, built⟩
    split at built
    · next absent => exact ⟨built, ⟨list, v, r, s, cap, tip, price⟩, .inl absent⟩
    · next zero => exact ⟨built, ⟨list, v, r, s, cap, tip, price⟩, .inr zero⟩
    · cases built
  · rintro ⟨built, ⟨list, v, r, s, cap, tip, price⟩, nonce⟩
    refine ⟨list, v, r, s, cap, tip, price, ?_⟩
    rcases nonce with absent | zero
    · rw [show record.nonce = none from absent]
      exact built
    · rw [zero]
      exact built

theorem Describes.present {tx : Transaction} (described : record.Describes tx) :
    ∀ field ∈ tx.kind.required, (record.get field).isSome := by
  cases tx <;>
    simp only [Describes, DescribesCall, signature?_eq_some_iff] at described <;>
    simp only [Transaction.kind, Kind.required, List.forall_mem_cons, List.not_mem_nil,
      false_implies, implies_true, and_true, get, described] <;>
    repeat' constructor

theorem Describes.fits {tx : Transaction} (described : record.Describes tx) :
    ∀ field ∈ tx.kind.narrowed, ∃ n, record.number? field = some n ∧ n < 2 ^ 256 := by
  cases tx with
  | blob inner =>
    obtain ⟨chain, -, tip, cap, -, -, value, -, -, blob, -, triple⟩ := described
    obtain ⟨v, r, s⟩ := signature?_eq_some_iff.1 triple
    simp only [Transaction.kind, Kind.narrowed, List.forall_mem_cons, List.not_mem_nil,
      false_implies, implies_true, and_true]
    exact ⟨Shape.fits_iff.2 ⟨_, chain⟩, Shape.fits_iff.2 ⟨_, tip⟩, Shape.fits_iff.2 ⟨_, cap⟩,
      Shape.fits_iff.2 ⟨_, blob⟩, Shape.fits_iff.2 ⟨_, value⟩, Shape.fits_iff.2 ⟨_, v⟩,
      Shape.fits_iff.2 ⟨_, r⟩, Shape.fits_iff.2 ⟨_, s⟩⟩
  | _ => simp [Transaction.kind, Kind.narrowed]

theorem Describes.signature {tx : Transaction} {rule : SignatureRule}
    (described : record.Describes tx) (signed : tx.kind.signatureRule? = some rule) :
    record.signature? = some tx.signature := by
  cases tx with
  | legacy inner =>
    obtain ⟨-, -, -, -, -, -, triple⟩ := described
    exact triple
  | accessList inner =>
    obtain ⟨-, -, -, -, -, -, -, -, triple⟩ := described
    exact triple
  | dynamicFee inner =>
    obtain ⟨-, -, -, -, -, -, -, -, -, triple⟩ := described
    exact triple
  | blob inner =>
    obtain ⟨-, -, -, -, -, -, -, -, -, -, -, triple⟩ := described
    exact triple
  | _ => cases signed

theorem require_bind {β : Type} (field : Field) {value : field.Value}
    (found : record.get field = some value) (f : field.Value → Except Error β) :
    (record.require field >>= f) = f value :=
  bind_of_eq_ok (require_eq_ok_iff.2 found) f

theorem narrow_bind {β : Type} {field : Field} {n : UInt256} (f : UInt256 → Except Error β) :
    (narrow field (.ofUInt256 n) >>= f) = f n :=
  bind_of_eq_ok (narrow_eq_ok_iff.2 rfl) f

theorem Describes.toTransaction_eq {tx : Transaction} {rule : SignatureRule}
    (described : record.Describes tx) (type : record.type = tx.kind.code)
    (signed : tx.kind.signatureRule? = some rule) :
    record.toTransaction = (tx.signature.validate rule).map fun _ => tx := by
  have triple := requireSignature_eq_ok_iff.2 (described.signature signed)
  rw [toTransaction, type, Kind.ofCode?_code]
  -- Every value is there and fits, so each step before the check of the triple passes it on.
  cases tx with
  | legacy inner =>
    cases signed
    obtain ⟨hnonce, hprice, hgas, hrecipient, hvalue, hinput, -⟩ := described
    simp only [Transaction.kind, toLegacy, require_bind .nonce hnonce, require_bind .gas hgas,
      require_bind .gasPrice hprice, require_bind .value hvalue, require_bind .input hinput,
      bind_of_eq_ok triple, hrecipient]
    cases (Transaction.legacy inner).signature.validate .legacy <;> rfl
  | accessList inner =>
    cases signed
    obtain ⟨hchain, hnonce, hprice, hgas, hrecipient, hvalue, hinput, hlist, -⟩ := described
    simp only [Transaction.kind, toAccessList, require_bind .chainId hchain,
      require_bind .nonce hnonce, require_bind .gas hgas, require_bind .gasPrice hprice,
      require_bind .value hvalue, require_bind .input hinput, bind_of_eq_ok triple, hrecipient,
      hlist]
    cases (Transaction.accessList inner).signature.validate .typed <;> rfl
  | dynamicFee inner =>
    cases signed
    obtain ⟨hchain, hnonce, htip, hcap, hgas, hrecipient, hvalue, hinput, hlist, -⟩ := described
    simp only [Transaction.kind, toDynamicFee, require_bind .chainId hchain,
      require_bind .nonce hnonce, require_bind .gas hgas, require_bind .maxPriorityFeePerGas htip,
      require_bind .maxFeePerGas hcap, require_bind .value hvalue, require_bind .input hinput,
      bind_of_eq_ok triple, hrecipient, hlist]
    cases (Transaction.dynamicFee inner).signature.validate .typed <;> rfl
  | blob inner =>
    cases signed
    obtain ⟨hchain, hnonce, htip, hcap, hgas, hrecipient, hvalue, hinput, hlist, hblob, hhashes,
      -⟩ := described
    have narrow : Signature.narrow (Transaction.blob inner).signature = .ok inner.signature :=
      Signature.narrow_eq_ok_iff.2 rfl
    simp only [Transaction.kind, toBlob, require_bind .chainId hchain, narrow_bind,
      require_bind .nonce hnonce, require_bind .gas hgas, require_bind .maxPriorityFeePerGas htip,
      require_bind .maxFeePerGas hcap, require_bind .maxFeePerDataGas hblob,
      require_bind .value hvalue, require_bind .input hinput,
      require_bind .blobVersionedHashes hhashes, bind_of_eq_ok triple, bind_of_eq_ok narrow,
      hrecipient, hlist]
    cases (Transaction.blob inner).signature.validate .typed <;> rfl
  | _ => cases signed

theorem Describes.conforms_iff {tx : Transaction} (described : record.Describes tx) :
    record.Conforms tx.kind ↔
      (∀ rule, tx.kind.signatureRule? = some rule → tx.signature.Accepted rule) ∧
      (∀ field ∈ tx.kind.forbidden, record.get field = none) ∧
      ∀ field ∈ tx.kind.zeroOnly, record.get field = none ∨ record.number? field = some 0 := by
  constructor
  · intro conforms
    refine ⟨fun rule signed => ?_, conforms.absent, conforms.zero⟩
    obtain ⟨signature, triple, accepted⟩ := conforms.signed rule signed
    rw [described.signature signed] at triple
    exact Option.some.inj triple ▸ accepted
  · rintro ⟨accepted, absent, zero⟩
    exact ⟨described.present, absent, zero, described.fits,
      fun rule signed => ⟨_, described.signature signed, accepted rule signed⟩⟩

theorem Describes.conforms {tx : Transaction} {rule : SignatureRule}
    (described : record.Describes tx) (signed : tx.kind.signatureRule? = some rule)
    (accepted : tx.signature.Accepted rule) : record.Conforms tx.kind := by
  refine described.conforms_iff.2 ⟨fun other same => ?_, ?_⟩
  · rw [signed] at same
    exact Option.some.inj same ▸ accepted
  · -- Only the kinds without a triple refuse fields.
    cases tx with
    | deposit | annotatedDeposit | offchain => cases signed
    | _ => exact ⟨nofun, nofun⟩

/-- Whatever a record becomes, it describes by the rules of its kind. -/
theorem conforms_of_toTransaction {tx : Transaction} (h : record.toTransaction = .ok tx) :
    record.type = tx.kind.code ∧ record.Conforms tx.kind ∧ record.Describes tx := by
  cases found : Kind.ofCode? record.type with
  | none => simp [toTransaction, found] at h
  | some kind =>
    have type := (Kind.code_of_ofCode? found).symm
    simp only [toTransaction, found] at h
    -- A signed kind brings an accepted triple, a system kind the absence of what it refuses.
    cases kind with
    | legacy =>
      obtain ⟨inner, built, rfl⟩ := map_eq_ok_iff.1 h
      obtain ⟨described, accepted⟩ := describes_of_toLegacy built
      exact ⟨type, described.conforms rfl accepted, described⟩
    | accessList =>
      obtain ⟨inner, built, rfl⟩ := map_eq_ok_iff.1 h
      obtain ⟨described, accepted⟩ := describes_of_toAccessList built
      exact ⟨type, described.conforms rfl accepted, described⟩
    | dynamicFee =>
      obtain ⟨inner, built, rfl⟩ := map_eq_ok_iff.1 h
      obtain ⟨described, accepted⟩ := describes_of_toDynamicFee built
      exact ⟨type, described.conforms rfl accepted, described⟩
    | blob =>
      obtain ⟨inner, built, rfl⟩ := map_eq_ok_iff.1 h
      obtain ⟨described, accepted⟩ := describes_of_toBlob built
      exact ⟨type, described.conforms rfl accepted, described⟩
    | offchain =>
      obtain ⟨inner, built, rfl⟩ := map_eq_ok_iff.1 h
      obtain ⟨described, refused⟩ := toOffchain_eq_ok_iff.1 built
      exact ⟨type, described.conforms_iff.2 ⟨nofun, refused⟩, described⟩
    | deposit =>
      obtain ⟨deposit, described, refused⟩ := toDeposit_eq_ok_iff.1 h
      rw [← deposit] at type refused
      refine ⟨type, described.conforms_iff.2 ⟨?_, refused⟩, described⟩
      rw [deposit]
      exact nofun

/-- A record that follows the rules of its kind becomes the transaction that it describes. -/
theorem toTransaction_of_conforms {tx : Transaction} (type : record.type = tx.kind.code)
    (conforms : record.Conforms tx.kind) (described : record.Describes tx) :
    record.toTransaction = .ok tx := by
  obtain ⟨accepted, refused⟩ := described.conforms_iff.1 conforms
  cases signed : tx.kind.signatureRule? with
  | some rule =>
    have sane : tx.signature.validate rule = .ok () :=
      Signature.validate_eq_ok_iff.2 (accepted rule signed)
    rw [described.toTransaction_eq type signed, sane]
    rfl
  | none =>
    rw [toTransaction, type, Kind.ofCode?_code]
    cases tx with
    | deposit inner | annotatedDeposit inner nonce =>
      exact toDeposit_eq_ok_iff.2 ⟨rfl, described, refused⟩
    | offchain inner =>
      exact map_eq_ok_iff.2 ⟨inner, toOffchain_eq_ok_iff.2 ⟨described, refused⟩, rfl⟩
    | _ => cases signed

theorem toTransaction_eq_ok_iff {tx : Transaction} :
    record.toTransaction = .ok tx ↔
      record.type = tx.kind.code ∧ record.Conforms tx.kind ∧ record.Describes tx :=
  ⟨conforms_of_toTransaction,
    fun ⟨type, conforms, described⟩ => toTransaction_of_conforms type conforms described⟩

theorem Conforms.values {kind : Kind} (conforms : record.Conforms kind) :
    ∀ field ∈ kind.required, ∃ value, record.get field = some value :=
  fun field mem => Option.isSome_iff_exists.1 (conforms.present field mem)

theorem Conforms.triple {kind : Kind} (conforms : record.Conforms kind) {rule : SignatureRule}
    (signed : kind.signatureRule? = some rule) :
    ∃ signature, record.signature? = some signature := by
  obtain ⟨signature, triple, -⟩ := conforms.signed rule signed
  exact ⟨signature, triple⟩

theorem Conforms.exists_describes {kind : Kind} (conforms : record.Conforms kind) :
    ∃ tx : Transaction, tx.kind = kind ∧ record.Describes tx := by
  have values := conforms.values
  have words := conforms.fits
  cases kind <;> simp only [Kind.required, Kind.narrowed, List.forall_mem_cons] at values words
  case legacy =>
    obtain ⟨⟨nonce, hnonce⟩, ⟨gas, hgas⟩, ⟨price, hprice⟩, ⟨value, hvalue⟩, ⟨input, hinput⟩, -⟩ :=
      values
    obtain ⟨signature, triple⟩ := conforms.triple rfl
    exact ⟨.legacy ⟨nonce, price, gas, record.recipient, value, input, signature⟩, rfl,
      hnonce, hprice, hgas, rfl, hvalue, hinput, triple⟩
  case accessList =>
    obtain ⟨⟨chain, hchain⟩, ⟨nonce, hnonce⟩, ⟨gas, hgas⟩, ⟨price, hprice⟩, ⟨value, hvalue⟩,
      ⟨input, hinput⟩, -⟩ := values
    obtain ⟨signature, triple⟩ := conforms.triple rfl
    exact ⟨.accessList ⟨chain, nonce, price, gas, record.recipient, value, input,
        record.accessList.getD [], signature⟩, rfl,
      hchain, hnonce, hprice, hgas, rfl, hvalue, hinput, rfl, triple⟩
  case dynamicFee =>
    obtain ⟨⟨chain, hchain⟩, ⟨nonce, hnonce⟩, ⟨gas, hgas⟩, ⟨tip, htip⟩, ⟨cap, hcap⟩,
      ⟨value, hvalue⟩, ⟨input, hinput⟩, -⟩ := values
    obtain ⟨signature, triple⟩ := conforms.triple rfl
    exact ⟨.dynamicFee ⟨chain, nonce, tip, cap, gas, record.recipient, value, input,
        record.accessList.getD [], signature⟩, rfl,
      hchain, hnonce, htip, hcap, hgas, rfl, hvalue, hinput, rfl, triple⟩
  case blob =>
    -- The numbers are taken from what fits; the other values only have to be there.
    obtain ⟨-, ⟨nonce, hnonce⟩, ⟨gas, hgas⟩, -, -, -, -, ⟨input, hinput⟩, ⟨hashes, hhashes⟩, -⟩ :=
      values
    obtain ⟨chainFits, tipFits, capFits, blobFits, valueFits, vFits, rFits, sFits, -⟩ := words
    obtain ⟨chain, hchain⟩ := Shape.fits_iff.1 chainFits
    obtain ⟨tip, htip⟩ := Shape.fits_iff.1 tipFits
    obtain ⟨cap, hcap⟩ := Shape.fits_iff.1 capFits
    obtain ⟨blob, hblob⟩ := Shape.fits_iff.1 blobFits
    obtain ⟨value, hvalue⟩ := Shape.fits_iff.1 valueFits
    obtain ⟨v, hv⟩ := Shape.fits_iff.1 vFits
    obtain ⟨r, hr⟩ := Shape.fits_iff.1 rFits
    obtain ⟨s, hs⟩ := Shape.fits_iff.1 sFits
    exact ⟨.blob ⟨chain, nonce, tip, cap, gas, record.recipient, value, input,
        record.accessList.getD [], blob, hashes, ⟨v, r, s⟩⟩, rfl,
      hchain, hnonce, htip, hcap, hgas, rfl, hvalue, hinput, rfl, hblob, hhashes,
      signature?_eq_some_iff.2 ⟨hv, hr, hs⟩⟩
  case offchain =>
    obtain ⟨⟨gas, hgas⟩, ⟨value, hvalue⟩, ⟨data, hdata⟩, ⟨sender, hsender⟩, ⟨source, hsource⟩, -⟩ :=
      values
    exact ⟨.offchain ⟨source, sender, record.recipient, record.mint, value, gas,
        record.isSystemTx.getD false, data⟩, rfl,
      hsource, hsender, rfl, rfl, hvalue, hgas, rfl, hdata⟩
  case deposit =>
    obtain ⟨⟨gas, hgas⟩, ⟨value, hvalue⟩, ⟨input, hinput⟩, ⟨sender, hsender⟩,
      ⟨source, hsource⟩, -⟩ := values
    have call : record.DescribesCall record.input ⟨source, sender, record.recipient, record.mint,
        value, gas, record.isSystemTx.getD false, input⟩ :=
      ⟨hsource, hsender, rfl, rfl, hvalue, hgas, rfl, hinput⟩
    cases annotation : record.nonce with
    | none => exact ⟨.deposit _, rfl, call, annotation⟩
    | some nonce => exact ⟨.annotatedDeposit _ nonce, rfl, call, annotation⟩

/-- A record is accepted exactly if its type is that of a kind and it follows the rules of that
kind. What it then becomes is the one transaction that it describes value by value. -/
theorem toTransaction_follows_table (record : Record) :
    ((∃ tx, record.toTransaction = .ok tx) ↔
      ∃ kind : Kind, record.type = kind.code ∧ record.Conforms kind) ∧
    ∀ tx, record.toTransaction = .ok tx ↔
      record.type = tx.kind.code ∧ record.Conforms tx.kind ∧ record.Describes tx := by
  refine ⟨⟨?_, ?_⟩, fun tx => toTransaction_eq_ok_iff⟩
  · rintro ⟨tx, built⟩
    obtain ⟨type, conforms, -⟩ := toTransaction_eq_ok_iff.1 built
    exact ⟨tx.kind, type, conforms⟩
  · rintro ⟨kind, type, conforms⟩
    obtain ⟨tx, rfl, described⟩ := conforms.exists_describes
    exact ⟨tx, toTransaction_eq_ok_iff.2 ⟨type, conforms, described⟩⟩

example : Kind.all.map Kind.code = [0, 1, 2, 3, 0x7d, 0x7e] := by
  decide

end TxEnvelope.Record
