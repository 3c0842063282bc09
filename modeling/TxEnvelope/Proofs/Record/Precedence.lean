import TxEnvelope.Proofs.Record.Refusals
import TxEnvelope.Proofs.Record.Validation

/-! Which refusal is reported where a record breaks several rules.

A system kind looks for fields that it refuses before it misses any, and the
triple of a signed kind is looked at last. What is reported is always broken, so
a record that breaks one rule only is refused for that one.
-/

set_option autoImplicit false

namespace TxEnvelope

theorem Kind.ofCode?_eq_none_iff {code : UInt64} :
    ofCode? code = none ↔ ∀ kind : Kind, code ≠ kind.code := by
  rw [ofCode?, List.find?_eq_none]
  constructor
  · intro unknown kind same
    exact unknown kind kind.mem_all (beq_iff_eq.2 same.symm)
  · intro unknown kind _ same
    exact unknown kind (eq_of_beq same).symm

theorem Kind.code_injective : Function.Injective Kind.code := by
  intro kind other
  cases kind <;> cases other <;> decide

theorem Kind.isSystem_of_mem_forbidden {kind : Kind} {field : Field}
    (mem : field ∈ kind.forbidden) : kind.isSystem := by
  cases kind <;> first | rfl | cases mem

theorem Kind.isSystem_of_mem_zeroOnly {kind : Kind} {field : Field}
    (mem : field ∈ kind.zeroOnly) : kind.isSystem := by
  cases kind <;> first | rfl | cases mem

theorem Kind.eq_blob_of_mem_narrowed {kind : Kind} {field : Field}
    (mem : field ∈ kind.narrowed) : kind = .blob := by
  cases kind <;> first | rfl | cases mem

namespace Record

variable {record : Record} {kind : Kind}

structure Clean (record : Record) (kind : Kind) : Prop where
  absent : ∀ field ∈ kind.forbidden, record.get field = none
  zero : ∀ field ∈ kind.zeroOnly, record.get field = none ∨ record.number? field = some 0

/-- The record follows every rule of the kind, save perhaps the one for the triple. -/
structure Complete (record : Record) (kind : Kind) : Prop extends record.Clean kind where
  present : ∀ field ∈ kind.required, (record.get field).isSome
  fits : ∀ field ∈ kind.narrowed, ∃ n, record.number? field = some n ∧ n < 2 ^ 256

theorem require_eq_error_iff {field : Field} {e : Error} :
    record.require field = .error e ↔ record.get field = none ∧ e = .missingField field := by
  unfold require
  split <;> simp_all [eq_comm]

theorem forbid_eq_error_iff {field : Field} {e : Error} :
    record.forbid field = .error e ↔
      (record.get field).isSome ∧ e = .unexpectedField field := by
  unfold forbid
  split <;> simp_all [eq_comm]

theorem forbidNonzero_eq_error_iff {field : Field} {value : Option Quantity} {e : Error} :
    forbidNonzero field value = .error e ↔
      (∃ q, value = some q ∧ q ≠ 0) ∧ e = .unexpectedField field := by
  unfold forbidNonzero
  split
  · simp
  · next q => by_cases zero : q = 0 <;> simp [zero, eq_comm]

/-! Of all checks only the one of the triple can refuse it as insane. -/

section Sane

variable {cause : SignatureError}

theorem narrow_ne_insane (field : Field) {q : Quantity} :
    narrow field q ≠ .error (.invalidSignature cause) := by
  simp [narrow, Quantity.narrow_eq_error_iff]

theorem requireSignature_ne_insane :
    record.requireSignature ≠ .error (.invalidSignature cause) := by
  simp [requireSignature, bind_eq_error_iff, require_eq_error_iff, pure, Except.pure]

theorem signatureNarrow_ne_insane {signature : Signature Quantity} :
    signature.narrow ≠ .error (.invalidSignature cause) := by
  simp [Signature.narrow_eq_error_iff]

theorem exists_describes_of_toLegacy (h : record.toLegacy = .error (.invalidSignature cause)) :
    ∃ tx, record.Describes (.legacy tx) := by
  simp only [toLegacy, bind_eq_error_iff, require_eq_error_iff, require_eq_ok_iff,
    requireSignature_ne_insane, requireSignature_eq_ok_iff, reduceCtorEq, and_false, false_or,
    get] at h
  obtain ⟨nonce, hnonce, gas, hgas, price, hprice, value, hvalue, input, hinput, signature, triple,
    -⟩ := h
  exact ⟨⟨nonce, price, gas, record.recipient, value, input, signature⟩, hnonce, hprice, hgas, rfl,
    hvalue, hinput, triple⟩

theorem exists_describes_of_toAccessList
    (h : record.toAccessList = .error (.invalidSignature cause)) :
    ∃ tx, record.Describes (.accessList tx) := by
  simp only [toAccessList, bind_eq_error_iff, require_eq_error_iff, require_eq_ok_iff,
    requireSignature_ne_insane, requireSignature_eq_ok_iff, reduceCtorEq, and_false, false_or,
    get] at h
  obtain ⟨chain, hchain, nonce, hnonce, gas, hgas, price, hprice, value, hvalue, input, hinput,
    signature, triple, -⟩ := h
  exact ⟨⟨chain, nonce, price, gas, record.recipient, value, input, record.accessList.getD [],
    signature⟩, hchain, hnonce, hprice, hgas, rfl, hvalue, hinput, rfl, triple⟩

theorem exists_describes_of_toDynamicFee
    (h : record.toDynamicFee = .error (.invalidSignature cause)) :
    ∃ tx, record.Describes (.dynamicFee tx) := by
  simp only [toDynamicFee, bind_eq_error_iff, require_eq_error_iff, require_eq_ok_iff,
    requireSignature_ne_insane, requireSignature_eq_ok_iff, reduceCtorEq, and_false, false_or,
    get] at h
  obtain ⟨chain, hchain, nonce, hnonce, gas, hgas, tip, htip, cap, hcap, value, hvalue, input,
    hinput, signature, triple, -⟩ := h
  exact ⟨⟨chain, nonce, tip, cap, gas, record.recipient, value, input, record.accessList.getD [],
    signature⟩, hchain, hnonce, htip, hcap, hgas, rfl, hvalue, hinput, rfl, triple⟩

theorem exists_describes_of_toBlob (h : record.toBlob = .error (.invalidSignature cause)) :
    ∃ tx, record.Describes (.blob tx) := by
  simp only [toBlob, bind_eq_error_iff, require_eq_error_iff, require_eq_ok_iff,
    requireSignature_ne_insane, requireSignature_eq_ok_iff, signatureNarrow_ne_insane,
    Signature.narrow_eq_ok_iff, reduceCtorEq, and_false, false_or, get] at h
  obtain ⟨_, hchain, insane | ⟨chain, chainFits, nonce, hnonce, gas, hgas, _, htip,
    insane | ⟨tip, tipFits, _, hcap, insane | ⟨cap, capFits, _, hblob,
    insane | ⟨blob, blobFits, _, hvalue, insane | ⟨value, valueFits, input, hinput, hashes, hhashes,
    _, triple, signature, rfl, -⟩⟩⟩⟩⟩⟩ := h
  any_goals exact absurd insane (narrow_ne_insane _)
  obtain rfl := narrow_eq_ok_iff.1 chainFits
  obtain rfl := narrow_eq_ok_iff.1 tipFits
  obtain rfl := narrow_eq_ok_iff.1 capFits
  obtain rfl := narrow_eq_ok_iff.1 blobFits
  obtain rfl := narrow_eq_ok_iff.1 valueFits
  exact ⟨⟨chain, nonce, tip, cap, gas, record.recipient, value, input,
    record.accessList.getD [], blob, hashes, signature⟩, hchain, hnonce, htip, hcap, hgas, rfl,
    hvalue, hinput, rfl, hblob, hhashes, triple⟩

end Sane

/-- A deposit misses a field only after all that it refuses has been looked for. -/
theorem clean_of_toDeposit {field : Field} (h : record.toDeposit = .error (.missingField field)) :
    record.Clean .deposit := by
  have zero {quantity : Option Quantity} :
      quantity.bind (Shape.toNat? .quantity) = some 0 ↔ quantity = some 0 :=
    Shape.bind_quantity_eq_some_iff
  simp only [toDeposit, bind_eq_error_iff, forbid_eq_error_iff, forbid_eq_ok_iff,
    forbidNonzero_eq_error_iff, forbidNonzero_eq_ok_iff, reduceCtorEq, and_false, false_or,
    exists_const] at h
  obtain ⟨list, cap, tip, price, v, r, s, -⟩ := h
  constructor
  · simp only [Kind.forbidden, List.forall_mem_cons, List.not_mem_nil, false_implies, implies_true,
      and_true]
    exact ⟨list, cap, tip⟩
  · simp only [Kind.zeroOnly, List.forall_mem_cons, List.not_mem_nil, false_implies, implies_true,
      and_true]
    exact ⟨price.imp_right zero.2, v.imp_right zero.2, r.imp_right zero.2, s.imp_right zero.2⟩

theorem clean_of_toOffchain {field : Field}
    (h : record.toOffchain = .error (.missingField field)) : record.Clean .offchain := by
  have zero : record.number? .nonce = some 0 ↔ record.nonce = some 0 :=
    Shape.bind_integer_eq_some_iff (by decide)
  simp only [toOffchain, bind_eq_error_iff, forbid_eq_error_iff, forbid_eq_ok_iff, reduceCtorEq,
    and_false, false_or, exists_const] at h
  obtain ⟨list, v, r, s, cap, tip, price, rest⟩ := h
  constructor
  · simp only [Kind.forbidden, List.forall_mem_cons, List.not_mem_nil, false_implies, implies_true,
      and_true]
    exact ⟨list, v, r, s, cap, tip, price⟩
  · simp only [Kind.zeroOnly, List.forall_mem_cons, List.not_mem_nil, false_implies, implies_true,
      and_true, zero]
    split at rest
    · next absent => exact .inl absent
    · next zero => exact .inr zero
    · cases rest

theorem complete_of_insane {cause : SignatureError} (type : record.type = kind.code)
    (h : record.toTransaction = .error (.invalidSignature cause)) : record.Complete kind := by
  rw [toTransaction, type, Kind.ofCode?_code] at h
  have complete {tx : Transaction} (described : record.Describes tx)
      (absent : ∀ field ∈ tx.kind.forbidden, record.get field = none)
      (zero : ∀ field ∈ tx.kind.zeroOnly, record.get field = none ∨ record.number? field = some 0) :
      record.Complete tx.kind :=
    { present := described.present, fits := described.fits, absent, zero }
  -- The triple is looked at last, when all values of the transaction have been found.
  cases kind with
  | legacy =>
    obtain ⟨tx, described⟩ := exists_describes_of_toLegacy (map_eq_error_iff.1 h)
    exact complete described (List.forall_mem_nil _) (List.forall_mem_nil _)
  | accessList =>
    obtain ⟨tx, described⟩ := exists_describes_of_toAccessList (map_eq_error_iff.1 h)
    exact complete described (List.forall_mem_nil _) (List.forall_mem_nil _)
  | dynamicFee =>
    obtain ⟨tx, described⟩ := exists_describes_of_toDynamicFee (map_eq_error_iff.1 h)
    exact complete described (List.forall_mem_nil _) (List.forall_mem_nil _)
  | blob =>
    obtain ⟨tx, described⟩ := exists_describes_of_toBlob (map_eq_error_iff.1 h)
    exact complete described (List.forall_mem_nil _) (List.forall_mem_nil _)
  | offchain => cases toOffchain_refuses _ (map_eq_error_iff.1 h) with
    | insane signed => cases signed
  | deposit => cases toDeposit_refuses _ h with
    | insane signed => cases signed

theorem clean_of_missing {field : Field} (type : record.type = kind.code)
    (system : kind.isSystem) (h : record.toTransaction = .error (.missingField field)) :
    record.Clean kind := by
  rw [toTransaction, type, Kind.ofCode?_code] at h
  cases kind with
  | offchain => exact clean_of_toOffchain (map_eq_error_iff.1 h)
  | deposit => exact clean_of_toDeposit h
  | _ => cases system

theorem violates_of_type {e : Error} (type : record.type = kind.code)
    (h : record.toTransaction = .error e) : record.Violates kind e := by
  rcases violates_of_toTransaction h with ⟨unknown, -⟩ | ⟨found, known, violated⟩
  · rw [type, Kind.ofCode?_code] at unknown
    cases unknown
  · rw [type, Kind.ofCode?_code] at known
    exact Option.some.inj known ▸ violated

theorem unsupported_iff {code : UInt64} :
    record.toTransaction = .error (.unsupportedType code) ↔
      record.type = code ∧ ∀ kind : Kind, code ≠ kind.code := by
  constructor
  · intro h
    rcases violates_of_toTransaction h with ⟨unknown, same⟩ | ⟨kind, -, violated⟩
    · cases same
      exact ⟨rfl, Kind.ofCode?_eq_none_iff.1 unknown⟩
    · cases violated
  · rintro ⟨rfl, unknown⟩
    rw [toTransaction, Kind.ofCode?_eq_none_iff.2 unknown]

theorem Violates.not_complete {e : Error} (violated : record.Violates kind e)
    (other : ∀ cause, e ≠ .invalidSignature cause) : ¬record.Complete kind := by
  intro complete
  cases violated with
  | missing required absent =>
    have present := complete.present _ required
    rw [absent] at present
    cases present
  | forbidden unused present =>
    rw [complete.absent _ unused] at present
    cases present
  | nonzero unused present positive =>
    rcases complete.zero _ unused with absent | zero
    · rw [number?, absent] at present
      cases present
    · rw [zero] at present
      cases present
      exact Nat.lt_irrefl 0 positive
  | tooWide narrow present wide =>
    obtain ⟨n, found, small⟩ := complete.fits _ narrow
    rw [found] at present
    cases present
    exact Nat.not_lt_of_le wide small
  | insane => exact other _ rfl

theorem Violates.cause_unique {cause cause' : SignatureError}
    (first : record.Violates kind (.invalidSignature cause))
    (second : record.Violates kind (.invalidSignature cause')) : cause = cause' := by
  cases first with
  | insane signed triple nonzero refused =>
    cases second with
    | insane signed' triple' nonzero' refused' =>
      rw [signed] at signed'
      cases signed'
      rw [triple] at triple'
      cases triple'
      rw [refused] at refused'
      exact Except.error.inj refused'

theorem Violates.not_conforms {e : Error} (violated : record.Violates kind e) :
    ¬record.Conforms kind := by
  intro conforms
  by_cases insane : ∃ cause, e = .invalidSignature cause
  · obtain ⟨cause, rfl⟩ := insane
    cases violated with
    | insane signed triple nonzero refused =>
      obtain ⟨signature, found, accepted⟩ := conforms.signed _ signed
      rw [triple] at found
      cases found
      rcases accepted with zero | sane
      · exact nonzero zero
      · rw [refused] at sane
        cases sane
  · exact violated.not_complete (fun cause same => insane ⟨cause, same⟩) { conforms with }

theorem Violates.exists_error {e : Error} (type : record.type = kind.code)
    (violated : record.Violates kind e) : ∃ e', record.toTransaction = .error e' := by
  cases result : record.toTransaction with
  | error e' => exact ⟨e', rfl⟩
  | ok tx =>
    obtain ⟨same, conforms, -⟩ := toTransaction_eq_ok_iff.1 result
    rw [Kind.code_injective (type.symm.trans same)] at violated
    exact absurd conforms violated.not_conforms

/-- A record that breaks one rule, the one of the triple aside, is refused for that one. -/
theorem Violates.reported {e : Error} (type : record.type = kind.code)
    (violated : record.Violates kind e)
    (only : ∀ e', record.Violates kind e' → e' = e ∨ ∃ cause, e' = .invalidSignature cause) :
    record.toTransaction = .error e := by
  obtain ⟨e', refused⟩ := violated.exists_error type
  have reported := violates_of_type type refused
  rcases only e' reported with rfl | ⟨cause, rfl⟩
  · exact refused
  · have complete := complete_of_insane type refused
    -- The record is complete, so the rule it breaks is the one of the triple.
    by_cases insane : ∃ cause', e = .invalidSignature cause'
    · obtain ⟨cause', rfl⟩ := insane
      rw [violated.cause_unique reported]
      exact refused
    · exact absurd complete (violated.not_complete fun cause' same => insane ⟨cause', same⟩)

/-- A type is reported as unsupported exactly if it is that of no kind. What else is reported of a
record is broken by it, and where it breaks several rules a system kind reports a field it refuses
before one it misses, and every kind the triple last. -/
theorem refusals_name_violations (record : Record) :
    (∀ code, record.toTransaction = .error (.unsupportedType code) ↔
      record.type = code ∧ ∀ kind : Kind, code ≠ kind.code) ∧
    ∀ kind : Kind, record.type = kind.code →
      (∀ e, record.toTransaction = .error e → record.Violates kind e) ∧
      (∀ field, record.toTransaction = .error (.missingField field) →
        field ∈ kind.required ∧ record.get field = none ∧
          (kind.isSystem → record.Clean kind)) ∧
      (∀ field, record.toTransaction = .error (.unexpectedField field) →
        kind.isSystem ∧
          (field ∈ kind.forbidden ∧ (record.get field).isSome ∨
            field ∈ kind.zeroOnly ∧ ∃ n, record.number? field = some n ∧ 0 < n)) ∧
      (∀ name, record.toTransaction = .error (.overflow name) →
        kind = .blob ∧ ∃ field ∈ kind.narrowed, field.name = name ∧
          ∃ n, record.number? field = some n ∧ 2 ^ 256 ≤ n) ∧
      (∀ cause, record.toTransaction = .error (.invalidSignature cause) →
        ∃ rule signature, kind.signatureRule? = some rule ∧ record.Complete kind ∧
          record.signature? = some signature ∧ signature ≠ .zero ∧
          signature.check rule = .error cause) ∧
      ∀ e, record.Violates kind e →
        (∀ e', record.Violates kind e' → e' = e ∨ ∃ cause, e' = .invalidSignature cause) →
        record.toTransaction = .error e := by
  refine ⟨fun code => unsupported_iff, fun kind type => ⟨fun e => violates_of_type type,
    fun field h => ?_, fun field h => ?_, fun name h => ?_, fun cause h => ?_,
    fun e violated only => violated.reported type only⟩⟩
  · cases violates_of_type type h with
    | missing required absent =>
      exact ⟨required, absent, fun system => clean_of_missing type system h⟩
  · cases violates_of_type type h with
    | forbidden unused present =>
      exact ⟨kind.isSystem_of_mem_forbidden unused, .inl ⟨unused, present⟩⟩
    | nonzero unused present positive =>
      exact ⟨kind.isSystem_of_mem_zeroOnly unused, .inr ⟨unused, _, present, positive⟩⟩
  · -- Rules name a field by its constructor, so the name has to be set apart before the cases.
    generalize violated : Error.overflow name = e at h
    cases violates_of_type type h with
    | tooWide narrow present wide =>
      cases violated
      exact ⟨kind.eq_blob_of_mem_narrowed narrow, _, narrow, rfl, _, present, wide⟩
    | _ => cases violated
  · cases violates_of_type type h with
    | insane signed triple nonzero refused =>
      exact ⟨_, _, signed, complete_of_insane type h, triple, nonzero, refused⟩

/-- A triple that is too wide is insane as well, but that is not what is reported. -/
theorem refusals_name_violations_wide :
    let record : Record :=
      { type := 3, chainId := some 1, nonce := some 0, gas := some 21000
        maxPriorityFeePerGas := some 1, maxFeePerGas := some 2, maxFeePerDataGas := some 3
        value := some 0, input := some [], blobVersionedHashes := some []
        v := some ⟨2 ^ 256⟩, r := some 1, s := some 1 }
    record.type = Kind.blob.code ∧
      record.Violates .blob (.overflow Field.v.name) ∧
      record.Violates .blob (.invalidSignature .unexpectedProtection) ∧
      record.toTransaction = .error (.overflow Field.v.name) := by
  intro record
  have type : record.type = Kind.blob.code := by decide
  have wide : record.Violates .blob (.overflow Field.v.name) :=
    .tooWide (by decide) (show record.number? .v = some (2 ^ 256) from rfl) (Nat.le_refl _)
  have refused : Signature.check .typed ⟨⟨2 ^ 256⟩, 1, 1⟩ = .error .unexpectedProtection := rfl
  have insane : record.Violates .blob (.invalidSignature .unexpectedProtection) :=
    .insane rfl rfl (by decide) refused
  refine ⟨type, wide, insane, ?_⟩
  obtain ⟨-, -, -, -, -, reported⟩ := (refusals_name_violations record).2 .blob type
  refine reported _ wide fun e' violated => ?_
  cases violated with
  | missing required absent =>
    have present : ∀ field ∈ Kind.blob.required, (record.get field).isSome := by decide
    have found := present _ required
    rw [absent] at found
    cases found
  | forbidden unused => cases unused
  | nonzero unused => cases unused
  | @tooWide field n narrow present tooWide =>
    have others : ∀ field ∈ Kind.blob.narrowed, field = .v ∨
        (record.number? field).all (· < 2 ^ 256) := by decide
    rcases others field narrow with rfl | small
    · exact .inl rfl
    · rw [present] at small
      exact absurd tooWide (Nat.not_le_of_lt (of_decide_eq_true small))
  | insane => exact .inr ⟨_, rfl⟩

end Record

end TxEnvelope
