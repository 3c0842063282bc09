import TxEnvelope.Proofs.Record.Rules

/-! What a refusal of a record says is so.

A record is refused for its type, or for a rule of its kind that it breaks: a
field that is required and not there, one that is there and must not be, a
number that is too wide, or a triple that is neither zero nor sane.
-/

set_option autoImplicit false

namespace TxEnvelope

section Refuses

variable {ε α β : Type} {P : ε → Prop}

def Refuses (P : ε → Prop) (result : Except ε α) : Prop :=
  ∀ e, result = .error e → P e

theorem Refuses.ok (a : α) : Refuses P (.ok a : Except ε α) :=
  nofun

theorem Refuses.error {e : ε} (described : P e) : Refuses P (.error e : Except ε α) := by
  rintro _ ⟨⟩
  exact described

theorem Refuses.bind {result : Except ε α} {f : α → Except ε β} (first : Refuses P result)
    (next : ∀ a, result = .ok a → Refuses P (f a)) : Refuses P (result >>= f) := by
  cases result with
  | error e => exact .error (first e rfl)
  | ok a => exact next a rfl

theorem Refuses.map {result : Except ε α} (first : Refuses P result) (f : α → β) :
    Refuses P (result.map f) := by
  cases result with
  | error e => exact .error (first e rfl)
  | ok a => exact .ok (f a)

end Refuses

namespace Record

variable {record : Record} {kind : Kind}

/-- A rule of a kind is broken by a record in the way that a refusal says. -/
inductive Violates (record : Record) (kind : Kind) : Error → Prop where
  | missing {field : Field} (required : field ∈ kind.required) (absent : record.get field = none) :
    Violates record kind (.missingField field)
  | forbidden {field : Field} (unused : field ∈ kind.forbidden)
    (present : (record.get field).isSome) : Violates record kind (.unexpectedField field)
  | nonzero {field : Field} {n : Nat} (unused : field ∈ kind.zeroOnly)
    (present : record.number? field = some n) (positive : 0 < n) :
    Violates record kind (.unexpectedField field)
  | tooWide {field : Field} {n : Nat} (narrow : field ∈ kind.narrowed)
    (present : record.number? field = some n) (wide : 2 ^ 256 ≤ n) :
    Violates record kind (.overflow field.name)
  | insane {rule : SignatureRule} {signature : Signature Quantity} {cause : SignatureError}
    (signed : kind.signatureRule? = some rule) (triple : record.signature? = some signature)
    (nonzero : signature ≠ .zero) (refused : signature.check rule = .error cause) :
    Violates record kind (.invalidSignature cause)

theorem require_refuses {field : Field} (required : field ∈ kind.required) :
    Refuses (record.Violates kind) (record.require field) := by
  unfold require
  split
  · next absent => exact .error (.missing required absent)
  · exact .ok _

theorem forbid_refuses {field : Field} (unused : field ∈ kind.forbidden) :
    Refuses (record.Violates kind) (record.forbid field) := by
  unfold forbid
  split
  · exact .ok _
  · next value present => exact .error (.forbidden unused (by simp [present]))

theorem number?_of_require {field : Field} {value : field.Value}
    (found : record.require field = .ok value) :
    record.number? field = field.shape.toNat? value := by
  rw [number?, require_eq_ok_iff.1 found, Option.bind_some]

theorem forbidNonzero_refuses {field : Field} {value : Option Quantity}
    (unused : field ∈ kind.zeroOnly)
    (found : record.number? field = value.bind (Shape.toNat? .quantity)) :
    Refuses (record.Violates kind) (forbidNonzero field value) := by
  cases value with
  | none => exact .ok ()
  | some q =>
    unfold forbidNonzero
    dsimp only
    split
    · exact .ok ()
    · next nonzero =>
      refine .error (.nonzero unused found (Nat.pos_of_ne_zero fun zero => nonzero ?_))
      exact Quantity.ext zero

theorem narrow_refuses {field : Field} {q : Quantity} (narrowed : field ∈ kind.narrowed)
    (found : record.number? field = some q.toNat) :
    Refuses (record.Violates kind) (narrow field q) := by
  unfold narrow Quantity.narrow
  split
  · next wide =>
    exact .error (.tooWide narrowed found (Quantity.toUInt256?_eq_none_iff.1 wide))
  · exact .ok _

theorem requireSignature_refuses
    (required : Field.v ∈ kind.required ∧ Field.r ∈ kind.required ∧ Field.s ∈ kind.required) :
    Refuses (record.Violates kind) record.requireSignature := by
  unfold requireSignature
  refine (require_refuses required.1).bind fun v _ => ?_
  refine (require_refuses required.2.1).bind fun r _ => ?_
  exact (require_refuses required.2.2).bind fun s _ => .ok _

theorem validate_refuses {rule : SignatureRule} {signature : Signature Quantity}
    (signed : kind.signatureRule? = some rule) (triple : record.signature? = some signature) :
    Refuses (record.Violates kind) (signature.validate rule) := by
  unfold Signature.validate
  split
  · exact .ok ()
  · next nonzero =>
    cases refused : signature.check rule with
    | ok done => exact .ok ()
    | error cause =>
      refine .error (.insane signed triple (fun zero => nonzero ?_) refused)
      rw [zero, Signature.isUnsigned, beq_self_eq_true]

theorem signatureNarrow_refuses {signature : Signature Quantity}
    (narrowed : Field.v ∈ kind.narrowed ∧ Field.r ∈ kind.narrowed ∧ Field.s ∈ kind.narrowed)
    (triple : record.signature? = some signature) :
    Refuses (record.Violates kind) signature.narrow := by
  obtain ⟨hv, hr, hs⟩ := signature?_eq_some_iff.1 triple
  have number {quantity : Option Quantity} {q : Quantity} (found : quantity = some q) :
      quantity.bind (Shape.toNat? .quantity) = some q.toNat := by
    rw [found]
    rfl
  have first : Refuses (record.Violates kind) (narrow .v signature.v) :=
    narrow_refuses narrowed.1 (number hv)
  have second : Refuses (record.Violates kind) (narrow .r signature.r) :=
    narrow_refuses narrowed.2.1 (number hr)
  have third : Refuses (record.Violates kind) (narrow .s signature.s) :=
    narrow_refuses narrowed.2.2 (number hs)
  -- The refusal is that of the first of the three that fails.
  intro e h
  simp only [Signature.narrow] at h
  split at h
  · next failed =>
    cases h
    exact first _ failed
  · split at h
    · next failed =>
      cases h
      exact second _ failed
    · split at h
      · next failed =>
        cases h
        exact third _ failed
      · cases h

theorem toLegacy_refuses : Refuses (record.Violates .legacy) record.toLegacy := by
  unfold toLegacy
  refine (require_refuses (by decide)).bind fun nonce _ => ?_
  refine (require_refuses (by decide)).bind fun gasLimit _ => ?_
  refine (require_refuses (by decide)).bind fun gasPrice _ => ?_
  refine (require_refuses (by decide)).bind fun value _ => ?_
  refine (require_refuses (by decide)).bind fun input _ => ?_
  refine (requireSignature_refuses (by decide)).bind fun signature triple => ?_
  exact (validate_refuses rfl (requireSignature_eq_ok_iff.1 triple)).bind fun _ _ => .ok _

theorem toAccessList_refuses : Refuses (record.Violates .accessList) record.toAccessList := by
  unfold toAccessList
  refine (require_refuses (by decide)).bind fun chainId _ => ?_
  refine (require_refuses (by decide)).bind fun nonce _ => ?_
  refine (require_refuses (by decide)).bind fun gasLimit _ => ?_
  refine (require_refuses (by decide)).bind fun gasPrice _ => ?_
  refine (require_refuses (by decide)).bind fun value _ => ?_
  refine (require_refuses (by decide)).bind fun input _ => ?_
  refine (requireSignature_refuses (by decide)).bind fun signature triple => ?_
  exact (validate_refuses rfl (requireSignature_eq_ok_iff.1 triple)).bind fun _ _ => .ok _

theorem toDynamicFee_refuses : Refuses (record.Violates .dynamicFee) record.toDynamicFee := by
  unfold toDynamicFee
  refine (require_refuses (by decide)).bind fun chainId _ => ?_
  refine (require_refuses (by decide)).bind fun nonce _ => ?_
  refine (require_refuses (by decide)).bind fun gasLimit _ => ?_
  refine (require_refuses (by decide)).bind fun tipCap _ => ?_
  refine (require_refuses (by decide)).bind fun feeCap _ => ?_
  refine (require_refuses (by decide)).bind fun value _ => ?_
  refine (require_refuses (by decide)).bind fun input _ => ?_
  refine (requireSignature_refuses (by decide)).bind fun signature triple => ?_
  exact (validate_refuses rfl (requireSignature_eq_ok_iff.1 triple)).bind fun _ _ => .ok _

theorem toBlob_refuses : Refuses (record.Violates .blob) record.toBlob := by
  unfold toBlob
  refine (require_refuses (by decide)).bind fun chainId found => ?_
  refine (narrow_refuses (by decide) (number?_of_require found)).bind fun _ _ => ?_
  refine (require_refuses (by decide)).bind fun nonce _ => ?_
  refine (require_refuses (by decide)).bind fun gasLimit _ => ?_
  refine (require_refuses (by decide)).bind fun tipCap found => ?_
  refine (narrow_refuses (by decide) (number?_of_require found)).bind fun _ _ => ?_
  refine (require_refuses (by decide)).bind fun feeCap found => ?_
  refine (narrow_refuses (by decide) (number?_of_require found)).bind fun _ _ => ?_
  refine (require_refuses (by decide)).bind fun blobFeeCap found => ?_
  refine (narrow_refuses (by decide) (number?_of_require found)).bind fun _ _ => ?_
  refine (require_refuses (by decide)).bind fun value found => ?_
  refine (narrow_refuses (by decide) (number?_of_require found)).bind fun _ _ => ?_
  refine (require_refuses (by decide)).bind fun input _ => ?_
  refine (require_refuses (by decide)).bind fun blobHashes _ => ?_
  refine (requireSignature_refuses (by decide)).bind fun wide found => ?_
  have triple := requireSignature_eq_ok_iff.1 found
  refine (signatureNarrow_refuses (by decide) triple).bind fun _ _ => ?_
  exact (validate_refuses rfl triple).bind fun _ _ => .ok _

theorem toSystem_refuses {input : Option Bytes} {field : Field}
    (others : ∀ other ∈ [Field.gas, .value, .sender, .sourceHash], other ∈ kind.required)
    (required : field ∈ kind.required) (absent : input = none → record.get field = none) :
    Refuses (record.Violates kind) (record.toSystem input field) := by
  unfold toSystem
  refine (require_refuses (others _ (by decide))).bind fun gasLimit _ => ?_
  refine (require_refuses (others _ (by decide))).bind fun value _ => ?_
  cases input with
  | none => exact (Refuses.error (.missing required (absent rfl))).bind fun _ => nofun
  | some content =>
    refine (Refuses.ok content).bind fun _ _ => ?_
    refine (require_refuses (others _ (by decide))).bind fun sender _ => ?_
    exact (require_refuses (others _ (by decide))).bind fun sourceHash _ => .ok _

theorem toDeposit_refuses : Refuses (record.Violates .deposit) record.toDeposit := by
  unfold toDeposit
  refine (forbid_refuses (by decide)).bind fun _ _ => ?_
  refine (forbid_refuses (by decide)).bind fun _ _ => ?_
  refine (forbid_refuses (by decide)).bind fun _ _ => ?_
  refine (forbidNonzero_refuses (by decide) rfl).bind fun _ _ => ?_
  refine (forbidNonzero_refuses (by decide) rfl).bind fun _ _ => ?_
  refine (forbidNonzero_refuses (by decide) rfl).bind fun _ _ => ?_
  refine (forbidNonzero_refuses (by decide) rfl).bind fun _ _ => ?_
  refine (toSystem_refuses (by decide) (by decide) id).bind fun tx _ => ?_
  split <;> exact .ok _

theorem toOffchain_refuses : Refuses (record.Violates .offchain) record.toOffchain := by
  unfold toOffchain
  refine (forbid_refuses (by decide)).bind fun _ _ => ?_
  refine (forbid_refuses (by decide)).bind fun _ _ => ?_
  refine (forbid_refuses (by decide)).bind fun _ _ => ?_
  refine (forbid_refuses (by decide)).bind fun _ _ => ?_
  refine (forbid_refuses (by decide)).bind fun _ _ => ?_
  refine (forbid_refuses (by decide)).bind fun _ _ => ?_
  refine (forbid_refuses (by decide)).bind fun _ _ => ?_
  have system : Refuses (record.Violates .offchain) (record.toSystem record.data .data) :=
    toSystem_refuses (by decide) (by decide) id
  split
  · exact (Refuses.ok ()).bind fun _ _ => system
  · exact (Refuses.ok ()).bind fun _ _ => system
  · next nonce other present =>
    have number : record.number? .nonce = some nonce.toNat := by
      rw [number?, show record.get .nonce = some nonce from present]
      rfl
    have positive : 0 < nonce.toNat :=
      Nat.pos_of_ne_zero fun zero => other (UInt64.toNat_inj.1 zero)
    exact (Refuses.error (.nonzero (by decide) number positive)).bind fun _ => nofun

/-- A refused record has an unknown type, or breaks a rule of its kind as the refusal says. -/
theorem violates_of_toTransaction {e : Error} (h : record.toTransaction = .error e) :
    (Kind.ofCode? record.type = none ∧ e = .unsupportedType record.type) ∨
      ∃ kind, Kind.ofCode? record.type = some kind ∧ record.Violates kind e := by
  unfold toTransaction at h
  split at h
  · next unknown =>
    cases h
    exact .inl ⟨unknown, rfl⟩
  · next known => exact .inr ⟨.legacy, known, toLegacy_refuses.map _ e h⟩
  · next known => exact .inr ⟨.accessList, known, toAccessList_refuses.map _ e h⟩
  · next known => exact .inr ⟨.dynamicFee, known, toDynamicFee_refuses.map _ e h⟩
  · next known => exact .inr ⟨.blob, known, toBlob_refuses.map _ e h⟩
  · next known => exact .inr ⟨.offchain, known, toOffchain_refuses.map _ e h⟩
  · next known => exact .inr ⟨.deposit, known, toDeposit_refuses e h⟩

end Record

end TxEnvelope
