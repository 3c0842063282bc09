import TxEnvelope.Canonical
import TxEnvelope.Proofs.Narrowing
import TxEnvelope.Transaction.Accessors
import TxEnvelope.Transaction.Signing

/-! What a new signature changes, and what a refused one leaves.

A signature replaces the triple and the chain identifier of a signed kind and nothing
else, so a transaction is made up of these and of the rest, and signing it with what it
shows already changes nothing. In place, all values are narrowed before the first one is
written: a refused signature leaves the transaction as it was.
-/

set_option autoImplicit false

namespace TxEnvelope.Transaction

/-- The transaction without the values that a signature replaces. -/
def unsigned : Transaction → Transaction
  | .legacy tx => .legacy { tx with signature := .zero }
  | .accessList tx => .accessList { tx with chainId := 0, signature := .zero }
  | .dynamicFee tx => .dynamicFee { tx with chainId := 0, signature := .zero }
  | .blob tx => .blob { tx with chainId := 0, signature := ⟨0, 0, 0⟩ }
  | .deposit tx => .deposit tx
  | .annotatedDeposit tx nonce => .annotatedDeposit tx nonce
  | .offchain tx => .offchain tx

/-- A transaction of a signed kind has the triple and the chain identifier. A legacy one names the
chain that its `v` holds. -/
def Shows (tx : Transaction) (chainId : Quantity) (signature : Signature Quantity) : Prop :=
  tx.kind.isSystem = false → tx.signature = signature ∧
    tx.chainId = if tx.kind = .legacy then Signature.chainIdOfV signature.v else chainId

variable {tx after : Transaction} {chainId : Quantity} {signature : Signature Quantity}

theorem kind_unsigned (tx : Transaction) : tx.unsigned.kind = tx.kind := by
  cases tx <;> rfl

theorem sign_unsigned (tx : Transaction) (chainId : Quantity) (signature : Signature Quantity) :
    tx.unsigned.sign chainId signature = tx.sign chainId signature := by
  cases tx <;> rfl

theorem sign_blob (tx : BlobTx) (chainId : Quantity) (signature : Signature Quantity) :
    (blob tx).sign chainId signature = (chainId.narrow "chainId" >>= fun chainId =>
      signature.narrow >>= fun signature => .ok (.blob { tx with chainId, signature })) := by
  unfold sign
  cases chainId.narrow "chainId" with
  | error e => rfl
  | ok chainId => cases signature.narrow <;> rfl

theorem Shows.sign_eq (shows : tx.Shows chainId signature) :
    tx.sign chainId signature = .ok tx := by
  cases tx with
  | legacy tx =>
    obtain ⟨rfl, -⟩ := shows rfl
    rfl
  | accessList tx | dynamicFee tx =>
    obtain ⟨rfl, rfl⟩ := shows rfl
    rfl
  | blob tx =>
    obtain ⟨rfl, rfl⟩ := shows rfl
    have chain : (blob tx).chainId.narrow "chainId" = .ok tx.chainId :=
      Quantity.narrow_eq_ok_iff.2 rfl
    have triple : (blob tx).signature.narrow = .ok tx.signature :=
      Signature.narrow_eq_ok_iff.2 rfl
    rw [sign_blob, bind_of_eq_ok chain, bind_of_eq_ok triple]
  | deposit tx | annotatedDeposit tx nonce | offchain tx => rfl

theorem sign_eq_ok_iff :
    tx.sign chainId signature = .ok after ↔
      after.unsigned = tx.unsigned ∧ after.Shows chainId signature := by
  constructor
  · intro signed
    cases tx with
    | legacy tx | accessList tx | dynamicFee tx =>
      cases signed
      exact ⟨rfl, fun _ => ⟨rfl, rfl⟩⟩
    | blob tx =>
      simp only [sign_blob, bind_eq_ok_iff] at signed
      obtain ⟨chain, chainFits, triple, tripleFits, made⟩ := signed
      cases made
      obtain rfl := Quantity.narrow_eq_ok_iff.1 chainFits
      obtain rfl := Signature.narrow_eq_ok_iff.1 tripleFits
      exact ⟨rfl, fun _ => ⟨rfl, rfl⟩⟩
    | deposit tx | annotatedDeposit tx nonce | offchain tx =>
      cases signed
      exact ⟨rfl, nofun⟩
  · rintro ⟨same, shows⟩
    rw [← sign_unsigned, ← same, sign_unsigned, shows.sign_eq]

theorem sign_eq_error_iff {e : Error} :
    tx.sign chainId signature = .error e ↔ tx.kind = .blob ∧
      ∃ wide, firstWide? (("chainId", chainId) :: signature.named) = some wide ∧ e = .overflow wide := by
  cases tx with
  | blob tx =>
    have later (chain : UInt256) :
        (signature.narrow >>= fun signature => .ok (blob { tx with chainId := chain, signature }))
            = .error e ↔
          ∃ wide, firstWide? signature.named = some wide ∧ e = .overflow wide := by
      rw [bind_eq_error_iff, Signature.narrow_eq_error_iff]
      simp
    rw [sign_blob, bind_narrow_eq_error_iff later]
    exact (and_iff_right rfl).symm
  | legacy tx | accessList tx | dynamicFee tx | deposit tx | annotatedDeposit tx nonce
  | offchain tx => exact iff_of_false nofun fun ⟨kind, _⟩ => nomatch kind

theorem setSignature_eq (tx : Transaction) (chainId : Quantity) (signature : Signature Quantity) :
    setSignature chainId signature tx =
      match tx.sign chainId signature with
      | .ok after => .ok () after
      | .error e => .error e tx := by
  cases tx with
  | blob tx =>
    simp only [sign, setSignature, inside, BlobTx.setSignature]
    cases chainId.narrow "chainId" with
    | error e => rfl
    | ok chainId => cases signature.narrow <;> rfl
  | legacy tx | accessList tx | dynamicFee tx | deposit tx | annotatedDeposit tx nonce
  | offchain tx => rfl

theorem setSignature_eq_ok_iff :
    setSignature chainId signature tx = .ok () after ↔
      after.unsigned = tx.unsigned ∧ after.Shows chainId signature := by
  rw [setSignature_eq, ← sign_eq_ok_iff]
  cases tx.sign chainId signature <;> simp

theorem setSignature_eq_error_iff {e : Error} :
    setSignature chainId signature tx = .error e after ↔
      (tx.kind = .blob ∧ ∃ wide,
        firstWide? (("chainId", chainId) :: signature.named) = some wide ∧ e = .overflow wide) ∧
      after = tx := by
  rw [setSignature_eq, ← sign_eq_error_iff]
  cases tx.sign chainId signature <;> simp [eq_comm]

theorem setSignature_again
    (left : setSignature chainId signature tx = .ok () after ∨
      ∃ e, setSignature chainId signature tx = .error e after) :
    setSignature chainId signature after = setSignature chainId signature tx := by
  rcases left with signed | ⟨e, refused⟩
  · rw [signed]
    exact setSignature_eq_ok_iff.2 ⟨rfl, (setSignature_eq_ok_iff.1 signed).2⟩
  · obtain ⟨-, rfl⟩ := setSignature_eq_error_iff.1 refused
    rfl

/-- A signature is refused only by a blob transaction, for the first of its four values that needs
more than 256 bits, and then leaves the transaction as it was. Otherwise it leaves the transaction
that has the given triple and chain identifier and is the same in everything else; a system kind
is not changed at all. To repeat a signature, given or refused, changes nothing. -/
theorem signing_atomic (tx : Transaction) (chainId : Quantity) (signature : Signature Quantity) :
    (∀ e after, setSignature chainId signature tx = .error e after ↔
      (tx.kind = .blob ∧ ∃ wide,
        firstWide? [("chainId", chainId), ("v", signature.v), ("r", signature.r),
          ("s", signature.s)] = some wide ∧ e = .overflow wide) ∧
      after = tx) ∧
    (∀ after, setSignature chainId signature tx = .ok () after ↔
      after.unsigned = tx.unsigned ∧
        (tx.kind.isSystem = false → after.signature = signature ∧ after.chainId =
          if tx.kind = .legacy then Signature.chainIdOfV signature.v else chainId)) ∧
    (tx.kind.isSystem = true → ∃ after, setSignature chainId signature tx = .ok () after ∧
      after = tx ∧ after.encode = tx.encode ∧ after.digest = tx.digest) ∧
    ∀ after, (setSignature chainId signature tx = .ok () after ∨
        ∃ e, setSignature chainId signature tx = .error e after) →
      setSignature chainId signature after = setSignature chainId signature tx := by
  refine ⟨fun e after => setSignature_eq_error_iff, fun after => ?_, fun system => ?_,
    fun after => setSignature_again⟩
  · rw [setSignature_eq_ok_iff]
    refine and_congr_right fun same => ?_
    rw [Shows, ← kind_unsigned after, same, kind_unsigned]
  · have unchanged : setSignature chainId signature tx = .ok () tx :=
      setSignature_eq_ok_iff.2 ⟨rfl, fun signed => absurd system (by simp [signed])⟩
    exact ⟨tx, unchanged, rfl, rfl, rfl⟩

/-- A blob transaction that refuses its third value and takes the largest chain identifier, a legacy
transaction that is given one chain and names another, and a deposit that takes anything. -/
theorem signing_atomic_wide :
    let wide : Quantity := ⟨2 ^ 256⟩
    let full : Quantity := ⟨2 ^ 256 - 1⟩
    let call : BlobTx := ⟨1, 0, 2, 3, 21000, none, 4, [], [], 7, [], ⟨0, 5, 6⟩⟩
    let signed := blob { call with chainId := .allOnes 256, signature := ⟨1, 8, 9⟩ }
    let plain : LegacyTx := ⟨0, 1, 21000, none, 7, [], .zero⟩
    let named := legacy { plain with signature := ⟨45, wide, 9⟩ }
    let minting := annotatedDeposit ⟨.zero 32, .zero 20, none, some 5, 7, 21000, true, []⟩ 3
    setSignature 9 ⟨1, wide, wide⟩ (blob call) = .error (.overflow "r") (blob call) ∧
      setSignature full ⟨1, 8, 9⟩ (blob call) = .ok () signed ∧
      (blob call).kind.isSystem = false ∧ signed.signature = ⟨1, 8, 9⟩ ∧ signed.chainId = full ∧
      setSignature full ⟨1, 8, 9⟩ signed = .ok () signed ∧
      setSignature 6 ⟨45, wide, 9⟩ (legacy plain) = .ok () named ∧
      (legacy plain).kind.isSystem = false ∧ named.chainId = 5 ∧
      minting.kind.isSystem = true ∧
      setSignature wide ⟨wide, wide, wide⟩ minting = .ok () minting := by
  intro wide full call signed plain named minting
  obtain ⟨-, signs, -, again⟩ := signing_atomic (blob call) full ⟨1, 8, 9⟩
  have taken : setSignature full ⟨1, 8, 9⟩ (blob call) = .ok () signed :=
    (signs signed).2 ⟨rfl, fun _ => ⟨rfl, rfl⟩⟩
  have shown := ((signs signed).1 taken).2 rfl
  have refused : setSignature 9 ⟨1, wide, wide⟩ (blob call) = .error (.overflow "r") (blob call) :=
    ((signing_atomic (blob call) 9 ⟨1, wide, wide⟩).1 _ _).2 ⟨⟨rfl, "r", by decide, rfl⟩, rfl⟩
  have other := (signing_atomic (legacy plain) 6 ⟨45, wide, 9⟩).2.1 named
  have kept : setSignature 6 ⟨45, wide, 9⟩ (legacy plain) = .ok () named :=
    other.2 ⟨rfl, fun _ => ⟨rfl, rfl⟩⟩
  have chain : named.chainId = 5 := ((other.1 kept).2 rfl).2.trans (by decide)
  obtain ⟨left, passed, rfl, -⟩ :=
    (signing_atomic minting wide ⟨wide, wide, wide⟩).2.2.1 rfl
  exact ⟨refused, taken, rfl, shown.1, shown.2, (again signed (.inl taken)).trans taken, kept, rfl,
    chain, rfl, passed⟩

end TxEnvelope.Transaction
