import TxEnvelope.Error

/-! Signature triples and the check of their ranges.

Only ranges and the recovery parity are checked, never the signature itself. A
legacy `v` is 27 plus the parity, or 35 plus twice the chain identifier plus the
parity; every other kind stores the parity alone.
-/

set_option autoImplicit false

namespace TxEnvelope

@[ext] structure Signature (α : Type) where
  v : α
  r : α
  s : α
  deriving DecidableEq, Repr

inductive SignatureRule where
  | legacy
  | typed
  deriving DecidableEq, Repr

namespace Signature

def groupOrder : Nat :=
  0xfffffffffffffffffffffffffffffffebaaedce6af48a03bbfd25e8cd0364141

def map {α β : Type} (f : α → β) (signature : Signature α) : Signature β :=
  ⟨f signature.v, f signature.r, f signature.s⟩

def narrow (signature : Signature Quantity) : Except Error (Signature UInt256) :=
  match signature.v.narrow "v" with
  | .error e => .error e
  | .ok v =>
    match signature.r.narrow "r" with
    | .error e => .error e
    | .ok r =>
      match signature.s.narrow "s" with
      | .error e => .error e
      | .ok s => .ok ⟨v, r, s⟩

def zero : Signature Quantity :=
  ⟨0, 0, 0⟩

def isUnsigned (signature : Signature Quantity) : Bool :=
  signature == zero

/-- Whether a `v` is neither a bare parity nor 27 plus a parity, which all fit into a byte. -/
def isProtected (v : Quantity) : Bool :=
  match v.toUInt64? with
  | none => true
  | some code => if code ≤ 255 then code ∉ [(0 : UInt64), 1, 27, 28] else true

/-- The chain identifier inside a legacy `v`, zero where it holds none. -/
def chainIdOfV (v : Quantity) : Quantity :=
  if isProtected v then
    match v.sub? 35 with
    | none => 0
    | some offset => ⟨offset.toNat / 2⟩
  else 0

/-- What `v` says about the parity under a rule; only zero and one are parities. -/
def parity? (rule : SignatureRule) (v : Quantity) : Option Nat :=
  -- A protected value below 35 is too small for a chain identifier and carries no parity.
  if isProtected v then (v.sub? 35).map fun offset => (offset.toNat.testBit 0).toNat
  else
    match rule with
    | .legacy =>
      v.toUInt64?.bind fun code => if 27 ≤ code.toNat then some (code.toNat - 27) else none
    | .typed => v.toUInt64?.map UInt64.toNat

def inScalarRange (q : Quantity) : Bool :=
  match q.toUInt256? with
  | none => false
  | some n => n ≠ 0 && n.toNat < groupOrder

def check (rule : SignatureRule) (signature : Signature Quantity) : Except SignatureError Unit :=
  if isProtected signature.v && rule == .typed then .error .unexpectedProtection
  else if parity? rule signature.v ∉ [some 0, some 1] then .error .invalidV
  else if !inScalarRange signature.r then .error .invalidR
  else if !inScalarRange signature.s then .error .invalidS
  else .ok ()

end Signature

end TxEnvelope
