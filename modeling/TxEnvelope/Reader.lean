/-! Readers of values off the front of a list of symbols.

A reader answers the value and the symbols it left, or the reason for its
refusal. It always consumes something when it succeeds; that bound travels with
the reader, so reading until nothing is left ends.
-/

set_option autoImplicit false

namespace TxEnvelope

/-- Reads a value from the front of a list of symbols and leaves fewer of them. -/
structure Reader (σ ε α : Type) where
  read : List σ → Except ε (α × List σ)
  shrinks : ∀ {input : List σ} {a : α} {rest : List σ},
    read input = .ok (a, rest) → rest.length < input.length

namespace Reader

variable {σ ε α β : Type}

def refine (reader : Reader σ ε α) (check : α → Except ε β) : Reader σ ε β where
  read input :=
    match reader.read input with
    | .error e => .error e
    | .ok (a, rest) =>
      match check a with
      | .error e => .error e
      | .ok b => .ok (b, rest)
  shrinks {input b rest} h := by
    split at h
    · simp at h
    · next a mid first =>
      split at h
      · simp at h
      · simp only [Except.ok.injEq, Prod.mk.injEq] at h
        exact h.2 ▸ reader.shrinks first

def map (f : α → β) (reader : Reader σ ε α) : Reader σ ε β :=
  reader.refine fun a => .ok (f a)

def both (first : Reader σ ε α) (second : Reader σ ε β) : Reader σ ε (α × β) where
  read input :=
    match first.read input with
    | .error e => .error e
    | .ok (a, mid) =>
      match second.read mid with
      | .error e => .error e
      | .ok (b, rest) => .ok ((a, b), rest)
  shrinks {input ab rest} h := by
    split at h
    · simp at h
    · next a mid one =>
      split at h
      · simp at h
      · next b last two =>
        simp only [Except.ok.injEq, Prod.mk.injEq] at h
        exact h.2 ▸ Nat.lt_trans (second.shrinks two) (first.shrinks one)

/-- Reads values until nothing is left; the first refusal is the answer. -/
def readAll (reader : Reader σ ε α) (input : List σ) : Except ε (List α) :=
  match input with
  | [] => .ok []
  | head :: tail =>
    match _read : reader.read (head :: tail) with
    | .error e => .error e
    | .ok (a, rest) =>
      match reader.readAll rest with
      | .error e => .error e
      | .ok as => .ok (a :: as)
termination_by input.length
decreasing_by exact reader.shrinks _read

@[simp] theorem readAll_nil (reader : Reader σ ε α) : reader.readAll [] = .ok [] := by
  rw [readAll]

end Reader

end TxEnvelope
