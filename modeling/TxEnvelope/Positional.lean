/-! Positional notation of natural numbers.

`digits b n` lists the digits of `n` in base `b`, most significant first and
without leading zeros, so zero has no digits. `value b` reads any digit list
back. Bytes, hex text and RLP integers are all this one notation.
-/

set_option autoImplicit false

namespace TxEnvelope.Positional

/-- The digits of `n` in base `b`, put in front of `acc`. -/
def digitsOnto (b n : Nat) (acc : List Nat) : List Nat :=
  if n = 0 ∨ b < 2 then acc else digitsOnto b (n / b) (n % b :: acc)
termination_by n
decreasing_by exact Nat.div_lt_self (by omega) (by omega)

/-- The digits of `n` in base `b`; a base below two writes nothing. -/
def digits (b n : Nat) : List Nat :=
  digitsOnto b n []

/-- The number that digits denote in base `b`, whatever leads them. -/
def value (b : Nat) (ds : List Nat) : Nat :=
  ds.foldl (fun acc d => acc * b + d) 0

theorem digitsOnto_eq (b n : Nat) (acc : List Nat) :
    digitsOnto b n acc = digits b n ++ acc := by
  unfold digits
  induction n using Nat.strongRecOn generalizing acc with
  | ind n ih =>
    rw [digitsOnto, digitsOnto.eq_def b n []]
    split
    · rfl
    · have smaller : n / b < n := Nat.div_lt_self (by omega) (by omega)
      rw [ih _ smaller (n % b :: acc), ih _ smaller [n % b], List.append_assoc]
      rfl

@[simp] theorem digits_zero (b : Nat) : digits b 0 = [] := by
  simp [digits, digitsOnto]

theorem digits_of_pos {b n : Nat} (base : 2 ≤ b) (pos : 0 < n) :
    digits b n = digits b (n / b) ++ [n % b] := by
  rw [digits, digitsOnto, if_neg (by omega), digitsOnto_eq]

@[simp] theorem value_nil (b : Nat) : value b [] = 0 := rfl

theorem value_append_singleton (b d : Nat) (ds : List Nat) :
    value b (ds ++ [d]) = value b ds * b + d := by
  simp [value]

theorem value_digits {b : Nat} (base : 2 ≤ b) (n : Nat) : value b (digits b n) = n := by
  induction n using Nat.strongRecOn with
  | ind n ih =>
    rcases Nat.eq_zero_or_pos n with rfl | pos
    · simp
    · rw [digits_of_pos base pos, value_append_singleton, ih _ (Nat.div_lt_self pos (by omega))]
      exact Nat.div_add_mod' n b

theorem lt_of_mem_digits {b n d : Nat} (base : 2 ≤ b) (mem : d ∈ digits b n) : d < b := by
  induction n using Nat.strongRecOn with
  | ind n ih =>
    rcases Nat.eq_zero_or_pos n with rfl | pos
    · simp at mem
    · rw [digits_of_pos base pos] at mem
      rcases List.mem_append.1 mem with front | last
      · exact ih _ (Nat.div_lt_self pos (by omega)) front
      · rw [List.mem_singleton.1 last]
        exact Nat.mod_lt _ (by omega)

end TxEnvelope.Positional
