import Mathlib.Algebra.GroupWithZero.Nat
import TxEnvelope.Quantity

/-! Shortest positional notation.

A number has exactly one digit list without a leading zero, and the length of
that list measures the number. For bytes this gives the shortest big-endian
form of an integer and the number of bytes it takes.
-/

set_option autoImplicit false

namespace TxEnvelope.Positional

theorem value_append (b : Nat) (high low : List Nat) :
    value b (high ++ low) = value b high * b ^ low.length + value b low := by
  induction low generalizing high with
  | nil => simp
  | cons d low ih =>
    have split : high ++ d :: low = (high ++ [d]) ++ low := by simp
    rw [split, ih, value_append_singleton]
    have front := ih [d]
    rw [show [d] ++ low = d :: low from rfl] at front
    rw [front, List.length_cons, Nat.pow_succ]
    simp only [value, List.foldl_cons, List.foldl_nil]
    grind

theorem value_cons (b d : Nat) (ds : List Nat) :
    value b (d :: ds) = d * b ^ ds.length + value b ds := by
  have split := value_append b [d] ds
  rwa [show value b [d] = d by simp [value]] at split

theorem value_lt {b : Nat} {ds : List Nat} (small : ∀ d ∈ ds, d < b) :
    value b ds < b ^ ds.length := by
  induction ds with
  | nil => simp
  | cons d ds ih =>
    have first : d < b := small d (by simp)
    have rest := ih fun e mem => small e (by simp [mem])
    have block : (d + 1) * b ^ ds.length ≤ b * b ^ ds.length := Nat.mul_le_mul_right _ first
    rw [Nat.add_mul, Nat.one_mul] at block
    rw [value_cons, List.length_cons, Nat.pow_succ']
    omega

theorem value_pos {b d : Nat} (ds : List Nat) (base : 2 ≤ b) (lead : d ≠ 0) :
    0 < value b (d :: ds) := by
  have power : 0 < b ^ ds.length := Nat.pow_pos (by omega)
  rw [value_cons]
  exact Nat.add_pos_left (Nat.mul_pos (by omega) power) _

theorem digits_value {b : Nat} (base : 2 ≤ b) {ds : List Nat} (small : ∀ d ∈ ds, d < b)
    (lead : ds.head? ≠ some 0) : digits b (value b ds) = ds := by
  rcases List.eq_nil_or_concat ds with rfl | ⟨front, last, rfl⟩
  · simp
  · rw [List.concat_eq_append] at small lead ⊢
    have digit : last < b := small last (by simp)
    have positive : 0 < value b (front ++ [last]) := by
      cases front with
      | nil => exact value_pos [] base (by simpa using lead)
      | cons d front => exact value_pos (front ++ [last]) base (by simpa using lead)
    have inner : digits b (value b front) = front := by
      refine digits_value base (fun d mem => small d (by simp [mem])) ?_
      cases front with
      | nil => simp
      | cons d front => simpa using lead
    rw [digits_of_pos base positive, value_append_singleton]
    have quotient : (value b front * b + last) / b = value b front := by
      rw [Nat.mul_comm, Nat.mul_add_div (by omega), Nat.div_eq_of_lt digit, Nat.add_zero]
    have remainder : (value b front * b + last) % b = last := by
      rw [Nat.mul_comm, Nat.mul_add_mod, Nat.mod_eq_of_lt digit]
    rw [quotient, remainder, inner]
termination_by ds.length

theorem digits_value_eq_dropWhile {b : Nat} (base : 2 ≤ b) {ds : List Nat}
    (small : ∀ d ∈ ds, d < b) : digits b (value b ds) = ds.dropWhile (· == 0) := by
  induction ds with
  | nil => simp
  | cons d ds ih =>
    by_cases zero : d = 0
    · rw [value_cons, zero, Nat.zero_mul, Nat.zero_add, List.dropWhile_cons_of_pos rfl]
      exact ih fun e mem => small e (List.mem_cons_of_mem d mem)
    · rw [List.dropWhile_cons_of_neg (by simpa using zero)]
      exact digits_value base small (by simpa using zero)

theorem head?_digits {b : Nat} (base : 2 ≤ b) (n : Nat) : (digits b n).head? ≠ some 0 := by
  induction n using Nat.strongRecOn with
  | ind n ih =>
    rcases Nat.eq_zero_or_pos n with rfl | pos
    · simp
    · rw [digits_of_pos base pos]
      by_cases small : n < b
      · rw [Nat.div_eq_of_lt small, Nat.mod_eq_of_lt small]
        simp
        omega
      · have quotient : 0 < n / b := Nat.div_pos (by omega) (by omega)
        have front := ih (n / b) (Nat.div_lt_self pos (by omega))
        rw [digits_of_pos base quotient] at front ⊢
        simpa using front

/-- The length of the digits tells the power of the base that the number stays below. -/
theorem length_digits_le_iff {b : Nat} (base : 2 ≤ b) (n width : Nat) :
    (digits b n).length ≤ width ↔ n < b ^ width := by
  induction width generalizing n with
  | zero =>
    rcases Nat.eq_zero_or_pos n with rfl | pos
    · simp
    · rw [digits_of_pos base pos]
      simp
      omega
  | succ width ih =>
    rcases Nat.eq_zero_or_pos n with rfl | pos
    · simpa using Nat.pow_pos (n := width + 1) (show 0 < b by omega)
    · rw [digits_of_pos base pos, List.length_append, List.length_singleton,
        Nat.add_le_add_iff_right, ih, Nat.div_lt_iff_lt_mul (by omega), Nat.pow_succ]

end TxEnvelope.Positional

namespace TxEnvelope.Bytes

theorem digit_lt {bytes : Bytes} {d : Nat} (mem : d ∈ bytes.map UInt8.toNat) : d < 256 := by
  obtain ⟨byte, -, rfl⟩ := List.mem_map.1 mem
  exact byte.toNat_lt

theorem toNat_lt (bytes : Bytes) : toNat bytes < 256 ^ bytes.length := by
  have digits : ∀ d ∈ bytes.map UInt8.toNat, d < 256 := fun _ mem => digit_lt mem
  simpa [toNat] using Positional.value_lt digits

theorem ofNat_toNat_eq_dropWhile (bytes : Bytes) :
    ofNat (toNat bytes) = bytes.dropWhile (· == 0) := by
  have zero : (· == 0) ∘ UInt8.toNat = (· == (0 : UInt8)) := by
    funext byte
    rw [Bool.eq_iff_iff]
    simp [← UInt8.toNat_inj]
  rw [ofNat, toNat, Positional.digits_value_eq_dropWhile (by decide) fun _ => digit_lt,
    List.dropWhile_map, zero, List.map_map]
  conv => rhs; rw [← List.map_id (bytes.dropWhile _)]
  exact List.map_congr_left fun byte _ => UInt8.ofNat_toNat

theorem ofNat_toNat {bytes : Bytes} (lead : bytes.head? ≠ some 0) :
    ofNat (toNat bytes) = bytes := by
  rw [ofNat_toNat_eq_dropWhile]
  cases bytes with
  | nil => rfl
  | cons byte bytes =>
    refine List.dropWhile_cons_of_neg fun zero => lead ?_
    rw [eq_of_beq zero]
    rfl

theorem head?_ofNat (n : Nat) : (ofNat n).head? ≠ some 0 := by
  have lead := Positional.head?_digits (b := 256) (by decide) n
  cases shape : Positional.digits 256 n with
  | nil => simp [ofNat, shape]
  | cons d ds =>
    have small : d < 256 := Positional.lt_of_mem_digits (n := n) (by decide) (by simp [shape])
    rw [shape] at lead
    simp only [ofNat, shape, List.map_cons, List.head?_cons, ne_eq, Option.some.injEq] at lead ⊢
    intro zero
    have same := congrArg UInt8.toNat zero
    simp only [UInt8.toNat_ofNat', Nat.mod_eq_of_lt small] at same
    exact lead same

theorem length_ofNat_le_iff (n width : Nat) : (ofNat n).length ≤ width ↔ n < 256 ^ width := by
  rw [ofNat, List.length_map]
  exact Positional.length_digits_le_iff (by decide) n width

theorem length_ofNat {n : Nat} (pos : 0 < n) : (ofNat n).length = n.log2 / 8 + 1 := by
  have bits : ∀ width, (ofNat n).length ≤ width ↔ n.log2 / 8 + 1 ≤ width := by
    intro width
    rw [length_ofNat_le_iff, show (256 : Nat) = 2 ^ 8 from rfl, ← Nat.pow_mul,
      ← Nat.log2_lt (by omega)]
    omega
  exact Nat.le_antisymm ((bits _).2 (Nat.le_refl _)) ((bits _).1 (Nat.le_refl _))

theorem ofNat_ne_nil {n : Nat} (pos : 0 < n) : ofNat n ≠ [] := by
  intro empty
  have length := length_ofNat pos
  simp [empty] at length

theorem ofNat_of_lt {n : Nat} (pos : 0 < n) (small : n < 256) : ofNat n = [UInt8.ofNat n] := by
  rw [ofNat, Positional.digits_of_pos (by decide) pos, Nat.div_eq_of_lt small,
    Nat.mod_eq_of_lt small]
  simp

end TxEnvelope.Bytes
