import Mathlib.Algebra.Order.Ring.Nat
import Mathlib.Data.Nat.Log
import Mathlib.Tactic.Ring
import TailLoop.Double.Basic

/-!
# Integers that are doubles

A natural number is a double when it has no bits below its highest 53 (`IsExact`): rounding then
leaves nothing over. The double nearest to such an integer is the integer itself, whether it is
asked for its integer part (`truncate?_ofInt`) or for the integer that it is (`integer?_ofInt`).
-/

namespace TailLoop.Double

/-- A natural number within the range of doubles that has no bits below its highest 53. -/
structure IsExact (n : Nat) : Prop where
  bound : n.log2 < 1024
  divides : 2 ^ (n.log2 - 52) ∣ n

/-- A number of at most 53 bits, shifted. -/
theorem isExact_shifted {m k : Nat} (hm : m < 2 ^ 53) (hk : k ≤ 971) : IsExact (m * 2 ^ k) := by
  by_cases zero : m = 0
  · subst zero
    rw [Nat.zero_mul]
    exact ⟨by decide, Nat.dvd_zero _⟩
  · have positive : m * 2 ^ k ≠ 0 := Nat.mul_ne_zero zero (Nat.two_pow_pos k).ne'
    have small : (m * 2 ^ k).log2 < 53 + k := by
      rw [Nat.log2_lt positive, Nat.pow_add]
      exact Nat.mul_lt_mul_of_pos_right hm (Nat.two_pow_pos k)
    exact ⟨by omega, Nat.dvd_mul_left_of_dvd (Nat.pow_dvd_pow 2 (by omega)) m⟩

/-- Nothing is left over where a power of two divides a number. -/
theorem shiftRound_of_dvd {n k : Nat} (h : 2 ^ k ∣ n) : shiftRound n k = n / 2 ^ k := by
  have back : n / 2 ^ k * 2 ^ k = n := Nat.div_mul_cancel h
  have some : 0 < 2 ^ k := Nat.two_pow_pos k
  have rest : ¬(2 * (n - n >>> k <<< k) > 1 <<< k ∨
      2 * (n - n >>> k <<< k) = 1 <<< k ∧ n >>> k % 2 = 1) := by
    rw [Nat.shiftRight_eq_div_pow, Nat.shiftLeft_eq, Nat.shiftLeft_eq, back]
    omega
  unfold shiftRound
  dsimp only
  rw [if_neg rest, Nat.shiftRight_eq_div_pow]

/-- An exact number rounds to the double with its 53 highest bits, which is as large. -/
theorem round_of_isExact (s : Bool) {n : Nat} (h : IsExact n) (positive : n ≠ 0) :
    ∃ m e c, round s n 0 = .finite s m e c ∧ m * 2 ^ e.toNat = n * 2 ^ (-e).toNat := by
  obtain ⟨magnitude, divides⟩ := h
  have low : 2 ^ n.log2 ≤ n := Nat.log2_self_le positive
  have high : n < 2 ^ (n.log2 + 1) := Nat.lt_log2_self
  -- The number of the bits that are dropped or, if there are too few, added at the end.
  obtain ⟨m, made, same, least, most⟩ : ∃ m,
      m = (if ((n.log2 : Int) - 52) ≤ 0 then n <<< (52 - n.log2) else shiftRound n (n.log2 - 52)) ∧
      m * 2 ^ (n.log2 - 52) = n * 2 ^ (52 - n.log2) ∧ 2 ^ 52 ≤ m ∧ m < 2 ^ 53 := by
    by_cases few : n.log2 ≤ 52
    · refine ⟨n <<< (52 - n.log2), by rw [if_pos (by omega)], ?_, ?_, ?_⟩
      · rw [Nat.sub_eq_zero_of_le few, Nat.shiftLeft_eq]
        ring
      · rw [Nat.shiftLeft_eq]
        calc 2 ^ 52 = 2 ^ n.log2 * 2 ^ (52 - n.log2) := by rw [← Nat.pow_add]; congr 1; omega
          _ ≤ n * 2 ^ (52 - n.log2) := Nat.mul_le_mul_right _ low
      · rw [Nat.shiftLeft_eq]
        calc n * 2 ^ (52 - n.log2) < 2 ^ (n.log2 + 1) * 2 ^ (52 - n.log2) :=
              Nat.mul_lt_mul_of_pos_right high (Nat.two_pow_pos _)
          _ = 2 ^ 53 := by rw [← Nat.pow_add]; congr 1; omega
    · have back := Nat.div_mul_cancel divides
      refine ⟨n / 2 ^ (n.log2 - 52), ?_, ?_, ?_, ?_⟩
      · rw [if_neg (by omega), shiftRound_of_dvd divides]
      · rw [back, Nat.sub_eq_zero_of_le (by omega : 52 ≤ n.log2), Nat.pow_zero, Nat.mul_one]
      · rw [Nat.le_div_iff_mul_le (Nat.two_pow_pos _), ← Nat.pow_add]
        exact le_of_eq_of_le (by congr 1; omega) low
      · rw [Nat.div_lt_iff_lt_mul (Nat.two_pow_pos _), ← Nat.pow_add]
        exact lt_of_lt_of_eq high (by congr 1; omega)
  have canonical : Canonical m (n.log2 - 52) := by
    rw [Canonical, Nat.shiftLeft_eq, Nat.shiftLeft_eq, Nat.one_mul, Nat.one_mul]
    exact ⟨most, by omega, by omega, .inl least⟩
  refine ⟨m, n.log2 - 52, canonical, ?_, ?_⟩
  · have exponent : max ((0 : Int) + n.log2 - 52) (-1074) = n.log2 - 52 := by omega
    have bits : (0 - ((n.log2 : Int) - 52)).toNat = 52 - n.log2 := by omega
    have dropped : ((n.log2 : Int) - 52 - 0).toNat = n.log2 - 52 := by omega
    have whole : m ≠ 1 <<< 53 := by
      rw [Nat.shiftLeft_eq, Nat.one_mul]
      omega
    unfold round
    simp only [if_neg positive, exponent, bits, dropped, ← made, if_neg whole]
    rw [ofParts, dif_pos canonical]
  · convert same using 3 <;> omega

section AsLarge

variable {s : Bool} {m n : Nat} {e : Int} {c : Canonical m e}

/-- The significand of a double that is as large as a natural number, with the exponent applied. -/
theorem shifted_of_eq (h : m * 2 ^ e.toNat = n * 2 ^ (-e).toNat) :
    if 0 ≤ e then m <<< e.toNat = n
    else m % 1 <<< (-e).toNat = 0 ∧ m >>> (-e).toNat = n := by
  split
  · rename_i whole
    rwa [Int.toNat_eq_zero.mpr (by omega : -e ≤ 0), Nat.pow_zero, Nat.mul_one,
      ← Nat.shiftLeft_eq] at h
  · rename_i fraction
    rw [Int.toNat_eq_zero.mpr (by omega : e ≤ 0), Nat.pow_zero, Nat.mul_one] at h
    rw [h, Nat.shiftLeft_eq, Nat.one_mul, Nat.shiftRight_eq_div_pow]
    exact ⟨Nat.mul_mod_left _ _, Nat.mul_div_cancel _ (Nat.two_pow_pos _)⟩

/-- The integer part of a double that is as large as a natural number. -/
theorem truncate?_of_eq (h : m * 2 ^ e.toNat = n * 2 ^ (-e).toNat) :
    truncate? (.finite s m e c) = some (if s then -(n : Int) else n) := by
  have shifted := shifted_of_eq h
  unfold truncate?
  dsimp only
  split at shifted
  · rename_i whole
    rw [if_pos whole, shifted]
  · rename_i fraction
    rw [if_neg fraction, shifted.2]

end AsLarge

/-- An exact integer as a double: zero, or a double of its sign that is as large. -/
theorem exists_ofInt {n : Int} (h : IsExact n.natAbs) :
    ∃ m e c, ofInt n = .finite (n < 0) m e c ∧ m * 2 ^ e.toNat = n.natAbs * 2 ^ (-e).toNat := by
  by_cases zero : n = 0
  · subst zero
    exact ⟨0, -1074, by decide, rfl, by rw [Nat.zero_mul, Int.natAbs_zero, Nat.zero_mul]⟩
  · exact round_of_isExact (n < 0) h (Int.natAbs_ne_zero.mpr zero)

/-- An integer is its size with its sign. -/
theorem signed_natAbs (n : Int) : (if decide (n < 0) then -(n.natAbs : Int) else n.natAbs) = n := by
  by_cases negative : n < 0
  · rw [if_pos (decide_eq_true negative)]
    omega
  · rw [if_neg (by simpa using negative)]
    omega

/-- The integer part of an exact integer is itself. -/
theorem truncate?_ofInt {n : Int} (h : IsExact n.natAbs) : (ofInt n).truncate? = some n := by
  obtain ⟨m, e, c, made, same⟩ := exists_ofInt h
  rw [made, truncate?_of_eq same, signed_natAbs]

end TailLoop.Double
