import Mathlib.Algebra.Order.Field.Power
import Mathlib.Data.Nat.Cast.Order.Field
import Mathlib.Tactic.FieldSimp
import Mathlib.Tactic.Linarith
import Mathlib.Tactic.NormNum
import Mathlib.Tactic.Positivity
import Mathlib.Tactic.Ring
import TailLoop.Double.Decimal

/-!
# The shortest decimal of a double

The decimal that is chosen for a positive double lies in its rounding interval (`rounds_shortest`).
On the grid of seventeen digits the interval is wider than a step, so that a neighbour of the number
lies in it. The rounding intervals of two doubles have no number in common: they meet at most in a
bound, and then one of the two significands is odd (`parts_eq_of_rounds`). So the decimal determines
the double.
-/

namespace TailLoop.Double

/-! ## Digits -/

/-- The digits of a number are counted by division. -/
theorem digitCount_eq (n : Nat) :
    digitCount n = if n < 10 then 1 else digitCount (n / 10) + 1 := by
  unfold digitCount
  rw [Nat.toDigits_eq_if (by omega)]
  split_ifs with single
  · rfl
  · rw [List.length_append, List.length_singleton]

/-- A number is below the power of ten with as many zeros as it has digits. -/
theorem lt_pow_digitCount (n : Nat) : n < 10 ^ digitCount n := by
  induction n using Nat.strongRecOn with
  | ind n ih =>
    rw [digitCount_eq]
    split_ifs with single
    · omega
    · have less := ih (n / 10) (by omega)
      rw [pow_succ]
      omega

/-- A number has no more digits than it needs. -/
theorem pow_digitCount_le {n : Nat} (positive : 0 < n) : 10 ^ digitCount n ≤ 10 * n := by
  induction n using Nat.strongRecOn with
  | ind n ih =>
    rw [digitCount_eq]
    split_ifs with single
    · omega
    · have less := ih (n / 10) (by omega) (by omega)
      rw [pow_succ]
      omega

/-! ## Ratios -/

namespace Ratio

/-- The rational number that a ratio stands for. -/
def value (r : Ratio) : ℚ := r.num / r.den

/-- The order of ratios is that of their values. -/
theorem lt_iff {a b : Ratio} (ha : 0 < a.den) (hb : 0 < b.den) :
    a.lt b = true ↔ a.value < b.value := by
  have ha : (0 : ℚ) < a.den := Nat.cast_pos.mpr ha
  have hb : (0 : ℚ) < b.den := Nat.cast_pos.mpr hb
  unfold value lt
  rw [decide_eq_true_iff, div_lt_div_iff₀ ha hb]
  exact_mod_cast Iff.rfl

/-- A ratio with a power of two has a positive denominator. -/
theorem den_ofBinary (n : Nat) (e : Int) : 0 < (ofBinary n e).den := by
  unfold ofBinary
  rw [Nat.one_shiftLeft]
  exact Nat.two_pow_pos _

/-- A ratio with a power of ten has a positive denominator. -/
theorem den_ofDecimal (n : Nat) (e : Int) : 0 < (ofDecimal n e).den :=
  Nat.pow_pos (by omega)

/-- The value of a ratio with a power of two. -/
theorem value_ofBinary (n : Nat) (e : Int) : (ofBinary n e).value = n * (2 : ℚ) ^ e := by
  unfold ofBinary value
  dsimp only
  rw [Nat.shiftLeft_eq, Nat.one_shiftLeft]
  obtain ⟨k, rfl | rfl⟩ := e.eq_nat_or_neg
  · simp [Int.toNat_natCast]
  · simp [zpow_neg, div_eq_mul_inv]

/-- The value of a ratio with a power of ten. -/
theorem value_ofDecimal (n : Nat) (e : Int) : (ofDecimal n e).value = n * (10 : ℚ) ^ e := by
  unfold ofDecimal value
  dsimp only
  rw [Nat.pow_eq, Nat.pow_eq]
  obtain ⟨k, rfl | rfl⟩ := e.eq_nat_or_neg
  · simp [Int.toNat_natCast]
  · simp [zpow_neg, div_eq_mul_inv]

/-- A positive ratio is not below the power of ten of its exponent. -/
theorem pow_exponent_le {r : Ratio} (num : 0 < r.num) (den : 0 < r.den) :
    (10 : ℚ) ^ r.exponent ≤ r.value := by
  have positive : (0 : ℚ) < r.den := Nat.cast_pos.mpr den
  unfold exponent
  dsimp only
  split_ifs with below
  · -- The estimate from the counts of digits was one too high.
    have least : (10 : ℚ) ^ digitCount r.num ≤ 10 * r.num := by
      exact_mod_cast pow_digitCount_le num
    have most : (r.den : ℚ) ≤ 10 ^ digitCount r.den := by
      exact_mod_cast (lt_pow_digitCount r.den).le
    unfold value
    rw [zpow_sub₀ (by norm_num), zpow_sub₀ (by norm_num), zpow_natCast, zpow_natCast, zpow_one,
      div_div, div_le_div_iff₀ (by positivity) positive]
    calc (10 : ℚ) ^ digitCount r.num * r.den ≤ 10 * r.num * 10 ^ digitCount r.den :=
          mul_le_mul least most positive.le (by positivity)
      _ = r.num * (10 ^ digitCount r.den * 10) := by ring
  · rw [lt_iff den (den_ofDecimal _ _), value_ofDecimal, Nat.cast_one, one_mul] at below
    exact not_lt.mp below

end Ratio

/-! ## Rounding intervals -/

/-- A number lies in an interval, which may be closed. -/
def Interval.Has (i : Interval) (x : ℚ) : Prop :=
  if i.closed then i.lower.value ≤ x ∧ x ≤ i.upper.value else i.lower.value < x ∧ x < i.upper.value

/-- An interval whose bounds are ratios. -/
structure Interval.Proper (i : Interval) : Prop where
  lower : 0 < i.lower.den
  upper : 0 < i.upper.den

/-- What an interval contains is what it has as a value. -/
theorem Interval.contains_iff {i : Interval} (proper : i.Proper) {r : Ratio} (den : 0 < r.den) :
    i.contains r = true ↔ i.Has r.value := by
  unfold contains Has
  split
  · rw [Bool.and_eq_true, Bool.not_eq_true', Bool.not_eq_true', Bool.eq_false_iff, Bool.eq_false_iff,
      Ne, Ne, Ratio.lt_iff den proper.lower, Ratio.lt_iff proper.upper den, not_lt, not_lt]
  · rw [Bool.and_eq_true, Ratio.lt_iff proper.lower den, Ratio.lt_iff den proper.upper]

/-- The interval of a double is proper. -/
theorem Interval.proper_ofParts (m : Nat) (e : Int) : (ofParts m e).Proper :=
  ⟨Ratio.den_ofBinary _ _, Ratio.den_ofBinary _ _⟩

/-- How far the lower bound of a rounding interval is from the number, in quarters of its unit. -/
def gap (m : Nat) (e : Int) : Nat := if m = 2 ^ 52 ∧ -1074 < e then 1 else 2

/-- The gap below a double is positive. -/
theorem gap_pos (m : Nat) (e : Int) : 0 < gap m e := by
  unfold gap
  split <;> omega

/-- The gap below a double is one or two quarters of a unit. -/
theorem gap_le (m : Nat) (e : Int) : gap m e ≤ 2 := by
  unfold gap
  split <;> omega

/-- The lower end of the interval of a double. -/
theorem lower_ofParts {m : Nat} (positive : 0 < m) (e : Int) :
    (Interval.ofParts m e).lower.value = (4 * m - gap m e) * (2 : ℚ) ^ (e - 2) := by
  have le := gap_le m e
  have same : (Interval.ofParts m e).lower = .ofBinary (4 * m - gap m e) (e - 2) := rfl
  rw [same, Ratio.value_ofBinary, Nat.cast_sub (by omega)]
  push_cast
  rfl

/-- The upper end of the interval of a double. -/
theorem upper_ofParts (m : Nat) (e : Int) :
    (Interval.ofParts m e).upper.value = (4 * m + 2) * (2 : ℚ) ^ (e - 2) := by
  have same : (Interval.ofParts m e).upper = .ofBinary (4 * m + 2) (e - 2) := rfl
  rw [same, Ratio.value_ofBinary]
  push_cast
  rfl

/-- The value of a double in quarters of a unit. -/
theorem value_parts (m : Nat) (e : Int) :
    (Ratio.ofBinary m e).value = 4 * m * (2 : ℚ) ^ (e - 2) := by
  rw [Ratio.value_ofBinary, zpow_sub₀ (by norm_num)]
  norm_num
  ring

/-- A number rounds to the positive double of the given parts. -/
def Rounds (m : Nat) (e : Int) (x : ℚ) : Prop := (Interval.ofParts m e).Has x

/-! ## Grids -/

section Grids

variable {v : Ratio} {i : Interval} {k : Int} {d : Decimal} {n : Nat}

/-- What is found on a grid lies in the interval. -/
theorem contains_of_nearestOnGrid (found : nearestOnGrid v i k = some d) :
    0 < d.digits ∧ i.contains (.ofDecimal d.digits d.exponent) = true := by
  unfold nearestOnGrid at found
  dsimp only at found
  split_ifs at found with below above
  · cases found
    rw [Bool.and_eq_true, Bool.and_eq_true, decide_eq_true_iff] at below
    exact below.1
  · cases found
    exact ⟨Nat.succ_pos _, above⟩

/-- What lies between the bounds lies in the interval. -/
theorem Interval.has_of_lt {x : ℚ} (left : i.lower.value < x) (right : x < i.upper.value) :
    i.Has x := by
  unfold Interval.Has
  split
  · exact ⟨left.le, right.le⟩
  · exact ⟨left, right⟩

/-- The multiples of a power of ten on both sides of a ratio, as they are computed. -/
theorem grid_bounds (den : 0 < v.den)
    (quotient : n = v.num * Nat.pow 10 (-k).toNat / (v.den * Nat.pow 10 k.toNat)) :
    n * (10 : ℚ) ^ k ≤ v.value ∧ v.value < (n + 1) * (10 : ℚ) ^ k := by
  have positive : (0 : ℚ) < (10 : ℚ) ^ k := by positivity
  have den' : 0 < v.den * Nat.pow 10 k.toNat := Nat.mul_pos den (Nat.pow_pos (by omega))
  -- Scaling by the power is exact, so that only the division rounds down.
  have scaled : ((v.num * Nat.pow 10 (-k).toNat : Nat) : ℚ) / (v.den * Nat.pow 10 k.toNat : Nat) =
      v.value / (10 : ℚ) ^ k := by
    have ratio := Ratio.value_ofDecimal 1 (-k)
    unfold Ratio.value Ratio.ofDecimal at ratio
    rw [Int.neg_neg, Nat.one_mul, Nat.cast_one, one_mul, zpow_neg] at ratio
    rw [Nat.cast_mul, Nat.cast_mul, mul_div_mul_comm, ratio, ← div_eq_mul_inv]
    rfl
  constructor
  · rw [← le_div_iff₀ positive, ← scaled, quotient]
    exact Nat.cast_div_le
  · have after := Nat.lt_mul_div_succ (v.num * Nat.pow 10 (-k).toNat) den'
    rw [← quotient, Nat.mul_comm (v.den * _)] at after
    rw [← div_lt_iff₀ positive, ← scaled, div_lt_iff₀ (Nat.cast_pos.mpr den')]
    exact_mod_cast after

/-- On a grid whose steps are smaller than the interval a neighbour of the number is found. -/
theorem nearestOnGrid_isSome (den : 0 < v.den) (proper : i.Proper) (left : i.lower.value < v.value)
    (right : v.value < i.upper.value) (step : (10 : ℚ) ^ k ≤ v.value)
    (wide : i.lower.value + (10 : ℚ) ^ k < i.upper.value) : (nearestOnGrid v i k).isSome = true := by
  have positive : (0 : ℚ) < (10 : ℚ) ^ k := by positivity
  unfold nearestOnGrid
  dsimp only
  generalize quotient : v.num * Nat.pow 10 (-k).toNat / (v.den * Nat.pow 10 k.toNat) = below
  obtain ⟨low, high⟩ := grid_bounds den quotient.symm
  have some : 0 < below := by
    by_contra none
    obtain rfl : below = 0 := by omega
    rw [Nat.cast_zero, zero_add, one_mul] at high
    exact absurd step (not_le.mpr high)
  have fits (n : Nat) (h : i.Has (n * (10 : ℚ) ^ k)) : i.contains (.ofDecimal n k) = true := by
    rw [Interval.contains_iff proper (Ratio.den_ofDecimal n k), Ratio.value_ofDecimal]
    exact h
  rcases le_or_gt (below * (10 : ℚ) ^ k) i.lower.value with outside | inside
  · -- The multiple below is not in the interval, so the one above is.
    have above : i.contains (.ofDecimal (below + 1) k) = true := by
      refine fits (below + 1) (Interval.has_of_lt ?_ ?_) <;> push_cast
      · exact left.trans high
      · linarith
    rw [above, if_pos rfl]
    split_ifs <;> rfl
  · have belowFits := fits below (Interval.has_of_lt inside (low.trans_lt right))
    rw [belowFits, decide_eq_true some, Bool.and_self]
    cases i.contains (.ofDecimal (below + 1) k) with
    | true =>
      rw [if_pos rfl]
      split_ifs <;> rfl
    | false => rw [Bool.not_false, Bool.or_true, Bool.and_self, if_pos rfl, Option.isSome_some]

/-- What is found on the grids is in the interval. -/
theorem contains_of_firstOnGrids (found : firstOnGrids v i n k = some d) :
    0 < d.digits ∧ i.contains (.ofDecimal d.digits d.exponent) = true := by
  induction n generalizing k with
  | zero => cases found
  | succ n ih =>
    rw [firstOnGrids, Option.or_eq_some_iff] at found
    rcases found with found | ⟨-, found⟩
    · exact contains_of_nearestOnGrid found
    · exact ih found

/-- If some grid has a number in the interval, one is found. -/
theorem firstOnGrids_isSome {j : Nat} (before : j < n)
    (found : (nearestOnGrid v i (k - j)).isSome = true) : (firstOnGrids v i n k).isSome = true := by
  induction n generalizing j k with
  | zero => omega
  | succ n ih =>
    rw [firstOnGrids, Option.isSome_or, Bool.or_eq_true]
    cases j with
    | zero => exact .inl (by rwa [Nat.cast_zero, Int.sub_zero] at found)
    | succ j =>
      refine .inr (ih (j := j) (by omega) ?_)
      rwa [Int.sub_sub, Int.add_comm 1, ← Nat.cast_succ]

end Grids

/-! ## Seventeen digits -/

section Parts

variable {m n : Nat} {e f : Int} {x : ℚ}

/-- A canonical mantissa has at most 53 bits. -/
theorem Canonical.lt (h : Canonical m e) : m < 2 ^ 53 := by
  have := h.1
  rwa [Nat.one_shiftLeft] at this

/-- Above the smallest exponent a canonical mantissa has 53 bits. -/
theorem Canonical.le (h : Canonical m e) (normal : -1074 < e) : 2 ^ 52 ≤ m := by
  have := h.2.2.2.resolve_right (by omega)
  rwa [Nat.one_shiftLeft] at this

/-- An interval is wider than the part of its number that seventeen digits leave out. -/
theorem four_mul_lt (lt : m < 2 ^ 53) : 4 * m < (gap m e + 2) * 10 ^ 16 := by
  unfold gap
  split <;> omega

/-- The shortest decimal of a positive double rounds to it. -/
theorem rounds_shortest (canonical : Canonical m e) (positive : 0 < m) :
    0 < (shortest m e).digits ∧
      Rounds m e ((shortest m e).digits * (10 : ℚ) ^ (shortest m e).exponent) := by
  have unit : (0 : ℚ) < (2 : ℚ) ^ (e - 2) := by positivity
  have proper := Interval.proper_ofParts m e
  have den := Ratio.den_ofBinary m e
  have num : 0 < (Ratio.ofBinary m e).num := by
    show 0 < m <<< e.toNat
    rw [Nat.shiftLeft_eq]
    exact Nat.mul_pos positive (Nat.two_pow_pos _)
  have lower := lower_ofParts positive e
  have upper := upper_ofParts m e
  have value := value_parts m e
  have gap_pos : (0 : ℚ) < gap m e := Nat.cast_pos.mpr (gap_pos m e)
  have exponent := Ratio.pow_exponent_le num den
  obtain ⟨d, found⟩ : ∃ d, firstOnGrids (.ofBinary m e) (.ofParts m e) 17
      (Ratio.ofBinary m e).exponent = some d := by
    refine Option.isSome_iff_exists.mp (firstOnGrids_isSome (j := 16) (by omega) ?_)
    -- A step of this grid is at most the number divided by `10 ^ 16`.
    have step : (10 : ℚ) ^ ((Ratio.ofBinary m e).exponent - (16 : Nat)) * 10 ^ 16 ≤
        (Ratio.ofBinary m e).value := by
      rw [zpow_sub₀ (by norm_num), zpow_natCast, div_mul_cancel₀ _ (by positivity)]
      exact exponent
    have small : (0 : ℚ) < (10 : ℚ) ^ ((Ratio.ofBinary m e).exponent - (16 : Nat)) := by positivity
    refine nearestOnGrid_isSome den proper ?_ ?_ ?_ ?_
    · rw [lower, value]
      nlinarith
    · rw [upper, value]
      nlinarith
    · nlinarith
    · have wide : (4 * m : ℚ) < (gap m e + 2) * 10 ^ 16 := by
        exact_mod_cast four_mul_lt canonical.lt
      have narrow : (4 * m : ℚ) * (2 : ℚ) ^ (e - 2) < (gap m e + 2) * 10 ^ 16 * (2 : ℚ) ^ (e - 2) :=
        mul_lt_mul_of_pos_right wide unit
      rw [lower, upper]
      rw [value] at step
      linarith
  have chosen : shortest m e = d := by
    unfold shortest
    dsimp only
    rw [found, Option.getD_some]
  obtain ⟨digits, contained⟩ := contains_of_firstOnGrids found
  rw [Interval.contains_iff proper (Ratio.den_ofDecimal _ _), Ratio.value_ofDecimal] at contained
  rw [chosen]
  exact ⟨digits, contained⟩

/-! ## Intervals apart -/

/-- What rounds to a number lies between its bounds, and does not meet them when the significand is
odd. -/
theorem bounds_of_rounds (positive : 0 < m) (h : Rounds m e x) :
    (4 * m - gap m e) * (2 : ℚ) ^ (e - 2) ≤ x ∧ x ≤ (4 * m + 2) * (2 : ℚ) ^ (e - 2) ∧
      (m % 2 = 1 → (4 * m - gap m e) * (2 : ℚ) ^ (e - 2) < x ∧
        x < (4 * m + 2) * (2 : ℚ) ^ (e - 2)) := by
  have closed : (Interval.ofParts m e).closed = decide (m % 2 = 0) := rfl
  unfold Rounds Interval.Has at h
  rw [closed, lower_ofParts positive, upper_ofParts] at h
  split_ifs at h with even
  · rw [decide_eq_true_iff] at even
    exact ⟨h.1, h.2, fun odd => by omega⟩
  · exact ⟨h.1.le, h.2.le, fun _ => h⟩

/-- Numbers of one unit have no common interval. -/
theorem le_of_rounds (hm : 0 < m) (hn : 0 < n) (first : Rounds m e x) (second : Rounds n e x) :
    n ≤ m := by
  by_contra less
  have unit : (0 : ℚ) < (2 : ℚ) ^ (e - 2) := by positivity
  obtain ⟨-, above, open_m⟩ := bounds_of_rounds hm first
  obtain ⟨below, -, open_n⟩ := bounds_of_rounds hn second
  have gap_le : (gap n e : ℚ) ≤ 2 := by exact_mod_cast gap_le n e
  have succ : (m : ℚ) + 1 ≤ n := by exact_mod_cast Nat.lt_of_not_le less
  -- The intervals meet in a bound at most, and then the numbers are neighbours.
  have order : (4 * m + 2) * (2 : ℚ) ^ (e - 2) ≤ (4 * n - gap n e) * (2 : ℚ) ^ (e - 2) :=
    mul_le_mul_of_nonneg_right (by linarith) unit.le
  rcases Nat.mod_two_eq_zero_or_one m with even | odd
  · rcases Nat.mod_two_eq_zero_or_one n with even' | odd'
    · have apart : (m : ℚ) + 2 ≤ n := by exact_mod_cast (by omega : m + 2 ≤ n)
      have strict : (4 * m + 2) * (2 : ℚ) ^ (e - 2) < (4 * n - gap n e) * (2 : ℚ) ^ (e - 2) :=
        mul_lt_mul_of_pos_right (by linarith) unit
      linarith
    · have := (open_n odd').1
      linarith
  · have := (open_m odd).2
    linarith

/-- A number of a smaller unit is below what rounds to one of a larger unit. -/
theorem not_rounds_of_lt (hm : 0 < m) (hn : 0 < n) (cm : Canonical m e) (cn : Canonical n f)
    (less : e < f) (first : Rounds m e x) (second : Rounds n f x) : False := by
  have unit : (0 : ℚ) < (2 : ℚ) ^ (e - 2) := by positivity
  obtain ⟨-, above, open_m⟩ := bounds_of_rounds hm first
  obtain ⟨below, -, -⟩ := bounds_of_rounds hn second
  have least := cm.2.1
  have twice : (2 : ℚ) ^ (e - 2) * 2 ≤ (2 : ℚ) ^ (f - 2) := by
    rw [← zpow_add_one₀ (by norm_num)]
    exact zpow_le_zpow_right₀ (by norm_num) (by omega)
  have bound : 2 ^ 54 - 1 + gap n f ≤ 4 * n := by
    have large := cn.le (by omega)
    unfold gap
    split <;> omega
  have high : (2 : ℚ) ^ 54 - 1 ≤ 4 * n - gap n f := by
    have cast : ((2 ^ 54 - 1 + gap n f : Nat) : ℚ) ≤ (4 * n : Nat) := Nat.cast_le.mpr bound
    push_cast at cast
    linarith
  have order : (2 ^ 54 - 1) * ((2 : ℚ) ^ (e - 2) * 2) ≤ (4 * n - gap n f) * (2 : ℚ) ^ (f - 2) :=
    mul_le_mul high twice (by positivity) (by linarith)
  -- The bounds meet only above the greatest significand, which is odd.
  rcases Nat.lt_or_ge m (2 ^ 53 - 1) with small | greatest
  · have low : (m : ℚ) + 2 ≤ 2 ^ 53 := by exact_mod_cast (by omega : m + 2 ≤ 2 ^ 53)
    nlinarith
  · obtain rfl : m = 2 ^ 53 - 1 := by
      have := cm.lt
      omega
    have := (open_m (by norm_num)).2
    push_cast at this
    linarith

/-- A number rounds to itself. -/
theorem rounds_self (positive : 0 < m) : Rounds m e (m * (2 : ℚ) ^ e) := by
  have unit : (0 : ℚ) < (2 : ℚ) ^ (e - 2) := by positivity
  have gap_pos : (0 : ℚ) < gap m e := Nat.cast_pos.mpr (gap_pos m e)
  have value := value_parts m e
  rw [Ratio.value_ofBinary] at value
  refine Interval.has_of_lt ?_ ?_
  · rw [lower_ofParts positive, value]
    exact mul_lt_mul_of_pos_right (by linarith) unit
  · rw [upper_ofParts, value]
    exact mul_lt_mul_of_pos_right (by linarith) unit

/-- No number rounds to two positive doubles. -/
theorem parts_eq_of_rounds (hm : 0 < m) (hn : 0 < n) (cm : Canonical m e) (cn : Canonical n f)
    (first : Rounds m e x) (second : Rounds n f x) : m = n ∧ e = f := by
  rcases lt_trichotomy e f with less | rfl | less
  · exact (not_rounds_of_lt hm hn cm cn less first second).elim
  · exact ⟨Nat.le_antisymm (le_of_rounds hn hm second first) (le_of_rounds hm hn first second), rfl⟩
  · exact (not_rounds_of_lt hn hm cn cm less second first).elim

end Parts

end TailLoop.Double
