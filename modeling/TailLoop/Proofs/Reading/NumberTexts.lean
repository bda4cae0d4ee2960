import Mathlib.Data.Nat.Digits.Defs
import TailLoop.Proofs.Reading.Numerals

/-!
# Printed numbers are numerals

The text of a finite number without a sign is a decimal numeral, in each of the layouts that it can
have.
-/

namespace TailLoop.Source

open Text (isDecimal)

/-- The digits that are written are decimal. -/
theorem isDecimal_of_isDigit : ∀ c < 58, 48 ≤ c → isDecimal c = true := by decide

/-- A natural number is written in digits. -/
theorem allDecimal_ofNat (n : Nat) : AllDecimal (Text.ofNat n) := by
  intro c hc
  obtain ⟨digit, known, rfl⟩ := List.mem_map.mp hc
  have range := Nat.isDigit_of_mem_toDigits (by decide) (by decide) known
  rw [Char.isDigit, Bool.and_eq_true, decide_eq_true_eq, decide_eq_true_eq] at range
  have low : 48 ≤ digit.toNat := range.1
  have high : digit.toNat ≤ 57 := range.2
  exact isDecimal_of_isDigit _ (by omega) low

/-- No number is written as nothing. -/
theorem ofNat_ne_nil (n : Nat) : Text.ofNat n ≠ [] := by
  rw [Text.ofNat, Ne, List.map_eq_nil_iff]
  exact Nat.toDigits_ne_nil

/-- Zeros are digits. -/
theorem allDecimal_zeros (n : Nat) : AllDecimal (List.replicate n '0'.toNat) := by
  intro c hc
  rw [List.eq_of_mem_replicate hc]
  decide

/-- Digits after digits are digits. -/
theorem AllDecimal.append {s t : Text} (hs : AllDecimal s) (ht : AllDecimal t) :
    AllDecimal (s ++ t) :=
  fun c hc => (List.mem_append.mp hc).elim (hs c) (ht c)

/-- The first of some digits are digits. -/
theorem AllDecimal.take {t : Text} (h : AllDecimal t) (n : Nat) : AllDecimal (t.take n) :=
  fun c hc => h c (List.mem_of_mem_take hc)

/-- The others of some digits are digits. -/
theorem AllDecimal.drop {t : Text} (h : AllDecimal t) (n : Nat) : AllDecimal (t.drop n) :=
  fun c hc => h c (List.mem_of_mem_drop hc)

/-- Digits and an optional fraction are a numeral. -/
theorem decimalNumeral_plain {whole fraction digits : Text} (all : AllDecimal whole)
    (some : whole ≠ []) (point : IsFraction fraction digits) :
    DecimalNumeral (whole ++ fraction) := by
  have numeral := DecimalNumeral.mk all point .none fun none => some ?_
  · rwa [List.append_nil] at numeral
  · exact List.length_eq_zero_iff.mp (Nat.eq_zero_of_add_eq_zero_right none)

/-- An exponent with a sign and enough digits. -/
theorem isExponent_text (width : Nat) (e : Int) :
    IsExponent ('e'.toNat :: Double.exponentText width e) := by
  unfold Double.exponentText
  rw [List.append_assoc]
  refine .some (by decide) ?_ ((allDecimal_zeros _).append (allDecimal_ofNat _))
    (List.append_ne_nil_of_right_ne_nil _ (ofNat_ne_nil _))
  split_ifs
  · exact .tail _ (.tail _ (.head _))
  · exact .tail _ (.head _)

/-- A text in scientific layout is a numeral. -/
theorem scientific {whole fraction digits : Text} (all : AllDecimal whole) (some : whole ≠ [])
    (point : IsFraction fraction digits) (width : Nat) (e : Int) :
    DecimalNumeral (whole ++ (fraction ++ (Text.ofString "e" ++ Double.exponentText width e))) :=
  .mk all point (isExponent_text width e) fun none =>
    some (List.length_eq_zero_iff.mp (Nat.eq_zero_of_add_eq_zero_right none))

/-- A decimal is written as a numeral. -/
theorem decimalNumeral_write (l : Double.Layout) (d : Double.Decimal) :
    DecimalNumeral (l.write d) := by
  have digits := allDecimal_ofNat d.digits
  have some := ofNat_ne_nil d.digits
  unfold Double.Layout.write
  dsimp only
  have first (n : Nat) (positive : n ≠ 0) : (Text.ofNat d.digits).take n ≠ [] := by
    rw [Ne, List.take_eq_nil_iff, not_or]
    exact ⟨positive, some⟩
  have length : 0 < (Text.ofNat d.digits).length := List.length_pos_iff.mpr some
  -- The number is written with an exponent, as an integer, or with zeros in front or a point
  -- inside.
  split_ifs with outside one whole below
  · rw [List.append_nil, List.append_assoc]
    exact scientific (digits.take 1) (first 1 one_ne_zero) .none _ _
  · rw [List.append_assoc, List.append_assoc]
    exact scientific (digits.take 1) (first 1 one_ne_zero) (.some (digits.drop 1)) _ _
  · exact decimalNumeral_plain (digits.append (allDecimal_zeros _))
      (List.append_ne_nil_of_left_ne_nil some _) (.some (allDecimal_zeros 1))
  · rw [List.append_assoc]
    have numeral := decimalNumeral_plain (allDecimal_zeros 1) (List.cons_ne_nil _ _)
      (.some ((allDecimal_zeros (-(d.exponent + (Text.ofNat d.digits).length - 1) - 1).toNat).append
        digits))
    exact numeral
  · rw [List.append_assoc]
    exact decimalNumeral_plain (digits.take _) (first _ (by omega)) (.some (digits.drop _))

/-- The text of a number without a sign is a numeral. -/
theorem decimalNumeral_text {m : Nat} {e : Int} (canonical : Double.Canonical m e) :
    DecimalNumeral (Double.text (.finite false m e canonical)) := by
  unfold Double.text
  dsimp only
  rw [if_neg Bool.false_ne_true]
  split_ifs
  · exact decimalNumeral_plain (allDecimal_zeros 1) (List.cons_ne_nil _ _)
      (.some (allDecimal_zeros 1))
  · exact decimalNumeral_write _ _

/-- An integer that is not negative is written as a numeral. -/
theorem decimalNumeral_ofInt {n : Int} (h : 0 ≤ n) : DecimalNumeral (Text.ofInt n) := by
  obtain ⟨k, rfl⟩ := Int.eq_ofNat_of_zero_le h
  have numeral := decimalNumeral_plain (allDecimal_ofNat k) (ofNat_ne_nil k) .none
  rwa [List.append_nil] at numeral

/-- A number without a sign is printed as a numeral. -/
theorem decimalNumeral_numeral {m : Nat} {e : Int} (canonical : Double.Canonical m e) :
    DecimalNumeral (Double.numeral (.finite false m e canonical)) := by
  unfold Double.numeral
  split
  · contradiction
  · contradiction
  · rename_i d _ _
    split
    -- Integers are written without a point, if they are small enough.
    · rename_i n whole
      have natural : 0 ≤ n := by
        unfold Double.integer? at whole
        simp only [Bool.false_eq_true, if_false] at whole
        split_ifs at whole
        · cases whole
          exact Int.natCast_nonneg _
        · cases whole
          exact Int.natCast_nonneg _
      split_ifs
      · exact decimalNumeral_ofInt natural
      · exact decimalNumeral_text canonical
    · exact decimalNumeral_text canonical

/-- No numeral begins with a sign. -/
theorem startsWith_numeral {t : Text} (numeral : DecimalNumeral t) : t.startsWith "-" = false := by
  obtain ⟨c, rest, rfl, first⟩ := numeral_head numeral
  have other : c ≠ 45 := by
    rcases first with digit | rfl
    · have := range_of_isDecimal digit
      omega
    · decide
  change ((45 == c) && _) = false
  rw [beq_eq_false_iff_ne.mpr other.symm, Bool.false_and]

end TailLoop.Source
