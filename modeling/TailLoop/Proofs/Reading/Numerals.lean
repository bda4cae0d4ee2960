import Mathlib.Tactic.Common
import TailLoop.Literal
import TailLoop.Source.Token

/-!
# Number tokens are numbers

A token that the lexer cuts for a number is a numeral, decimal (`DecimalNumeral`) or hexadecimal. A
decimal numeral always denotes a double, and a hexadecimal one denotes an integer, which may be too
large for a double. So the only number tokens without a value are hexadecimal ones of that kind
(`number_error`).
-/

namespace TailLoop.Source

open Text (isDecimal isHexDigit)

/-! ## Digits -/

/-- A decimal digit is at most nine after a zero. -/
theorem bounds_of_isDecimal {c : Nat} (h : isDecimal c = true) :
    ∃ z ∈ Text.zeros, z ≤ c ∧ c ≤ z + 9 := by
  unfold Text.isDecimal Text.digitValue? at h
  rw [Option.isSome_map] at h
  obtain ⟨z, found⟩ := Option.isSome_iff_exists.mp h
  have inside := List.find?_some found
  rw [Bool.and_eq_true, decide_eq_true_eq, decide_eq_true_eq] at inside
  exact ⟨z, List.mem_of_find?_eq_some found, inside⟩

/-- A decimal digit is one of the ASCII digits or lies far above the ASCII range. -/
theorem range_of_isDecimal {c : Nat} (h : isDecimal c = true) : 48 ≤ c ∧ c ≤ 57 ∨ 0x660 ≤ c := by
  obtain ⟨z, known, low, high⟩ := bounds_of_isDecimal h
  have zeros : ∀ z ∈ Text.zeros, z = 48 ∨ 0x660 ≤ z := by decide
  rcases zeros z known with rfl | far
  · exact .inl ⟨low, high⟩
  · exact .inr (Nat.le_trans far low)

/-- No decimal digit is padding. -/
theorem isPadding_decimal {c : Nat} (h : isDecimal c = true) : Double.isPadding c = false := by
  obtain ⟨z, known, low, high⟩ := bounds_of_isDecimal h
  have digits : ∀ z ∈ Text.zeros, ∀ i < 10, Double.isPadding (z + i) = false := by decide +kernel
  have := digits z known (c - z) (by omega)
  rwa [Nat.add_sub_cancel' low] at this

/-- A hexadecimal digit is a digit or one of six letters, small or large. -/
theorem range_of_isHexDigit {c : Nat} (h : isHexDigit c = true) :
    48 ≤ c ∧ c ≤ 57 ∨ 97 ≤ c ∧ c ≤ 102 ∨ 65 ≤ c ∧ c ≤ 70 := by
  unfold Text.isHexDigit Text.hexValue? at h
  split_ifs at h with h1 h2 h3
  · exact .inl h1
  · exact .inr (.inl h2)
  · exact .inr (.inr h3)
  · cases h

/-- A text of which no end is padding is not changed by taking the padding off. -/
theorem unpad_eq {t : Text} (h : ∀ c ∈ t, Double.isPadding c = false) : Double.unpad t = t := by
  have keeps : ∀ u : Text, (∀ c ∈ u, Double.isPadding c = false) →
      u.dropWhile Double.isPadding = u := by
    intro u hu
    cases u with
    | nil => rfl
    | cons c rest => rw [List.dropWhile_cons, hu c List.mem_cons_self]; rfl
  unfold Double.unpad
  rw [keeps t h, keeps t.reverse fun c hc => h c (List.mem_reverse.mp hc), List.reverse_reverse]

section Runs

variable {value? : Nat → Option Nat} (base n k : Nat)

/-- A digit goes into the run. -/
theorem digitRun_digit {c v : Nat} {rest : Text} (digit : value? c = some v) :
    Double.digitRun value? base n k (c :: rest) =
      Double.digitRun value? base (n * base + v) (k + 1) rest := by
  rw [Double.digitRun.eq_def]
  simp only [digit]

/-- A run ends before what is neither a digit nor an underscore. -/
theorem digitRun_stop {rest : Text}
    (stops : ∀ c ∈ rest.head?, value? c = none ∧ c ≠ '_'.toNat) :
    Double.digitRun value? base n k rest = (n, k, rest) := by
  cases rest with
  | nil => rfl
  | cons c more =>
    obtain ⟨none, other⟩ := stops c rfl
    have no : (c == '_'.toNat) = false := beq_eq_false_iff_ne.mpr other
    cases more with
    | nil => simp only [Double.digitRun, none]
    | cons d more => simp only [Double.digitRun, none, no, Bool.false_and]

/-- A run of digits is taken as far as it goes. -/
theorem digitRun_append {digits rest : Text} (all : ∀ c ∈ digits, (value? c).isSome = true)
    (stops : ∀ c ∈ rest.head?, value? c = none ∧ c ≠ '_'.toNat) :
    ∃ m, Double.digitRun value? base n k (digits ++ rest) = (m, k + digits.length, rest) := by
  induction digits generalizing n k with
  | nil => exact ⟨n, digitRun_stop base n k stops⟩
  | cons c digits ih =>
    rw [List.forall_mem_cons] at all
    obtain ⟨v, digit⟩ := Option.isSome_iff_exists.mp all.1
    obtain ⟨m, run⟩ := ih (n * base + v) (k + 1) all.2
    refine ⟨m, ?_⟩
    rw [List.cons_append, digitRun_digit base n k digit, run, List.length_cons]
    simp only [Prod.mk.injEq, and_true, true_and]
    omega

/-- A text of digits is one run. -/
theorem digitRun_all {digits : Text} (all : ∀ c ∈ digits, (value? c).isSome = true) :
    ∃ m, Double.digitRun value? base n k digits = (m, k + digits.length, []) := by
  have runs : ∃ m, Double.digitRun value? base n k (digits ++ []) = (m, k + digits.length, []) :=
    digitRun_append base n k all nofun
  rwa [List.append_nil] at runs

end Runs

/-! ## Decimal numerals -/

/-- Decimal digits only. -/
def AllDecimal (t : Text) : Prop := ∀ c ∈ t, isDecimal c = true

/-- A point and digits, or nothing. -/
inductive IsFraction : Text → Text → Prop where
  | none : IsFraction [] []
  | some {digits : Text} (all : AllDecimal digits) : IsFraction ('.'.toNat :: digits) digits

/-- The letter of an exponent, a sign and digits, or nothing. -/
inductive IsExponent : Text → Prop where
  | none : IsExponent []
  | some {e : Nat} {sign digits : Text} (letter : Text.lowerPoint e = 'e'.toNat)
      (signed : sign ∈ [[], ['+'.toNat], ['-'.toNat]]) (all : AllDecimal digits)
      (any : digits ≠ []) : IsExponent (e :: (sign ++ digits))

/-- A decimal numeral: digits, a fraction and an exponent, with a digit before or after the
point. -/
inductive DecimalNumeral : Text → Prop where
  | mk {whole fraction digits exponent : Text} (all : AllDecimal whole)
      (point : IsFraction fraction digits) (power : IsExponent exponent)
      (any : whole.length + digits.length ≠ 0) : DecimalNumeral (whole ++ (fraction ++ exponent))

/-- Every decimal digit has a value. -/
theorem digitValue_of_isDecimal {t : Text} (h : AllDecimal t) :
    ∀ c ∈ t, (Text.digitValue? c).isSome = true := h

/-- What is below or above the digits has no value. -/
theorem digitValue_eq_none {c : Nat} (low : c < 48 ∨ 57 < c ∧ c < 0x660) :
    Text.digitValue? c = none := by
  rw [← Option.not_isSome_iff_eq_none]
  intro digit
  have := range_of_isDecimal digit
  omega

/-- The letter of an exponent is `e` in either case. -/
theorem letter_eq {e : Nat} (letter : Text.lowerPoint e = 'e'.toNat) : e = 101 ∨ e = 69 := by
  unfold Text.lowerPoint at letter
  change _ = 101 at letter
  split_ifs at letter with capital
  · exact .inr (by omega)
  · exact .inl letter

/-- No sign is split off a digit. -/
theorem splitSign_of_isDecimal {c : Nat} {rest : Text} (digit : isDecimal c = true) :
    Double.splitSign (c :: rest) = (false, c :: rest) := by
  have range := range_of_isDecimal digit
  have minus : c ≠ '-'.toNat := by change c ≠ 45; omega
  have plus : c ≠ '+'.toNat := by change c ≠ 43; omega
  simp only [Double.splitSign, if_neg minus, if_neg plus]

/-- A sign is split off the digits. -/
theorem splitSign_signed {sign digits : Text} (signed : sign ∈ [[], ['+'.toNat], ['-'.toNat]])
    (all : AllDecimal digits) (any : digits ≠ []) :
    ∃ negative, Double.splitSign (sign ++ digits) = (negative, digits) := by
  simp only [List.mem_cons, List.not_mem_nil, or_false] at signed
  rcases signed with rfl | rfl | rfl
  · cases digits with
    | nil => exact (any rfl).elim
    | cons c rest => exact ⟨false, splitSign_of_isDecimal (all c List.mem_cons_self)⟩
  · exact ⟨false, rfl⟩
  · exact ⟨true, rfl⟩

/-- An exponent gives a number. -/
theorem exponentPart_isSome {exponent : Text} (power : IsExponent exponent) :
    (Double.exponentPart? exponent).isSome = true := by
  cases power with
  | none => rfl
  | @some e sign digits letter signed all any =>
    obtain ⟨negative, split⟩ := splitSign_signed signed all any
    obtain ⟨m, run⟩ := digitRun_all 10 0 0 (digitValue_of_isDecimal all)
    have count : 0 + digits.length ≠ 0 := by
      have := List.length_pos_iff.mpr any
      omega
    unfold Double.exponentPart?
    simp only [if_pos letter, split, run, if_neg count, Option.isSome_some]

/-- No digit run goes on into an exponent. -/
theorem stops_exponent {exponent : Text} (power : IsExponent exponent) :
    ∀ c ∈ exponent.head?, Text.digitValue? c = none ∧ c ≠ '_'.toNat ∧ c ≠ '.'.toNat := by
  cases power with
  | none => exact nofun
  | some letter _ _ _ =>
    rintro c ⟨⟩
    rcases letter_eq letter with rfl | rfl
    · exact ⟨digitValue_eq_none (by omega), by decide, by decide⟩
    · exact ⟨digitValue_eq_none (by omega), by decide, by decide⟩

/-- A decimal numeral denotes a double. -/
theorem unsigned_isSome {t : Text} (numeral : DecimalNumeral t) (negative : Bool) :
    (Double.unsigned? negative t).isSome = true := by
  obtain @⟨whole, fraction, digits, exponent, all, point, power, any⟩ := numeral
  have power' := exponentPart_isSome power
  have stops := stops_exponent power
  unfold Double.unsigned?
  -- By the form of the fraction: the digits of both parts are read in one run each.
  cases point with
  | none =>
    obtain ⟨m, run⟩ :=
      digitRun_append 10 0 0 (digitValue_of_isDecimal all) fun c hc =>
        ⟨(stops c hc).1, (stops c hc).2.1⟩
    have count : ¬ (0 + whole.length + 0 = 0) := by simpa using any
    rw [List.nil_append, run]
    cases exponent with
    | nil =>
      simp only [if_neg count, Option.isSome_map]
      exact power'
    | cons c rest =>
      simp only [if_neg (stops c rfl).2.2, if_neg count, Option.isSome_map]
      exact power'
  | some allDigits =>
    -- The run of the whole part ends at the point.
    have point : ∀ c ∈ ('.'.toNat :: (digits ++ exponent)).head?,
        Text.digitValue? c = none ∧ c ≠ '_'.toNat := by
      rintro c ⟨⟩
      exact ⟨digitValue_eq_none (by decide), by decide⟩
    obtain ⟨m, run⟩ := digitRun_append 10 0 0 (digitValue_of_isDecimal all) point
    obtain ⟨m', run'⟩ :=
      digitRun_append 10 0 0 (digitValue_of_isDecimal allDigits) fun c hc =>
        ⟨(stops c hc).1, (stops c hc).2.1⟩
    have count : ¬ (0 + whole.length + (0 + digits.length) = 0) := by simpa using any
    rw [List.cons_append, run]
    simp only [if_true, run', if_neg count, Option.isSome_map]
    exact power'

/-- The code points of a numeral are digits, a point, the letter of an exponent and a sign. -/
theorem forall_mem_numeral {P : Nat → Prop} {t : Text} (numeral : DecimalNumeral t)
    (digits : ∀ c, isDecimal c = true → P c) (others : ∀ c ∈ [46, 101, 69, 43, 45], P c) :
    ∀ c ∈ t, P c := by
  obtain ⟨all, point, power, any⟩ := numeral
  simp only [List.forall_mem_append]
  -- By the parts of the numeral: whole part, fraction and exponent.
  refine ⟨fun c hc => digits c (all c hc), ?_, ?_⟩
  · cases point with
    | none => exact nofun
    | some all =>
      rw [List.forall_mem_cons]
      exact ⟨others _ (by decide), fun c hc => digits c (all c hc)⟩
  · cases power with
    | none => exact nofun
    | @some e sign _ letter signed all any =>
      simp only [List.forall_mem_cons, List.forall_mem_append]
      refine ⟨?_, ?_, fun c hc => digits c (all c hc)⟩
      · rcases letter_eq letter with rfl | rfl <;> exact others _ (by decide)
      · have known : ∀ sign ∈ [[], ['+'.toNat], ['-'.toNat]], ∀ c ∈ sign,
            c ∈ [46, 101, 69, 43, 45] := by decide
        exact fun c hc => others c (known sign signed c hc)

/-- No numeral holds a blank. -/
theorem isPadding_numeral {t : Text} (numeral : DecimalNumeral t) :
    ∀ c ∈ t, Double.isPadding c = false :=
  forall_mem_numeral numeral (fun _ => isPadding_decimal) (by decide)

/-- No numeral begins like a hexadecimal number. -/
theorem hasHexMark_numeral {t : Text} (numeral : DecimalNumeral t) :
    Double.hasHexMark t = false := by
  have letters : ∀ c ∈ t, Text.lowerPoint c ≠ 'x'.toNat := by
    refine forall_mem_numeral numeral (fun c digit => ?_) (by decide)
    have range := range_of_isDecimal digit
    rw [Text.lowerPoint, if_neg (by omega)]
    change c ≠ 120
    omega
  unfold Double.hasHexMark
  split
  · rename_i z x rest
    have other : (Text.lowerPoint x == 'x'.toNat) = false :=
      beq_eq_false_iff_ne.mpr (letters x (by simp))
    rw [other, Bool.and_false]
  · rfl

/-- A numeral begins with a digit or a point. -/
theorem numeral_head {t : Text} (numeral : DecimalNumeral t) :
    ∃ c rest, t = c :: rest ∧ (isDecimal c = true ∨ c = '.'.toNat) := by
  obtain @⟨whole, fraction, digits, exponent, all, point, power, any⟩ := numeral
  cases whole with
  | cons c rest => exact ⟨c, _, rfl, .inl (all c List.mem_cons_self)⟩
  | nil =>
    cases point with
    | none => exact (any rfl).elim
    | some allDigits => exact ⟨'.'.toNat, _, rfl, .inr rfl⟩

/-- A numeral begins with no sign. -/
theorem splitSign_numeral {t : Text} (numeral : DecimalNumeral t) :
    Double.splitSign t = (false, t) := by
  obtain ⟨c, rest, rfl, first⟩ := numeral_head numeral
  rcases first with digit | rfl
  · exact splitSign_of_isDecimal digit
  · rfl

/-- A decimal numeral is read as a double. -/
theorem ofText_isSome {t : Text} (numeral : DecimalNumeral t) :
    (Double.ofText? t).isSome = true := by
  have sign := splitSign_numeral numeral
  obtain ⟨c, rest, rfl, first⟩ := numeral_head numeral
  -- The words for the special numbers begin with a letter.
  have letter : Text.lowerPoint c ≠ 'i'.toNat ∧ Text.lowerPoint c ≠ 'n'.toNat := by
    have range : c < 65 ∨ 0x660 ≤ c := by
      rcases first with digit | rfl
      · have := range_of_isDecimal digit
        omega
      · exact .inl (by decide)
    have same : Text.lowerPoint c = c := if_neg (by omega)
    rw [same]
    exact ⟨by change c ≠ 105; omega, by change c ≠ 110; omega⟩
  unfold Double.ofText?
  rw [unpad_eq (isPadding_numeral numeral), sign]
  dsimp only
  rw [if_neg, if_neg]
  · exact unsigned_isSome numeral false
  · intro word
    exact letter.2 (List.cons.inj word).1
  · rintro (word | word)
    · exact letter.1 (List.cons.inj word).1
    · exact letter.1 (List.cons.inj word).1

/-! ## Tokens -/

/-- The digits at the start of a text, cut off. -/
theorem take_digits (t : Text) : t.take (digitsLength t) = t.takeWhile isDecimal :=
  (List.prefix_iff_eq_take.mp (List.takeWhile_prefix isDecimal)).symm

/-- What is cut off as digits are digits. -/
theorem allDecimal_take (t : Text) : AllDecimal (t.take (digitsLength t)) := by
  rw [take_digits]
  exact List.all_eq_true.mp List.all_takeWhile

/-- As many digits are cut off as there are. -/
theorem length_take_digits (t : Text) : (t.take (digitsLength t)).length = digitsLength t := by
  rw [take_digits]
  rfl

/-- How long the sign before the digits of an exponent is. -/
def signLength : Text → Nat
  | s :: _ => if s = '+'.toNat ∨ s = '-'.toNat then 1 else 0
  | [] => 0

/-- What is cut off as a sign is none or one. -/
theorem sign_take (t : Text) :
    t.take (signLength t) ∈ [[], ['+'.toNat], ['-'.toNat]] := by
  cases t with
  | nil => exact List.mem_cons_self
  | cons s rest =>
    rw [signLength]
    split_ifs with sign
    · rcases sign with rfl | rfl <;> simp
    · exact List.mem_cons_self

/-- The length of an exponent: none without digits. -/
theorem exponentLength_cons (e : Nat) (rest : Text) : exponentLength (e :: rest) =
    if isLetterOf 'e'.toNat e then
      if digitsLength (rest.drop (signLength rest)) = 0 then 0
      else 1 + signLength rest + digitsLength (rest.drop (signLength rest))
    else 0 := by
  cases rest <;> rfl

/-- The exponent that is cut is one. -/
theorem isExponent_take (t : Text) : IsExponent (t.take (exponentLength t)) := by
  cases t with
  | nil => exact .none
  | cons e rest =>
    rw [exponentLength_cons]
    split_ifs with letter none
    · exact .none
    · rw [Nat.add_assoc, Nat.add_comm, List.take_succ_cons, List.take_add]
      refine .some (eq_of_beq letter) (sign_take rest) (allDecimal_take _) fun empty => none ?_
      rw [← length_take_digits, empty]
      rfl
    · exact .none

/-- The digits, the fraction and the exponent that are cut make a numeral. -/
theorem decimalNumeral_take {t : Text} {n : Nat} (h : decimalLength? t = some n) :
    DecimalNumeral (t.take (n + exponentLength (t.drop n))) := by
  rw [List.take_add]
  have power := isExponent_take (t.drop n)
  have whole := allDecimal_take t
  have length := length_take_digits t
  unfold decimalLength? at h
  dsimp only at h
  split at h
  -- What comes after the digits is a point, or it is not.
  · rename_i c rest after
    split_ifs at h with point some some
    · cases h
      subst point
      -- The text is cut into its whole part, the point and the fraction.
      have cut : t.take (digitsLength t + 1 + digitsLength rest) =
          t.take (digitsLength t) ++ '.'.toNat :: rest.take (digitsLength rest) := by
        rw [Nat.add_assoc, Nat.add_comm 1, List.take_add, after, List.take_succ_cons]
      rw [cut, List.append_assoc]
      refine .mk whole (.some (allDecimal_take rest)) power ?_
      rw [length, length_take_digits]
      omega
    · cases h
      refine .mk whole .none power ?_
      rw [length]
      exact some
  · split_ifs at h with some
    cases h
    refine .mk whole .none power ?_
    rw [length]
    exact some

/-! ## Hexadecimal numbers -/

section HexDigits

variable {digits : Text}

/-- No hexadecimal digit is padding. -/
theorem isPadding_hexDigits (all : ∀ c ∈ digits, isHexDigit c = true) :
    ∀ c ∈ digits, Double.isPadding c = false := by
  intro c hc
  have ascii : ∀ c < 103, 48 ≤ c → Double.isPadding c = false := by decide +kernel
  have range := range_of_isHexDigit (all c hc)
  exact ascii c (by omega) (by omega)

/-- No hexadecimal digit is a sign. -/
theorem splitSign_hexDigits (all : ∀ c ∈ digits, isHexDigit c = true) :
    Double.splitSign digits = (false, digits) := by
  cases digits with
  | nil => rfl
  | cons c rest =>
    have range := range_of_isHexDigit (all c List.mem_cons_self)
    have minus : c ≠ '-'.toNat := by change c ≠ 45; omega
    have plus : c ≠ '+'.toNat := by change c ≠ 43; omega
    simp only [Double.splitSign, if_neg minus, if_neg plus]

/-- The digits of a hexadecimal number denote an integer. -/
theorem hexInteger_isSome (all : ∀ c ∈ digits, isHexDigit c = true)
    (any : digits ≠ []) : (Double.hexInteger? digits).isSome = true := by
  -- The digits do not begin with the mark for a base again.
  have mark : Double.dropHexMark digits = digits := by
    unfold Double.dropHexMark
    split
    · rename_i z x rest
      have := range_of_isHexDigit (all x (by simp))
      refine if_neg fun marked => ?_
      have letter : Text.lowerPoint x = 120 := marked.2
      unfold Text.lowerPoint at letter
      split_ifs at letter <;> omega
    · rfl
  have values : ∀ c ∈ digits, (Double.hexDigit? c).isSome = true := fun c hc => by
    rw [Double.hexDigit?, Option.isSome_or, Bool.or_eq_true]
    exact .inl (all c hc)
  -- All digits have a value, so that the run ends with the text.
  obtain ⟨m, run⟩ := digitRun_all 16 0 0 values
  have count : 0 + digits.length ≠ 0 := by
    have := List.length_pos_iff.mpr any
    omega
  unfold Double.hexInteger?
  rw [unpad_eq (isPadding_hexDigits all), splitSign_hexDigits all]
  simp only [mark, run, if_neg count, Option.isSome_some]

end HexDigits

/-- What is cut for a hexadecimal number is its mark and its digits. -/
theorem hex_take {t : Text} {n : Nat} (h : hexLength? t = some n) :
    Double.hasHexMark (t.take n) = true ∧ (∀ c ∈ (t.take n).drop 2, isHexDigit c = true) ∧
      (t.take n).drop 2 ≠ [] := by
  unfold hexLength? at h
  split at h
  · rename_i z x rest
    dsimp only at h
    split_ifs at h with hex
    obtain ⟨zero, letter, some⟩ := hex
    cases h
    -- The digits are those that the lexer has taken.
    have digits : rest.take (rest.takeWhile isHexDigit).length = rest.takeWhile isHexDigit :=
      (List.prefix_iff_eq_take.mp (List.takeWhile_prefix isHexDigit)).symm
    rw [Nat.add_comm, List.take_succ_cons, List.take_succ_cons, digits]
    refine ⟨?_, List.all_eq_true.mp List.all_takeWhile, ?_⟩
    · rw [Double.hasHexMark, zero, beq_self_eq_true, Bool.true_and]
      exact letter
    · intro (none : rest.takeWhile isHexDigit = [])
      exact some (by rw [none]; rfl)
  · cases h

/-- A number token without a value is a hexadecimal number that is too large for a double. -/
theorem number_error {t : Text} {n : Nat} {fault : Literal.NumberFault}
    (cut : numberLength? t = some n) (failed : Literal.number (t.take n) = .error fault) :
    hexLength? t = some n ∧
      ∃ k, Double.hexInteger? ((t.take n).drop 2) = some k ∧ Double.ofInt? k = none := by
  unfold numberLength? at cut
  unfold Literal.number at failed
  -- Only a numeral with a mark can be too large; decimal ones are rounded.
  cases hex : hexLength? t with
  | some m =>
    rw [hex, Option.some_or] at cut
    cases cut
    obtain ⟨marked, digits, some⟩ := hex_take hex
    obtain ⟨k, value⟩ := Option.isSome_iff_exists.mp (hexInteger_isSome digits some)
    refine ⟨rfl, k, value, ?_⟩
    rw [if_pos marked, value] at failed
    dsimp only at failed
    split at failed
    · cases failed
    · assumption
  | none =>
    rw [hex, Option.none_or] at cut
    obtain ⟨m, length, rfl⟩ := Option.map_eq_some_iff.mp cut
    have numeral := decimalNumeral_take length
    obtain ⟨d, value⟩ := Option.isSome_iff_exists.mp (ofText_isSome numeral)
    rw [hasHexMark_numeral numeral, if_neg Bool.false_ne_true, value] at failed
    cases failed

end TailLoop.Source
