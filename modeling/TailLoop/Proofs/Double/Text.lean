import TailLoop.Double.Format
import TailLoop.Proofs.Double.Shortest

/-!
# Number texts

No two doubles are written alike (`text_injective`). The text of a number is read back as a rational
number (`Decimal.ofText`): its digits without the point, times the power of ten that the point and
the exponent tell. Every layout shows the decimal that it was given (`ofText_write`), and that
decimal determines the double. A double that is written as an integer is determined by it up to the
sign of zero (`eq_of_integer?`).
-/

namespace TailLoop

/-! ## Digits -/

/-- The digits are in a row. -/
theorem toNat_digitChar : ∀ d < 10, (Nat.digitChar d).toNat = 48 + d := by decide

/-- A number is written digit by digit, the last one at the end. -/
theorem Text.ofNat_eq (n : Nat) :
    Text.ofNat n = if n < 10 then [48 + n] else Text.ofNat (n / 10) ++ [48 + n % 10] := by
  unfold Text.ofNat
  rw [Nat.toDigits_eq_if (by omega)]
  split_ifs with single
  · rw [List.map_singleton, toNat_digitChar n single]
  · rw [List.map_append, List.map_singleton, toNat_digitChar _ (Nat.mod_lt n (by omega))]

/-- A decimal digit. -/
def IsDigit (c : Nat) : Prop := 48 ≤ c ∧ c < 58

/-- A number is written in digits. -/
theorem isDigit_ofNat (n : Nat) : ∀ c ∈ Text.ofNat n, IsDigit c := by
  induction n using Nat.strongRecOn with
  | ind n ih =>
    rw [Text.ofNat_eq]
    split_ifs with single
    · rw [List.forall_mem_singleton]
      exact ⟨by omega, by omega⟩
    · rw [List.forall_mem_append, List.forall_mem_singleton]
      exact ⟨ih _ (by omega), by omega, by omega⟩

/-- Every number is written with some digit. -/
theorem length_ofNat_pos (n : Nat) : 0 < (Text.ofNat n).length := by
  rw [Text.ofNat_eq]
  split_ifs
  · exact Nat.zero_lt_one
  · rw [List.length_append]
    exact Nat.succ_pos _

/-- Zeros are digits. -/
theorem isDigit_zeros (n : Nat) : ∀ c ∈ List.replicate n '0'.toNat, IsDigit c := by
  intro c hc
  rw [List.eq_of_mem_replicate hc]
  exact ⟨by decide, by decide⟩

/-- The number that digits denote. -/
def digitsValue (t : Text) : Nat := t.foldl (fun n c => 10 * n + (c - 48)) 0

/-- The value of digits and more digits. -/
theorem digitsValue_append (s t : Text) :
    digitsValue (s ++ t) = digitsValue s * 10 ^ t.length + digitsValue t := by
  induction t using List.reverseRecOn with
  | nil => rw [List.append_nil, List.length_nil, pow_zero, Nat.mul_one]; rfl
  | append_singleton t c ih =>
    have step (u : Text) : digitsValue (u ++ [c]) = 10 * digitsValue u + (c - 48) := by
      rw [digitsValue, List.foldl_append]
      rfl
    rw [← List.append_assoc, step, step, ih, List.length_append, List.length_singleton, pow_succ]
    ring

/-- The digits of a number have its value. -/
theorem digitsValue_ofNat (n : Nat) : digitsValue (Text.ofNat n) = n := by
  induction n using Nat.strongRecOn with
  | ind n ih =>
    rw [Text.ofNat_eq]
    split_ifs with single
    · show 10 * 0 + (48 + n - 48) = n
      omega
    · rw [digitsValue_append, ih _ (by omega), List.length_singleton, pow_one]
      show n / 10 * 10 + (10 * 0 + (48 + n % 10 - 48)) = n
      omega

/-- Zeros have the value zero. -/
theorem digitsValue_zeros (n : Nat) : digitsValue (List.replicate n '0'.toNat) = 0 := by
  induction n with
  | zero => rfl
  | succ n ih =>
    rw [List.replicate_succ', digitsValue_append, ih, Nat.zero_mul]
    rfl

/-- No two integers are written alike. -/
theorem Text.ofInt_injective : Function.Injective Text.ofInt := by
  -- What is negative begins with a minus sign, which is no digit.
  have sign (n k : Nat) : Text.ofNat n ≠ "-" ++ Text.ofNat k := by
    intro same
    have := isDigit_ofNat n 45 (same ▸ List.mem_cons_self)
    exact absurd this.1 (by decide)
  intro a b same
  cases a with
  | ofNat n =>
    cases b with
    | ofNat k =>
      have := congrArg digitsValue same
      rw [Text.ofInt, Text.ofInt, digitsValue_ofNat, digitsValue_ofNat] at this
      rw [this]
    | negSucc k => exact (sign _ _ same).elim
  | negSucc n =>
    cases b with
    | ofNat k => exact (sign _ _ same.symm).elim
    | negSucc k =>
      have := congrArg digitsValue (List.append_cancel_left same)
      rw [digitsValue_ofNat, digitsValue_ofNat] at this
      rw [Nat.succ.inj this]

namespace Double

/-! ## Reading back -/

/-- The integer that a sign and digits denote. -/
def signedValue : Text → Int
  | [] => 0
  | c :: rest => if c = '-'.toNat then -digitsValue rest else digitsValue rest

/-- The digits of a text without the point and the exponent, and the power of ten of the last one. -/
def Decimal.ofText (t : Text) : Decimal :=
  let (mantissa, power) := t.span (· ≠ 'e'.toNat)
  let (whole, fraction) := mantissa.span (· ≠ '.'.toNat)
  ⟨digitsValue (whole ++ fraction.drop 1), signedValue (power.drop 1) - (fraction.drop 1).length⟩

/-- The number that a decimal is. -/
def Decimal.value (d : Decimal) : ℚ := d.digits * (10 : ℚ) ^ d.exponent

/-- A span ends where the condition first fails. -/
theorem span_append {p : Nat → Bool} {s t : Text} (all : ∀ c ∈ s, p c = true)
    (stop : ∀ c ∈ t.head?, p c = false) : (s ++ t).span p = (s, t) := by
  rw [List.span_eq_takeWhile_dropWhile, List.takeWhile_append_of_pos all,
    List.dropWhile_append_of_pos all]
  cases t with
  | nil => rw [List.takeWhile_nil, List.append_nil, List.dropWhile_nil]
  | cons c t =>
    rw [List.takeWhile_cons_of_neg (by simp [stop c rfl]), List.append_nil,
      List.dropWhile_cons_of_neg (by simp [stop c rfl])]

/-- Reading digits, a point and an exponent. -/
theorem ofText_parts {whole f p : Text} (digits : ∀ c ∈ whole, IsDigit c)
    (digits' : ∀ c ∈ f.drop 1, IsDigit c) (point : ∀ c ∈ f.head?, c = '.'.toNat)
    (letter : ∀ c ∈ p.head?, c = 'e'.toNat) :
    Decimal.ofText (whole ++ f ++ p) =
      ⟨digitsValue (whole ++ f.drop 1),
        signedValue (p.drop 1) - (f.drop 1).length⟩ := by
  have plain {c : Nat} (digit : IsDigit c) : decide (c ≠ 'e'.toNat) = true := by
    rw [decide_eq_true_iff]
    have := digit.2
    show c ≠ 101
    omega
  -- Up to the letter there are digits and a point only.
  have mantissa : ∀ c ∈ whole ++ f, decide (c ≠ 'e'.toNat) = true := by
    rw [List.forall_mem_append]
    refine ⟨fun c hc => plain (digits c hc), fun c hc => ?_⟩
    cases f with
    | nil => cases hc
    | cons d f =>
      rcases List.mem_cons.mp hc with rfl | hc
      · rw [point c rfl]
        decide
      · exact plain (digits' c hc)
  -- Up to the point there are digits only.
  have before : ∀ c ∈ whole, decide (c ≠ '.'.toNat) = true := fun c hc => by
    rw [decide_eq_true_iff]
    have := (digits c hc).1
    show c ≠ 46
    omega
  unfold Decimal.ofText
  rw [span_append mantissa fun c hc => by rw [letter c hc]; rfl]
  dsimp only
  rw [span_append before fun c hc => by rw [point c hc]; rfl]

/-- The text of an exponent is read back. -/
theorem signedValue_exponentText (width : Nat) (e : Int) :
    signedValue (exponentText width e) = e := by
  have digits (n : Nat) :
    digitsValue (List.replicate n '0'.toNat ++ Text.ofNat e.natAbs) = e.natAbs := by
    rw [digitsValue_append, digitsValue_zeros, digitsValue_ofNat, Nat.zero_mul, Nat.zero_add]
  unfold exponentText
  dsimp only
  split_ifs with negative
  · show -(digitsValue (List.replicate _ '0'.toNat ++ Text.ofNat e.natAbs) : Int) = e
    rw [digits]
    omega
  · show (digitsValue (List.replicate _ '0'.toNat ++ Text.ofNat e.natAbs) : Int) = e
    rw [digits]
    omega

/-- What comes first comes first. -/
theorem eq_of_mem_head? {a c : Nat} {rest : Text} (h : c ∈ (a :: rest).head?) : c = a :=
  (Option.some.inj h).symm

/-- Reading digits with a point among them. -/
theorem ofText_positional {whole fraction : Text} (digits : ∀ c ∈ whole, IsDigit c)
    (digits' : ∀ c ∈ fraction, IsDigit c) :
    Decimal.ofText (whole ++ '.'.toNat :: fraction) =
      ⟨digitsValue (whole ++ fraction), -fraction.length⟩ := by
  have parts := ofText_parts (f := '.'.toNat :: fraction) (p := []) digits digits'
    (fun _ => eq_of_mem_head?) nofun
  rw [List.append_nil] at parts
  rw [parts]
  congr 1
  exact Int.zero_sub _

/-- Reading one digit before the point, the others after it, and an exponent. -/
theorem ofText_scientific {t f : Text} (digits : ∀ c ∈ t, IsDigit c) (some : t ≠ [])
    (point : ∀ c ∈ f.head?, c = '.'.toNat) (rest : f.drop 1 = t.drop 1) (width : Nat)
    (e : Int) : Decimal.ofText (t.take 1 ++ f ++ 'e'.toNat :: exponentText width e) =
      ⟨digitsValue t, e - t.length + 1⟩ := by
  have digits' : ∀ c ∈ f.drop 1, IsDigit c := fun c hc =>
    digits c (List.mem_of_mem_drop (rest ▸ hc))
  have first : ∀ c ∈ t.take 1, IsDigit c := fun c hc => digits c (List.mem_of_mem_take hc)
  have positive := List.length_pos_iff.mpr some
  rw [ofText_parts first digits' point fun _ => eq_of_mem_head?, rest, List.take_append_drop,
    List.length_drop, List.drop_one, List.tail_cons, signedValue_exponentText]
  congr 1
  omega

/-- A layout shows the decimal that it was given. -/
theorem ofText_write (l : Layout) (d : Decimal) : (Decimal.ofText (l.write d)).value = d.value := by
  obtain ⟨n, e⟩ := d
  have digits := isDigit_ofNat n
  have some := List.length_pos_iff.mp (length_ofNat_pos n)
  have value := digitsValue_ofNat n
  have letter : Text.ofString "e" = ['e'.toNat] := rfl
  have point : Text.ofString "." = ['.'.toNat] := rfl
  have none : Text.ofString ".0" = '.'.toNat :: List.replicate 1 '0'.toNat := rfl
  have zero : Text.ofString "0." = List.replicate 1 '0'.toNat ++ ['.'.toNat] := rfl
  unfold Layout.write Decimal.value
  dsimp only
  rw [letter, point, none, zero]
  generalize Text.ofNat n = t at digits some value
  subst value
  have whole (k : Nat) : ∀ c ∈ t.take k, IsDigit c := fun c hc => digits c (List.mem_of_mem_take hc)
  have rest (k : Nat) : ∀ c ∈ t.drop k, IsDigit c := fun c hc => digits c (List.mem_of_mem_drop hc)
  split_ifs with outside one integral below
  -- The layout writes an exponent, with a fraction or without one.
  · rw [List.append_assoc, List.singleton_append,
      ofText_scientific (f := []) digits some nofun (by rw [one]; rfl)]
    dsimp only
    congr 2
    omega
  · rw [List.append_assoc _ ['e'.toNat], List.singleton_append, List.singleton_append,
      ofText_scientific digits some (fun _ => eq_of_mem_head?) rfl]
    dsimp only
    congr 2
    omega
  · -- The zeros of the exponent are written out, and so is that of the fraction.
    obtain ⟨k, rfl⟩ := Int.eq_ofNat_of_zero_le integral
    rw [ofText_positional (List.forall_mem_append.mpr ⟨digits, isDigit_zeros _⟩) (isDigit_zeros 1),
      digitsValue_append, digitsValue_append, digitsValue_zeros, digitsValue_zeros]
    simp only [Int.toNat_natCast, List.length_replicate]
    push_cast
    rw [add_zero, add_zero, zpow_neg_one, mul_inv_cancel_right₀ (by norm_num), zpow_natCast]
  · -- The zeros after the point count as digits of the fraction.
    rw [List.append_assoc, List.append_assoc, List.singleton_append,
      ofText_positional (isDigit_zeros 1) (List.forall_mem_append.mpr ⟨isDigit_zeros _, digits⟩),
      digitsValue_append, digitsValue_append, digitsValue_zeros, digitsValue_zeros, Nat.zero_mul,
      Nat.zero_mul, Nat.zero_add, Nat.zero_add, List.length_append, List.length_replicate]
    dsimp only
    congr 2
    omega
  -- The point is written between the digits.
  · rw [List.append_assoc, List.singleton_append, ofText_positional (whole _) (rest _),
      List.take_append_drop, List.length_drop]
    dsimp only
    congr 2
    omega

/-- Taking trailing zeros off keeps the number. -/
theorem value_trim (n : Nat) (d : Decimal) : (Decimal.trim n d).value = d.value := by
  induction n generalizing d with
  | zero => rfl
  | succ n ih =>
    rw [Decimal.trim]
    split_ifs with round
    · obtain ⟨k, tens⟩ : ∃ k, d.digits = k * 10 := ⟨d.digits / 10, by omega⟩
      rw [ih, Decimal.value, Decimal.value, tens, Nat.mul_div_cancel k (by omega),
        zpow_add_one₀ (by norm_num)]
      push_cast
      ring
    · rfl

/-! ## Texts of doubles -/

/-- A finite number without its sign, as it is written. -/
def magnitude (m : Nat) (e : Int) : Text :=
  if m = 0 then "0.0" else layout.write (Decimal.trim 17 (shortest m e))

section Magnitudes

variable {m n : Nat} {e f : Int}

/-- The text of a magnitude has the value of its decimal. -/
theorem value_magnitude (some : m ≠ 0) :
    (Decimal.ofText (magnitude m e)).value = (shortest m e).value := by
  rw [magnitude, if_neg some, ofText_write, value_trim]

/-- The decimal of a positive number is positive. -/
theorem shortest_pos (canonical : Canonical m e) (some : m ≠ 0) : 0 < (shortest m e).value := by
  have digits := (rounds_shortest canonical (Nat.pos_of_ne_zero some)).1
  unfold Decimal.value
  positivity

/-- The exponent of zero is the least one. -/
theorem exponent_of_zero (canonical : Canonical 0 e) : e = -1074 :=
  canonical.2.2.2.resolve_left (by decide)

/-- No two numbers without signs are written alike. -/
theorem parts_eq_of_magnitude (cm : Canonical m e) (cn : Canonical n f)
    (same : magnitude m e = magnitude n f) : m = n ∧ e = f := by
  have values := congrArg (fun t => (Decimal.ofText t).value) same
  have zero (e : Int) : (Decimal.ofText (magnitude 0 e)).value = 0 := zero_mul _
  -- Zero has one text, and it differs from those of all other numbers.
  by_cases hm : m = 0 <;> by_cases hn : n = 0
  · subst hm hn
    exact ⟨rfl, (exponent_of_zero cm).trans (exponent_of_zero cn).symm⟩
  · subst hm
    rw [zero, value_magnitude hn] at values
    exact absurd values.symm (shortest_pos cn hn).ne'
  · subst hn
    rw [zero, value_magnitude hm] at values
    exact absurd values (shortest_pos cm hm).ne'
  -- Both numbers are rounded from the same decimal, so that they are equal.
  · rw [value_magnitude hm, value_magnitude hn] at values
    have first := (rounds_shortest cm (Nat.pos_of_ne_zero hm)).2
    have second := (rounds_shortest cn (Nat.pos_of_ne_zero hn)).2
    rw [show ((shortest m e).digits * (10 : ℚ) ^ (shortest m e).exponent) = _ from values] at first
    exact parts_eq_of_rounds (Nat.pos_of_ne_zero hm) (Nat.pos_of_ne_zero hn) cm cn first second

end Magnitudes

/-! ## The points of number texts -/

/-- What a numeral has besides digits: signs, the point, and the letter of the exponent. -/
def numeralMarks : Text := "+-.e"

/-- Digits, then a point or an exponent. -/
inductive IsNumeral : Text → Prop
  | mk {whole rest : Text} {mark : Nat} (digits : ∀ c ∈ whole, IsDigit c) (some : whole ≠ [])
    (marked : mark = '.'.toNat ∨ mark = 'e'.toNat)
    (points : ∀ c ∈ rest, IsDigit c ∨ c ∈ numeralMarks) : IsNumeral (whole ++ mark :: rest)

/-- An exponent is written in digits and marks. -/
theorem points_exponentText (width : Nat) (e : Int) :
    ∀ c ∈ exponentText width e, IsDigit c ∨ c ∈ numeralMarks := by
  have digits : ∀ c ∈ List.replicate (width - (Text.ofNat e.natAbs).length) '0'.toNat ++
      Text.ofNat e.natAbs, IsDigit c := List.forall_mem_append.mpr ⟨isDigit_zeros _, isDigit_ofNat _⟩
  unfold exponentText
  dsimp only
  rw [List.append_assoc, List.forall_mem_append]
  refine ⟨fun c hc => .inr ?_, fun c hc => .inl (digits c hc)⟩
  split_ifs at hc
  · cases List.mem_singleton.mp hc
    decide
  · cases List.mem_singleton.mp hc
    decide

/-- A decimal is written as a numeral in each layout. -/
theorem isNumeral_write (l : Layout) (d : Decimal) : IsNumeral (l.write d) := by
  have digits := isDigit_ofNat d.digits
  have positive := length_ofNat_pos d.digits
  have letter : Text.ofString "e" = ['e'.toNat] := rfl
  have point : Text.ofString "." = ['.'.toNat] := rfl
  have none : Text.ofString ".0" = '.'.toNat :: List.replicate 1 '0'.toNat := rfl
  have zero : Text.ofString "0." = List.replicate 1 '0'.toNat ++ ['.'.toNat] := rfl
  unfold Layout.write
  dsimp only
  rw [letter, point, none, zero]
  generalize Text.ofNat d.digits = t at digits positive
  have some {k : Nat} (taken : 0 < k) : t.take k ≠ [] := by
    rw [Ne, List.take_eq_nil_iff, not_or, ← List.length_eq_zero_iff]
    omega
  have whole (k : Nat) : ∀ c ∈ t.take k, IsDigit c := fun c hc => digits c (List.mem_of_mem_take hc)
  have rest (k : Nat) : ∀ c ∈ t.drop k, IsDigit c ∨ c ∈ numeralMarks := fun c hc =>
    .inl (digits c (List.mem_of_mem_drop hc))
  split_ifs with outside one integral below
  -- With an exponent there is one digit before the point, or the digits are all.
  · rw [List.append_nil, List.append_assoc]
    exact .mk (whole 1) (some Nat.one_pos) (.inr rfl) (points_exponentText _ _)
  · rw [List.append_assoc, List.append_assoc, List.singleton_append, List.cons_append]
    refine .mk (whole 1) (some Nat.one_pos) (.inl rfl) ?_
    rw [List.forall_mem_append, List.singleton_append, List.forall_mem_cons]
    exact ⟨rest 1, .inr (by decide), points_exponentText _ _⟩
  -- An integer is written with zeros behind it and the fraction of zero.
  · refine .mk (List.forall_mem_append.mpr ⟨digits, isDigit_zeros _⟩)
      (List.append_ne_nil_of_left_ne_nil (List.length_pos_iff.mp positive) _) (.inl rfl)
      fun c hc => .inl (isDigit_zeros 1 c hc)
  -- A small number is written with zeros in front of its digits.
  · rw [List.append_assoc, List.append_assoc, List.singleton_append]
    refine .mk (isDigit_zeros 1) (List.cons_ne_nil _ _) (.inl rfl) fun c hc => .inl ?_
    rcases List.mem_append.mp hc with hc | hc
    · exact isDigit_zeros _ c hc
    · exact digits c hc
  -- The point is written between the digits.
  · rw [List.append_assoc]
    exact .mk (whole _) (some (by omega)) (.inl rfl) (rest _)

/-- A magnitude is written as a numeral. -/
theorem isNumeral_magnitude (m : Nat) (e : Int) : IsNumeral (magnitude m e) := by
  unfold magnitude
  split_ifs
  · exact .mk (isDigit_zeros 1) (List.cons_ne_nil _ _) (.inl rfl)
      fun c hc => .inl (isDigit_zeros 1 c hc)
  · exact isNumeral_write _ _

/-- A numeral begins with a digit. -/
theorem IsNumeral.head {t : Text} (h : IsNumeral t) : ∃ c rest, t = c :: rest ∧ IsDigit c := by
  obtain ⟨digits, some, -, -⟩ := h
  obtain ⟨c, rest, rfl⟩ := List.exists_cons_of_ne_nil some
  exact ⟨c, _, List.cons_append, digits c List.mem_cons_self⟩

/-- The text of a number: a word for what is not finite, or a numeral with a sign or none. -/
inductive IsNumberText : Text → Prop
  | nan : IsNumberText "nan"
  | infinite : IsNumberText "inf"
  | negInfinite : IsNumberText "-inf"
  | finite {t : Text} (numeral : IsNumeral t) : IsNumberText t
  | negative {t : Text} (numeral : IsNumeral t) : IsNumberText ("-" ++ t)

/-- A double is written as the text of a number. -/
theorem isNumberText_text (d : Double) : IsNumberText d.text := by
  cases d with
  | nan => exact .nan
  | infinite s =>
    cases s with
    | false => exact .infinite
    | true => exact .negInfinite
  | finite s m e canonical =>
    cases s with
    | false => exact .finite (isNumeral_magnitude m e)
    | true => exact .negative (isNumeral_magnitude m e)

/-- A numeral starts with a digit. -/
theorem IsNumeral.isDigit {c : Nat} {rest : Text} (h : IsNumeral (c :: rest)) : IsDigit c := by
  obtain ⟨c', rest', same, digit⟩ := h.head
  cases same
  exact digit

/-- What is written like a finite number is this number. -/
theorem eq_finite_of_text {d : Double} {s : Bool} {m : Nat} {e : Int} {canonical : Canonical m e}
    (same : d.text = (Double.finite s m e canonical).text) : d = .finite s m e canonical := by
  have numeral := isNumeral_magnitude m e
  -- No sign and no word begins with a digit.
  have other {c : Nat} {rest : Text} (h : c :: rest = magnitude m e) : IsDigit c :=
    (h ▸ numeral).isDigit
  have minus : ¬IsDigit 45 := fun digit => absurd digit.1 (by decide)
  have letter {c : Nat} (far : 58 ≤ c) : ¬IsDigit c := fun digit => absurd digit.2 (by omega)
  cases d with
  | nan =>
    cases s with
    | false => exact (letter (by decide) (other (c := 110) same)).elim
    | true => cases (List.cons.inj same).1
  | infinite negative =>
    cases negative <;> cases s
    · exact (letter (by decide) (other (c := 105) same)).elim
    · cases (List.cons.inj same).1
    · exact (minus (other (c := 45) same)).elim
    · exact (letter (by decide) (other (c := 105) (List.cons.inj same).2)).elim
  | finite negative n f canonical' =>
    cases negative <;> cases s
    · obtain ⟨rfl, rfl⟩ := parts_eq_of_magnitude canonical' canonical same
      rfl
    · have signed : magnitude n f = 45 :: magnitude m e := same
      have numeral' := isNumeral_magnitude n f
      rw [signed] at numeral'
      exact (minus numeral'.isDigit).elim
    · exact (minus (other (c := 45) same)).elim
    · obtain ⟨rfl, rfl⟩ := parts_eq_of_magnitude canonical' canonical (List.append_cancel_left same)
      rfl

/-- No two doubles are written alike. -/
theorem text_injective : Function.Injective text := by
  intro a b same
  -- Of the texts of the infinities and of not-a-number, none is that of another.
  cases b with
  | finite => exact eq_finite_of_text same
  | nan =>
    cases a with
    | finite => exact (eq_finite_of_text same.symm).symm
    | nan => rfl
    | infinite s => cases s <;> cases same
  | infinite t =>
    cases a with
    | finite => exact (eq_finite_of_text same.symm).symm
    | nan => cases t <;> cases same
    | infinite s =>
      cases s <;> cases t
      · rfl
      · cases same
      · cases same
      · rfl

/-! ## Integral numbers -/

/-- Whether a number has a minus sign. -/
def isSigned : Double → Bool
  | .nan => false
  | .infinite s => s
  | .finite s _ _ _ => s

/-- An integral number is the integer that it is said to be. -/
theorem value_of_integer? {m : Nat} {e : Int} {canonical : Canonical m e} {n : Int}
    (h : (Double.finite false m e canonical).integer? = some n) : (m : ℚ) * 2 ^ e = n := by
  rw [integer?] at h
  simp only [Bool.false_eq_true, if_false] at h
  split_ifs at h with natural divides
  -- The exponent is not negative, so that the mantissa is shifted to the left.
  · obtain ⟨k, rfl⟩ := Int.eq_ofNat_of_zero_le natural
    cases h
    rw [Int.toNat_natCast, Nat.shiftLeft_eq, zpow_natCast]
    push_cast
    rfl
  -- The mantissa is divisible, so that shifting it to the right loses nothing.
  · obtain ⟨k, rfl⟩ : ∃ k : Nat, e = -k := ⟨(-e).toNat, by omega⟩
    rw [Int.neg_neg, Int.toNat_natCast] at h divides
    rw [Nat.one_shiftLeft] at divides
    obtain ⟨q, rfl⟩ := Nat.dvd_of_mod_eq_zero divides
    cases h
    rw [Nat.shiftRight_eq_div_pow, Nat.mul_div_cancel_left q (Nat.two_pow_pos k), zpow_neg,
      zpow_natCast]
    push_cast
    field_simp

/-- No two numbers without a minus sign are the same integer. -/
theorem eq_of_integer? {a b : Double} (ha : a.isSigned = false) (hb : b.isSigned = false) {n : Int}
    (first : a.integer? = some n) (second : b.integer? = some n) : a = b := by
  cases a with
  | nan | infinite => cases first
  | finite s m e cm =>
    cases b with
    | nan | infinite => cases second
    | finite t k f ck =>
      cases ha
      cases hb
      -- Equal integers are equal values, which have one canonical form.
      have same : (m : ℚ) * 2 ^ e = k * 2 ^ f :=
        (value_of_integer? first).trans (value_of_integer? second).symm
      have zero {m : Nat} {e : Int} : (m : ℚ) * 2 ^ e = 0 ↔ m = 0 := by
        rw [mul_eq_zero, Nat.cast_eq_zero, or_iff_left (zpow_ne_zero e two_ne_zero)]
      rcases Nat.eq_zero_or_pos m with rfl | hm
      · obtain rfl := zero.mp (same.symm.trans (zero.mpr rfl))
        cases exponent_of_zero cm
        cases exponent_of_zero ck
        rfl
      · have hk : 0 < k :=
          Nat.pos_of_ne_zero fun none => hm.ne' (zero.mp (same.trans (zero.mpr none)))
        obtain ⟨rfl, rfl⟩ := parts_eq_of_rounds hm hk cm ck (rounds_self hm) (same ▸ rounds_self hk)
        rfl

end Double

end TailLoop
