import Mathlib.Order.WellFounded
import TailLoop.Proofs.Interpreter.Builtins

/-!
# Equality of values

Equality without conversion is symmetric, and so is equality with conversion, although its rules
look at the left operand first: each rule for the left operand has a counterpart for the right one.
Values that are equal without conversion are equal with it, and on values of one type that are
neither undefined nor null the two agree (`equality_coherent`).

A comparison that converts an operand has the result of the comparison that it goes on with
(`Converts`, `looseEquals_of_converts`). It cannot go on for ever, since what a conversion gives is
not converted again.
-/

namespace TailLoop

/-- Numeric equality is symmetric. -/
theorem Double.eq_symm (x y : Double) : x.eq y = y.eq x := by
  cases x with
  | nan => cases y <;> rfl
  | infinite s =>
    cases y with
    | infinite t => exact BEq.comm
    | _ => rfl
  | finite s m e c =>
    cases y with
    | finite t n f d =>
      simp only [Double.eq, Bool.and_comm, BEq.comm (a := s), BEq.comm (a := m), BEq.comm (a := e)]
    | _ => rfl

/-- Equality without conversion is symmetric. -/
theorem Value.strictEquals_symm (a b : Value) : a.strictEquals b = b.strictEquals a := by
  cases a <;> cases b <;> first | rfl | exact BEq.comm | exact Double.eq_symm _ _

/-- Values of different types are not equal without conversion. -/
theorem Value.type_eq_of_strictEquals {a b : Value} (h : a.strictEquals b = true) :
    a.type = b.type := by
  cases a <;> cases b <;> first | rfl | cases h

/-- Of two values that are equal without conversion both are undefined or null, or none. -/
theorem Value.isNullish_eq_of_strictEquals {a b : Value} (h : a.strictEquals b = true) :
    a.isNullish = b.isNullish := by
  cases a <;> cases b <;> first | rfl | cases h

namespace Store

variable {s : Store} {a b : Value}

/-! ## One rule at a time -/

/-- Undefined and null are equal to each other and to nothing else. -/
theorem looseEquals_of_isNullish (h : (a.isNullish || b.isNullish) = true) :
    s.looseEquals a b = .ok (a.isNullish && b.isNullish) := by
  rw [looseEquals.eq_def, if_pos h]

/-- Values of one type are compared without conversion. -/
theorem looseEquals_of_type (present : (a.isNullish || b.isNullish) = false)
    (same : a.type = b.type) : s.looseEquals a b = .ok (a.strictEquals b) := by
  rw [looseEquals.eq_def, present, if_neg Bool.false_ne_true, if_pos same]

/-- A flag on the left becomes a number. -/
theorem looseEquals_flag {p : Bool} (present : b.isNullish = false) (other : b.type ≠ .boolean) :
    s.looseEquals (.bool p) b = s.looseEquals (.number (Double.ofNat p.toNat)) b := by
  have apart : ¬(Value.bool p).type = b.type := other.symm
  have present : ¬((Value.bool p).isNullish || b.isNullish) = true := Bool.eq_false_iff.mp present
  rw [looseEquals, if_neg present, if_neg apart]

/-- A flag on the right becomes a number. -/
theorem looseEquals_flag_right {q : Bool} (present : a.isNullish = false)
    (other : a.type ≠ .boolean) :
    s.looseEquals a (.bool q) = s.looseEquals a (.number (Double.ofNat q.toNat)) := by
  have present : ¬(a.isNullish || (Value.bool q).isNullish) = true := by
    rw [present]
    exact Bool.false_ne_true
  have apart : ¬a.type = (Value.bool q).type := other
  have noFlag : ∀ p, a = .bool p → False := by
    rintro p rfl
    exact other rfl
  rw [looseEquals, if_neg present, if_neg apart]
  exact noFlag

/-- An array on the left becomes its text. -/
theorem looseEquals_array {ref : Nat} (present : b.isNullish = false) (other : b.type ≠ .object)
    (noFlag : b.type ≠ .boolean) :
    s.looseEquals (.array ref) b = (do
      let t ← s.text (.array ref)
      s.looseEquals (.string t) b) := by
  have present : ¬((Value.array ref).isNullish || b.isNullish) = true := Bool.eq_false_iff.mp present
  have apart : ¬(Value.array ref).type = b.type := other.symm
  have noFlag : ∀ q, b = .bool q → False := by
    rintro q rfl
    exact noFlag rfl
  rw [looseEquals, if_neg present, if_neg apart]
  exact noFlag

/-- An array on the right becomes its text. -/
theorem looseEquals_array_right {ref : Nat} (present : a.isNullish = false)
    (other : a.type ≠ .object) (noFlag : a.type ≠ .boolean) :
    s.looseEquals a (.array ref) = (do
      let t ← s.text (.array ref)
      s.looseEquals a (.string t)) := by
  have present : ¬(a.isNullish || (Value.array ref).isNullish) = true := by
    rw [present]
    exact Bool.false_ne_true
  have apart : ¬a.type = (Value.array ref).type := other
  have noFlag : ∀ p, a = .bool p → False := by
    rintro p rfl
    exact noFlag rfl
  have noArray : ∀ r, a = .array r → False := by
    rintro r rfl
    exact other rfl
  rw [looseEquals, if_neg present, if_neg apart] <;> assumption

/-! ## Symmetry -/

/-- Equality with conversion is symmetric: what a rule does to the left operand, its counterpart does
to the right one. -/
theorem looseEquals_symm (a b : Value) : s.looseEquals a b = s.looseEquals b a := by
  -- By the cases of the comparison itself: each case is turned into its counterpart.
  induction a, b using looseEquals.induct with
  | case1 a b nullish =>
    rw [looseEquals_of_isNullish nullish,
      looseEquals_of_isNullish ((Bool.or_comm _ _).trans nullish), Bool.and_comm]
  | case2 a b present same =>
    have present := Bool.eq_false_iff.mpr present
    rw [looseEquals_of_type present same,
      looseEquals_of_type ((Bool.or_comm _ _).trans present) same.symm, Value.strictEquals_symm]
  | case3 p b present other ih =>
    have present := Bool.or_eq_false_iff.mp (Bool.eq_false_iff.mpr present)
    rw [looseEquals_flag present.2 (Ne.symm other), looseEquals_flag_right present.2
      (Ne.symm other), ih]
  | case4 a q noFlag present other ih =>
    have present := Bool.or_eq_false_iff.mp (Bool.eq_false_iff.mpr present)
    rw [looseEquals_flag present.1 other, looseEquals_flag_right present.1 other, ih]
  | case5 x t present other =>
    rw [looseEquals, looseEquals, if_neg present, if_neg other]
    simp only [Double.eq_symm]
    rfl
  | case6 t y present other =>
    rw [looseEquals, looseEquals, if_neg present, if_neg other]
    simp only [Double.eq_symm]
    rfl
  | case7 ref b noFlag present other ih =>
    have present := Bool.or_eq_false_iff.mp (Bool.eq_false_iff.mpr present)
    have flagless : b.type ≠ .boolean := by
      cases b with
      | bool q => exact (noFlag q rfl).elim
      | _ => exact fun same => by cases same
    rw [looseEquals_array present.2 (Ne.symm other) flagless,
      looseEquals_array_right present.2 (Ne.symm other) flagless]
    simp only [ih]
  | case8 a ref noFlag noArray present other ih =>
    have present := Bool.or_eq_false_iff.mp (Bool.eq_false_iff.mpr present)
    have flagless : a.type ≠ .boolean := by
      cases a with
      | bool q => exact (noFlag q rfl).elim
      | _ => exact fun same => by cases same
    rw [looseEquals_array present.1 other flagless, looseEquals_array_right present.1 other flagless]
    simp only [ih]
  | case9 a b present other noFlag noArray noFlag' noArray' numeral numeral' =>
    have turned : ¬(b.isNullish || a.isNullish) = true := (Bool.or_comm _ _).symm ▸ present
    rw [looseEquals, looseEquals, if_neg present, if_neg turned, if_neg other, if_neg (Ne.symm other)]
    all_goals first
      | assumption
      | exact fun x t hb ha => numeral' t x ha hb
      | exact fun t y hb ha => numeral y t ha hb

/-! ## Conversions -/

/-- A comparison goes on with another one, in which an operand is converted: a flag into a number, or
else an array into its text. -/
inductive Converts (s : Store) : Value × Value → Value × Value → Prop
  | flagLeft {p : Bool} {b : Value} (present : b.isNullish = false) (other : b.type ≠ .boolean) :
    Converts s (.bool p, b) (.number (Double.ofNat p.toNat), b)
  | flagRight {a : Value} {q : Bool} (present : a.isNullish = false) (other : a.type ≠ .boolean) :
    Converts s (a, .bool q) (a, .number (Double.ofNat q.toNat))
  | arrayLeft {ref : Nat} {t : Text} {b : Value} (present : b.isNullish = false)
    (other : b.type ≠ .object) (noFlag : b.type ≠ .boolean) (text : s.text (.array ref) = .ok t) :
    Converts s (.array ref, b) (.string t, b)
  | arrayRight {a : Value} {ref : Nat} {t : Text} (present : a.isNullish = false)
    (other : a.type ≠ .object) (noFlag : a.type ≠ .boolean) (text : s.text (.array ref) = .ok t) :
    Converts s (a, .array ref) (a, .string t)

/-- A comparison has the result of the one it goes on with. -/
theorem looseEquals_of_converts {p q : Value × Value} (h : s.Converts p q) :
    s.looseEquals p.1 p.2 = s.looseEquals q.1 q.2 := by
  cases h with
  | flagLeft present other => exact looseEquals_flag present other
  | flagRight present other => exact looseEquals_flag_right present other
  | arrayLeft present other noFlag text =>
    rw [looseEquals_array present other noFlag, text]
    rfl
  | arrayRight present other noFlag text =>
    rw [looseEquals_array_right present other noFlag, text]
    rfl

/-- What a conversion gives is not converted again. -/
theorem conversions_lt_of_converts {p q : Value × Value} (h : s.Converts p q) :
    q.1.conversions + q.2.conversions < p.1.conversions + p.2.conversions := by
  cases h <;> simp only [Value.conversions] <;> omega

/-- No comparison converts its operands for ever. -/
theorem wellFounded_converts (s : Store) : WellFounded fun q p => s.Converts p q :=
  Subrelation.wf conversions_lt_of_converts
    (measure fun p : Value × Value => p.1.conversions + p.2.conversions).wf

/-- A comparison of values that have texts has a result, unless a hexadecimal numeral is too large for
a number. -/
theorem looseEquals_ok (functions : ∀ c ∈ s.closures, c.WellFormed) (ha : s.Acyclic a)
    (hb : s.Acyclic b) :
    (∃ equal, s.looseEquals a b = .ok equal) ∨ s.looseEquals a b = .error .integerTooLarge := by
  cases result : s.looseEquals a b with
  | ok equal => exact .inl ⟨equal, rfl⟩
  | error e =>
    -- The comparison fails where an array has no text or a text no number.
    rcases error_of_looseEquals result with ⟨ref, array, textless⟩ | ⟨t, numberless⟩
    · have acyclic : s.Acyclic (.array ref) := by
        rcases array with rfl | rfl <;> assumption
      obtain ⟨t, text⟩ := text_ok functions acyclic
      cases text.symm.trans textless
    · cases huge : t.isHugeNumeral with
      | true =>
        have tooLarge := numberOfText_huge huge
        cases tooLarge.symm.trans numberless
        exact .inr rfl
      | false =>
        obtain ⟨d, number⟩ := numberOfText_ok huge
        cases number.symm.trans numberless

/-! ## Coherence -/

/-- Values that are equal without conversion are equal with it. -/
theorem looseEquals_of_strictEquals (h : a.strictEquals b = true) : s.looseEquals a b = .ok true := by
  cases nullish : a.isNullish || b.isNullish with
  | true =>
    have both := Value.isNullish_eq_of_strictEquals h
    rw [both, Bool.or_self] at nullish
    rw [looseEquals_of_isNullish (by rw [nullish, Bool.or_true]), both, nullish]
    rfl
  | false => rw [looseEquals_of_type nullish (Value.type_eq_of_strictEquals h), h]

/-- Both equalities are symmetric, equality without conversion implies the one with it, and on
values of one type that are neither undefined nor null they agree. Every chain of conversions ends,
with the result of each comparison in it, and a result there is for all values whose arrays are
acyclic, unless a text is a hexadecimal numeral too large for a number. -/
theorem equality_coherent (s : Store) (a b : Value) :
    s.looseEquals a b = s.looseEquals b a ∧
      a.strictEquals b = b.strictEquals a ∧
      (a.strictEquals b = true → s.looseEquals a b = .ok true) ∧
      (a.type = b.type → a.isNullish = false → b.isNullish = false →
        s.looseEquals a b = .ok (a.strictEquals b)) ∧
      (WellFounded fun q p => s.Converts p q) ∧
      (∀ q, s.Converts (a, b) q → s.looseEquals a b = s.looseEquals q.1 q.2) ∧
      ((∀ c ∈ s.closures, c.WellFormed) → s.Acyclic a → s.Acyclic b →
        (∃ equal, s.looseEquals a b = .ok equal) ∨
          s.looseEquals a b = .error .integerTooLarge) := by
  refine ⟨looseEquals_symm a b, Value.strictEquals_symm a b, looseEquals_of_strictEquals,
    fun same left right => looseEquals_of_type ?_ same, wellFounded_converts s,
    fun q h => looseEquals_of_converts h, looseEquals_ok⟩
  rw [left, right]
  rfl

/-- A store with one array, that holds the number one. -/
def single : Store := { initial with arrays := #[#[.number (Double.ofNat 1)]] }

/-- The flag true beside an array that holds one: both operands are converted, and in either order
they are equal. The array equals itself without conversion. -/
theorem equality_coherent_single :
    single.looseEquals (.bool true) (.array 0) = .ok true ∧
      single.looseEquals (.array 0) (.bool true) = .ok true ∧
      single.looseEquals (.array 0) (.array 0) = .ok true ∧
      single.looseEquals (.array 0) (.array 0) = .ok ((Value.array 0).strictEquals (.array 0)) ∧
      ((∃ equal, single.looseEquals (.bool true) (.array 0) = .ok equal) ∨
        single.looseEquals (.bool true) (.array 0) = .error .integerTooLarge) := by
  have acyclic : single.Acyclic (.array 0) := by
    have plain (ref ref' : Nat) : Value.array ref' ∉ (single.items ref).toList := by
      cases ref with
      | zero => exact List.not_mem_cons_of_ne_of_not_mem (fun same => by cases same) List.not_mem_nil
      | succ ref => exact List.not_mem_nil
    exact acyclic_of_rank id (fun ref ref' item => absurd item (plain ref ref')) (by decide)
  obtain ⟨-, -, -, -, -, convert, total⟩ := equality_coherent single (.bool true) (.array 0)
  obtain ⟨-, -, -, -, -, convert', -⟩ :=
    equality_coherent single (.number (Double.ofNat 1)) (.array 0)
  obtain ⟨turn, -⟩ := equality_coherent single (.array 0) (.bool true)
  obtain ⟨-, -, strict, agree, -⟩ := equality_coherent single (.array 0) (.array 0)
  -- A truth value becomes a number, then an array becomes a text, and then they are compared as
  -- numbers.
  have result : single.looseEquals (.bool true) (.array 0) = .ok true := calc
    _ = single.looseEquals (.number (Double.ofNat 1)) (.array 0) :=
      convert _ (.flagLeft rfl (by decide))
    _ = single.looseEquals (.number (Double.ofNat 1)) (.string (Double.ofNat 1).numeral) :=
      convert' _ (.arrayRight rfl (by decide) (by decide) rfl)
    _ = .ok true := by
      rw [looseEquals, if_neg (by decide), if_neg (by decide)]
      rfl
  exact ⟨result, turn.trans result, strict rfl, agree rfl rfl rfl,
    total (fun c stored => absurd stored (Array.not_mem_empty c))
      (acyclic_of_ne fun _ same => by cases same) acyclic⟩

end Store

end TailLoop
