import TailLoop.Double.Format
import TailLoop.Double.Reader
import TailLoop.Text.Letter
import TailLoop.Value.Error
import TailLoop.Value.Store

/-!
# Conversions of values

Texts, numbers, 32-bit integers and indexes that values stand for, and equality with conversion.
-/

namespace TailLoop

/-- The text of a function: that of a declaration if it has a name, else of an expression. -/
def Closure.source (c : Closure) : Except PrintError Text :=
  if c.id.isNull then
    Tree.print defaultIndent
      (.node none (.expressionStatement (.node none (.function .expression c.id c.params c.body))))
  else Tree.print defaultIndent (.node none (.function .declaration c.id c.params c.body))

/-- The name of a function; empty if it has none. -/
def Closure.name (c : Closure) : Tree :=
  match c.id.name? with
  | some name => if name.truthy then name else .text []
  | none => .text []

/-- How many parameters a function has. -/
def Closure.arity (c : Closure) : Except Fault Nat := c.params.length

namespace Store

/-- The text of a function. -/
def functionText (s : Store) (ref : Nat) : Except RuntimeError Text :=
  match s.closures[ref]? with
  | some c => c.source.mapError .unprintable
  | none => .ok []

/-- The text of a built-in function. -/
def nativeText (f : Native) : Text :=
  "function " ++ f.action.name ++ "() \x7b [native code] \x7d"

/-- The text of a value that contains arrays up to a depth of `fuel`. -/
def textWithin (s : Store) : (fuel : Nat) → Value → Except RuntimeError Text
  | _, .undefined => .ok "undefined"
  | _, .null => .ok "null"
  | _, .bool b => .ok (if b then "true" else "false")
  | _, .number d => .ok d.numeral
  | _, .string t => .ok t
  | _, .object _ => .ok "[object Object]"
  | _, .foreign _ => .ok "[object Object]"
  | _, .function ref => s.functionText ref
  | _, .native f => .ok (nativeText f)
  | 0, .array _ => .error .endlessText
  | fuel + 1, .array ref => do
    let parts ← (s.items ref).toList.mapM fun v =>
      if v.isNullish then .ok [] else textWithin s fuel v
    return Text.join "," parts

/-- The text of a value. Arrays within arrays without end are as many as there are arrays at
least. -/
def text (s : Store) (v : Value) : Except RuntimeError Text := s.textWithin s.arrays.size v

/-- The texts of the items of an array, where null and undefined are empty. -/
def itemTexts (s : Store) (vs : List Value) : Except RuntimeError (List Text) :=
  vs.mapM fun v => if v.isNullish then .ok [] else s.text v

/-- The words for the infinities. -/
def infinityWords : List (Text × Double) :=
  [("Infinity", .infinite false), ("+Infinity", .infinite false), ("-Infinity", .infinite true)]

/-- The number that a text stands for; not-a-number if it is no numeral. -/
def numberOfText (t : Text) : Except RuntimeError Double :=
  let t := t.trim
  if t.isEmpty then .ok (.zero false)
  else if Double.hasHexMark t then
    match Double.hexInteger? (t.drop 2) with
    | some n =>
      match Double.ofInt? n with
      | some d => .ok d
      | none => .error .integerTooLarge
    | none => .ok .nan
  else
    match infinityWords.lookup t with
    | some d => .ok d
    | none =>
      if t.any fun c => Text.isLetter c && Text.lowerPoint c != 'e'.toNat then .ok .nan
      else .ok ((Double.ofText? t).getD .nan)

/-- The number that a value stands for. -/
def number (s : Store) : Value → Except RuntimeError Double
  | .undefined => .ok .nan
  | .null => .ok (.zero false)
  | .bool b => .ok (Double.ofNat b.toNat)
  | .number d => .ok d
  | .string t => numberOfText t
  | .array ref => do
    let t ← s.text (.array ref)
    numberOfText t
  | _ => .ok .nan

/-- The 32-bit integer with sign that a double stands for: its integer part modulo `2 ^ 32`. A
number that is not finite counts as zero. -/
def wrapSigned (d : Double) : Int := Int.bmod (d.truncate?.getD 0) (1 <<< 32)

/-- The 32-bit integer with sign that a value stands for. -/
def signed32 (s : Store) (v : Value) : Except RuntimeError Int := (s.number v).map wrapSigned

/-- The 32-bit integer without sign that a value stands for. -/
def unsigned32 (s : Store) (v : Value) : Except RuntimeError Nat :=
  (s.signed32 v).map fun n : Int => (n % (1 <<< 32 : Nat)).toNat

end Store

namespace Value

/-- The words that stand for values other than numbers and texts. -/
def words : List (Text × Value) :=
  [("true", .bool true), ("false", .bool false), ("null", .null), ("undefined", .undefined)]

/-- The value that a text given from outside stands for: that of a word, a number if it is a
numeral, or itself. -/
def ofArgument (t : Text) : Value :=
  match words.lookup t with
  | some v => v
  | none => ((Double.ofText? t).map .number).getD (.string t)

/-- The index that a number is, if it is a natural number. -/
def indexOfNumber? (d : Double) : Option Nat :=
  d.integer?.bind fun n => if 0 ≤ n then some n.toNat else none

/-- The index that a value is: a natural number, or a text of digits. -/
def index? : Value → Except RuntimeError (Option Nat)
  | .number d => .ok (indexOfNumber? d)
  | .string t =>
    if t.isEmpty || !t.all Text.isDigit then .ok none
    else
      match Double.ofText? t with
      | some d => .ok (indexOfNumber? d)
      | none => .error (.notNumeral t)
  | _ => .ok none

/-- How often a value can still be converted before it is compared: a flag into a number, an array
into a text. -/
def conversions : Value → Nat
  | .bool _ => 1
  | .array _ => 1
  | _ => 0

end Value

namespace Store

/-- Equality with conversion: null and undefined are equal to each other and to nothing else, and
values of one type are compared without conversion. Otherwise a flag becomes a number, a text beside a
number is read as one, and an array becomes its text. -/
def looseEquals (s : Store) (a b : Value) : Except RuntimeError Bool :=
  if a.isNullish || b.isNullish then .ok (a.isNullish && b.isNullish)
  else if a.type = b.type then .ok (a.strictEquals b)
  else
    match a, b with
    | .bool p, b => s.looseEquals (.number (Double.ofNat p.toNat)) b
    | a, .bool q => s.looseEquals a (.number (Double.ofNat q.toNat))
    | .number x, .string t => (numberOfText t).map x.eq
    | .string t, .number y => (numberOfText t).map (·.eq y)
    | .array ref, b => do
      let t ← s.text (.array ref)
      s.looseEquals (.string t) b
    | a, .array ref => do
      let t ← s.text (.array ref)
      s.looseEquals a (.string t)
    | _, _ => .ok false
termination_by a.conversions + b.conversions
decreasing_by all_goals simp [Value.conversions]

/-- Equality with conversion looks at nothing of a store but the texts of arrays. -/
theorem looseEquals_congr {s s' : Store} (texts : ∀ ref, s'.text (.array ref) = s.text (.array ref))
    (a b : Value) : s'.looseEquals a b = s.looseEquals a b := by
  -- Along the recursion of `looseEquals`: only the text of an array depends on the store.
  induction a, b using looseEquals.induct with
  | case1 a b nullish => rw [looseEquals.eq_def, looseEquals.eq_def, if_pos nullish, if_pos nullish]
  | case2 a b plain same =>
    rw [looseEquals.eq_def, looseEquals.eq_def, if_neg plain, if_neg plain, if_pos same, if_pos same]
  | case3 p b plain other ih => rw [looseEquals, looseEquals, ih]
  | case4 a q noFlag plain other ih =>
    rw [looseEquals, looseEquals, ih] <;> assumption
  | case5 x t plain other => rw [looseEquals, looseEquals]
  | case6 t y plain other => rw [looseEquals, looseEquals]
  | case7 ref b noFlag plain other ih =>
    rw [looseEquals, looseEquals, texts] <;> try assumption
    simp only [ih]
  | case8 a ref noFlag noArray plain other ih =>
    rw [looseEquals, looseEquals, texts] <;> try assumption
    simp only [ih]
  | case9 a b plain other => rw [looseEquals, looseEquals] <;> assumption

/-- Equality with conversion fails only where an array has no text or a text stands for no number. -/
theorem error_of_looseEquals {s : Store} {a b : Value} {e : RuntimeError}
    (failed : s.looseEquals a b = .error e) :
    (∃ ref, (a = .array ref ∨ b = .array ref) ∧ s.text (.array ref) = .error e) ∨
      ∃ t, numberOfText t = .error e := by
  have numeral {t : Text} {f : Double → Bool} (h : (numberOfText t).map f = .error e) :
      numberOfText t = .error e := by
    cases found : numberOfText t with
    | ok d => rw [found] at h; cases h
    | error e' => rw [found] at h; cases h; rfl
  -- Along the recursion of `looseEquals`: an array or a text is converted, and only that can fail.
  induction a, b using looseEquals.induct with
  | case1 a b nullish => rw [looseEquals.eq_def, if_pos nullish] at failed; cases failed
  | case2 a b plain same => rw [looseEquals.eq_def, if_neg plain, if_pos same] at failed; cases failed
  | case3 p b plain other ih =>
    rw [looseEquals, if_neg plain, if_neg other] at failed
    exact (ih failed).imp_left fun ⟨ref, array, h⟩ => ⟨ref, .inr (by simpa using array), h⟩
  | case4 a q noFlag plain other ih =>
    rw [looseEquals, if_neg plain, if_neg other] at failed <;> try assumption
    exact (ih failed).imp_left fun ⟨ref, array, h⟩ => ⟨ref, .inl (by simpa using array), h⟩
  | case5 x t plain other =>
    rw [looseEquals, if_neg plain, if_neg other] at failed
    exact .inr ⟨t, numeral failed⟩
  | case6 t y plain other =>
    rw [looseEquals, if_neg plain, if_neg other] at failed
    exact .inr ⟨t, numeral failed⟩
  | case7 ref b noFlag plain other ih =>
    rw [looseEquals, if_neg plain, if_neg other] at failed <;> try assumption
    cases found : s.text (.array ref) with
    | error e' =>
      rw [found] at failed
      cases failed
      exact .inl ⟨ref, .inl rfl, found⟩
    | ok t =>
      rw [found] at failed
      exact (ih t failed).imp_left fun ⟨r, array, h⟩ => ⟨r, .inr (by simpa using array), h⟩
  | case8 a ref noFlag noArray plain other ih =>
    rw [looseEquals, if_neg plain, if_neg other] at failed <;> try assumption
    cases found : s.text (.array ref) with
    | error e' =>
      rw [found] at failed
      cases failed
      exact .inl ⟨ref, .inr rfl, found⟩
    | ok t =>
      rw [found] at failed
      exact (ih t failed).imp_left fun ⟨r, array, h⟩ => ⟨r, .inl (by simpa using array), h⟩
  | case9 a b plain other =>
    rw [looseEquals, if_neg plain, if_neg other] at failed <;> try assumption
    cases failed

/-- The position of the first item that equals a value without conversion, or minus one. -/
def positionOf (target : Value) (items : List Value) : Double :=
  match items.findIdx? (·.strictEquals target) with
  | some i => Double.ofNat i
  | none => Double.ofInt (-1)

end Store

end TailLoop
