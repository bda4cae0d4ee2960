import Mathlib.Data.Finset.Card
import Mathlib.Logic.Relation
import TailLoop.CommandLine.Basic
import TailLoop.Proofs.Interpreter.Outcomes
import TailLoop.Proofs.Printing

/-!
# Properties and built-in functions

How reading a property and calling a built-in function end. The text of a value exists when no array
in it contains itself (`Store.text_ok`), and its number does unless it is a hexadecimal numeral that
is too large (`Store.number_eq`). What is left are indexes made of digits that are not decimal and
positions that are no integers: these are the only faults (`propertyFault?`, `nativeFault?`) beside
the errors that the language has (`builtins_end`).
-/

namespace TailLoop

open Relation

/-! ## Texts of functions -/

/-- The function comes from well-formed code. -/
def Closure.WellFormed (c : Closure) : Prop :=
  ∃ checked targets l form,
    Validity.WellFormed checked targets (.node l (.function form c.id c.params c.body))

/-- The text of a well-formed function is at hand. -/
theorem Closure.WellFormed.source {c : Closure} (h : c.WellFormed) : ∃ t, c.source = .ok t := by
  obtain ⟨checked, targets, l, form, h⟩ := h
  obtain ⟨id, params, body, env, strict⟩ := c
  cases h with
  | @function _ _ _ _ ps lb ss _ name known kinds parts =>
    have wf (form : FunctionForm) (named : form = .declaration → Validity.IsName id) :
        Validity.WellFormed checked targets
          (.node none (.function form id (.tuple ps) (.node lb (.block (.tuple ss))))) :=
      .function named name known kinds parts
    -- A function is printed as an expression or as a declaration, by whether it has a name.
    unfold Closure.source
    split
    · obtain ⟨t, printed, -⟩ := Print.gives_statement
        (.expressionStatement (l := none) rfl (wf .expression nofun)) rfl defaultIndent
      exact ⟨t, printed⟩
    · rename_i some
      obtain ⟨t, printed, -⟩ := Print.gives_statement
        (wf .declaration fun _ => name (Bool.eq_false_iff.mpr some)) rfl defaultIndent
      exact ⟨t, printed⟩

namespace Store

/-! ## Texts of values -/

/-- A value is an item of an array. -/
def Contains (s : Store) (v w : Value) : Prop := ∃ ref, v = .array ref ∧ w ∈ (s.items ref).toList

/-- The arrays in a value, as deep as they may be, are there, and none of them contains itself. -/
structure Acyclic (s : Store) (v : Value) : Prop where
  inside : ∀ ref, ReflTransGen s.Contains v (.array ref) → ref < s.arrays.size
  acyclic : ∀ w, ReflTransGen s.Contains v w → ¬TransGen s.Contains w w

/-- A value in an array without circles has no circle in it either. -/
theorem Acyclic.of_contains {s : Store} {v w : Value} (h : s.Acyclic v) (contains : s.Contains v w) :
    s.Acyclic w where
  inside ref reaches := h.inside ref (.head contains reaches)
  acyclic u reaches := h.acyclic u (.head contains reaches)

/-- A value that is no array. -/
theorem acyclic_of_ne {s : Store} {v : Value} (other : ∀ ref, v ≠ .array ref) : s.Acyclic v := by
  have alone {w : Value} (reaches : ReflTransGen s.Contains v w) : w = v := by
    rcases reaches.cases_head with same | ⟨_, ⟨ref, same, -⟩, -⟩
    · exact same.symm
    · exact absurd same (other ref)
  refine ⟨fun ref reaches => absurd (alone reaches).symm (other ref), fun w reaches around => ?_⟩
  obtain rfl := alone reaches
  obtain ⟨_, ⟨ref, same, -⟩, -⟩ := TransGen.head'_iff.mp around
  exact other ref same

/-- A text holds no arrays. -/
theorem acyclic_string (s : Store) (t : Text) : s.Acyclic (.string t) :=
  acyclic_of_ne fun _ same => by cases same

/-- Arrays that hold only arrays of a smaller rank. -/
theorem acyclic_of_rank {s : Store} (rank : Nat → Nat)
    (smaller : ∀ ref ref', .array ref' ∈ (s.items ref).toList →
      rank ref' < rank ref ∧ ref' < s.arrays.size) {ref : Nat} (inside : ref < s.arrays.size) :
    s.Acyclic (.array ref) where
  inside ref' reaches := by
    rcases reaches.cases_tail with same | ⟨_, -, ⟨outer, -, item⟩⟩
    · cases same
      exact inside
    · exact (smaller outer ref' item).2
  acyclic := by
    -- Going down in the arrays makes the rank smaller, step by step.
    have falls {v w : Value} (deeper : TransGen s.Contains v w) :
        ∀ inner, w = .array inner → ∃ outer, v = .array outer ∧ rank inner < rank outer := by
      induction deeper with
      | single contains =>
        rintro inner rfl
        obtain ⟨outer, same, item⟩ := contains
        exact ⟨outer, same, (smaller outer inner item).1⟩
      | tail _ contains ih =>
        rintro inner rfl
        obtain ⟨middle, same, item⟩ := contains
        obtain ⟨outer, start, less⟩ := ih middle same
        exact ⟨outer, start, (smaller middle inner item).1.trans less⟩
    intro w _ around
    obtain ⟨_, ⟨inner, same, -⟩, -⟩ := TransGen.head'_iff.mp around
    obtain ⟨outer, same', less⟩ := falls around inner same
    cases same.symm.trans same'
    exact Nat.lt_irrefl _ less

open Classical in
/-- The number of arrays that are in a value. -/
noncomputable def arraysIn (s : Store) (v : Value) : Nat :=
  ((Finset.range s.arrays.size).filter fun ref => TransGen s.Contains v (.array ref)).card

/-- An array without circles is not among the arrays that it holds. -/
theorem arraysIn_lt_size {s : Store} {ref : Nat} (h : s.Acyclic (.array ref)) :
    s.arraysIn (.array ref) < s.arrays.size := by
  classical
  have own := h.acyclic _ .refl
  have inside := Finset.mem_range.mpr (h.inside ref .refl)
  have fewer : s.arraysIn (.array ref) < (Finset.range s.arrays.size).card := by
    refine Finset.card_lt_card (Finset.filter_ssubset.mpr ⟨ref, inside, own⟩)
  rwa [Finset.card_range] at fewer

/-- The arrays in an item are fewer than those in the array. -/
theorem arraysIn_lt {s : Store} {v : Value} {ref : Nat} (h : s.Acyclic v)
    (contains : s.Contains v (.array ref)) : s.arraysIn (.array ref) < s.arraysIn v := by
  classical
  have inside := Finset.mem_range.mpr (h.inside ref (.single contains))
  have own := h.acyclic _ (.single contains)
  refine Finset.card_lt_card ((Finset.ssubset_iff_of_subset fun r hr => ?_).mpr
    ⟨ref, ?_, fun hr => ?_⟩)
  · rw [Finset.mem_filter] at hr ⊢
    exact ⟨hr.1, .head contains hr.2⟩
  · exact Finset.mem_filter.mpr ⟨inside, .single contains⟩
  · exact own (Finset.mem_filter.mp hr).2

/-- A list of outcomes has a value if each of them has. -/
theorem mapM_ok {α β ε : Type} {f : α → Except ε β} {l : List α} (h : ∀ a ∈ l, ∃ b, f a = .ok b) :
    ∃ bs, l.mapM f = .ok bs := by
  induction l with
  | nil => exact ⟨[], rfl⟩
  | cons a l ih =>
    rw [List.forall_mem_cons] at h
    obtain ⟨⟨b, first⟩, rest⟩ := h
    obtain ⟨bs, others⟩ := ih rest
    exact ⟨b :: bs, by rw [List.mapM_cons, first, others]; rfl⟩

section Texts

variable {s : Store} (functions : ∀ c ∈ s.closures, c.WellFormed)
include functions

/-- Every function that the machine has made has a text. -/
theorem functionText_ok (ref : Nat) : ∃ t, s.functionText ref = .ok t := by
  unfold functionText
  cases found : s.closures[ref]? with
  | none => exact ⟨[], rfl⟩
  | some c =>
    obtain ⟨t, source⟩ := (functions c (Array.mem_of_getElem? found)).source
    exact ⟨t, by simp only [source]; rfl⟩

/-- With fuel for the arrays in it, a value has a text. -/
theorem textWithin_ok (fuel : Nat) (v : Value) (h : s.Acyclic v)
    (enough : ∀ ref, v = .array ref → s.arraysIn v < fuel) : ∃ t, s.textWithin fuel v = .ok t := by
  -- By induction on the fuel: the items of an array have fewer arrays below them than the array.
  induction fuel generalizing v with
  | zero =>
    cases v with
    | array ref => exact absurd (enough ref rfl) (Nat.not_lt_zero _)
    | function ref => exact functionText_ok functions ref
    | _ => exact ⟨_, rfl⟩
  | succ fuel ih =>
    cases v with
    | array ref =>
      have each : ∀ w ∈ (s.items ref).toList,
          ∃ t, (if w.isNullish then .ok [] else s.textWithin fuel w) = .ok t := fun w hw => by
        have contains : s.Contains (.array ref) w := ⟨ref, rfl, hw⟩
        split
        · exact ⟨[], rfl⟩
        · refine ih w (h.of_contains contains) fun ref' same => ?_
          subst same
          exact Nat.lt_of_lt_of_le (arraysIn_lt h contains) (Nat.le_of_lt_succ (enough ref rfl))
      obtain ⟨parts, found⟩ := mapM_ok each
      exact ⟨Text.join "," parts, by rw [textWithin, found]; rfl⟩
    | function ref => exact functionText_ok functions ref
    | _ => exact ⟨_, rfl⟩

/-- A value in which no array contains itself has a text. -/
theorem text_ok {v : Value} (h : s.Acyclic v) : ∃ t, s.text v = .ok t :=
  textWithin_ok functions _ v h fun _ same => by
    subst same
    exact arraysIn_lt_size h

end Texts

end Store

/-! ## Numbers of values -/

/-- A hexadecimal numeral of a number that is too large for a double. -/
def Text.isHugeNumeral (t : Text) : Bool :=
  Double.hasHexMark t.trim &&
    (Double.hexInteger? (t.trim.drop 2)).any fun n => (Double.ofInt? n).isNone

namespace Store

/-- A hexadecimal numeral that is too large denotes no number. -/
theorem numberOfText_huge {t : Text} (h : t.isHugeNumeral = true) :
    numberOfText t = .error .integerTooLarge := by
  obtain ⟨mark, huge⟩ := Bool.and_eq_true_iff.mp h
  have some : t.trim.isEmpty = false := by
    cases found : t.trim with
    | nil => rw [found] at mark; cases mark
    | cons c rest => rfl
  unfold numberOfText
  simp only [some, mark, Bool.false_eq_true, if_false, if_true]
  cases hex : Double.hexInteger? (t.trim.drop 2) with
  | none => rw [hex] at huge; cases huge
  | some n =>
    rw [hex] at huge
    simp only [Option.isNone_iff_eq_none.mp huge]

/-- Every other text denotes a number, or stands for none. -/
theorem numberOfText_ok {t : Text} (h : t.isHugeNumeral = false) : ∃ d, numberOfText t = .ok d := by
  unfold numberOfText
  simp only
  split
  · exact ⟨_, rfl⟩
  split
  · rename_i mark
    split
    · rename_i n hex
      rw [Text.isHugeNumeral, mark, hex] at h
      obtain ⟨d, found⟩ : ∃ d, Double.ofInt? n = some d := by simpa [Option.isSome_iff_exists] using h
      rw [found]
      exact ⟨d, rfl⟩
    · exact ⟨_, rfl⟩
  · split
    · exact ⟨_, rfl⟩
    · split <;> exact ⟨_, rfl⟩

/-- The text of a value has to be read as a number, and it is too large. -/
def isTooLarge (s : Store) : Value → Bool
  | .string t => t.isHugeNumeral
  | .array ref => (s.text (.array ref)).toOption.any Text.isHugeNumeral
  | _ => false

/-- The number of a value is missing where its text is such a numeral. -/
theorem number_tooLarge {s : Store} {v : Value} (h : s.isTooLarge v = true) :
    s.number v = .error .integerTooLarge := by
  cases v with
  | string t => exact numberOfText_huge h
  | array ref =>
    rw [isTooLarge] at h
    rw [number]
    cases found : s.text (.array ref) with
    | error e => rw [found] at h; cases h
    | ok t =>
      rw [found] at h
      exact numberOfText_huge h
  | _ => cases h

/-- It is there in all other cases, if the value has a text. -/
theorem number_ok {s : Store} {v : Value} (text : ∃ t, s.text v = .ok t)
    (h : s.isTooLarge v = false) : ∃ d, s.number v = .ok d := by
  cases v with
  | string t => exact numberOfText_ok h
  | array ref =>
    obtain ⟨t, found⟩ := text
    rw [isTooLarge, found] at h
    rw [number, found]
    exact numberOfText_ok h
  | _ => exact ⟨_, rfl⟩

end Store

/-! ## Faults -/

/-- Digits that are taken for an index but are no decimal numeral. -/
def Text.isOddIndex (t : Text) : Bool :=
  !(t.isEmpty || !t.all Text.isDigit) && (Double.ofText? t).isNone

/-- The fault in an index. -/
def indexFault? : Value → Option RuntimeError
  | .string t => if t.isOddIndex then some (.notNumeral t) else none
  | _ => none

/-- The fault in reading a property. -/
def propertyFault? (owner key : Value) : Option RuntimeError :=
  match owner with
  | .array _ | .string _ => indexFault? key
  | _ => none

/-- Digits that are not decimal ones make an index without a value. -/
theorem index?_error {key : Value} {e : RuntimeError} (h : indexFault? key = some e) :
    key.index? = .error e := by
  cases key with
  | string t =>
    rw [indexFault?] at h
    split at h
    · rename_i odd
      cases h
      obtain ⟨digits, none⟩ := Bool.and_eq_true_iff.mp odd
      rw [Bool.not_eq_true'] at digits
      simp only [Value.index?, digits, Bool.false_eq_true, if_false,
        Option.isNone_iff_eq_none.mp none]
    · cases h
  | _ => cases h

/-- All other keys are an index or none. -/
theorem index?_ok {key : Value} (h : indexFault? key = none) : ∃ i, key.index? = .ok i := by
  cases key with
  | string t =>
    rw [Value.index?]
    cases digits : List.isEmpty t || !t.all Text.isDigit with
    | true => exact ⟨none, rfl⟩
    | false =>
      cases found : Double.ofText? t with
      | some d => exact ⟨_, rfl⟩
      | none =>
        rw [indexFault?, Text.isOddIndex, digits, found] at h
        cases h
  | _ => exact ⟨_, rfl⟩

namespace NativeAction

open Eval

/-- The array or text that a method is bound to. -/
def owner? : NativeAction → Option Value
  | .arraySlice ref | .arrayPush ref | .arrayPop ref | .arrayConcat ref | .arrayIndexOf ref
  | .arrayJoin ref => some (.array ref)
  | .textCharAt t | .textSlice t | .textIndexOf t => some (.string t)
  | _ => none

/-- The arguments that a built-in function takes for numbers. -/
def numeric (action : NativeAction) (args : List Value) : List Value :=
  match action with
  | .floor | .abs | .isNaN | .toNumber | .textCharAt _ => [argument args 0]
  | .largest | .smallest => args
  | .arraySlice _ | .textSlice _ => [argument args 0, argument args 1]
  | _ => []

end NativeAction

/-- The fault in taking a number for an integer. -/
def integerFault? : Double → Option RuntimeError
  | .nan => some .integerOfNaN
  | .infinite _ => some .integerOfInfinity
  | _ => none

/-- The fault in a position. A missing one is the first. -/
def positionFault? (s : Store) : Value → Option RuntimeError
  | .undefined => none
  | v => (s.number v).toOption.bind integerFault?

/-- The fault in the call of a built-in function. -/
def nativeFault? (s : Store) (action : NativeAction) (args : List Value) : Option RuntimeError :=
  if (action.numeric args).any s.isTooLarge then some .integerTooLarge
  else
    match action with
    | .textCharAt _ => positionFault? s (Eval.argument args 0)
    | _ => none

/-- The faults of properties are no errors of the language. -/
theorem isThrown_of_propertyFault? {owner key : Value} {e : RuntimeError}
    (h : propertyFault? owner key = some e) : e.isThrown = false := by
  have index {key : Value} (h : indexFault? key = some e) : e.isThrown = false := by
    cases key with
    | string t =>
      rw [indexFault?] at h
      split at h <;> cases h
      rfl
    | _ => cases h
  cases owner with
  | array _ | string _ => exact index h
  | _ => cases h

/-- The faults of built-in functions are no errors of the language. -/
theorem isThrown_of_nativeFault? {s : Store} {action : NativeAction} {args : List Value}
    {e : RuntimeError} (h : nativeFault? s action args = some e) : e.isThrown = false := by
  have integer {d : Double} (h : integerFault? d = some e) : e.isThrown = false := by
    cases d <;> cases h <;> rfl
  have position {v : Value} (h : positionFault? s v = some e) : e.isThrown = false := by
    unfold positionFault? at h
    split at h
    · cases h
    · obtain ⟨d, -, fault⟩ := Option.bind_eq_some_iff.mp h
      exact integer fault
  unfold nativeFault? at h
  split at h
  · cases h
    rfl
  · cases action with
    | textCharAt t => exact position h
    | _ => cases h

namespace Eval

variable {m : Machine}

/-- What the store gives is the value that is read. -/
theorem read_ok {α : Type} {f : Store → Except RuntimeError α} {a : α} (h : f m.store = .ok a) :
    read f m = .ok a m := by
  rw [Eval.read, Simulation.bind_of_ok (rfl : (get : Eval Machine) m = .ok m m), h]
  rfl

/-- What the store refuses is the error. -/
theorem read_error {α : Type} {f : Store → Except RuntimeError α} {e : RuntimeError}
    (h : f m.store = .error e) : read f m = .error (.failed e) m := by
  rw [Eval.read, Simulation.bind_of_ok (rfl : (get : Eval Machine) m = .ok m m), h]
  rfl

/-- A value without circles has a text in a machine whose functions are well-formed. -/
theorem textOf_ok {v : Value} (functions : ∀ c ∈ m.store.closures, c.WellFormed)
    (h : m.store.Acyclic v) : ∃ t, textOf v m = .ok t m := by
  obtain ⟨t, found⟩ := Store.text_ok functions h
  exact ⟨t, read_ok found⟩

/-! ## Reading properties -/

/-- An index that is at fault ends the reading of a property. -/
theorem getProperty_error (l : Option Location) {owner key : Value} {e : RuntimeError}
    (h : propertyFault? owner key = some e) : getProperty l owner key m = .error (.failed e) m := by
  cases owner with
  | array ref | string t =>
    rw [getProperty, index?_error h]
    rfl
  | _ => cases h

/-- A property is read, unless there can be none. -/
theorem getProperty_ok (functions : ∀ c ∈ m.store.closures, c.WellFormed) (l : Option Location)
    {owner key : Value} (hk : m.store.Acyclic key) (h : propertyFault? owner key = none) :
    (∃ v m', getProperty l owner key m = .ok v m') ∨
      owner.isNullish = true ∧
        ∃ k o, getProperty l owner key m = .error (.failed (.unreadable k o l)) m := by
  obtain ⟨t, text⟩ := textOf_ok functions hk
  have named (length : Nat) (method? : Text → Option NativeAction) :
      ∃ v m', namedProperty length method? t m = .ok v m' := by
    unfold namedProperty
    split
    · exact ⟨_, _, rfl⟩
    · cases method? t <;> exact ⟨_, _, rfl⟩
  -- By the owner: what is read is an item, a method or nothing, unless the owner is missing.
  cases owner with
  | undefined =>
    obtain ⟨u, word⟩ := textOf_ok (v := .undefined) functions (Store.acyclic_of_ne nofun)
    exact .inr ⟨rfl, t, u, (Simulation.bind_of_ok text).trans (Simulation.bind_of_ok word)⟩
  | null =>
    obtain ⟨u, word⟩ := textOf_ok (v := .null) functions (Store.acyclic_of_ne nofun)
    exact .inr ⟨rfl, t, u, (Simulation.bind_of_ok text).trans (Simulation.bind_of_ok word)⟩
  | array ref =>
    obtain ⟨i, index⟩ := index?_ok h
    rw [getProperty, index]
    cases i with
    | some i => exact .inl ⟨_, _, rfl⟩
    | none =>
      obtain ⟨v, m', read⟩ := named (m.store.items ref).size (arrayMethod? ref)
      exact .inl ⟨v, m', (Simulation.bind_of_ok text).trans read⟩
  | string u =>
    obtain ⟨i, index⟩ := index?_ok h
    rw [getProperty, index]
    cases i with
    | some i => exact .inl ⟨_, _, rfl⟩
    | none =>
      obtain ⟨v, m', read⟩ := named u.length (textMethod? u)
      exact .inl ⟨v, m', (Simulation.bind_of_ok text).trans read⟩
  | object ref => exact .inl ⟨_, _, Simulation.bind_of_ok text⟩
  | native f =>
    rw [getProperty, Simulation.bind_of_ok text]
    split <;> exact .inl ⟨_, _, rfl⟩
  | _ => exact .inl ⟨_, _, rfl⟩

/-! ## Calling built-in functions -/

/-- An evaluation takes values for numbers, and does nothing else: it has a result, unless one of the
values is too large. -/
def Converts {α : Type} (vs : List Value) (act : Eval α) (m : Machine) : Prop :=
  if vs.any m.store.isTooLarge then act m = .error (.failed .integerTooLarge) m
  else ∃ a, act m = .ok a m

/-- An evaluation that takes values for numbers has a value in the end, unless one is too large. -/
def Settles (vs : List Value) (act : Eval Value) (m : Machine) : Prop :=
  if vs.any m.store.isTooLarge then act m = .error (.failed .integerTooLarge) m
  else ∃ v m', act m = .ok v m'

namespace Converts

variable {α β : Type} {vs ws : List Value} {act : Eval α}

/-- Nothing is converted for a value that is there. -/
theorem pure (a : α) : Converts [] (Pure.pure a : Eval α) m := ⟨a, rfl⟩

/-- Two steps convert what each of them converts. -/
theorem bind {f : α → Eval β} (h : Converts vs act m) (next : ∀ a, Converts ws (f a) m) :
    Converts (vs ++ ws) (act >>= f) m := by
  unfold Converts at *
  rw [List.any_append]
  cases large : vs.any m.store.isTooLarge with
  | true =>
    rw [large, if_pos rfl] at h
    exact Simulation.bind_of_error h
  | false =>
    rw [large, if_neg Bool.false_ne_true] at h
    obtain ⟨a, done⟩ := h
    rw [Bool.false_or, Simulation.bind_of_ok done]
    exact next a

/-- What follows has a value in any case. -/
theorem settles {f : α → Eval Value} (h : Converts vs act m) (next : ∀ a, ∃ v m', f a m = .ok v m') :
    Settles vs (act >>= f) m := by
  unfold Converts at h
  unfold Settles
  cases large : vs.any m.store.isTooLarge with
  | true =>
    rw [large, if_pos rfl] at h
    exact Simulation.bind_of_error h
  | false =>
    rw [large, if_neg Bool.false_ne_true] at h
    obtain ⟨a, done⟩ := h
    rw [Simulation.bind_of_ok done]
    exact next a

/-- The number of a value converts the value. -/
theorem number (functions : ∀ c ∈ m.store.closures, c.WellFormed) {v : Value}
    (hv : m.store.Acyclic v) : Converts [v] (numberOf v) m := by
  unfold Converts
  rw [List.any_cons, List.any_nil, Bool.or_false]
  cases large : m.store.isTooLarge v with
  | true => exact read_error (Store.number_tooLarge large)
  | false =>
    obtain ⟨d, found⟩ := Store.number_ok (Store.text_ok functions hv) large
    exact ⟨d, read_ok found⟩

/-- The text of a value is there, so that no number is at stake. -/
theorem text (functions : ∀ c ∈ m.store.closures, c.WellFormed) {v : Value}
    (hv : m.store.Acyclic v) : Converts [] (textOf v) m :=
  textOf_ok functions hv

/-- The numbers of some values convert all of them. -/
theorem numbers (functions : ∀ c ∈ m.store.closures, c.WellFormed)
    (hvs : ∀ v ∈ vs, m.store.Acyclic v) : Converts vs (numbersOf vs) m := by
  unfold numbersOf
  induction vs with
  | nil => exact pure []
  | cons v vs ih =>
    rw [List.forall_mem_cons] at hvs
    rw [List.mapM_cons]
    have first : Converts [v] (numberOf v) m := number functions hvs.1
    refine first.bind fun d => ?_
    have rest := bind (ih hvs.2) fun ds => pure (m := m) (d :: ds)
    rwa [List.append_nil] at rest

/-- A position converts the argument that it is read from. -/
theorem position (functions : ∀ c ∈ m.store.closures, c.WellFormed) {args : List Value} {i : Nat}
    (h : m.store.Acyclic (argument args i)) (length default : Nat) :
    Converts [argument args i] (positionArgument args i length default) m := by
  unfold positionArgument
  split
  · rename_i missing
    rw [missing]
    exact ⟨default, rfl⟩
  · exact (number functions h).bind fun d => pure _

/-- The bounds of a slice convert the first two arguments. -/
theorem slice (functions : ∀ c ∈ m.store.closures, c.WellFormed) {args : List Value}
    (h : ∀ i, m.store.Acyclic (argument args i)) (length : Nat) :
    Converts [argument args 0, argument args 1] (sliceBounds args length) m :=
  (position functions (h 0) length 0).bind fun _ =>
    (position functions (h 1) length length).bind fun _ => pure _

end Converts

/-- An argument that was not given is undefined, which holds no arrays. -/
theorem acyclic_argument {args : List Value} (h : ∀ v ∈ args, m.store.Acyclic v) (i : Nat) :
    m.store.Acyclic (argument args i) := by
  unfold argument
  cases found : args[i]? with
  | none => exact Store.acyclic_of_ne nofun
  | some v => exact h v (List.mem_of_getElem? found)

/-- The call of a built-in function other than `charAt`. -/
theorem settles_callNative (functions : ∀ c ∈ m.store.closures, c.WellFormed) {action : NativeAction}
    {args : List Value} (owner : ∀ v ∈ action.owner?, m.store.Acyclic v)
    (h : ∀ v ∈ args, m.store.Acyclic v) (other : ∀ t, action ≠ .textCharAt t) :
    Settles (action.numeric args) (callNative action args) m := by
  have argument := acyclic_argument h
  -- By the action: first the arguments are converted, and nothing else can fail.
  cases action with
  | floor | abs | isNaN =>
    exact (Converts.number functions (argument 0)).settles fun d => ⟨_, _, rfl⟩
  | largest | smallest => exact (Converts.numbers functions h).settles fun ds => ⟨_, _, rfl⟩
  | toText =>
    cases args with
    | nil => exact ⟨_, _, rfl⟩
    | cons v args =>
      obtain ⟨t, text⟩ := textOf_ok functions (argument 0)
      exact ⟨_, _, Simulation.bind_of_ok text⟩
  | toNumber =>
    cases args with
    | nil => exact ⟨_, _, rfl⟩
    | cons v args => exact (Converts.number functions (argument 0)).settles fun d => ⟨_, _, rfl⟩
  | toBoolean => exact ⟨_, _, rfl⟩
  | arraySlice ref => exact (Converts.slice functions argument _).settles fun ds => ⟨_, _, rfl⟩
  | arrayPush ref | arrayPop ref | arrayConcat ref | arrayIndexOf ref => exact ⟨_, _, rfl⟩
  | arrayJoin ref =>
    have each : ∀ v ∈ (m.store.items ref).toList,
        ∃ t, (if v.isNullish then .ok [] else m.store.text v) = .ok t := fun v hv => by
      split
      · exact ⟨[], rfl⟩
      · exact Store.text_ok functions ((owner _ rfl).of_contains ⟨ref, rfl, hv⟩)
    obtain ⟨parts, found⟩ := Store.mapM_ok each
    have joined (separator : Text) : ∃ v m', (do
        let items ← itemsOf ref
        let parts ← read fun s => s.itemTexts items.toList
        return Value.string (Text.join separator parts) : Eval Value) m = .ok v m' :=
      ⟨_, _, Simulation.bind_of_ok (read_ok found)⟩
    rw [callNative]
    split
    · exact joined _
    · exact (Converts.text functions (argument 0)).settles joined
  | textCharAt t => exact absurd rfl (other t)
  | textSlice t => exact (Converts.slice functions argument _).settles fun ds => ⟨_, _, rfl⟩
  | textIndexOf t =>
    refine (Converts.text functions (argument 0)).settles fun part => ?_
    cases Text.find? part t <;> exact ⟨_, _, rfl⟩

/-- The item of a text at a position. -/
def charAt (t : Text) (i : Int) : Value := .string (if 0 ≤ i then t[i.toNat]?.toList else [])

/-- `charAt` without an argument takes the first position, and otherwise that of the number. -/
theorem callNative_textCharAt (t : Text) (args : List Value) :
    (argument args 0 = .undefined → callNative (.textCharAt t) args = pure (charAt t 0)) ∧
      (argument args 0 ≠ .undefined → callNative (.textCharAt t) args = (do
        let d ← numberOf (argument args 0)
        let i ← ofExcept (integerOf d)
        return charAt t i)) := by
  -- The end of both cases, where the position is known.
  have finish (i : Int) : (if 0 ≤ i then (return .string (t[i.toNat]?.toList) : Eval Value)
      else return .string []) = return charAt t i := by
    rw [charAt]
    split <;> rfl
  rw [callNative]
  simp only [finish]
  constructor
  · intro missing
    split
    · exact pure_bind ..
    · exact absurd missing ‹_›
  · intro given
    split
    · exact absurd ‹_› given
    · rfl

/-- A position that is given as a number has a fault only if it is no integer. -/
theorem positionFault?_of_ne {s : Store} {v : Value} (given : v ≠ .undefined) {d : Double}
    (found : s.number v = .ok d) : positionFault? s v = integerFault? d := by
  unfold positionFault?
  split
  · exact absurd rfl given
  · rw [found]
    rfl

/-- The call of `charAt`, whose position has to be an integer. -/
theorem charAt_end (functions : ∀ c ∈ m.store.closures, c.WellFormed) {t : Text}
    {args : List Value} (h : ∀ v ∈ args, m.store.Acyclic v) :
    match nativeFault? m.store (.textCharAt t) args with
    | some e => callNative (.textCharAt t) args m = .error (.failed e) m
    | none => ∃ v m', callNative (.textCharAt t) args m = .ok v m' := by
  have position := acyclic_argument h 0
  obtain ⟨first, converted⟩ := callNative_textCharAt t args
  -- A position that is missing is zero; otherwise it is converted to a number and then to an
  -- integer.
  by_cases missing : argument args 0 = .undefined
  · rw [first missing, nativeFault?, NativeAction.numeric, missing]
    exact ⟨_, _, rfl⟩
  rw [converted missing]
  cases large : m.store.isTooLarge (argument args 0) with
  | true =>
    have fault : nativeFault? m.store (.textCharAt t) args = some .integerTooLarge := by
      rw [nativeFault?, NativeAction.numeric, List.any_cons, large]
      rfl
    rw [fault]
    exact Simulation.bind_of_error (read_error (Store.number_tooLarge large))
  | false =>
    obtain ⟨d, found⟩ := Store.number_ok (Store.text_ok functions position) large
    have fault : nativeFault? m.store (.textCharAt t) args = integerFault? d := by
      rw [nativeFault?, NativeAction.numeric, List.any_cons, large, ← positionFault?_of_ne
        missing found]
      rfl
    have number : numberOf (argument args 0) m = .ok d m := read_ok found
    rw [fault, Simulation.bind_of_ok number]
    cases d <;> first | rfl | exact ⟨_, _, rfl⟩

/-- The call of a built-in function ends with a value, or with its fault if there is one. -/
theorem callNative_end (functions : ∀ c ∈ m.store.closures, c.WellFormed) {action : NativeAction}
    {args : List Value} (owner : ∀ v ∈ action.owner?, m.store.Acyclic v)
    (h : ∀ v ∈ args, m.store.Acyclic v) :
    match nativeFault? m.store action args with
    | some e => callNative action args m = .error (.failed e) m
    | none => ∃ v m', callNative action args m = .ok v m' := by
  -- The position in a text is the one argument that is converted to an integer.
  by_cases charAt : ∃ t, action = .textCharAt t
  · obtain ⟨t, rfl⟩ := charAt
    exact charAt_end functions h
  · have other (t : Text) : action ≠ .textCharAt t := fun same => charAt ⟨t, same⟩
    have settles := settles_callNative functions owner h other
    have fault : nativeFault? m.store action args =
        if (action.numeric args).any m.store.isTooLarge then some .integerTooLarge else none := by
      unfold nativeFault?
      cases action with
      | textCharAt t => exact absurd rfl (other t)
      | _ => rfl
    unfold Settles at settles
    rw [fault]
    cases large : (action.numeric args).any m.store.isTooLarge with
    | true =>
      rw [large, if_pos rfl] at settles
      exact settles
    | false =>
      rw [large, if_neg Bool.false_ne_true] at settles
      exact settles

/-- How properties are read and built-in functions are called. In a store whose functions come from
well-formed code, let no array in the values that take part contain itself. Then reading a property
ends with a value or an error of the language, unless an array or a text is asked for an index that
is no decimal numeral; and the call of a built-in function or a method ends with a value, unless one
of the values that it takes for numbers is the text of a hexadecimal number that is too large, or
the position given to `charAt` is not finite. In these cases they end with the fault, which is no
error of the language. -/
theorem builtins_end (functions : ∀ c ∈ m.store.closures, c.WellFormed) :
    (∀ l owner key, m.store.Acyclic key →
      match propertyFault? owner key with
      | some e => getProperty l owner key m = .error (.failed e) m ∧ e.isThrown = false
      | none => (∃ v m', getProperty l owner key m = .ok v m') ∨
          ∃ e, getProperty l owner key m = .error (.failed e) m ∧ e.isThrown = true) ∧
    ∀ limit fuel n args, (∀ v ∈ n.action.owner?, m.store.Acyclic v) →
      (∀ v ∈ args, m.store.Acyclic v) →
      match nativeFault? m.store n.action args with
      | some e => call limit (fuel + 1) (.native n) args m = .error (.failed e) m ∧ e.isThrown = false
      | none => ∃ v m', call limit (fuel + 1) (.native n) args m = .ok v m' := by
  refine ⟨fun l owner key hk => ?_, fun limit fuel n args owner h => ?_⟩
  -- Properties are read by the one part, and what is built in is called by the other.
  · cases fault : propertyFault? owner key with
    | some e => exact ⟨getProperty_error l fault, isThrown_of_propertyFault? fault⟩
    | none =>
      refine (getProperty_ok functions l hk fault).imp id fun ⟨_, k, o, stopped⟩ => ?_
      exact ⟨_, stopped, rfl⟩
  · have ended := callNative_end functions owner h
    rw [call]
    cases fault : nativeFault? m.store n.action args with
    | some e =>
      rw [fault] at ended
      exact ⟨ended, isThrown_of_nativeFault? fault⟩
    | none =>
      rw [fault] at ended
      exact ended

/-- A machine with an array in an array. -/
def nestedArrays : Machine where
  store := { Store.initial with arrays := #[#[.string "a", .array 1], #[.null, .string "b"]] }
  depth := 0
  strict := false

/-- An array with an array in it has a method `join`, which has a text. -/
theorem builtins_end_nestedArrays :
    nestedArrays.store.Acyclic (.array 0) ∧
      (∃ v m', getProperty none (.array 0) (.string "join") nestedArrays = .ok v m') ∧
      ∃ v m', call 5 1 (.native ⟨8, .arrayJoin 0⟩) [.string "-"] nestedArrays = .ok v m' := by
  have acyclic : nestedArrays.store.Acyclic (.array 0) := by
    -- The inner array has rank zero, and the outer one rank one.
    refine Store.acyclic_of_rank (fun ref => 1 - ref) (fun ref ref' item => ?_) (by decide)
    rcases ref with - | - | ref
    · have only : ref' = 1 := by simpa [nestedArrays, Store.items] using item
      subst only
      decide
    · simp [nestedArrays, Store.items] at item
    · simp [nestedArrays, Store.items] at item
  have functions : ∀ c ∈ nestedArrays.store.closures, c.WellFormed := by
    intro c hc
    exact absurd hc (Array.not_mem_empty c)
  obtain ⟨properties, calls⟩ := builtins_end functions
  refine ⟨acyclic, ?_, ?_⟩
  · rcases properties none (.array 0) (.string "join") (Store.acyclic_string _ _) with found | stopped
    · exact found
    · obtain ⟨e, stopped, -⟩ := stopped
      cases stopped
  · refine calls 5 0 ⟨8, .arrayJoin 0⟩ [.string "-"] (fun v hv => ?_) fun v hv => ?_
    · cases hv
      exact acyclic
    · rw [List.mem_singleton.mp hv]
      exact Store.acyclic_string _ _

/-- The position `NaN` ends a call of `charAt` with a fault that is no error of the language. -/
theorem builtins_end_charAt :
    callNative (.textCharAt "abc") [.number .nan] nestedArrays =
        .error (.failed .integerOfNaN) nestedArrays ∧
      RuntimeError.isThrown .integerOfNaN = false :=
  ⟨rfl, rfl⟩

end Eval

end TailLoop
