import TailLoop.Proofs.Simulation.Runs

/-!
# How evaluations end

`Always I E act` says that `act` keeps the invariant `I` of machines however it ends, and that an
interrupt satisfies `E`. The rules follow the ways in which evaluations are put together. A relation
between the machines before and after is an invariant as well, with the machine before as a
parameter.

How names are bound when a function is called is the same for all that is said of evaluations, of
one alone or of two that are compared: it is enough that it goes from the parts to the whole
(`Congruent`).

Everything that an evaluation does besides calling functions and running statements is plain: it
neither makes functions nor touches variables, and it ends with a value or with an error of the
running program (`Plain`). Refusals (`RuntimeError.isRefusal`) are not among these errors: they are
about code that cannot be run at all.
-/

namespace TailLoop

/-- Whether an error says that something cannot be run or evaluated: a node that is no statement or
no expression, or an operator that is not in the table. -/
def RuntimeError.isRefusal : RuntimeError → Bool
  | .notStatement .. | .notExpression .. | .unknownOperator => true
  | _ => false

namespace Eval

open Simulation

/-- The machine at the end of an evaluation, however it ends. -/
def machineAfter {α : Type} : EStateM.Result Interrupt Machine α → Machine
  | .ok _ m => m
  | .error _ m => m

/-- A result that leaves a machine with an invariant, and an interrupt that satisfies `E` if it has no
value. -/
inductive Ended (I : Machine → Prop) (E : Interrupt → Prop) {α : Type} :
    EStateM.Result Interrupt Machine α → Prop where
  | ok {a m} (machine : I m) : Ended I E (.ok a m)
  | error {e m} (machine : I m) (why : E e) : Ended I E (.error e m)

/-- An evaluation that has ended with a value has left the invariant behind. -/
theorem Ended.of_ok {I : Machine → Prop} {E : Interrupt → Prop} {α : Type}
    {r : EStateM.Result Interrupt Machine α} {a : α} {m : Machine} (h : Ended I E r)
    (done : r = .ok a m) : I m := by
  subst done
  cases h with
  | ok kept => exact kept

/-- A weaker invariant holds at the end of an evaluation as well. -/
theorem Ended.weaken {I I' : Machine → Prop} {E : Interrupt → Prop} {α : Type}
    {r : EStateM.Result Interrupt Machine α} (h : Ended I E r) (machine : ∀ m, I m → I' m) :
    Ended I' E r := by
  cases h with
  | ok kept => exact .ok (machine _ kept)
  | error kept why => exact .error (machine _ kept) why

/-- An evaluation keeps an invariant however it ends, and an interrupt satisfies `E`. -/
def Always (I : Machine → Prop) (E : Interrupt → Prop) {α : Type} (act : Eval α) : Prop :=
  ∀ m, I m → Ended I E (act m)

namespace Always

variable {I : Machine → Prop} {E : Interrupt → Prop} {α β : Type}

/-- An evaluation that fails in fewer ways also fails in more. -/
theorem widen {E' : Interrupt → Prop} {act : Eval α} (h : Always I E act) (why : ∀ e, E e → E' e) :
    Always I E' act := by
  intro m hm
  have done := h m hm
  generalize act m = r at done ⊢
  cases done with
  | ok machine => exact .ok machine
  | error machine interrupt => exact .error machine (why _ interrupt)

/-- Giving a value leaves the machine alone. -/
theorem pure (a : α) : Always I E (Pure.pure a : Eval α) := fun _ hm => .ok hm

/-- What is thrown is the only way to fail. -/
theorem throw {e : Interrupt} (why : E e) : Always I E (MonadExcept.throw e : Eval α) :=
  fun _ hm => .error hm why

/-- An error of the language or of the interpreter is the only way to fail. -/
theorem fail {error : RuntimeError} (why : E (.failed error)) :
    Always I E (Eval.fail error : Eval α) :=
  throw why

/-- The machine that an evaluation looks at has the invariant. -/
theorem get {f : Machine → Eval α} (h : ∀ m, I m → Always I E (f m)) :
    Always I E (MonadState.get >>= f) :=
  fun m hm => h m hm m hm

/-- A choice keeps what both of its sides keep; each side may use what was decided. -/
theorem ite {c : Prop} [Decidable c] {a b : Eval α} (ha : c → Always I E a)
    (hb : ¬c → Always I E b) : Always I E (if c then a else b) := by
  split
  · exact ha ‹_›
  · exact hb ‹_›

/-- A change of the store keeps what the change of the machine keeps. -/
theorem change {f : Store → Store} (h : ∀ m : Machine, I m → I { m with store := f m.store }) :
    Always I E (Eval.change f) :=
  fun m hm => .ok (h m hm)

/-- A change of the store that gives a value keeps what the change of the machine keeps. -/
theorem changeGet {f : Store → α × Store}
    (h : ∀ m : Machine, I m → I { m with store := (f m.store).2 }) : Always I E (Eval.changeGet f) :=
  fun m hm => .ok (h m hm)

/-- One evaluation after the other keeps what each of them keeps. -/
theorem bind {act : Eval α} {f : α → Eval β} (h : Always I E act) (next : ∀ a, Always I E (f a)) :
    Always I E (act >>= f) := by
  intro m hm
  have first := h m hm
  cases done : act m with
  | ok a m' =>
    rw [done] at first
    rw [bind_of_ok done]
    cases first with
    | ok machine => exact next a m' machine
  | error e m' =>
    rw [done] at first
    rw [bind_of_error done]
    cases first with
    | error machine why => exact .error machine why

/-- What is made of the value at the end does not matter. -/
theorem map {act : Eval α} (f : α → β) (h : Always I E act) : Always I E (f <$> act) := by
  rw [← bind_pure_comp]
  exact h.bind fun a => pure _

/-- A fault that is allowed can be left out of account. -/
theorem attempt_bind {r : Except Fault α} {f : α → Eval β}
    (fault : ∀ x, E (.failed (.malformed x))) (h : ∀ a, r = .ok a → Always I E (f a)) :
    Always I E (Eval.attempt r >>= f) := by
  cases r with
  | ok a => exact h a rfl
  | error x => exact fail (fault x)

/-- Reading the store fails only as what is read does. -/
theorem read {f : Store → Except RuntimeError α} (h : ∀ s e, f s = .error e → E (.failed e)) :
    Always I E (Eval.read f) := by
  refine get fun m _ => ?_
  cases found : f m.store with
  | ok a => exact pure a
  | error e => exact fail (h _ e found)

/-- An outcome that was there before leaves the machine alone. -/
theorem ofExcept {r : Except RuntimeError α} (h : ∀ e, r = .error e → E (.failed e)) :
    Always I E (Eval.ofExcept r) := by
  cases r with
  | ok a => exact pure a
  | error e => exact fail (h e rfl)

/-- Going through a list keeps what each step keeps. -/
theorem mapM {l : List β} {f : β → Eval α} (h : ∀ b ∈ l, Always I E (f b)) :
    Always I E (l.mapM f) := by
  induction l with
  | nil => exact pure []
  | cons b l ih =>
    rw [List.forall_mem_cons] at h
    rw [List.mapM_cons]
    exact h.1.bind fun a => (ih h.2).bind fun as => pure _

/-- Going through a list without values keeps what each step keeps. -/
theorem forM {l : List β} {f : β → Eval PUnit} (h : ∀ b ∈ l, Always I E (f b)) :
    Always I E (l.forM f) := by
  induction l with
  | nil => exact pure PUnit.unit
  | cons b l ih =>
    rw [List.forall_mem_cons] at h
    simp only [List.forM]
    exact h.1.bind fun _ => ih h.2

/-- Going through a list with a value that is handed on keeps what each step keeps. -/
theorem foldlM {l : List β} {f : α → β → Eval α} {a : α} (h : ∀ b ∈ l, ∀ a, Always I E (f a b)) :
    Always I E (l.foldlM f a) := by
  induction l generalizing a with
  | nil => exact pure a
  | cons b l ih =>
    rw [List.forall_mem_cons] at h
    rw [List.foldlM_cons]
    exact (h.1 a).bind fun a' => ih h.2

/-- Going through the values of a loop over a collection keeps what each pass keeps. -/
theorem forEachItem {step : Value → Eval Bool} (h : ∀ v, Always I E (step v)) (vs : List Value) :
    Always I E (Eval.forEachItem step vs) := by
  induction vs with
  | nil => exact pure ()
  | cons v vs ih => exact (h v).bind fun goesOn => ite (fun _ => ih) fun _ => pure ()

/-- A repetition keeps what a pass keeps; it can also run out of fuel. -/
theorem repeating {step : Eval Bool} (exhausted : E .exhausted) (h : Always I E step) (fuel : Nat) :
    Always I E (Eval.repeating step fuel) := by
  induction fuel with
  | zero => exact throw exhausted
  | succ fuel ih => exact h.bind fun goesOn => ite (fun _ => ih) fun _ => pure ()

end Always

/-! ## Errors of computations on values -/

/-- A computation that does not end with a refusal. -/
def Regular {α : Type} (r : Except RuntimeError α) : Prop := ∀ e, r = .error e → e.isRefusal = false

namespace Regular

variable {α β : Type}

/-- A value is no refusal. -/
theorem ok (a : α) : Regular (Except.ok a : Except RuntimeError α) := nofun

/-- An error that is no refusal is regular. -/
theorem error {e : RuntimeError} (h : e.isRefusal = false) :
    Regular (Except.error e : Except RuntimeError α) := by
  rintro _ ⟨⟩
  exact h

/-- A regular outcome, with a regular one after it, is regular. -/
theorem bind {r : Except RuntimeError α} {f : α → Except RuntimeError β} (h : Regular r)
    (next : ∀ a, Regular (f a)) : Regular (r >>= f) := by
  cases r with
  | ok a => exact next a
  | error e => exact error (h e rfl)

/-- What is made of the value does not make an outcome less regular. -/
theorem map {r : Except RuntimeError α} {f : α → β} (h : Regular r) : Regular (r.map f) := by
  cases r with
  | ok a => exact ok _
  | error e => exact error (h e rfl)

/-- A list of regular outcomes is regular. -/
theorem mapM {l : List β} {f : β → Except RuntimeError α} (h : ∀ b, Regular (f b)) :
    Regular (l.mapM f) := by
  induction l with
  | nil => exact ok []
  | cons b l ih =>
    rw [List.mapM_cons]
    exact (h b).bind fun a => ih.bind fun as => ok _

/-- A choice between regular outcomes is regular. -/
theorem ite {c : Prop} [Decidable c] {a b : Except RuntimeError α} (ha : Regular a)
    (hb : Regular b) : Regular (if c then a else b) := by
  split
  · exact ha
  · exact hb

end Regular

/-- The text of a function may be missing, but is not refused. -/
theorem regular_functionText (s : Store) (ref : Nat) : Regular (s.functionText ref) := by
  unfold Store.functionText
  split
  · rename_i c _
    cases c.source with
    | ok t => exact .ok t
    | error e => exact .error rfl
  · exact .ok _

/-- The text of a value is not refused, however deep the arrays in it are. -/
theorem regular_textWithin (s : Store) (fuel : Nat) (v : Value) :
    Regular (s.textWithin fuel v) := by
  induction fuel generalizing v with
  | zero =>
    cases v with
    | array ref => exact .error rfl
    | function ref => exact regular_functionText s ref
    | _ => exact .ok _
  | succ fuel ih =>
    cases v with
    | array ref =>
      exact Regular.bind (.mapM fun v => .ite (.ok _) (ih v)) fun parts => .ok _
    | function ref => exact regular_functionText s ref
    | _ => exact .ok _

/-- The text of a value as a whole is not refused. -/
theorem regular_text (s : Store) (v : Value) : Regular (s.text v) := regular_textWithin s _ v

/-- The texts of items are those of values. -/
theorem regular_itemTexts (s : Store) (vs : List Value) : Regular (s.itemTexts vs) :=
  .mapM fun v => .ite (.ok _) (regular_text s v)

/-- The number that a text denotes may be too large, but is not refused. -/
theorem regular_numberOfText (t : Text) : Regular (Store.numberOfText t) := by
  unfold Store.numberOfText
  refine .ite (.ok _) (.ite ?_ ?_)
  · split
    · split
      · exact .ok _
      · exact .error rfl
    · exact .ok _
  · split
    · exact .ok _
    · exact .ite (.ok _) (.ok _)

/-- The number of a value is not refused. -/
theorem regular_number (s : Store) (v : Value) : Regular (s.number v) := by
  cases v with
  | string t => exact regular_numberOfText t
  | array ref => exact (regular_text s _).bind regular_numberOfText
  | _ => exact .ok _

/-- The same for the signed integer of 32 bits that a value counts as. -/
theorem regular_signed32 (s : Store) (v : Value) : Regular (s.signed32 v) := (regular_number s v).map

/-- The same for the unsigned one. -/
theorem regular_unsigned32 (s : Store) (v : Value) : Regular (s.unsigned32 v) :=
  (regular_signed32 s v).map

/-- The index that a value stands for is not refused. -/
theorem regular_index? (v : Value) : Regular v.index? := by
  cases v with
  | string t =>
    refine .ite (.ok _) ?_
    split
    · exact .ok _
    · exact .error rfl
  | _ => exact .ok _

/-- A comparison with conversion is not refused. -/
theorem regular_looseEquals (s : Store) (a b : Value) : Regular (s.looseEquals a b) := by
  intro e failed
  obtain ⟨ref, -, untold⟩ | ⟨t, unread⟩ := Store.error_of_looseEquals failed
  · exact regular_text s _ e untold
  · exact regular_numberOfText t e unread

/-- An operator that was found is not refused: it fails as the numbers and texts of its operands do.
-/
theorem regular_operate (s : Store) (op : BinaryOperator) (a b : Value) :
    Regular (s.operate op a b) := by
  have numbers (f : Double → Double → Double) : Regular (s.onNumbers f a b) :=
    (regular_number s a).bind fun x => (regular_number s b).bind fun y => .ok _
  have bits (f : Bool → Bool → Bool) : Regular (s.onBits f a b) :=
    (regular_signed32 s a).bind fun x => (regular_signed32 s b).bind fun y => .ok _
  have ordered (texts : Text → Text → Bool) (numbers : Double → Double → Bool) :
      Regular (s.ordered texts numbers a b) := by
    unfold Store.ordered
    split
    · exact .ok _
    · exact (regular_number s a).bind fun x => (regular_number s b).bind fun y => .ok _
  have count : Regular (s.shiftCount b) := (regular_unsigned32 s b).map
  -- By the operator: both operands are converted, and the rest cannot fail.
  cases op with
  | add =>
    exact .ite ((regular_text s a).bind fun t => (regular_text s b).bind fun u => .ok _) (numbers _)
  | subtract | multiply | divide | remainder => exact numbers _
  | shiftLeft | shiftRight => exact (regular_signed32 s a).bind fun x => count.bind fun k => .ok _
  | shiftRightUnsigned => exact (regular_unsigned32 s a).bind fun x => count.bind fun k => .ok _
  | bitAnd | bitOr | bitXor => exact bits _
  | looseEqual | looseUnequal => exact (regular_looseEquals s a b).map
  | strictEqual | strictUnequal => exact .ok _
  | less | greater | lessOrEqual | greaterOrEqual => exact ordered _ _

/-- An operator with one operand that was found is not refused. -/
theorem regular_operateUnary (s : Store) (op : Option UnaryOperator) (v : Value) :
    Regular (s.operateUnary op v) := by
  cases op with
  | none => exact .ok _
  | some op =>
    cases op with
    | negate | plus => exact (regular_number s v).map
    | complement => exact (regular_signed32 s v).map
    | not | typeOf | void => exact .ok _

/-- The integer of a double may not exist, but is not refused. -/
theorem regular_integerOf (d : Double) : Regular (integerOf d) := by
  cases d with
  | nan | infinite => exact .error rfl
  | _ => exact .ok _

/-! ## Plain evaluations -/

/-- A machine with the functions, the variables, the depth and the mode of another one. -/
structure Untouched (m m' : Machine) : Prop where
  closures : m'.store.closures = m.store.closures
  environments : m'.store.environments = m.store.environments
  depth : m'.depth = m.depth
  strict : m'.strict = m.strict

/-- Changes of the store that are not about functions and variables. -/
theorem Untouched.store {m m' : Machine} (h : Untouched m m') {s : Store}
    (closures : s.closures = m'.store.closures)
    (environments : s.environments = m'.store.environments) :
    Untouched m { m' with store := s } :=
  ⟨closures.trans h.closures, environments.trans h.environments, h.depth, h.strict⟩

/-- An error of the running program. -/
def IsRegular : Interrupt → Prop
  | .failed error => error.isRefusal = false
  | _ => False

/-- An evaluation that makes no functions and touches no variables, from a machine `m` on, and that
ends with a value or an error of the running program. -/
abbrev Plain (m : Machine) {α : Type} (act : Eval α) : Prop := Always (Untouched m) IsRegular act

variable {m : Machine}

/-- A fault leaves the machine alone. -/
theorem plain_attempt {α : Type} (r : Except Fault α) : Plain m (attempt r) := by
  cases r with
  | ok a => exact .pure a
  | error x => exact .fail rfl

/-- Taking a name out of an identifier is a check of the tree. -/
theorem plain_nameOf (t : Tree) : Plain m (nameOf t) := plain_attempt _

/-- So is taking a text out of a name. -/
theorem plain_keyOf (name : Tree) : Plain m (keyOf name) := plain_attempt _

/-- The text of a value is read in the store. -/
theorem plain_textOf (v : Value) : Plain m (textOf v) := .read fun s => regular_text s v

/-- The number of a value is read in the store. -/
theorem plain_numberOf (v : Value) : Plain m (numberOf v) := .read fun s => regular_number s v

/-- A new array is added to the store, where nothing else changes. -/
theorem plain_newArray (items : Array Value) : Plain m (newArray items) :=
  .map _ (.changeGet fun _ same => same.store rfl rfl)

/-- The items of an array are read in the store. -/
theorem plain_itemsOf (ref : Nat) : Plain m (itemsOf ref) := .get fun _ _ => .pure _

/-- The value of a name is looked up, or the name is not defined. -/
theorem plain_readName (env : Nat) (name : Tree) (l : Option Location) :
    Plain m (readName env name l) := by
  refine (plain_keyOf name).bind fun key => .get fun _ _ => ?_
  split
  · exact .pure _
  · exact .fail rfl

/-- Whether a name is unbound is looked up. -/
theorem plain_isUnbound (env : Nat) (t : Tree) : Plain m (isUnbound env t) := by
  unfold isUnbound
  split
  · exact (plain_keyOf _).bind fun key => .get fun _ _ => .pure _
  · exact .pure _

mutual

/-- A literal of the tree is turned into a value without looking at the machine. -/
theorem plain_ofTree (t : Tree) : Plain m (ofTree t) := by
  unfold ofTree
  split
  · exact (plain_ofTrees _).bind fun vs => plain_newArray _
  · split
    · exact .pure _
    · exact .changeGet fun _ same => same.store rfl rfl

/-- So are the items of a row. -/
theorem plain_ofTrees (ts : List Tree) : Plain m (ofTrees ts) := by
  cases ts with
  | nil => exact .pure _
  | cons t ts => exact (plain_ofTree t).bind fun v => (plain_ofTrees ts).bind fun vs => .pure _

end

/-- The value of a literal, or an error for a number that is too large. -/
theorem plain_literalOf (l : Option Location) (value : Tree) : Plain m (literalOf l value) := by
  unfold literalOf
  split
  · exact .pure _
  · exact plain_ofTree value
  · refine .get fun _ _ => ?_
    split
    · exact .pure _
    · exact (plain_ofTree value).bind fun v =>
        Always.bind (.change fun _ same => same.store rfl rfl) fun _ => .pure v

/-! ## Properties and built-in functions -/

/-- A property with a name is the length, a method, or nothing. -/
theorem plain_namedProperty (length : Nat) (method? : Text → Option NativeAction) (name : Text) :
    Plain m (namedProperty length method? name) := by
  refine .ite (fun _ => .pure _) fun _ => ?_
  split
  · exact .map _ (.changeGet fun _ same => same.store rfl rfl)
  · exact .pure _

/-- Reading a property is an operation on values: the calls under way do not matter. -/
theorem plain_getProperty (l : Option Location) (owner key : Value) :
    Plain m (getProperty l owner key) := by
  -- By the owner: a property that is not there is no failure, but a missing owner is.
  cases owner with
  | undefined | null => exact (plain_textOf _).bind fun _ => (plain_textOf _).bind fun _ => .fail rfl
  | array ref =>
    refine Always.bind (.ofExcept (regular_index? key)) fun i => ?_
    cases i with
    | some i => exact (plain_itemsOf ref).bind fun _ => .pure _
    | none =>
      exact (plain_textOf _).bind fun _ => (plain_itemsOf ref).bind fun _ =>
        plain_namedProperty _ _ _
  | string t =>
    refine Always.bind (.ofExcept (regular_index? key)) fun i => ?_
    cases i with
    | some i => exact .pure _
    | none => exact (plain_textOf _).bind fun _ => plain_namedProperty _ _ _
  | object ref => exact (plain_textOf _).bind fun _ => .get fun _ _ => .pure _
  | native f => exact (plain_textOf _).bind fun _ => .ite (fun _ => .pure _) fun _ => .pure _
  | _ => exact .pure _

/-- An array may grow up to a bound, above which the interpreter gives up. -/
theorem plain_checkGrowth (count : Nat) : Plain m (checkGrowth count) :=
  .ite (fun _ => .fail rfl) fun _ => .ite (fun _ => .fail rfl) fun _ => .pure _

/-- Storing a property changes an array or is refused. -/
theorem plain_setProperty (l : Option Location) (owner key v : Value) :
    Plain m (setProperty l owner key v) := by
  -- By the owner: only arrays can refuse to grow.
  cases owner with
  | undefined | null => exact (plain_textOf _).bind fun _ => (plain_textOf _).bind fun _ => .fail rfl
  | array ref =>
    have grown (count : Nat) (f : Array Value → Array Value) : Plain m (do
        checkGrowth (count - (← itemsOf ref).size)
        change fun s => s.modifyArray ref f) :=
      (plain_itemsOf ref).bind fun _ => (plain_checkGrowth _).bind fun _ =>
        .change fun _ same => same.store rfl rfl
    refine Always.bind (.ofExcept (regular_index? key)) fun i => ?_
    cases i with
    | some i => exact grown _ _
    | none =>
      refine (plain_textOf _).bind fun _ => .ite (fun _ => ?_) fun _ => .pure _
      refine Always.bind (.ofExcept (regular_index? v)) fun length => ?_
      cases length with
      | some length => exact grown _ _
      | none => exact .fail rfl
  | object ref => exact (plain_textOf _).bind fun _ => .change fun _ same => same.store rfl rfl
  | _ => exact .pure _

/-- The keys that a loop goes through are read at its start. -/
theorem plain_keysOf (v : Value) : Plain m (keysOf v) := by
  cases v with
  | array ref => exact (plain_itemsOf ref).bind fun _ => .pure _
  | object ref => exact .get fun _ _ => .pure _
  | _ => exact .pure _

/-- So are the values. -/
theorem plain_valuesOf (v : Value) : Plain m (valuesOf v) := by
  cases v with
  | array ref => exact (plain_itemsOf ref).bind fun _ => .pure _
  | string t => exact .pure _
  | _ => exact (plain_textOf _).bind fun _ => .fail rfl

/-- A position among the arguments is a number, or an error. -/
theorem plain_positionArgument (args : List Value) (i length default : Nat) :
    Plain m (positionArgument args i length default) := by
  unfold positionArgument
  split
  · exact .pure _
  · exact (plain_numberOf _).bind fun _ => .pure _

/-- The bounds of a slice are two such positions. -/
theorem plain_sliceBounds (args : List Value) (length : Nat) : Plain m (sliceBounds args length) :=
  (plain_positionArgument _ _ _ _).bind fun _ => (plain_positionArgument _ _ _ _).bind fun _ =>
    .pure _

/-- A built-in function works on values and on arrays. -/
theorem plain_callNative (action : NativeAction) (args : List Value) :
    Plain m (callNative action args) := by
  have number (f : Double → Value) : Plain m (do return f (← numberOf (argument args 0))) :=
    (plain_numberOf _).bind fun _ => .pure _
  have numbers (f : List Double → Value) : Plain m (do return f (← numbersOf args)) :=
    Always.bind (.mapM fun v _ => plain_numberOf v) fun _ => .pure _
  -- By the action: each converts its arguments and changes at most one array.
  cases action with
  | floor => exact number _
  | abs => exact number _
  | isNaN => exact number _
  | largest => exact numbers _
  | smallest => exact numbers _
  | toText =>
    cases args with
    | nil => exact .pure _
    | cons v _ => exact (plain_textOf v).bind fun _ => .pure _
  | toNumber =>
    cases args with
    | nil => exact .pure _
    | cons v _ => exact (plain_numberOf v).bind fun _ => .pure _
  | toBoolean => exact .pure _
  | arraySlice ref =>
    exact (plain_itemsOf ref).bind fun _ => (plain_sliceBounds _ _).bind fun _ => plain_newArray _
  | arrayPush ref =>
    exact Always.bind (.change fun _ same => same.store rfl rfl) fun _ =>
      (plain_itemsOf ref).bind fun _ => .pure _
  | arrayPop ref =>
    exact (plain_itemsOf ref).bind fun _ =>
      Always.bind (.change fun _ same => same.store rfl rfl) fun _ => .pure _
  | arrayConcat ref => exact .get fun _ _ => plain_newArray _
  | arrayIndexOf ref => exact (plain_itemsOf ref).bind fun _ => .pure _
  | arrayJoin ref =>
    have joined (separator : Text) : Plain m (do
        let items ← itemsOf ref
        let parts ← read fun s => s.itemTexts items.toList
        return Value.string (Text.join separator parts)) :=
      (plain_itemsOf ref).bind fun items =>
        Always.bind (.read fun s => regular_itemTexts s items.toList) fun _ => .pure _
    rw [callNative]
    split
    · exact joined _
    · exact (plain_textOf _).bind joined
  | textCharAt t =>
    have character (i : Int) : Plain m (if 0 ≤ i then
        (return .string (t[i.toNat]?.toList) : Eval Value) else return .string []) :=
      .ite (fun _ => .pure _) fun _ => .pure _
    rw [callNative]
    split
    · exact character 0
    · exact (plain_numberOf _).bind fun d => Always.bind (.ofExcept (regular_integerOf d)) character
  | textSlice t => exact (plain_sliceBounds _ _).bind fun _ => .pure _
  | textIndexOf t =>
    refine (plain_textOf _).bind fun _ => ?_
    split
    · exact .pure _
    · exact .pure _

/-! ## Calls of functions -/

/-- A relation of evaluations that holds of conversions, and of evaluations one after the other if it
holds of each of them. -/
structure Congruent (P : {α : Type} → Eval α → Eval α → Prop) : Prop where
  attempt {α : Type} (r : Except Fault α) : P (attempt r) (attempt r)
  bind {α β : Type} {x y : Eval α} {f g : α → Eval β} (h : P x y) (next : ∀ a, P (f a) (g a)) :
    P (x >>= f) (y >>= g)

/-- What holds of all ends of an evaluation composes along the ways in which evaluations are put
together. -/
theorem Always.congruent {I : Machine → Prop} {E : Interrupt → Prop}
    (fault : ∀ x, E (.failed (.malformed x))) : Congruent fun {_} x _ => Always I E x where
  attempt r := by
    cases r with
    | ok a => exact .pure a
    | error x => exact .fail (fault x)
  bind h next := h.bind next

/-- The body of a call runs one call further in and in a mode of its own. After it one call less is
under way, the machine is as strict as before, and a return has become a value. -/
theorem Always.inCall {I I' : Machine → Prop} {E E' : Interrupt → Prop} {strict : Bool}
    {x : Eval Unit} (enter : ∀ m, I m → I' ⟨m.store, m.depth + 1, strict⟩)
    (leave : ∀ m m', I m → I' m' → I ⟨m'.store, m'.depth - 1, m.strict⟩)
    (why : ∀ e, (∀ v, e ≠ .returned v) → E' e → E e) (h : Always I' E' x) :
    Always I E (Eval.inCall strict x) := by
  rintro ⟨store, depth, outer⟩ hm
  have inner := h _ (enter _ hm)
  unfold Eval.inCall
  simp only at inner ⊢
  generalize x ⟨store, depth + 1, strict⟩ = r at inner
  cases inner with
  | ok kept => exact .ok (leave _ _ hm kept)
  | @error e m' kept allowed =>
    cases e with
    | returned v => exact .ok (leave _ _ hm kept)
    | _ => exact .error (leave _ _ hm kept) (why _ (fun _ => nofun) allowed)

namespace Congruent

variable {P : {α : Type} → Eval α → Eval α → Prop} (congruent : Congruent P)

include congruent

/-- Two loops over a list are related if their steps are. -/
theorem forM {α : Type} {l : List α} {f g : α → Eval PUnit} (h : ∀ a ∈ l, P (f a) (g a)) :
    P (l.forM f) (l.forM g) := by
  induction l with
  | nil => exact congruent.attempt (.ok ())
  | cons a l ih =>
    obtain ⟨first, rest⟩ := List.forall_mem_cons.mp h
    exact congruent.bind first fun _ => ih rest

variable {env : Nat} (declare : ∀ key v,
  P (change fun s => s.declare env key v) (change fun s => s.declare env key v))

include declare

/-- Parameters are bound if names may be. -/
theorem bindParameters (ps : List Tree) (args : List Value) :
    P (bindParameters env ps args) (bindParameters env ps args) := by
  induction ps generalizing args with
  | nil => exact congruent.attempt (.ok ())
  | cons p ps ih =>
    exact congruent.bind (congruent.attempt _) fun name =>
      congruent.bind (congruent.attempt _) fun key =>
        congruent.bind (declare key _) fun _ => ih args.tail

/-- The variables and the functions of a body are declared if names may be bound and the functions
may be made. -/
theorem hoist {body : Tree}
    (names : ∀ name, P (declareVariable env name) (declareVariable env name))
    (functions : ∀ found, body.hoisted = .ok found → ∀ f ∈ found.functions,
      ∀ l form id params inner, f = .node l (.function form id params inner) →
        P (makeFunction env id params inner) (makeFunction env id params inner)) :
    P (hoist env body) (hoist env body) := by
  unfold Eval.hoist
  -- Without an answer nothing is declared; with one, the names come first and the functions after
  -- them.
  cases hoists : body.hoisted with
  | error fault => exact congruent.attempt (.error fault)
  | ok found =>
    change P (found.names.forM (declareVariable env) >>= fun _ =>
      found.functions.forM (declareFunction env)) _
    refine congruent.bind (congruent.forM fun name _ => names name) fun _ =>
      congruent.forM fun f hf => ?_
    unfold declareFunction
    split
    · rename_i l form id params inner
      exact congruent.bind (congruent.attempt _) fun name =>
        congruent.bind (functions found hoists _ hf l form id params inner rfl) fun v =>
          congruent.bind (congruent.attempt _) fun key => declare key v
    · exact congruent.attempt (.ok ())

end Congruent

end Eval

end TailLoop
