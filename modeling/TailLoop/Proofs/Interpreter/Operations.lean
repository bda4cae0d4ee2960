import TailLoop.Proofs.Interpreter.Outcomes

/-!
# Operations on values

What is done with values has nothing to do with variables: whatever environments a store has, an
operation does the same, and it leaves them as they are (`Aside`). The rules follow the ways in which
operations are put together. Together with what they keep (`Plain`), this is all that has to be known
of operations where a statement is about a whole evaluation (`Operation`).
-/

namespace TailLoop

/-- A store with other environments. -/
def Store.withEnvironments (s : Store) (environments : Array Environment) : Store :=
  { s with environments }

/-- A machine with other environments. -/
def Machine.withEnvironments (m : Machine) (environments : Array Environment) : Machine :=
  { m with store := m.store.withEnvironments environments }

namespace Store

variable (s : Store) (environments : Array Environment)

/-- The text of a value is found in the arrays and functions of the store, not in its environments. -/
theorem textWithin_withEnvironments (fuel : Nat) (v : Value) :
    (s.withEnvironments environments).textWithin fuel v = s.textWithin fuel v := by
  induction fuel generalizing v with
  | zero => cases v <;> rfl
  | succ fuel ih =>
    cases v with
    | array ref =>
      simp only [textWithin, ih]
      rfl
    | _ => rfl

/-- So is the text of a value as a whole. -/
theorem text_withEnvironments (v : Value) :
    (s.withEnvironments environments).text v = s.text v :=
  textWithin_withEnvironments s environments _ v

/-- A number is that of a text, or read off the value. -/
theorem number_withEnvironments (v : Value) :
    (s.withEnvironments environments).number v = s.number v := by
  cases v with
  | array ref => rw [number, number, text_withEnvironments]
  | _ => rfl

/-- Comparing two values with conversion looks at texts and numbers. -/
theorem looseEquals_withEnvironments (a b : Value) :
    (s.withEnvironments environments).looseEquals a b = s.looseEquals a b :=
  looseEquals_congr (fun _ => text_withEnvironments s environments _) a b

/-- An operator looks at the texts and the numbers of its operands. -/
theorem operate_withEnvironments (op : BinaryOperator) (a b : Value) :
    (s.withEnvironments environments).operate op a b = s.operate op a b := by
  cases op <;>
    simp only [operate, onNumbers, onBits, ordered, shiftCount, unsigned32, signed32,
      text_withEnvironments, number_withEnvironments, looseEquals_withEnvironments]

/-- So does an operator with one operand. -/
theorem operateUnary_withEnvironments (op : Option UnaryOperator) (v : Value) :
    (s.withEnvironments environments).operateUnary op v = s.operateUnary op v := by
  cases op with
  | none => rfl
  | some op =>
    cases op <;> simp only [operateUnary, signed32, number_withEnvironments]

end Store

namespace Eval

/-- A result with its machine changed. -/
def afterwards {α : Type} (f : Machine → Machine) :
    EStateM.Result Interrupt Machine α → EStateM.Result Interrupt Machine α
  | .ok a m => .ok a (f m)
  | .error e m => .error e (f m)

/-- An evaluation that does not look at environments: whatever they are, it does the same and leaves
them so. -/
def Aside {α : Type} (act : Eval α) : Prop :=
  ∀ m environments, act (m.withEnvironments environments) =
    afterwards (·.withEnvironments environments) (act m)

namespace Aside

variable {α β : Type} {x : Eval α}

/-- Giving a value has nothing to do with environments. -/
theorem pure (a : α) : Aside (Pure.pure a : Eval α) := fun _ _ => rfl

/-- Nor has an interrupt. -/
theorem throw (e : Interrupt) : Aside (MonadExcept.throw e : Eval α) := fun _ _ => rfl

/-- Nor has an error. -/
theorem fail (e : RuntimeError) : Aside (Eval.fail e : Eval α) := throw _

/-- If no step looks at the environments, the steps together do not. -/
theorem bind {f : α → Eval β} (h : Aside x) (next : ∀ a, Aside (f a)) : Aside (x >>= f) := by
  intro m environments
  have first := h m environments
  cases done : x m with
  | ok a m' =>
    rw [done] at first
    rw [Simulation.bind_of_ok first, Simulation.bind_of_ok done]
    exact next a m' environments
  | error e m' =>
    rw [done] at first
    rw [Simulation.bind_of_error first, Simulation.bind_of_error done]
    rfl

/-- What is made of the value at the end does not matter. -/
theorem map (f : α → β) (h : Aside x) : Aside (f <$> x) := by
  rw [← bind_pure_comp]
  exact h.bind fun a => .pure _

/-- A choice that was made without them is one between evaluations that do not look at them. -/
theorem ite {c : Prop} [Decidable c] {y : Eval α} (h : Aside x) (h' : Aside y) :
    Aside (if c then x else y) := by
  split
  · exact h
  · exact h'

/-- A fault is one in all environments. -/
theorem attempt (r : Except Fault α) : Aside (Eval.attempt r) := by
  cases r with
  | ok a => exact .pure a
  | error fault => exact .fail _

/-- An outcome that was there before is one in all environments. -/
theorem ofExcept (r : Except RuntimeError α) : Aside (Eval.ofExcept r) := by
  cases r with
  | ok a => exact .pure a
  | error e => exact .fail e

/-- Going through a list does not look at the environments if no step does. -/
theorem mapM {f : α → Eval β} (h : ∀ a, Aside (f a)) (l : List α) : Aside (l.mapM f) := by
  induction l with
  | nil => exact .pure _
  | cons a l ih =>
    rw [List.mapM_cons]
    exact (h a).bind fun b => ih.bind fun bs => .pure _

/-- A look at the machine past its environments. -/
theorem get {f : Machine → Eval α} (h : ∀ m environments, f (m.withEnvironments environments) = f m)
    (next : ∀ m, Aside (f m)) : Aside (MonadState.get >>= f) := by
  intro m environments
  change f (m.withEnvironments environments) (m.withEnvironments environments) = _
  rw [h]
  exact next m m environments

/-- What is read does not lie in the environments. -/
theorem read {f : Store → Except RuntimeError α}
    (h : ∀ s environments, f (s.withEnvironments environments) = f s) : Aside (Eval.read f) := by
  refine get (fun m environments => ?_) fun m => ?_
  · have same : f (m.withEnvironments environments).store = f m.store := h _ _
    rw [same]
  · cases f m.store with
    | ok a => exact .pure a
    | error e => exact .fail e

/-- A change of the store past its environments. -/
theorem changeGet {f : Store → α × Store} (h : ∀ s environments,
      f (s.withEnvironments environments) = ((f s).1, (f s).2.withEnvironments environments)) :
    Aside (Eval.changeGet f) := by
  intro m environments
  change EStateM.Result.ok (f (m.store.withEnvironments environments)).1
    (Machine.mk (f (m.store.withEnvironments environments)).2 m.depth m.strict) = _
  rw [h]
  rfl

/-- What is changed does not lie in the environments. -/
theorem change {f : Store → Store} (h : ∀ s environments,
      f (s.withEnvironments environments) = (f s).withEnvironments environments) :
    Aside (Eval.change f) := by
  intro m environments
  change EStateM.Result.ok ()
    (Machine.mk (f (m.store.withEnvironments environments)) m.depth m.strict) = _
  rw [h]
  rfl

end Aside

/-! ## The operations -/

/-- The text of a value lies in the arrays and functions of the store. -/
theorem aside_textOf (v : Value) : Aside (textOf v) :=
  .read fun s environments => s.text_withEnvironments environments v

/-- The number of a value is that of its text, or read off it. -/
theorem aside_numberOf (v : Value) : Aside (numberOf v) :=
  .read fun s environments => s.number_withEnvironments environments v

/-- The items of an array lie among the arrays of the store. -/
theorem aside_itemsOf (ref : Nat) : Aside (itemsOf ref) :=
  .get (fun _ _ => rfl) fun _ => .pure _

/-- A new array is added to the arrays of the store. -/
theorem aside_newArray (items : Array Value) : Aside (newArray items) :=
  .map _ (.changeGet fun _ _ => rfl)

/-- A property with a name is told by the name and the length. -/
theorem aside_namedProperty (length : Nat) (method? : Text → Option NativeAction) (name : Text) :
    Aside (namedProperty length method? name) := by
  refine .ite (.pure _) ?_
  split
  · exact .map _ (.changeGet fun _ _ => rfl)
  · exact .pure _

/-- Reading a property looks at arrays and texts. -/
theorem aside_getProperty (l : Option Location) (owner key : Value) :
    Aside (getProperty l owner key) := by
  -- By the owner: nothing but the heap is read.
  cases owner with
  | undefined | null => exact (aside_textOf _).bind fun _ => (aside_textOf _).bind fun _ => .fail _
  | array ref =>
    refine Aside.bind (.ofExcept _) fun i => ?_
    cases i with
    | some i => exact (aside_itemsOf ref).bind fun _ => .pure _
    | none =>
      exact (aside_textOf _).bind fun _ => (aside_itemsOf ref).bind fun _ =>
        aside_namedProperty _ _ _
  | string t =>
    refine Aside.bind (.ofExcept _) fun i => ?_
    cases i with
    | some i => exact .pure _
    | none => exact (aside_textOf _).bind fun _ => aside_namedProperty _ _ _
  | object ref =>
    exact (aside_textOf _).bind fun _ => .get (fun _ _ => rfl) fun _ => .pure _
  | native f => exact (aside_textOf _).bind fun _ => .ite (.pure _) (.pure _)
  | _ => exact .pure _

/-- Whether an array may grow is told by its size. -/
theorem aside_checkGrowth (count : Nat) : Aside (checkGrowth count) :=
  .ite (.fail _) (.ite (.fail _) (.pure _))

/-- Storing a property changes an array. -/
theorem aside_setProperty (l : Option Location) (owner key v : Value) :
    Aside (setProperty l owner key v) := by
  -- By the owner: nothing but the heap is changed.
  cases owner with
  | undefined | null => exact (aside_textOf _).bind fun _ => (aside_textOf _).bind fun _ => .fail _
  | array ref =>
    have grown (count : Nat) (f : Array Value → Array Value) : Aside (do
        checkGrowth (count - (← itemsOf ref).size)
        change fun s => s.modifyArray ref f) :=
      (aside_itemsOf ref).bind fun _ => (aside_checkGrowth _).bind fun _ => .change fun _ _ => rfl
    refine Aside.bind (.ofExcept _) fun i => ?_
    cases i with
    | some i => exact grown _ _
    | none =>
      refine (aside_textOf _).bind fun _ => .ite ?_ (.pure _)
      refine Aside.bind (.ofExcept _) fun length => ?_
      cases length with
      | some length => exact grown _ _
      | none => exact .fail _
  | object ref => exact (aside_textOf _).bind fun _ => .change fun _ _ => rfl
  | _ => exact .pure _

/-- The keys of a value are those of an array or of a text. -/
theorem aside_keysOf (v : Value) : Aside (keysOf v) := by
  cases v with
  | array ref => exact (aside_itemsOf ref).bind fun _ => .pure _
  | object ref => exact .get (fun _ _ => rfl) fun _ => .pure _
  | _ => exact .pure _

/-- The values of a value are those of an array or of a text. -/
theorem aside_valuesOf (v : Value) : Aside (valuesOf v) := by
  cases v with
  | array ref => exact (aside_itemsOf ref).bind fun _ => .pure _
  | string t => exact .pure _
  | _ => exact (aside_textOf _).bind fun _ => .fail _

/-- A position among the arguments is told by their numbers. -/
theorem aside_positionArgument (args : List Value) (i length default : Nat) :
    Aside (positionArgument args i length default) := by
  unfold positionArgument
  split
  · exact .pure _
  · exact (aside_numberOf _).bind fun _ => .pure _

/-- So are the bounds of a slice. -/
theorem aside_sliceBounds (args : List Value) (length : Nat) : Aside (sliceBounds args length) :=
  (aside_positionArgument _ _ _ _).bind fun _ =>
    (aside_positionArgument _ _ _ _).bind fun _ => .pure _

/-- A built-in function looks at texts and arrays only. -/
theorem aside_callNative (action : NativeAction) (args : List Value) :
    Aside (callNative action args) := by
  have number (f : Double → Value) : Aside (do return f (← numberOf (argument args 0))) :=
    (aside_numberOf _).bind fun _ => .pure _
  have numbers (f : List Double → Value) : Aside (do return f (← numbersOf args)) :=
    (Aside.mapM aside_numberOf args).bind fun _ => .pure _
  -- By the action: its arguments are converted, and its result is new or comes from the heap.
  cases action with
  | floor | abs | isNaN => exact number _
  | largest | smallest => exact numbers _
  | toText =>
    cases args with
    | nil => exact .pure _
    | cons v args => exact (aside_textOf v).bind fun _ => .pure _
  | toNumber =>
    cases args with
    | nil => exact .pure _
    | cons v args => exact (aside_numberOf v).bind fun _ => .pure _
  | toBoolean => exact .pure _
  | arraySlice ref =>
    exact (aside_itemsOf ref).bind fun items => (aside_sliceBounds args _).bind fun bounds =>
      aside_newArray _
  | arrayPush ref =>
    exact Aside.bind (.change fun _ _ => rfl) fun _ => (aside_itemsOf ref).bind fun _ => .pure _
  | arrayPop ref =>
    exact (aside_itemsOf ref).bind fun items =>
      Aside.bind (.change fun _ _ => rfl) fun _ => .pure _
  | arrayConcat ref =>
    refine .get (fun m environments => ?_) fun m => aside_newArray _
    have same (v : Value) :
        joinedItems (m.withEnvironments environments).store v = joinedItems m.store v := by
      cases v <;> rfl
    simp only [same]
    rfl
  | arrayIndexOf ref => exact (aside_itemsOf ref).bind fun _ => .pure _
  | arrayJoin ref =>
    have rest (separator : Text) : Aside (do
        let items ← itemsOf ref
        let parts ← read fun s => s.itemTexts items.toList
        return Value.string (Text.join separator parts)) :=
      (aside_itemsOf ref).bind fun items =>
        Aside.bind (.read fun s environments => by
          simp only [Store.itemTexts, Store.text_withEnvironments]) fun parts => .pure _
    unfold callNative
    simp only
    split
    · exact rest _
    · exact (aside_textOf _).bind rest
  | textCharAt t =>
    have rest (i : Int) : Aside
        (if 0 ≤ i then Pure.pure (Value.string t[i.toNat]?.toList) else Pure.pure
          (Value.string [])) :=
      .ite (.pure _) (.pure _)
    unfold callNative
    simp only
    split
    · exact rest 0
    · exact (aside_numberOf _).bind fun d => Aside.bind (.ofExcept _) rest
  | textSlice t => exact (aside_sliceBounds args _).bind fun bounds => .pure _
  | textIndexOf t =>
    refine (aside_textOf _).bind fun part => ?_
    split
    · exact .pure _
    · exact .pure _

mutual

/-- A literal of the tree is turned into a value. -/
theorem aside_ofTree (t : Tree) : Aside (ofTree t) := by
  unfold ofTree
  split
  · exact (aside_ofTrees _).bind fun vs => aside_newArray _
  · split
    · exact .pure _
    · exact .changeGet fun _ _ => rfl

/-- So are the items of a row. -/
theorem aside_ofTrees (ts : List Tree) : Aside (ofTrees ts) := by
  cases ts with
  | nil => exact .pure _
  | cons t ts => exact (aside_ofTree t).bind fun v => (aside_ofTrees ts).bind fun vs => .pure _

end

/-- The value of a literal does not depend on the machine. -/
theorem aside_literalOf (l : Option Location) (value : Tree) : Aside (literalOf l value) := by
  unfold literalOf
  split
  · exact .pure _
  · exact aside_ofTree value
  · refine .get (fun _ _ => rfl) fun m => ?_
    split
    · exact .pure _
    · exact (aside_ofTree value).bind fun v => Aside.bind (.change fun _ _ => rfl) fun _ => .pure v

/-- A new function is added to the functions of the store, with the number of its environment. -/
theorem aside_makeFunction (env : Nat) (id params body : Tree) :
    Aside (makeFunction env id params body) := by
  have made (strict : Bool) : Aside
      (Value.function <$> changeGet fun s => s.newClosure ⟨id, params, body, env, strict⟩) :=
    .map _ (.changeGet fun _ _ => rfl)
  refine Aside.bind (.attempt _) fun statements => .get (fun _ _ => rfl) fun m => ?_
  split
  · exact made true
  · exact Aside.bind (.attempt _) made

/-- An evaluation that makes no functions and has nothing to do with variables. -/
structure Operation {α : Type} (act : Eval α) : Prop where
  plain (m : Machine) : Plain m act
  aside : Aside act

namespace Operation

variable {α : Type}

/-- A fault is an operation. -/
theorem attempt (r : Except Fault α) : Operation (Eval.attempt r) :=
  ⟨fun _ => plain_attempt r, .attempt r⟩

/-- The text of a value is an operation. -/
theorem textOf (v : Value) : Operation (Eval.textOf v) := ⟨fun _ => plain_textOf v, aside_textOf v⟩

/-- The number of a value is an operation. -/
theorem numberOf (v : Value) : Operation (Eval.numberOf v) :=
  ⟨fun _ => plain_numberOf v, aside_numberOf v⟩

/-- A new array is an operation. -/
theorem newArray (items : Array Value) : Operation (Eval.newArray items) :=
  ⟨fun _ => plain_newArray items, aside_newArray items⟩

/-- Reading a property is an operation. -/
theorem getProperty (l : Option Location) (owner key : Value) :
    Operation (Eval.getProperty l owner key) :=
  ⟨fun _ => plain_getProperty l owner key, aside_getProperty l owner key⟩

/-- Storing a property is an operation. -/
theorem setProperty (l : Option Location) (owner key v : Value) :
    Operation (Eval.setProperty l owner key v) :=
  ⟨fun _ => plain_setProperty l owner key v, aside_setProperty l owner key v⟩

/-- The keys that a loop goes through are an operation. -/
theorem keysOf (v : Value) : Operation (Eval.keysOf v) := ⟨fun _ => plain_keysOf v, aside_keysOf v⟩

/-- The values that a loop goes through are an operation. -/
theorem valuesOf (v : Value) : Operation (Eval.valuesOf v) :=
  ⟨fun _ => plain_valuesOf v, aside_valuesOf v⟩

/-- Calling a built-in function is an operation. -/
theorem callNative (action : NativeAction) (args : List Value) :
    Operation (Eval.callNative action args) :=
  ⟨fun _ => plain_callNative action args, aside_callNative action args⟩

/-- Turning a literal into a value is an operation. -/
theorem ofTree (t : Tree) : Operation (Eval.ofTree t) := ⟨fun _ => plain_ofTree t, aside_ofTree t⟩

/-- Evaluating a literal is an operation. -/
theorem literalOf (l : Option Location) (value : Tree) : Operation (Eval.literalOf l value) :=
  ⟨fun _ => plain_literalOf l value, aside_literalOf l value⟩

/-- An operator between two values is an operation. -/
theorem operate (op : BinaryOperator) (a b : Value) :
    Operation (Eval.read fun s => s.operate op a b) :=
  ⟨fun _ => .read fun s => regular_operate s op a b,
    .read fun s environments => s.operate_withEnvironments environments op a b⟩

/-- An operator on one value is an operation. -/
theorem operateUnary (op : Option UnaryOperator) (v : Value) :
    Operation (Eval.read fun s => s.operateUnary op v) :=
  ⟨fun _ => .read fun s => regular_operateUnary s op v,
    .read fun s environments => s.operateUnary_withEnvironments environments op v⟩

end Operation

end Eval

end TailLoop
