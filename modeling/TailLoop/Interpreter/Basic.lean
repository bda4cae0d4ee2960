import TailLoop.Tree.Names
import TailLoop.Tree.Pattern
import TailLoop.Value.Operation

/-!
# Evaluation steps

An evaluation changes a machine and ends with a value or with an interrupt. Interrupts are the
jumps of the language, which statements and calls take up, the errors, and the lack of fuel. The
machine that an evaluation has come to is known in either case.
-/

namespace TailLoop

/-- Why an evaluation ends without a value. -/
inductive Interrupt where
  /-- A `return` with its value. -/
  | returned (v : Value)
  /-- A `break`, with the name of its label, which is absent if it has none. -/
  | broke (label : Tree)
  /-- A `continue`, with the name of its label, which is absent if it has none. -/
  | continued (label : Tree)
  /-- An error. -/
  | failed (error : RuntimeError)
  /-- The fuel is used up. -/
  | exhausted

/-- What an evaluation changes. -/
structure Machine where
  /-- What references refer to. -/
  store : Store
  /-- How many calls are under way. -/
  depth : Nat
  /-- Whether the code that runs is strict. -/
  strict : Bool

/-- An evaluation. -/
abbrev Eval := EStateM Interrupt Machine

namespace Eval

/-- Ends with an error. -/
def fail {α : Type} (e : RuntimeError) : Eval α := throw (.failed e)

/-- The result of a computation on the store that does not change it. -/
def read {α : Type} (f : Store → Except RuntimeError α) : Eval α := do
  match f (← get).store with
  | .ok a => return a
  | .error e => fail e

/-- Changes the store. -/
def change (f : Store → Store) : Eval Unit := modify fun m => { m with store := f m.store }

/-- Changes the store, and gives a result. -/
def changeGet {α : Type} (f : Store → α × Store) : Eval α :=
  modifyGet fun m =>
    match m with
    | ⟨store, depth, strict⟩ =>
      match f store with
      | (a, store) => (a, ⟨store, depth, strict⟩)

/-- A result that is known, or an error. -/
def ofExcept {α : Type} : Except RuntimeError α → Eval α
  | .ok a => pure a
  | .error e => fail e

/-- What is found in a tree, or a fault. -/
def attempt {α : Type} : Except Fault α → Eval α
  | .ok a => pure a
  | .error fault => fail (.malformed fault)

/-- The text of a value. -/
def textOf (v : Value) : Eval Text := read fun s => s.text v

/-- The number that a value stands for. -/
def numberOf (v : Value) : Eval Double := read fun s => s.number v

/-- A new array. -/
def newArray (items : Array Value) : Eval Value :=
  Value.array <$> changeGet fun s => s.newArray items

/-- A new built-in function. -/
def newNative (action : NativeAction) : Eval Value :=
  Value.native <$> changeGet fun s => s.newNative action

/-- The items of an array. -/
def itemsOf (ref : Nat) : Eval (Array Value) := return (← get).store.items ref

end Eval

end TailLoop
