import TailLoop.Interpreter.Eval

/-!
# Interpreters

An interpreter keeps a machine between programs and calls, so that later ones find what earlier ones
have left. A program runs in the global environment, and its value is that of its last expression
statement.
-/

namespace TailLoop

namespace Eval

/-- A value that is not found because an array contains itself is a call stack that overflows. -/
def guarded {α : Type} (act : Eval α) : Eval α := fun m =>
  match act m with
  | .error (.failed .endlessText) m => .error (.failed .stackOverflow) m
  | result => result

/-- Runs one statement of a program. An expression gives the value so far anew. -/
def runStatement (limit fuel : Nat) (v : Value) (t : Tree) : Eval Value :=
  match t with
  | .node _ (.expressionStatement expression) =>
    evaluate limit fuel Store.globalEnvironment expression
  | t => do
    execute limit fuel Store.globalEnvironment t
    return v

/-- Runs a program. The code is strict if the program starts with the directive. -/
def runProgram (limit fuel : Nat) (program : Tree) : Eval Value := do
  let body ← attempt (program.field "body")
  let strict ← attempt body.startsStrict
  modify fun m => { m with strict }
  let statements ← attempt body.items
  hoist Store.globalEnvironment body
  guarded (statements.foldlM (runStatement limit fuel) .undefined)

/-- The global function of a name. -/
def globalFunction (name : Text) : Eval Nat := do
  match (← get).store.lookup? Store.globalEnvironment name with
  | none => fail (.notDefined name none)
  | some (.function ref) => return ref
  | some _ => fail (.notFunction name none)

end Eval

/-- An interpreter between two evaluations. -/
structure Interpreter where
  /-- How many calls may be nested. -/
  limit : Nat
  /-- What earlier evaluations have left. -/
  machine : Machine

namespace Interpreter

/-- How many calls may usually be nested. -/
def defaultLimit : Nat := 200

/-- The usual fuel of an evaluation: more than any evaluation that ends in reasonable time needs. -/
def defaultFuel : Nat := Nat.pow 10 18

/-- An interpreter that has run nothing. -/
def new (limit : Nat) : Interpreter := ⟨limit, ⟨.initial, 0, false⟩⟩

/-- Lets an interpreter evaluate something. -/
def perform {α : Type} (i : Interpreter) (act : Eval α) : Except Interrupt α × Interpreter :=
  match act i.machine with
  | .ok a m => (.ok a, ⟨i.limit, m⟩)
  | .error e m => (.error e, ⟨i.limit, m⟩)

/-- Runs a program. -/
def run (i : Interpreter) (program : Tree) (fuel : Nat := defaultFuel) :
    Except Interrupt Value × Interpreter :=
  i.perform (Eval.runProgram i.limit fuel program)

/-- Calls a value. -/
def call (i : Interpreter) (f : Value) (args : List Value) (fuel : Nat := defaultFuel) :
    Except Interrupt Value × Interpreter :=
  i.perform (Eval.guarded (Eval.call i.limit fuel f args))

/-- The value of a global variable. -/
def global? (i : Interpreter) (name : Text) : Option Value :=
  i.machine.store.lookup? Store.globalEnvironment name

/-- The names of the global variables that are not built in, in order. -/
def globalNames (i : Interpreter) : List Text :=
  (i.machine.store.names Store.globalEnvironment).filter fun name =>
    (Store.builtins.lookup name).isNone

/-- The global function of a name. -/
def function (i : Interpreter) (name : Text) : Except RuntimeError Closure :=
  match i.global? name with
  | none => .error (.notDefined name none)
  | some (.function ref) =>
    match i.machine.store.closures[ref]? with
    | some c => .ok c
    | none => .error (.notFunction name none)
  | some _ => .error (.notFunction name none)

/-- Calls the global function of a name. -/
def callFunction (i : Interpreter) (name : Text) (args : List Value)
    (fuel : Nat := defaultFuel) : Except Interrupt Value × Interpreter :=
  match i.perform (Eval.globalFunction name) with
  | (.ok ref, i) => i.call (.function ref) args fuel
  | (.error e, i) => (.error e, i)

end Interpreter

/-- The text by which functions and the undefined value are shown to the one who runs a program. -/
def Store.show? (s : Store) : Value → Option Text
  | .undefined => some "undefined"
  | .native f => some ("<NativeFunction " ++ f.action.name ++ ">")
  | .function ref =>
    (s.closures[ref]?).map fun c =>
      "<JSFunction " ++ (if c.name.truthy then c.name.inline else "(anonymous)") ++ ">"
  | _ => none

end TailLoop
