import TailLoop.Value.Basic

/-!
# The store

What references refer to: environments of variables, arrays, objects and functions. An environment
has a parent, made before it, in which names are looked up that it does not bind itself.
-/

namespace TailLoop

/-- The variables of one activation of a function, in the order in which they were declared. -/
structure Environment where
  /-- Where names are looked up that are not bound here. -/
  parent : Option Nat
  /-- The names bound here with their values. -/
  bindings : List (Text × Value) := []

/-- A function: its parts, the environment in which it was made, and whether its code is strict. -/
structure Closure where
  /-- The identifier of its name, or absent. -/
  id : Tree
  /-- The row of its parameters. -/
  params : Tree
  /-- The block of its body. -/
  body : Tree
  /-- The environment in which it was made. -/
  environment : Nat
  /-- Whether its code is strict. -/
  strict : Bool

/-- What references refer to. -/
structure Store where
  /-- The environments; the first one is the global one. -/
  environments : Array Environment
  /-- The arrays. -/
  arrays : Array (Array Value)
  /-- The objects: properties in the order in which they were set. -/
  objects : Array (List (Text × Value))
  /-- The functions. -/
  closures : Array Closure
  /-- How many built-in functions have been made. -/
  natives : Nat
  /-- How many identities have been given to foreign values. -/
  foreigns : Nat
  /-- The values of the literals that hold more than a plain value, by their places. -/
  constants : List (Location × Value)

/-- Entries with the value of a name changed, or the name added at the end. -/
def putEntry (name : Text) (v : Value) : List (Text × Value) → List (Text × Value)
  | [] => [(name, v)]
  | e :: rest => if e.1 = name then (name, v) :: rest else e :: putEntry name v rest

/-- The value of a name after it was set. -/
@[simp]
theorem lookup_putEntry_self (name : Text) (v : Value) (entries : List (Text × Value)) :
    (putEntry name v entries).lookup name = some v := by
  induction entries with
  | nil => simp [putEntry]
  | cons e rest ih =>
    obtain ⟨key, w⟩ := e
    by_cases h : key = name
    · simp [putEntry, h]
    · have h' : (name == key) = false := by simp [Ne.symm h]
      simp [putEntry, h, List.lookup_cons, h', ih]

namespace Environment

/-- The environment with a name bound to a value. -/
def bind (e : Environment) (name : Text) (v : Value) : Environment :=
  { e with bindings := putEntry name v e.bindings }

/-- Whether a name is bound here. -/
def binds (e : Environment) (name : Text) : Bool := (e.bindings.lookup name).isSome

end Environment

namespace Store

/-- The number of the global environment. -/
def globalEnvironment : Nat := 0

/-- Whether an environment binds a name itself. -/
def declares (s : Store) (env : Nat) (name : Text) : Bool :=
  (s.environments[env]?).any (·.binds name)

/-- The nearest environment that binds a name, among the next `fuel` ones. -/
def resolveWithin (s : Store) (name : Text) : (fuel : Nat) → (env : Nat) → Option Nat
  | 0, _ => none
  | fuel + 1, env =>
    match s.environments[env]? with
    | none => none
    | some e =>
      if e.binds name then some env
      else
        match e.parent with
        | some parent => resolveWithin s name fuel parent
        | none => none

/-- The nearest environment that binds a name. A parent has a smaller number than its child, so
that no chain is longer than its first number. -/
def resolve? (s : Store) (env : Nat) (name : Text) : Option Nat :=
  s.resolveWithin name (env + 1) env

/-- The value of a name. -/
def lookup? (s : Store) (env : Nat) (name : Text) : Option Value :=
  (s.resolve? env name).bind fun i => (s.environments[i]?).bind fun e => e.bindings.lookup name

/-- The outermost of the next `fuel` environments. -/
def rootWithin (s : Store) : (fuel : Nat) → (env : Nat) → Nat
  | 0, env => env
  | fuel + 1, env =>
    match (s.environments[env]?).bind (·.parent) with
    | some parent => rootWithin s fuel parent
    | none => env

/-- The outermost environment around an environment. -/
def root (s : Store) (env : Nat) : Nat := s.rootWithin (env + 1) env

/-- The names that an environment binds, in order. -/
def names (s : Store) (env : Nat) : List Text :=
  ((s.environments[env]?).map fun e => e.bindings.map (·.1)).getD []

/-- Binds a name in an environment. -/
def declare (s : Store) (env : Nat) (name : Text) (v : Value) : Store :=
  { s with environments := s.environments.modify env (·.bind name v) }

/-- Sets a name in the nearest environment that binds it, and tells whether there is one. -/
def assign (s : Store) (env : Nat) (name : Text) (v : Value) : Bool × Store :=
  match s.resolve? env name with
  | some i => (true, s.declare i name v)
  | none => (false, s)

/-- A new environment with the given parent. -/
def child (s : Store) (parent : Nat) : Nat × Store :=
  (s.environments.size, { s with environments := s.environments.push { parent := some parent } })

/-- A new array. -/
def newArray (s : Store) (items : Array Value) : Nat × Store :=
  (s.arrays.size, { s with arrays := s.arrays.push items })

/-- A new object. -/
def newObject (s : Store) (properties : List (Text × Value)) : Nat × Store :=
  (s.objects.size, { s with objects := s.objects.push properties })

/-- A new function. -/
def newClosure (s : Store) (c : Closure) : Nat × Store :=
  (s.closures.size, { s with closures := s.closures.push c })

/-- A new built-in function. -/
def newNative (s : Store) (action : NativeAction) : Native × Store :=
  (⟨s.natives, action⟩, { s with natives := s.natives + 1 })

/-- A new foreign value. -/
def newForeign (s : Store) : Value × Store :=
  (.foreign s.foreigns, { s with foreigns := s.foreigns + 1 })

/-- The items of an array. -/
def items (s : Store) (ref : Nat) : Array Value := (s.arrays[ref]?).getD #[]

/-- The properties of an object. -/
def properties (s : Store) (ref : Nat) : List (Text × Value) := (s.objects[ref]?).getD []

/-- Changes the items of an array. -/
def modifyArray (s : Store) (ref : Nat) (f : Array Value → Array Value) : Store :=
  { s with arrays := s.arrays.modify ref f }

/-- Sets a property of an object. -/
def putProperty (s : Store) (ref : Nat) (key : Text) (v : Value) : Store :=
  { s with objects := s.objects.modify ref (putEntry key v) }

/-- A store with an environment that binds nothing. -/
def empty : Store where
  environments := #[{ parent := none }]
  arrays := #[]
  objects := #[]
  closures := #[]
  natives := 0
  foreigns := 1
  constants := []

/-- The mathematical functions and constants. -/
def mathProperties : List (Text × Value) :=
  [("floor", .native ⟨0, .floor⟩), ("abs", .native ⟨1, .abs⟩), ("max", .native ⟨2, .largest⟩),
   ("min", .native ⟨3, .smallest⟩), ("PI", .number Double.pi)]

/-- The variables that every program finds. -/
def builtins : List (Text × Value) :=
  [("undefined", .undefined), ("NaN", .number .nan), ("Infinity", .number (.infinite false)),
   ("Math", .object 0), ("isNaN", .native ⟨4, .isNaN⟩), ("String", .native ⟨5, .toText⟩),
   ("Number", .native ⟨6, .toNumber⟩), ("Boolean", .native ⟨7, .toBoolean⟩)]

/-- The store in which a program starts. -/
def initial : Store where
  environments := #[{ parent := none, bindings := builtins }]
  arrays := #[]
  objects := #[mathProperties]
  closures := #[]
  natives := 8
  foreigns := 1
  constants := []

end Store

end TailLoop
