import TailLoop.Double.Arithmetic
import TailLoop.Tree.Basic

/-!
# Values of running programs

What expressions evaluate to. Arrays, objects and functions have an identity: the value is a
reference, and what it refers to is kept in a store.
-/

namespace TailLoop

/-- What a built-in function does. A method is bound to its array or string. -/
inductive NativeAction where
  | floor | abs | largest | smallest
  | isNaN | toText | toNumber | toBoolean
  | arraySlice (array : Nat) | arrayPush (array : Nat) | arrayPop (array : Nat)
  | arrayConcat (array : Nat) | arrayIndexOf (array : Nat) | arrayJoin (array : Nat)
  | textCharAt (text : Text) | textSlice (text : Text) | textIndexOf (text : Text)

/-- The name of a built-in function. -/
def NativeAction.name : NativeAction → Text
  | .floor => "floor"
  | .abs => "abs"
  | .largest => "max"
  | .smallest => "min"
  | .isNaN => "isNaN"
  | .toText => "String"
  | .toNumber => "Number"
  | .toBoolean => "Boolean"
  | .arraySlice _ => "slice"
  | .arrayPush _ => "push"
  | .arrayPop _ => "pop"
  | .arrayConcat _ => "concat"
  | .arrayIndexOf _ => "indexOf"
  | .arrayJoin _ => "join"
  | .textCharAt _ => "charAt"
  | .textSlice _ => "slice"
  | .textIndexOf _ => "indexOf"

/-- A built-in function. Every look-up of a method makes a function with a new identity. -/
structure Native where
  /-- Its identity. -/
  id : Nat
  /-- What it does. -/
  action : NativeAction

/-- A value. -/
inductive Value where
  | undefined
  | null
  | bool (b : Bool)
  | number (d : Double)
  | string (t : Text)
  | array (ref : Nat)
  | object (ref : Nat)
  | function (ref : Nat)
  | native (f : Native)
  /-- Something that is no value of the language: it has an identity and nothing else. -/
  | foreign (identity : Nat)

instance : Inhabited Value := ⟨.undefined⟩

namespace Value

/-- Whether a value is undefined or null. -/
def isNullish : Value → Bool
  | .undefined => true
  | .null => true
  | _ => false

/-- Whether a value is a number. -/
def isNumber : Value → Bool
  | .number _ => true
  | _ => false

/-- Whether a value can be called. -/
def isCallable : Value → Bool
  | .function _ => true
  | .native _ => true
  | _ => false

/-- Whether a value counts as true. -/
def truthy : Value → Bool
  | .undefined => false
  | .null => false
  | .bool b => b
  | .number d => !(d.isZero || d.isNaN)
  | .string t => !t.isEmpty
  | _ => true

/-- The types that a program can tell apart. -/
inductive ValueType where
  | undefined | object | boolean | number | string | function
deriving DecidableEq

/-- The word for a type. -/
def ValueType.name : ValueType → Text
  | .undefined => "undefined"
  | .object => "object"
  | .boolean => "boolean"
  | .number => "number"
  | .string => "string"
  | .function => "function"

/-- The type of a value. -/
def type : Value → ValueType
  | .undefined => .undefined
  | .null => .object
  | .bool _ => .boolean
  | .number _ => .number
  | .string _ => .string
  | .array _ => .object
  | .object _ => .object
  | .function _ => .function
  | .native _ => .function
  | .foreign _ => .object

/-- Equality without conversion: numbers, texts and flags by what they are, the rest by
identity. -/
def strictEquals : Value → Value → Bool
  | .undefined, .undefined => true
  | .null, .null => true
  | .bool a, .bool b => a == b
  | .number a, .number b => a.eq b
  | .string a, .string b => a == b
  | .array a, .array b => a == b
  | .object a, .object b => a == b
  | .function a, .function b => a == b
  | .native a, .native b => a.id == b.id
  | .foreign a, .foreign b => a == b
  | _, _ => false

/-- The value that a plain tree is. All empty rows are one value that is foreign to the language. A
tree that holds something has an identity of its own, so that it is no value by itself. -/
def ofTree? : Tree → Option Value
  | .null => some .null
  | .bool b => some (.bool b)
  | .int n => some (.number (Double.ofInt n))
  | .num d => some (.number d)
  | .text t => some (.string t)
  | .tuple [] => some (.foreign 0)
  | _ => none

end Value

end TailLoop
