import TailLoop.Interpreter.Property

/-!
# Built-in functions

What the built-in functions and the methods of arrays and texts do with their arguments. Missing
arguments are undefined, and further ones are ignored.
-/

namespace TailLoop.Eval

/-- The argument at a position. -/
def argument (args : List Value) (i : Nat) : Value := args[i]?.getD .undefined

/-- The integer toward zero from a number. -/
def integerOf : Double → Except RuntimeError Int
  | .nan => .error .integerOfNaN
  | .infinite _ => .error .integerOfInfinity
  | d => .ok (d.truncate?.getD 0)

/-- The position that a number means in a sequence: negative numbers count from the end, and
positions outside the sequence are moved to its ends. -/
def relativePosition (length : Nat) : Double → Nat
  | .nan => 0
  | .infinite negative => if negative then 0 else length
  | d =>
    let n := d.truncate?.getD 0
    if n < 0 then (length + n).toNat else min n.toNat length

/-- The position that an argument means in a sequence, or `default` when it is undefined. -/
def positionArgument (args : List Value) (i length default : Nat) : Eval Nat :=
  match argument args i with
  | .undefined => return default
  | v => do
    let d ← numberOf v
    return relativePosition length d

/-- The positions between which a part of a sequence is taken: how many items to leave out, and how
many to take. -/
def sliceBounds (args : List Value) (length : Nat) : Eval (Nat × Nat) := do
  let start ← positionArgument args 0 length 0
  let stop ← positionArgument args 1 length length
  return (start, stop - start)

/-- The numbers of all arguments. -/
def numbersOf (args : List Value) : Eval (List Double) := args.mapM numberOf

/-- The greatest or smallest of some numbers by a choice between two; not-a-number if it is among
them. -/
def extreme (choose : Double → Double → Double) (ofNone : Double) : List Double → Double
  | [] => ofNone
  | d :: rest => if (d :: rest).any Double.isNaN then .nan else rest.foldl choose d

/-- The greatest integer not above a number, as a number. -/
def floorOf (d : Double) : Double :=
  match d.floor? with
  | some n => Double.ofInt n
  | none => d

/-- The items that joining a value to an array adds: those of an array, or the value itself. -/
def joinedItems (s : Store) : Value → Array Value
  | .array ref => s.items ref
  | v => #[v]

/-- The result of a built-in function. -/
def callNative (action : NativeAction) (args : List Value) : Eval Value :=
  match action with
  | .floor => do return .number (floorOf (← numberOf (argument args 0)))
  | .abs => do return .number (← numberOf (argument args 0)).abs
  | .largest => do return .number (extreme Double.larger (.infinite true) (← numbersOf args))
  | .smallest => do return .number (extreme Double.smaller (.infinite false) (← numbersOf args))
  | .isNaN => do return .bool (← numberOf (argument args 0)).isNaN
  | .toText => do
    match args with
    | [] => return .string []
    | v :: _ => return .string (← textOf v)
  | .toNumber => do
    match args with
    | [] => return .number (.zero false)
    | v :: _ => return .number (← numberOf v)
  | .toBoolean => return .bool (argument args 0).truthy
  | .arraySlice ref => do
    let items ← itemsOf ref
    let (skip, count) ← sliceBounds args items.size
    newArray (items.extract skip (skip + count))
  | .arrayPush ref => do
    change fun s => s.modifyArray ref (· ++ args.toArray)
    return .number (Double.ofNat (← itemsOf ref).size)
  | .arrayPop ref => do
    let last := (← itemsOf ref).back?
    change fun s => s.modifyArray ref Array.pop
    return last.getD .undefined
  | .arrayConcat ref => do
    let s := (← get).store
    newArray (args.foldl (fun items v => items ++ joinedItems s v) (s.items ref))
  | .arrayIndexOf ref => do
    return .number (Store.positionOf (argument args 0) (← itemsOf ref).toList)
  | .arrayJoin ref => do
    let separator ← match argument args 0 with
      | .undefined => pure (Text.ofString ",")
      | v => textOf v
    let items ← itemsOf ref
    let parts ← read fun s => s.itemTexts items.toList
    return .string (Text.join separator parts)
  | .textCharAt t => do
    let i ← match argument args 0 with
      | .undefined => pure 0
      | v => do
        let d ← numberOf v
        ofExcept (integerOf d)
    if 0 ≤ i then return .string (t[i.toNat]?.toList) else return .string []
  | .textSlice t => do
    let (skip, count) ← sliceBounds args t.length
    return .string ((t.drop skip).take count)
  | .textIndexOf t => do
    let part ← textOf (argument args 0)
    match Text.find? part t with
    | some i => return .number (Double.ofNat i)
    | none => return .number (Double.ofInt (-1))

end TailLoop.Eval
