import TailLoop.Interpreter.Basic

/-!
# Properties

Reading and setting properties of values, and what loops over a value go through. Arrays and texts
have items, a length and methods; other values have what is stored in them, or nothing.
-/

namespace TailLoop.Eval

/-- The method of an array. -/
def arrayMethod? (ref : Nat) (name : Text) : Option NativeAction :=
  let table : List (Text × NativeAction) :=
    [("slice", .arraySlice ref), ("push", .arrayPush ref), ("pop", .arrayPop ref),
     ("concat", .arrayConcat ref), ("indexOf", .arrayIndexOf ref), ("join", .arrayJoin ref)]
  table.lookup name

/-- The method of a text. -/
def textMethod? (t : Text) (name : Text) : Option NativeAction :=
  let table : List (Text × NativeAction) :=
    [("charAt", .textCharAt t), ("slice", .textSlice t), ("indexOf", .textIndexOf t)]
  table.lookup name

/-- The word for the length of an array or a text. -/
def lengthName : Text := "length"

/-- A property of an array or a text that is not an item: its length or a method. -/
def namedProperty (length : Nat) (method? : Text → Option NativeAction) (name : Text) :
    Eval Value :=
  if name = lengthName then return .number (Double.ofNat length)
  else
    match method? name with
    | some action => newNative action
    | none => return .undefined

/-- The property of a value by its key. The location is that of the access. -/
def getProperty (location : Option Location) (owner key : Value) : Eval Value :=
  match owner with
  | .undefined | .null => do
    let key ← textOf key
    let owner ← textOf owner
    fail (.unreadable key owner location)
  | .array ref => do
    match ← ofExcept key.index? with
    | some i => return (← itemsOf ref)[i]?.getD .undefined
    | none =>
      let name ← textOf key
      namedProperty (← itemsOf ref).size (arrayMethod? ref) name
  | .string t => do
    match ← ofExcept key.index? with
    | some i => return (t[i]?.map fun c => .string [c]).getD .undefined
    | none =>
      let name ← textOf key
      namedProperty t.length (textMethod? t) name
  | .object ref => do
    let name ← textOf key
    let properties := (← get).store.properties ref
    return (properties.lookup name).getD .undefined
  | .native f => do
    let name ← textOf key
    if name = Text.ofString "name" then return .string f.action.name else return .undefined
  | .bool _ | .number _ | .function _ | .foreign _ => return .undefined

/-- An array with an item set; positions before it that are new are undefined. -/
def setItem (items : Array Value) (i : Nat) (v : Value) : Array Value :=
  if i < items.size then items.setIfInBounds i v
  else (items ++ Array.replicate (i - items.size) Value.undefined).push v

/-- An array of another length: cut off, or filled up with the undefined value. -/
def resize (items : Array Value) (length : Nat) : Array Value :=
  items.take length ++ Array.replicate (length - items.size) Value.undefined

/-- The greatest number of items that can be counted. -/
def countLimit : Nat := 1 <<< 63 - 1

/-- The number of items for which there is no room. -/
def roomLimit : Nat := 1 <<< 30

/-- Fails if an array cannot grow by so many items. -/
def checkGrowth (count : Nat) : Eval Unit :=
  if countLimit < count then fail .tooManyItems
  else if roomLimit ≤ count then fail .outOfMemory
  else return ()

/-- Sets the property of a value by its key. The location is that of the target. -/
def setProperty (location : Option Location) (owner key v : Value) : Eval Unit :=
  match owner with
  | .undefined | .null => do
    let key ← textOf key
    let owner ← textOf owner
    fail (.unwritable key owner location)
  | .array ref => do
    match ← ofExcept key.index? with
    | some i =>
      checkGrowth (i + 1 - (← itemsOf ref).size)
      change fun s => s.modifyArray ref (setItem · i v)
    | none =>
      let name ← textOf key
      if name = lengthName then
        match ← ofExcept v.index? with
        | some length =>
          checkGrowth (length - (← itemsOf ref).size)
          change fun s => s.modifyArray ref (resize · length)
        | none => fail (.invalidLength location)
  | .object ref => do
    let name ← textOf key
    change fun s => s.putProperty ref name v
  | _ => return ()

/-- The keys that a loop over the keys of a value goes through. -/
def keysOf (v : Value) : Eval (List Text) := do
  match v with
  | .array ref => return (List.range (← itemsOf ref).size).map Text.ofNat
  | .string t => return (List.range t.length).map Text.ofNat
  | .object ref => return ((← get).store.properties ref).map (·.1)
  | _ => return []

/-- The values that a loop over the values of a value goes through. -/
def valuesOf (v : Value) : Eval (List Value) := do
  match v with
  | .array ref => return (← itemsOf ref).toList
  | .string t => return t.map fun c => .string [c]
  | _ =>
    let t ← textOf v
    fail (.notIterable t)

end TailLoop.Eval
