import TailLoop.Location
import TailLoop.Print
import TailLoop.Text.Quoted

/-!
# Errors of running programs

What can go wrong while a program runs, and the words for it. The first group are errors of the
language; the others are limits of the evaluation itself.
-/

namespace TailLoop

/-- Why a program stopped. -/
inductive RuntimeError where
  /-- A name without a value is read, or set in strict code. -/
  | notDefined (name : Text) (location : Option Location)
  /-- Something that is no function is called. -/
  | notFunction (what : Text) (location : Option Location)
  /-- A property of null or undefined is read. -/
  | unreadable (key owner : Text) (location : Option Location)
  /-- A property of null or undefined is set. -/
  | unwritable (key owner : Text) (location : Option Location)
  /-- A loop goes over something that has no values. -/
  | notIterable (what : Text)
  /-- The length of an array is set to something that is no length. -/
  | invalidLength (location : Option Location)
  /-- A node is run that is no statement. -/
  | notStatement (kind : Text) (location : Option Location)
  /-- A node is evaluated that is no expression. -/
  | notExpression (kind : Text) (location : Option Location)
  /-- Calls are nested too deeply. -/
  | stackOverflow
  /-- An array that contains itself is converted to a text. -/
  | endlessText
  /-- Not-a-number is converted to an integer. -/
  | integerOfNaN
  /-- An infinity is converted to an integer. -/
  | integerOfInfinity
  /-- A hexadecimal number is too large for a double. -/
  | integerTooLarge
  /-- Digits that are not decimal are used as an index. -/
  | notNumeral (text : Text)
  /-- An array is to grow by more items than can be counted. -/
  | tooManyItems
  /-- An array is to grow by more items than there is room for. -/
  | outOfMemory
  /-- An operator is not in the table. -/
  | unknownOperator
  /-- A function has no text. -/
  | unprintable (error : PrintError)
  /-- A field does not hold what its node needs. -/
  | malformed (fault : Fault)

namespace RuntimeError

/-- A message with its location. -/
def located (message : Text) : Option Location → Text
  | some l => message ++ " (at " ++ l.text ++ ")"
  | none => message

/-- The words for an error. -/
def message : RuntimeError → Text
  | .notDefined name l => located ("ReferenceError: " ++ name ++ " is not defined") l
  | .notFunction what l => located ("TypeError: " ++ what ++ " is not a function") l
  | .unreadable key owner l =>
    located ("TypeError: cannot read property " ++ key.quoted ++ " of " ++ owner) l
  | .unwritable key owner l =>
    located ("TypeError: cannot set property " ++ key.quoted ++ " of " ++ owner) l
  | .notIterable what => "TypeError: " ++ what ++ " is not iterable"
  | .invalidLength l => located "TypeError: invalid array length" l
  | .notStatement kind l => located ("TypeError: cannot execute " ++ kind) l
  | .notExpression kind l => located ("TypeError: cannot evaluate " ++ kind) l
  | .stackOverflow => "RangeError: Maximum call stack size exceeded"
  | .endlessText => "maximum recursion depth exceeded"
  | .integerOfNaN => "cannot convert float NaN to integer"
  | .integerOfInfinity => "cannot convert float infinity to integer"
  | .integerTooLarge => "int too large to convert to float"
  | .notNumeral t => "could not convert string to float: " ++ t.quoted
  | .tooManyItems => "cannot fit 'int' into an index-sized integer"
  | .outOfMemory => []
  | .unknownOperator => []
  | .unprintable _ => []
  | .malformed _ => []

end RuntimeError

end TailLoop
