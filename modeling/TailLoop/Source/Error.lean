import TailLoop.Text.Quoted
import TailLoop.Grammar.Symbol
import TailLoop.Location

/-!
# Syntax errors

Why a text is not a program, where, and the words for it.
-/

namespace TailLoop.Source

open Grammar

/-- Why a text cannot be read. -/
inductive Error where
  /-- The text ends too early. -/
  | unexpectedEnd (expected : List Terminal) (location : Location)
  /-- A token stands where it cannot. -/
  | unexpectedToken (text : Text) (expected : List Terminal) (location : Location)
  /-- No token starts with this code point. -/
  | unexpectedCharacter (point : Nat) (location : Location)
  /-- Something that is no variable and no member access is assigned to. -/
  | invalidTarget (role : Text) (location : Option Location)
  /-- A hexadecimal number is too large for a double. -/
  | numberTooLarge
  /-- The text has no file name, which the rule of this name needs for a location. -/
  | noFile (rule : Text)

namespace Error

/-- How many expected terminals a message names at most. -/
def shownLimit : Nat := 8

/-- The expected terminals in a message, by label. Long lists are left out. -/
def expectedText (expected : List Terminal) : Text :=
  if expected.isEmpty || shownLimit < expected.length then []
  else ", expected one of: " ++ Text.join ", " (Text.sort (expected.map (·.label)))

/-- The text of a syntax error. -/
def message : Error → Text
  | .unexpectedEnd expected _ => "unexpected end of input" ++ expectedText expected
  | .unexpectedToken text expected _ => "unexpected " ++ text.quoted ++ expectedText expected
  | .unexpectedCharacter point _ => "unexpected character " ++ Text.quoted [point]
  | .invalidTarget role _ => "invalid " ++ role ++ " target"
  | .numberTooLarge =>
    "Error trying to process rule \"number\":\n\nint too large to convert to float"
  | .noFile rule =>
    "Error trying to process rule \"" ++ rule ++ "\":\n\nParser bug: current_file not set. " ++
      "Parser must set current_file before transforming."

/-- Where the error is. -/
def location? : Error → Option Location
  | .unexpectedEnd _ location => some location
  | .unexpectedToken _ _ location => some location
  | .unexpectedCharacter _ location => some location
  | .invalidTarget _ location => location
  | .numberTooLarge => none
  | .noFile _ => none

/-- Advice that goes with the error. -/
def help? : Error → Option Text
  | .invalidTarget .. => some "only variables and member accesses can be assigned"
  | _ => none

/-- Whether the error is the fault of the text, and not a limit of the reader. -/
def isSyntax : Error → Bool
  | .numberTooLarge => false
  | .noFile _ => false
  | _ => true

end Error

end TailLoop.Source
