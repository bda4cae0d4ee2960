import TailLoop.Diagnostic

/-!
# Problems

What the optimizer refuses to go on with: a text that is no program, a name that is reserved, a
tail call with too many arguments, a tree that is not valid. A problem becomes a diagnostic, and
has a text of its own.
-/

namespace TailLoop

/-- The kinds of problems. -/
inductive Category where
  /-- A problem of no other kind. -/
  | general
  /-- A fault of the source program of no other kind. -/
  | source
  /-- The source text is not a program. -/
  | parse
  /-- A declaration uses a name that generated code needs. -/
  | reservedName
  /-- A tail call passes more arguments than the function declares. -/
  | arity
  /-- A tree is not valid. -/
  | schema
deriving DecidableEq

/-- The code of a kind of problems. -/
def Category.code : Category → Text
  | .general => "E0000"
  | .source => "E0000"
  | .parse => "E0001"
  | .reservedName => "E0101"
  | .arity => "E0102"
  | .schema => "E0999"

/-- A problem. -/
structure Problem where
  /-- What kind it is. -/
  category : Category
  /-- What is wrong. -/
  reason : Text
  /-- Where it is. -/
  location : Option Location := none
  /-- The field of the tree that is wrong, as a path; only for trees that are not valid. -/
  path : Text := []
  /-- A code other than that of the kind. -/
  ownCode : Option Text := none
  /-- The source text, where it is known. -/
  source : Option Text := none
  /-- Advice. -/
  help : Option Text := none
  /-- A remark. -/
  note : Option Text := none
  /-- What stands beside the underline. -/
  label : Option Text := none

namespace Problem

/-- The code of a problem. -/
def code (p : Problem) : Text := p.ownCode.getD p.category.code

/-- The message of a problem: the reason, after the path of the field if there is one. -/
def message (p : Problem) : Text := if p.path = [] then p.reason else p.path ++ ": " ++ p.reason

/-- Whether the problem is a fault of the source program. -/
def inSource (p : Problem) : Bool := p.category != .general && p.category != .schema

/-- The remark on a tree that is not valid. -/
def schemaNote : Text := "this is a bug in the tail call rewrite, not in the input program"

/-- The diagnostic of a problem. -/
def toDiagnostic (p : Problem) : Diagnostic :=
  let plain : Diagnostic := { message := p.message, location := p.location, code := some p.code }
  if p.inSource then { plain with help := p.help, note := p.note, label := p.label }
  else if p.category = .schema then { plain with note := some schemaNote }
  else plain

/-- The text of a problem. A fault of the source is shown as its diagnostic, with a snippet when
the problem knows the source text. -/
def text (color : Bool) (p : Problem) : Text :=
  if p.inSource then
    let sources : List (Text × Text) :=
      match p.source, p.location with
      | some source, some l => if source.isEmpty then [] else [(l.file, source)]
      | _, _ => []
    p.toDiagnostic.render sources color
  else
    match p.location with
    | some l => "error[" ++ p.code ++ "]: " ++ p.message ++ "\n --> " ++ l.text
    | none => p.message

end Problem

/-- A state that the optimizer never comes to by itself. -/
structure InternalError where
  /-- What is wrong. -/
  message : Text
  /-- The code of the error. -/
  code : Text := "E9999"

/-- The text of an internal error. -/
def InternalError.text (e : InternalError) : Text := "[" ++ e.code ++ "] " ++ e.message

end TailLoop
