import TailLoop.Problem
import TailLoop.Tree.Names
import TailLoop.Tree.Pattern

/-!
# Scopes of tail call elimination

What elimination knows about the function body it is in: the name under which the function can call
itself, its parameters and the temporaries that can stage them, the variables to declare at the top,
and whether a tail call was found. A scope takes nothing from the scopes around it.
-/

namespace TailLoop.Elimination

/-- The names that generated code uses. -/
structure Naming where
  /-- What the name of a temporary starts with; the name of the parameter follows. -/
  temporary : Text := "_tco_temp_"
  /-- The label of the loop around a body. -/
  loop : Text := "_tailCall_"

/-- Whether a program may not declare a name, because generated code may use it. -/
def Naming.reserves (n : Naming) (name : Text) : Bool :=
  name.startsWith n.temporary || name == n.loop

/-- Why a tree is refused. -/
inductive Refusal where
  /-- A declaration uses a reserved name. -/
  | reservedName (naming : Naming) (name : Text) (location : Option Location)
  /-- A tail call passes more arguments than the function has parameters. -/
  | tooManyArguments (function : Text) (passed declared : Nat) (location : Option Location)
  /-- A sequence whose last expression is to be returned has none. -/
  | emptySequence
  /-- A field does not hold what its node needs. -/
  | malformed (fault : Fault)

namespace Refusal

/-- The words for an empty sequence whose last expression is to be returned. -/
def emptySequenceMessage : Text := "not enough values to unpack (expected at least 1, got 0)"

/-- A function name in a message. -/
def tick (name : Text) : Text := "`" ++ name ++ "`"

/-- The problem that a refusal is. -/
def problem? : Refusal → Option Problem
  | .reservedName naming name location =>
    some
      { category := .reservedName
        reason := "'" ++ name ++ "' is reserved for generated code"
        location
        help := some ("rename it; identifiers starting with '" ++ naming.temporary ++
          "' and the label '" ++ naming.loop ++ "' are used by the tail call rewrite") }
  | .tooManyArguments function passed declared location =>
    some
      { category := .arity
        reason := "tail call to " ++ tick function ++ " passes " ++
          Text.counted passed "argument" ++ ", but " ++ tick function ++ " declares " ++
          Text.counted declared "parameter"
        location
        help := some "remove the extra arguments"
        label := some "self-call in tail position" }
  | .emptySequence => none
  | .malformed _ => none

end Refusal

/-- A fault during elimination. -/
def refuseFault {α : Type} (e : Except Fault α) : Except Refusal α := e.mapError .malformed

/-- What is known about a function body. -/
structure Scope where
  /-- The name by which the body can call its own function. -/
  name : Option Text := none
  /-- The parameters. -/
  params : List Text := []
  /-- The temporaries that can stage the parameters, in the same order. -/
  temporaries : List Text := []
  /-- The temporaries in use, in the order of first use. -/
  used : List Text := []
  /-- The variables to declare at the top, in the order of first declaration. -/
  locals : List Text := []
  /-- Whether a tail call was found. -/
  isTailRecursive : Bool := false
  /-- Whether the body starts with the directive that makes it strict. -/
  startsStrict : Bool := false
  /-- The directive, once it is taken out of the body. -/
  directive : Option Tree := none

namespace Scope

/-- Adds a variable, unless it is a parameter or already there. -/
def addLocal (s : Scope) (name : Text) : Scope :=
  if s.params.contains name || s.locals.contains name then s
  else { s with locals := s.locals ++ [name] }

/-- Adds a temporary to those in use, unless it is already there. -/
def use (s : Scope) (name : Text) : Scope :=
  if s.used.contains name then s else { s with used := s.used ++ [name] }

/-- Puts the temporary at an index to use, and gives its name. -/
def useTemporary? (s : Scope) (index : Int) : Option (Text × Scope) :=
  (Tree.position? s.temporaries.length index).bind fun i =>
    s.temporaries[i]?.map fun name => (name, s.use name)

/-- Notes that a tail call was found. -/
def markTailRecursive (s : Scope) : Scope := { s with isTailRecursive := true }

end Scope

/-- The name that a program declares at a node, which has to be a text. -/
def nameOf (t : Tree) : Except Refusal Text :=
  match t.name? with
  | some (.text name) => .ok name
  | _ => .error (.malformed .noField)

/-- Refuses a reserved name. -/
def checkName (n : Naming) (name : Text) (location : Option Location) : Except Refusal Unit :=
  if n.reserves name then .error (.reservedName n name location) else .ok ()

/-- The name that a program declares at a node, unless it is reserved. -/
def declaredName (n : Naming) (t : Tree) : Except Refusal Text := do
  let name ← nameOf t
  checkName n name t.location?
  return name

/-- The names of a row of parameters, unless one is reserved. All of them have to carry a name
before any is looked at. -/
def parameterNames (n : Naming) (params : Tree) : Except Refusal (List Text) := do
  let items ← refuseFault params.items
  let _ ← refuseFault (items.mapM Tree.name)
  items.mapM (declaredName n)

/-- The name of a function, unless it has none or it is reserved. -/
def functionName? (n : Naming) (id : Tree) : Except Refusal (Option Text) :=
  if id.isNull then .ok none else (declaredName n id).map some

/-- The name by which a body can call its own function. A parameter or declaration of that name
hides the function, so that calls of the name are not its own. -/
def ownName? (params : List Text) (body : Tree) : Option Text → Except Fault (Option Text)
  | none => .ok none
  | some name =>
    if params.contains name then .ok none
    else do
      let declared ← body.declaredNames
      return if declared.contains name then none else some name

/-- The scope of a function. -/
def Scope.ofFunction (n : Naming) (id params body : Tree) : Except Refusal Scope := do
  let names ← parameterNames n params
  let name ← functionName? n id
  let own ← refuseFault (ownName? names body name)
  let statements ← refuseFault (body.field "body")
  let startsStrict ← refuseFault statements.startsStrict
  return {
    name := own
    params := names
    temporaries := names.map (n.temporary ++ ·)
    startsStrict }

end TailLoop.Elimination
