import TailLoop.Operator
import TailLoop.Problem
import TailLoop.Tree.Build
import TailLoop.Tree.Key

/-!
# Valid trees

A tree is valid when printing it gives a program: every field holds a kind of node that is allowed
there, operators are known, declarations and sequences are not empty, targets can be assigned to,
and every jump has a target in its own function. The check goes through the tree from the root and
reports the first violation with the path of the field. It gives the number of nodes it has seen.
-/

namespace TailLoop

/-- What is wrong with a field of a tree. -/
inductive Violation where
  /-- The whole tree is not a node. -/
  | notNode (found : Text)
  /-- There is no rule for this kind of node. -/
  | unknownKind (kind : Text)
  /-- A required field is absent. -/
  | missing (what : Text)
  /-- A field holds something of the wrong kind. -/
  | unexpected (what found : Text)
  /-- A field that holds several nodes is not a row. -/
  | notRow (what found : Text)
  /-- A row that needs an item has none. -/
  | emptyRow (what : Text)
  /-- An operator is not in its table. -/
  | unknownOperator (shown : Text)
  /-- The target of an assignment, an update or a loop is neither a name nor a member. -/
  | notAssignable (found : Text)
  /-- The declaration in the head of a loop over a collection is not one bare name. -/
  | loopDeclaration
  /-- A declaration is of another kind than `var`. -/
  | declarationKind (shown : Text)
  /-- A jump without a label is not inside a loop. -/
  | outsideLoop (kind : JumpKind)
  /-- A `continue` names a label that is not on a loop. -/
  | notLoopLabel (name : Text)
  /-- A jump names a label that does not enclose it. -/
  | undefinedLabel (name : Text)
  /-- A label is declared inside a statement of the same label. -/
  | duplicateLabel (name : Text)
  /-- An identifier is not spelled like a name. -/
  | identifierName (shown : Text)
  /-- A literal is no text, number, flag or null. -/
  | literalValue (found : Text)
deriving DecidableEq

namespace Violation

/-- The word for a jump. -/
def jumpWord : JumpKind → Text
  | .breaks => "break"
  | .continues => "continue"

/-- A violation in words. -/
def reason : Violation → Text
  | .notNode found => "expected a syntax node, found " ++ found
  | .unknownKind kind => "unknown node kind " ++ kind
  | .missing what => "missing " ++ what
  | .unexpected what found => "expected " ++ what ++ ", found " ++ found
  | .notRow what found => "expected a tuple of " ++ what ++ ", found " ++ found
  | .emptyRow what => "expected at least one " ++ what
  | .unknownOperator shown => "unknown operator " ++ shown
  | .notAssignable found => "invalid assignment target " ++ found
  | .loopDeclaration => "loop variable declaration must declare one name without initializer"
  | .declarationKind shown => "unsupported declaration kind " ++ shown
  | .outsideLoop kind => jumpWord kind ++ " outside of a loop"
  | .notLoopLabel name => "continue target '" ++ name ++ "' does not label a loop"
  | .undefinedLabel name => "undefined label '" ++ name ++ "'"
  | .duplicateLabel name => "label '" ++ name ++ "' is already declared"
  | .identifierName shown => "invalid identifier name " ++ shown
  | .literalValue found => "invalid literal value of type " ++ found

end Violation

/-- Why a tree is not accepted. -/
inductive CheckError where
  /-- A field violates a rule; the path leads to it from the root. -/
  | invalid (violation : Violation) (path : List Tree.Step) (location : Option Location)
  /-- A value cannot be checked at all. -/
  | malformed (fault : Fault)

namespace Validity

/-- A path as text: field names with dots between them, positions in brackets. -/
def pathText : List Tree.Step → Text
  | [] => []
  | .field name :: rest =>
    name ++ (match rest with
      | .field _ :: _ => Text.ofString "."
      | _ => []) ++ pathText rest
  | .item index :: rest =>
    "[" ++ Text.ofInt index ++ "]" ++ (match rest with
      | .field _ :: _ => Text.ofString "."
      | _ => []) ++ pathText rest

/-- What may stand in a field, and the words for it. -/
structure Role where
  /-- The kinds of nodes that may stand there. -/
  accepts : Kind → Bool
  /-- The words for them. -/
  what : Text

namespace Role

def statement : Role := ⟨Kind.isStatement, "statement"⟩
def expression : Role := ⟨Kind.isExpression, "expression"⟩
def functionName : Role := ⟨(· == .identifier), "function name"⟩
def functionBody : Role := ⟨(· == .blockStatement), "function body block"⟩
def parameter : Role := ⟨(· == .identifier), "parameter identifier"⟩
def identifier : Role := ⟨(· == .identifier), "identifier"⟩
def label : Role := ⟨(· == .identifier), "label identifier"⟩
def property : Role := ⟨(· == .identifier), "property identifier"⟩
def declarator : Role := ⟨(· == .variableDeclarator), "declarator"⟩
def declaration : Role := ⟨(· == .variableDeclaration), "declaration"⟩
def loopStart : Role :=
  ⟨fun k => k == .variableDeclaration || k.isExpression, "declaration or expression"⟩

end Role

/-- What surrounds a node. -/
structure Context where
  /-- The way from the root, the last step first. -/
  path : List Tree.Step := []
  /-- The labels of the enclosing statements of the same function, the innermost first, and whether
  each is on a loop. -/
  labels : List (Text × Bool) := []
  /-- Whether a loop of the same function surrounds the node. -/
  inLoop : Bool := false

namespace Context

/-- The context of a field. -/
def field (c : Context) (name : Text) : Context := { c with path := .field name :: c.path }

/-- The context of an item of a field. -/
def item (c : Context) (name : Text) (index : Nat) : Context :=
  { c with path := .item index :: .field name :: c.path }

/-- The context inside a function, where labels and loops outside do not count. -/
def inFunction (c : Context) : Context := { c with labels := [], inLoop := false }

/-- The context inside a loop. -/
def inBody (c : Context) : Context := { c with inLoop := true }

/-- The context inside a labeled statement. -/
def labeled (c : Context) (name : Text) (onLoop : Bool) : Context :=
  { c with labels := (name, onLoop) :: c.labels }

end Context

/-- The outcome of a check: how many nodes were seen, or what is wrong. -/
abbrev Outcome := Except CheckError Nat

/-- The check of a node, which depends on what surrounds it. -/
abbrev Check := Context → Outcome

/-- The outcome of a violation at the place of a context. -/
def fail (c : Context) (location : Option Location) (v : Violation) : Outcome :=
  .error (.invalid v c.path.reverse location)

/-- The outcome of a node from those of its parts: the first failure, or the sum and one. -/
def counted : List Outcome → Outcome
  | [] => .ok 1
  | part :: rest => do
    let n ← part
    let m ← counted rest
    return n + m

/-- A field that needs a node of a role. -/
def required (c : Context) (location : Option Location) (name : Text) (role : Role) (value : Tree)
    (check : Check) : Outcome :=
  match value.kind? with
  | some kind =>
    if role.accepts kind then check (c.field name)
    else fail (c.field name) location (.unexpected role.what value.typeName)
  | none =>
    if value.isNull then fail (c.field name) location (.missing role.what)
    else fail (c.field name) location (.unexpected role.what value.typeName)

/-- A field that may be absent. -/
def optional (c : Context) (location : Option Location) (name : Text) (role : Role) (value : Tree)
    (check : Check) : Outcome :=
  if value.isNull then .ok 0 else required c location name role value check

/-- The items of a row from a position on. -/
def rowItems (c : Context) (location : Option Location) (name : Text) (role : Role) :
    Nat → List (Tree × Check) → Outcome
  | _, [] => .ok 0
  | index, (value, check) :: rest => do
    let n ← match value.kind? with
      | some kind =>
        if role.accepts kind then check (c.item name index)
        else fail (c.item name index) location (.unexpected role.what value.typeName)
      | none =>
        if value.isNull then fail (c.item name index) location (.missing role.what)
        else fail (c.item name index) location (.unexpected role.what value.typeName)
    let m ← rowItems c location name role (index + 1) rest
    return n + m

/-- A field that holds a row of nodes of a role. -/
def row (c : Context) (location : Option Location) (name : Text) (role : Role) (value : Tree)
    (checks : List (Tree × Check)) : Outcome :=
  match value with
  | .tuple _ => rowItems c location name role 0 checks
  | _ => fail (c.field name) location (.notRow role.what value.typeName)

/-- A field that holds a row of at least one node of a role. -/
def nonEmptyRow (c : Context) (location : Option Location) (name : Text) (role : Role)
    (value : Tree) (checks : List (Tree × Check)) : Outcome :=
  match value with
  | .tuple [] => fail (c.field name) location (.emptyRow role.what)
  | _ => row c location name role value checks

/-- The field of an operator, which has to be in a table. -/
def operator (c : Context) (location : Option Location) (table : List Text) (value : Tree) :
    Outcome :=
  match value with
  | .text t =>
    if table.contains t then .ok 0
    else fail (c.field "operator") location (.unknownOperator value.display)
  | _ =>
    if value.isFixed then
      fail (c.field "operator") location (.unknownOperator value.display)
    else .error (.malformed .wrongType)

/-- The field of a target, which has to be a name or a member. -/
def assignable (c : Context) (location : Option Location) (name : Text) (value : Tree) : Outcome :=
  if value.hasKind .identifier || value.hasKind .memberExpression then .ok 0
  else fail (c.field name) location (.notAssignable value.typeName)

/-- Whether the declarators in the head of a loop over a collection are one without initial
value. -/
def isBareDeclarator (declarations : Tree) : Except Fault Bool := do
  if (← declarations.length) = 1 then
    let init ← (← declarations.item 0).field "init"
    return init.isNull
  else return false

/-- The declarators in the head of a loop over a collection: one name without initial value. -/
def loopDeclarators (c : Context) (location : Option Location) (declarations : Tree) : Outcome :=
  match isBareDeclarator declarations with
  | .ok true => .ok 0
  | .ok false => fail (c.field "left") location .loopDeclaration
  | .error fault => .error (.malformed fault)

/-- The target of a loop over a collection. -/
def loopTarget (c : Context) (location : Option Location) (left : Tree) : Outcome :=
  match left with
  | .node _ (.variableDeclaration declarations _) => loopDeclarators c location declarations
  | _ => assignable c location "left" left

/-- The kind of a declaration. -/
def declarationKind (c : Context) (location : Option Location) (kind : Tree) : Outcome :=
  match kind with
  | .text t =>
    if t = Tree.varKind then .ok 0
    else fail (c.field "kind") location (.declarationKind kind.display)
  | _ => fail (c.field "kind") location (.declarationKind kind.display)

/-- The name of a label that has been checked. -/
def labelName (label : Tree) : Text := label.identifierName?.getD []

/-- A jump without label. -/
def bareJump (c : Context) (location : Option Location) (kind : JumpKind) : Outcome :=
  if c.inLoop then .ok 0 else fail c location (.outsideLoop kind)

/-- The target of a jump with a label. -/
def jumpTarget (c : Context) (location : Option Location) (kind : JumpKind) (name : Text) :
    Outcome :=
  match c.labels.lookup name with
  | none => fail (c.field "label") location (.undefinedLabel name)
  | some onLoop =>
    if kind = .breaks || onLoop then .ok 0
    else fail (c.field "label") location (.notLoopLabel name)

/-- A label, which may not be one of those around it. -/
def freshLabel (c : Context) (location : Option Location) (name : Text) : Outcome :=
  if (c.labels.lookup name).isSome then fail (c.field "label") location (.duplicateLabel name)
  else .ok 0

/-- Whether a text is a name, after which one line feed may follow. -/
def isNameLine (t : Text) : Bool :=
  Text.isName t || (t.getLast? == some Text.newline && Text.isName t.dropLast)

/-- The name of an identifier. -/
def identifierName (c : Context) (location : Option Location) (name : Tree) : Outcome :=
  match name with
  | .text t =>
    if isNameLine t then .ok 0
    else fail (c.field "name") location (.identifierName name.display)
  | _ => fail (c.field "name") location (.identifierName name.display)

/-- The value of a literal. -/
def literalValue (c : Context) (location : Option Location) (value : Tree) : Outcome :=
  match value with
  | .null | .bool _ | .int _ | .num _ | .text _ => .ok 0
  | _ => fail (c.field "value") location (.literalValue value.typeName)

/-- Whether a tree is a loop. -/
def isLoop (t : Tree) : Bool := t.kind?.any Kind.isLoop

mutual

/-- The check of a node with all nodes below it. -/
def visit : Tree → Check
  | .node l (.program body), c => counted [row c l "body" .statement body (visitRow body)]
  | .node l (.function .declaration id params body), c =>
    counted
      [required c l "id" .functionName id (visit id),
       row c.inFunction l "params" .parameter params (visitRow params),
       required c.inFunction l "body" .functionBody body (visit body)]
  | .node l (.function .expression id params body), c =>
    counted
      [optional c l "id" .functionName id (visit id),
       row c.inFunction l "params" .parameter params (visitRow params),
       required c.inFunction l "body" .functionBody body (visit body)]
  | .node l (.block body), c => counted [row c l "body" .statement body (visitRow body)]
  | .node l (.returnStatement argument), c =>
    counted [optional c l "argument" .expression argument (visit argument)]
  | .node l (.variableDeclaration declarations kind), c =>
    counted
      [declarationKind c l kind,
       nonEmptyRow c l "declarations" .declarator declarations (visitRow declarations)]
  | .node l (.variableDeclarator id init), c =>
    counted
      [required c l "id" .identifier id (visit id),
       optional c l "init" .expression init (visit init)]
  | .node l (.ifStatement test consequent alternate), c =>
    counted
      [required c l "test" .expression test (visit test),
       required c l "consequent" .statement consequent (visit consequent),
       optional c l "alternate" .statement alternate (visit alternate)]
  | .node l (.forStatement init test step body), c =>
    counted
      [optional c l "init" .loopStart init (visit init),
       optional c l "test" .expression test (visit test),
       optional c l "update" .expression step (visit step),
       required c.inBody l "body" .statement body (visit body)]
  | .node l (.forEach _ left right body), c =>
    counted
      [loopTarget c l left,
       required c l "left" .loopStart left (visit left),
       required c l "right" .expression right (visit right),
       required c.inBody l "body" .statement body (visit body)]
  | .node l (.whileStatement test body), c =>
    counted
      [required c l "test" .expression test (visit test),
       required c.inBody l "body" .statement body (visit body)]
  | .node l (.doWhileStatement body test), c =>
    counted
      [required c.inBody l "body" .statement body (visit body),
       required c l "test" .expression test (visit test)]
  | .node l (.expressionStatement expression), c =>
    counted [required c l "expression" .expression expression (visit expression)]
  | .node _ .emptyStatement, _ => counted []
  | .node l (.jump kind label), c =>
    if label.isNull then counted [bareJump c l kind]
    else
      counted
        [required c l "label" .label label (visit label), jumpTarget c l kind (labelName label)]
  | .node l (.labeled label body), c =>
    counted
      [required c l "label" .label label (visit label),
       freshLabel c l (labelName label),
       required (c.labeled (labelName label) (isLoop body)) l "body" .statement body (visit body)]
  | .node l (.identifier name), c => counted [identifierName c l name]
  | .node l (.literal value), c => counted [literalValue c l value]
  | .node l (.array elements), c =>
    counted [row c l "elements" .expression elements (visitRow elements)]
  | .node l (.call callee arguments), c =>
    counted
      [required c l "callee" .expression callee (visit callee),
       row c l "arguments" .expression arguments (visitRow arguments)]
  | .node l (.member object property computed), c =>
    counted
      [required c l "object" .expression object (visit object),
       required c l "property" (if computed.truthy then .expression else .property) property
         (visit property)]
  | .node l (.conditional test consequent alternate), c =>
    counted
      [required c l "test" .expression test (visit test),
       required c l "consequent" .expression consequent (visit consequent),
       required c l "alternate" .expression alternate (visit alternate)]
  | .node l (.assignment op left right), c =>
    counted
      [operator c l assignmentSpellings op,
       assignable c l "left" left,
       required c l "left" .expression left (visit left),
       required c l "right" .expression right (visit right)]
  | .node l (.sequence expressions), c =>
    counted [nonEmptyRow c l "expressions" .expression expressions (visitRow expressions)]
  | .node l (.binary op left right), c =>
    counted
      [operator c l (BinaryOperator.table.map (·.2.1)) op,
       required c l "left" .expression left (visit left),
       required c l "right" .expression right (visit right)]
  | .node l (.logical op left right), c =>
    counted
      [operator c l (LogicalOperator.table.map (·.2.1)) op,
       required c l "left" .expression left (visit left),
       required c l "right" .expression right (visit right)]
  | .node l (.unary op argument _), c =>
    counted
      [operator c l (UnaryOperator.table.map (·.2)) op,
       required c l "argument" .expression argument (visit argument)]
  | .node l (.update op argument _), c =>
    counted
      [operator c l (UpdateOperator.table.map (·.2)) op,
       assignable c l "argument" argument,
       required c l "argument" .expression argument (visit argument)]
  | .node l (.generic kind children), c =>
    fail c l (.unknownKind (Tree.node l (.generic kind children)).typeName)
  | t, c => fail c none (.notNode t.typeName)

/-- The items of a row with their checks. -/
def visitRow : Tree → List (Tree × Check)
  | .tuple items => visitItems items
  | _ => []

/-- Trees with their checks. -/
def visitItems : List Tree → List (Tree × Check)
  | [] => []
  | t :: rest => (t, visit t) :: visitItems rest

end

end Validity

/-- The number of nodes of a valid tree, or the first violation. -/
def Tree.validate (t : Tree) : Except CheckError Nat := Validity.visit t {}

/-- The problem that a violation is. -/
def CheckError.problem? : CheckError → Option Problem
  | .invalid violation path location =>
    some
      { category := .schema, reason := violation.reason, path := Validity.pathText path, location }
  | .malformed _ => none

end TailLoop
