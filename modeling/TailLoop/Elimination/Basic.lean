import TailLoop.Elimination.Scope
import TailLoop.Operator
import TailLoop.Tree.Build

/-!
# Tail call elimination

A function that returns a call of itself becomes a loop: the call turns into assignments to the
parameters and a jump to the top of a labeled `while (true)` around the body. On the way, the
variables of every function are declared once at its top, so that their declarations become
assignments, and `return a ? b : c` becomes an `if` of two returns, so that each of them can be
converted. The directive that makes a body strict stays its first statement.

`walk` goes through a tree once. What it does to a tree depends on where the tree stands: inside
something else, as the value of a `return`, as a branch of such a value, or as the body of a
function.
-/

namespace TailLoop

namespace Elimination

/-- What was done to a tree. -/
structure Stats where
  /-- The functions that became loops, in the order in which they were finished. -/
  functions : List Text := []
  /-- How many tail calls were converted. -/
  calls : Nat := 0
  /-- How many returned conditionals were split. -/
  ternaries : Nat := 0
  /-- How many declared variables became assignments. -/
  vars : Nat := 0

/-- What is threaded through a walk: the scope of the current function, and what was done so far. -/
structure State where
  /-- The scope of the current function. -/
  scope : Scope := {}
  /-- What was done so far. -/
  stats : Stats := {}

/-- A step of the walk. -/
abbrev Walk := StateT State (Except Refusal)

/-- Changes the current scope. -/
def modifyScope (f : Scope → Scope) : Walk Unit := modify fun s => { s with scope := f s.scope }

/-- Changes the record of what was done. -/
def modifyStats (f : Stats → Stats) : Walk Unit := modify fun s => { s with stats := f s.stats }

/-- A step that may be refused. -/
def attempt {α : Type} (e : Except Fault α) : Walk α := (refuseFault e : Except Refusal α)

/-- Declares a variable of the current scope at a node, unless its name is reserved. -/
def declareLocal (n : Naming) (id : Tree) : Walk Unit := do
  let name ← declaredName n id
  modifyScope (·.addLocal name)

/-- Where a tree stands. -/
inductive Position where
  /-- Inside something else. -/
  | inside
  /-- As the value of a `return` that has this location. -/
  | returned (location : Option Location)
  /-- As a branch of the value of a `return`. -/
  | branch
  /-- As the body of the function whose scope is the current one. -/
  | functionBody

/-- Whether a tree stands as the body of a function. -/
def Position.isBody : Position → Bool
  | .functionBody => true
  | _ => false

/-- What a block holds: that of the inner block if it holds nothing but another block. -/
def unwrapBlock (body : Tree) : Except Fault Tree := do
  if (← body.length) = 1 then
    match ← body.item 0 with
    | .node _ (.block inner) => return inner
    | _ => return body
  else return body

/-- A walked tree at its position: a returned value is put back into its `return`. -/
def Position.restore (p : Position) (location : Option Location) (t : Tree) : Tree :=
  match p with
  | .inside => t
  | .returned outer => .node outer (.returnStatement t)
  | .branch => .node location (.returnStatement t)
  | .functionBody => t

/-- The location of the `return` that a value stands in, if it stands in one. -/
def Position.returnLocation? (p : Position) (location : Option Location) :
    Option (Option Location) :=
  match p with
  | .inside => none
  | .returned outer => some outer
  | .branch => some location
  | .functionBody => none

/-- Refuses what cannot be a branch of a returned value: it has to be a node, and a sequence has to
have a last expression and consist of nodes. -/
def checkBranch : Tree → Except Refusal Unit
  | .node _ (.sequence expressions) => do
    let items ← refuseFault expressions.items
    if items.isEmpty then throw .emptySequence
    else if items.all Tree.isNode then return ()
    else throw (.malformed .noField)
  | .node .. => .ok ()
  | _ => .error (.malformed .noField)

/-- The statements without those at the start that only set fresh variables to the undefined
value. -/
def dropResets (locals : List Text) : List Tree → Except Fault (List Tree)
  | [] => .ok []
  | t :: rest => do
    if ← t.isResetStatement locals then dropResets locals rest else return t :: rest

/-- Whether a tree is the identifier of a name. -/
def isIdentifier (name : Text) (t : Tree) : Bool := t.identifierName? == some name

/-- Whether an expression reads no variable: a literal or the undefined value. -/
def isConstant (t : Tree) : Bool := t.hasKind .literal || isIdentifier Tree.undefinedName t

/-- A parameter that a tail call changes: its position, its name and its new value. -/
structure Change where
  /-- The position of the parameter. -/
  index : Nat
  /-- Its name. -/
  param : Text
  /-- Its new value. -/
  value : Tree

/-- The parameters that a call with these arguments changes. A missing argument is the undefined
value, and an argument that is its own parameter changes nothing. -/
def changes (params : List Text) (arguments : List Tree) : List Change :=
  (params.mapIdx fun index param => ⟨index, param, arguments[index]?.getD .undefined⟩).filter
    fun c => !isIdentifier c.param c.value

/-- Whether the new values have to be staged in temporaries: one that reads a variable comes before
the last. -/
def needsTemporaries (cs : List Change) : Bool :=
  1 < cs.length && !cs.dropLast.all fun c => isConstant c.value

/-- The assignments that stage all new values before any parameter changes. -/
def stagedAssignments (temporaries : List Text) (cs : List Change) : List Tree :=
  Tree.assignAll temporaries (cs.map (·.value)) ++
    Tree.assignAll (cs.map (·.param)) (temporaries.map .identifier)

/-- The changes with the last one first: the others are constants, which it cannot disturb. -/
def lastFirst (cs : List Change) : List Change := cs.getLast?.toList ++ cs.dropLast

/-- The assignments that change the parameters without temporaries. -/
def directAssignments (cs : List Change) : List Tree :=
  Tree.assignAll ((lastFirst cs).map (·.param)) ((lastFirst cs).map (·.value))

/-- The temporaries of the changed parameters, in order. -/
def temporariesOf (s : Scope) (cs : List Change) : List Text :=
  cs.map fun c => s.temporaries[c.index]?.getD []

/-- The statements that take the place of a tail call with walked arguments. -/
def convertCall (n : Naming) (location call : Option Location) (arguments : List Tree) :
    Walk Tree := do
  let s := (← get).scope
  if s.params.length < arguments.length then
    throw (.tooManyArguments (s.name.getD []) arguments.length s.params.length call)
  let cs := changes s.params arguments
  let temporaries := if needsTemporaries cs then temporariesOf s cs else []
  modifyScope fun s => temporaries.foldl Scope.use s.markTailRecursive
  modifyStats fun t => { t with calls := t.calls + 1 }
  let assignments :=
    if needsTemporaries cs then stagedAssignments temporaries cs else directAssignments cs
  let jump := Tree.new (.jump .continues (.identifier n.loop))
  return .node location (.block (.tuple (assignments ++ [jump])))

/-- The statements of a body with a `return` at the end. -/
def endWithReturn (statements : List Tree) : List Tree :=
  if statements.getLast?.any (·.hasKind .returnStatement) then statements
  else statements ++ [Tree.new (.returnStatement .null)]

/-- The loop around a body: each pass starts with fresh variables, as a call would. -/
def loopAround (n : Naming) (locals : List Text) (statements : List Tree) : Tree :=
  let body := endWithReturn (Tree.assignAll locals [] ++ statements)
  Tree.new (.labeled (.identifier n.loop)
    (Tree.new (.whileStatement (Tree.new (.literal (.bool true))) (.block body))))

/-- The statements of a finished body: the directive, the declaration of its variables, and its
statements, in a loop if a tail call was found. -/
def finishBody (n : Naming) (s : Scope) (statements : List Tree) : Except Fault (List Tree) := do
  let rest ←
    if s.isTailRecursive then
      pure (Tree.declareEach s.used [] ++ [loopAround n s.locals statements])
    else dropResets s.locals statements
  return s.directive.toList ++ Tree.declareAll s.locals ++ rest

/-- Runs a walk in a scope of its own, and gives its result with the scope at the end. -/
def inScope {α : Type} (scope : Scope) (act : Walk α) : Walk (α × Scope) := do
  let outer := (← get).scope
  modifyScope fun _ => scope
  let result ← act
  let inner := (← get).scope
  modifyScope fun _ => outer
  return (result, inner)

/-- The expression of a statement that was a declaration, as the start of a loop needs it. -/
def loopStart : Tree → Tree
  | .node _ (.expressionStatement expression) => expression
  | t => t

/-- The declared identifier in the head of a loop over a collection: that of the first
declarator. -/
def loopVariable (declarations : Tree) : Except Fault Tree := do
  (← declarations.item 0).field "id"

/-- The target of a loop over a collection that is a declaration: its identifier, whose name becomes
a variable of the current scope. -/
def declareLoopVariable (n : Naming) : Tree → Walk Tree
  | .node _ (.variableDeclaration declarations _) => do
    let id ← attempt (loopVariable declarations)
    declareLocal n id
    modifyStats fun t => { t with vars := t.vars + 1 }
    return id
  | t => return t

mutual

/-- A tree after elimination. -/
def walk (n : Naming) : Position → Tree → Walk Tree
  | p, .tuple items => do
    let items ← walkItems n items
    return p.restore none (.tuple items)
  | p, .node l (.program body) => do
    let startsStrict ← attempt body.startsStrict
    let (body, s) ← inScope { startsStrict } (walkStart n body)
    let statements ← attempt (body.items >>= finishBody n s)
    return p.restore l (.node l (.program (.tuple statements)))
  | p, .node l (.function form id params body) => do
    let scope ← Scope.ofFunction n id params body
    let (body, s) ← inScope scope (walk n .functionBody body)
    let statements ← attempt (body.field "body" >>= Tree.items)
    let statements ← attempt (finishBody n s statements)
    if s.isTailRecursive then
      modifyStats fun t => { t with functions := t.functions ++ s.name.toList }
    return p.restore l (.node l (.function form id params (body.withBody (.tuple statements))))
  | p, .node l (.returnStatement argument) => do
    let statement ← walk n (.returned l) argument
    return p.restore l statement
  | p, .node l (.call callee arguments) => do
    let own := (← get).scope.name.any fun name => isIdentifier name callee
    match own, p.returnLocation? l with
    | true, some location =>
      let arguments ← walkArguments n arguments
      convertCall n location l arguments
    | _, _ =>
      let callee ← walk n .inside callee
      let arguments ← walk n .inside arguments
      return p.restore l (.node l (.call callee arguments))
  | p, .node l (.conditional test consequent alternate) => do
    match p.returnLocation? l with
    | some location =>
      modifyStats fun t => { t with ternaries := t.ternaries + 1 }
      checkBranch consequent
      checkBranch alternate
      let test ← walk n .inside test
      let consequent ← walk n .branch consequent
      let alternate ← walk n .branch alternate
      return .node location (.ifStatement test consequent alternate)
    | none =>
      let test ← walk n .inside test
      let consequent ← walk n .inside consequent
      let alternate ← walk n .inside alternate
      return .node l (.conditional test consequent alternate)
  | .branch, .node _ (.sequence expressions) => do
    let statements ← walkBranch n expressions
    let body ← attempt (unwrapBlock (.tuple statements))
    return Tree.new (.block body)
  | p, .node l (.block body) => do
    let body ← if p.isBody then walkStart n body else walk n .inside body
    let body ← attempt (unwrapBlock body)
    return p.restore l (.node l (.block body))
  | p, .node l (.variableDeclaration declarations _) => do
    let assignments ← walkDeclarators n declarations
    modifyStats fun t => { t with vars := t.vars + assignments.length }
    return p.restore l
      (.node l (.expressionStatement (Tree.new (.sequence (.tuple assignments)))))
  | p, .node l (.forStatement init test step body) => do
    let init ← walk n .inside init
    let test ← walk n .inside test
    let step ← walk n .inside step
    let body ← if p.isBody then walkStart n body else walk n .inside body
    return p.restore l (.node l (.forStatement (loopStart init) test step body))
  | p, .node l (.forEach domain left right body) => do
    let left ←
      if left.hasKind .variableDeclaration then declareLoopVariable n left
      else walk n .inside left
    let right ← walk n .inside right
    let body ← if p.isBody then walkStart n body else walk n .inside body
    return p.restore l (.node l (.forEach domain left right body))
  | p, .node l (.whileStatement test body) => do
    let test ← walk n .inside test
    let body ← if p.isBody then walkStart n body else walk n .inside body
    return p.restore l (.node l (.whileStatement test body))
  | p, .node l (.doWhileStatement body test) => do
    let body ← if p.isBody then walkStart n body else walk n .inside body
    let test ← walk n .inside test
    return p.restore l (.node l (.doWhileStatement body test))
  | p, .node l (.labeled label body) => do
    let _ ← declaredName n label
    let label ← walk n .inside label
    let body ← if p.isBody then walkStart n body else walk n .inside body
    return p.restore l (.node l (.labeled label body))
  | p, .node l shape => do
    let shape ← walkShape n shape
    return p.restore l (.node l shape)
  | p, t => return p.restore none t

/-- The trees of a row, where a block gives its statements. -/
def walkItems (n : Naming) : List Tree → Walk (List Tree)
  | [] => return []
  | t :: rest => do
    let walked ← walk n .inside t
    let first ← attempt walked.spliced
    let more ← walkItems n rest
    return first ++ more

/-- The statements at the start of a function or program. A directive that comes first is taken out
and noted in the scope. Anything but a row is kept. -/
def walkStart (n : Naming) : Tree → Walk Tree
  | .tuple [] => return .tuple []
  | .tuple (t :: rest) => do
    if t.isStrictDirective then
      modifyScope fun s => { s with directive := some t }
      let statements ← walkItems n rest
      return .tuple statements
    else
      let walked ← walk n .inside t
      let first ← attempt walked.spliced
      let more ← walkItems n rest
      return .tuple (first ++ more)
  | t => return t

/-- The arguments of a tail call. -/
def walkArguments (n : Naming) : Tree → Walk (List Tree)
  | .tuple items => walkEach n items
  | .list items => walkEach n items
  | t => attempt t.items

/-- Trees one by one. -/
def walkEach (n : Naming) : List Tree → Walk (List Tree)
  | [] => return []
  | t :: rest => do
    let walked ← walk n .inside t
    let more ← walkEach n rest
    return walked :: more

/-- The statements for a sequence that is a branch of a returned value. -/
def walkBranch (n : Naming) : Tree → Walk (List Tree)
  | .tuple items => walkBranchItems n items
  | .list items => walkBranchItems n items
  | t => attempt t.items

/-- The statements for the expressions of a sequence that is a branch of a returned value: the last
one is returned, and the others become statements. -/
def walkBranchItems (n : Naming) : List Tree → Walk (List Tree)
  | [] => return []
  | [t] => do
    let statement ← walk n (.returned t.location?) t
    attempt statement.spliced
  | t :: rest => do
    let walked ← walk n .inside t
    let more ← walkBranchItems n rest
    return .node t.location? (.expressionStatement walked) :: more

/-- The declarators of a declaration as assignments. -/
def walkDeclarators (n : Naming) : Tree → Walk (List Tree)
  | .tuple items => walkDeclaratorItems n items
  | .list items => walkDeclaratorItems n items
  | t => do
    match ← attempt t.items with
    | [] => return []
    | _ :: _ => throw (.malformed .noField)

/-- Declarators as assignments of their initial values, or of the undefined value. A function has a
name to declare, but no initial value. -/
def walkDeclaratorItems (n : Naming) : List Tree → Walk (List Tree)
  | [] => return []
  | .node l (.variableDeclarator id init) :: rest => do
    declareLocal n id
    let value ← if init.isNull then pure .undefined else walk n .inside init
    let more ← walkDeclaratorItems n rest
    return .node l (.assignment (.text plainAssignment) id value) :: more
  | .node _ (.function _ id _ _) :: _ => do
    let _ ← declaredName n id
    throw (.malformed .noField)
  | _ :: _ => throw (.malformed .noField)

/-- The fields of a node, one after the other. -/
def walkShape (n : Naming) : Shape Tree → Walk (Shape Tree)
  | .program body => return .program (← walk n .inside body)
  | .function form id params body =>
    return .function form (← walk n .inside id) (← walk n .inside params) (← walk n .inside body)
  | .returnStatement argument => return .returnStatement (← walk n .inside argument)
  | .block body => return .block (← walk n .inside body)
  | .variableDeclaration declarations kind =>
    return .variableDeclaration (← walk n .inside declarations) (← walk n .inside kind)
  | .variableDeclarator id init =>
    return .variableDeclarator (← walk n .inside id) (← walk n .inside init)
  | .ifStatement test consequent alternate =>
    return .ifStatement (← walk n .inside test) (← walk n .inside consequent)
      (← walk n .inside alternate)
  | .forStatement init test step body =>
    return .forStatement (← walk n .inside init) (← walk n .inside test) (← walk n .inside step)
      (← walk n .inside body)
  | .forEach domain left right body =>
    return .forEach domain (← walk n .inside left) (← walk n .inside right) (← walk n .inside body)
  | .whileStatement test body =>
    return .whileStatement (← walk n .inside test) (← walk n .inside body)
  | .doWhileStatement body test =>
    return .doWhileStatement (← walk n .inside body) (← walk n .inside test)
  | .expressionStatement expression => return .expressionStatement (← walk n .inside expression)
  | .emptyStatement => return .emptyStatement
  | .jump kind label => return .jump kind (← walk n .inside label)
  | .labeled label body => return .labeled (← walk n .inside label) (← walk n .inside body)
  | .identifier name => return .identifier (← walk n .inside name)
  | .literal value => return .literal (← walk n .inside value)
  | .array elements => return .array (← walk n .inside elements)
  | .call callee arguments =>
    return .call (← walk n .inside callee) (← walk n .inside arguments)
  | .member object property computed =>
    return .member (← walk n .inside object) (← walk n .inside property)
      (← walk n .inside computed)
  | .conditional test consequent alternate =>
    return .conditional (← walk n .inside test) (← walk n .inside consequent)
      (← walk n .inside alternate)
  | .assignment operator left right =>
    return .assignment (← walk n .inside operator) (← walk n .inside left)
      (← walk n .inside right)
  | .sequence expressions => return .sequence (← walk n .inside expressions)
  | .binary operator left right =>
    return .binary (← walk n .inside operator) (← walk n .inside left) (← walk n .inside right)
  | .logical operator left right =>
    return .logical (← walk n .inside operator) (← walk n .inside left) (← walk n .inside right)
  | .unary operator argument isPrefix =>
    return .unary (← walk n .inside operator) (← walk n .inside argument)
      (← walk n .inside isPrefix)
  | .update operator argument isPrefix =>
    return .update (← walk n .inside operator) (← walk n .inside argument)
      (← walk n .inside isPrefix)
  | .generic kind children => return .generic kind (Tree.lastByName (← walkEntries n children))

/-- Named children, one after the other. -/
def walkEntries (n : Naming) : List (Text × Tree) → Walk (List (Text × Tree))
  | [] => return []
  | (name, t) :: rest => do
    let walked ← walk n .inside t
    let more ← walkEntries n rest
    return (name, walked) :: more

end

/-- The tree after elimination, and what was done in addition to `stats`. -/
def run (n : Naming) (stats : Stats) (t : Tree) : Except Refusal (Tree × Stats) :=
  (walk n .inside t { stats }).map fun (t, s) => (t, s.stats)

end Elimination

/-- The tree with its tail calls of the own function turned into loops, and what was done. -/
def Tree.eliminateTailCalls (naming : Elimination.Naming) (t : Tree) :
    Except Elimination.Refusal (Tree × Elimination.Stats) :=
  Elimination.run naming {} t

end TailLoop
