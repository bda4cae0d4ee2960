import TailLoop.Interpreter.Native

/-!
# Evaluation of programs

Expressions, statements and calls. The functions take fuel: how deep they may still nest, and how
many passes a loop may still make. Calls that are under way are counted, and no more than `limit`
of them may be nested.

Blocks have no variables of their own: a function declares its variables and its inner functions
when it is entered. An assignment to a member evaluates the member's object and key when it stores
the value; where the member is read first, they are evaluated for that as well.
-/

namespace TailLoop.Eval

/-- The name that a node carries. -/
def nameOf (t : Tree) : Eval Tree := attempt t.name

/-- The key under which a name is bound. -/
def keyOf (name : Tree) : Eval Text := attempt name.key

/-- The name of the label of a jump, absent if it has none. -/
def labelOf (t : Tree) : Eval Tree := if t.isNull then return .null else nameOf t

/-- A new function with the given parts. It is strict if the code that runs is, or if its body
starts with the directive. -/
def makeFunction (env : Nat) (id params body : Tree) : Eval Value := do
  let statements ← attempt (body.field "body")
  let strict ← if (← get).strict then pure true else attempt statements.startsStrict
  Value.function <$> changeGet fun s => s.newClosure ⟨id, params, body, env, strict⟩

/-- Declares a variable, unless it is already declared there. -/
def declareVariable (env : Nat) (name : Tree) : Eval Unit := do
  let key ← keyOf name
  change fun s => if s.declares env key then s else s.declare env key .undefined

/-- Declares an inner function. -/
def declareFunction (env : Nat) (t : Tree) : Eval Unit := do
  match t with
  | .node _ (.function _ id params body) =>
    let name ← nameOf id
    let f ← makeFunction env id params body
    let key ← keyOf name
    change fun s => s.declare env key f
  | _ => return ()

/-- Declares the variables and the inner functions of a body. -/
def hoist (env : Nat) (body : Tree) : Eval Unit := do
  let found ← attempt body.hoisted
  found.names.forM (declareVariable env)
  found.functions.forM (declareFunction env)

/-- Declares parameters with the arguments at their positions. -/
def bindParameters (env : Nat) : List Tree → List Value → Eval Unit
  | [], _ => return ()
  | p :: rest, args => do
    let name ← nameOf p
    let key ← keyOf name
    change fun s => s.declare env key (args.head?.getD .undefined)
    bindParameters env rest args.tail

/-- The value of a name. -/
def readName (env : Nat) (name : Tree) (location : Option Location) : Eval Value := do
  let key ← keyOf name
  match (← get).store.lookup? env key with
  | some v => return v
  | none => fail (.notDefined name.inline location)

/-- Sets a name. A name that is not declared becomes a global variable, unless the code is
strict. -/
def writeName (env : Nat) (name : Tree) (location : Option Location) (v : Value) : Eval Unit := do
  let key ← keyOf name
  let isBound ← changeGet fun s => s.assign env key v
  if isBound then return ()
  else if (← get).strict then fail (.notDefined name.inline location)
  else change fun s => s.declare (s.root env) key v

/-- Whether an expression is a name without a value. -/
def isUnbound (env : Nat) (t : Tree) : Eval Bool := do
  match t with
  | .node _ (.identifier name) =>
    let key ← keyOf name
    return ((← get).store.resolve? env key).isNone
  | _ => return false

mutual

/-- The value of a tree that stands in a program as it is: a list is an array, and what has no
counterpart in the language is foreign to it. -/
def ofTree : Tree → Eval Value
  | .list items => do
    let vs ← ofTrees items
    newArray vs.toArray
  | t =>
    match Value.ofTree? t with
    | some v => return v
    | none => changeGet Store.newForeign

/-- The values of trees. -/
def ofTrees : List Tree → Eval (List Value)
  | [] => return []
  | t :: rest => do
    let v ← ofTree t
    let vs ← ofTrees rest
    return v :: vs

end

/-- The value of a literal. A literal that holds more than a plain value is the same value whenever
it is evaluated, as far as it has a place by which it is known. -/
def literalOf (location : Option Location) (value : Tree) : Eval Value :=
  match Value.ofTree? value, location with
  | some v, _ => return v
  | none, none => ofTree value
  | none, some l => do
    match (← get).store.constants.lookup l with
    | some v => return v
    | none =>
      let v ← ofTree value
      change fun s => { s with constants := (l, v) :: s.constants }
      return v

/-- The words for a callee in a message. -/
def describe : Tree → Text
  | .node _ (.identifier name) => name.inline
  | .node _ (.member object property computed) =>
    if computed.truthy then "expression"
    else describe object ++ "." ++ (property.name?.map Tree.inline).getD []
  | _ => "expression"

/-- Runs the body of a call: a `return` ends it with a value, and its end is an undefined value.
However it ends, one call less is under way afterwards, and the code is as strict as before. -/
def inCall (strict : Bool) (body : Eval Unit) : Eval Value := fun m =>
  match m with
  | ⟨store, depth, outer⟩ =>
    match body ⟨store, depth + 1, strict⟩ with
    | .ok _ m => .ok .undefined { m with depth := m.depth - 1, strict := outer }
    | .error (.returned v) m => .ok v { m with depth := m.depth - 1, strict := outer }
    | .error e m => .error e { m with depth := m.depth - 1, strict := outer }

/-- Whether a jump with this label is for a loop with these labels. -/
def concerns (labels : List Text) (label : Tree) : Except Fault Bool :=
  if label.isNull then .ok true else label.key.map labels.contains

/-- Runs one pass of a loop, and tells whether the loop goes on. -/
def pass (labels : List Text) (body : Eval Unit) : Eval Bool := fun m =>
  match body m with
  | .ok _ m => .ok true m
  | .error (.broke label) m =>
    match concerns labels label with
    | .ok true => .ok false m
    | .ok false => .error (.broke label) m
    | .error fault => .error (.failed (.malformed fault)) m
  | .error (.continued label) m =>
    match concerns labels label with
    | .ok true => .ok true m
    | .ok false => .error (.continued label) m
    | .error fault => .error (.failed (.malformed fault)) m
  | .error e m => .error e m

/-- Runs a labeled statement that is no loop: a `break` with its label ends it. -/
def labeled (labels : List Text) (body : Eval Unit) : Eval Unit := fun m =>
  match body m with
  | .error (.broke label) m =>
    match label.key.map labels.contains with
    | .ok true => .ok () m
    | .ok false => .error (.broke label) m
    | .error fault => .error (.failed (.malformed fault)) m
  | result => result

/-- Makes passes as long as the last one says so. -/
def repeating (step : Eval Bool) : (fuel : Nat) → Eval Unit
  | 0 => throw .exhausted
  | fuel + 1 => do
    if ← step then repeating step fuel else return ()

/-- Makes a pass for each item, as long as the last one says so. -/
def forEachItem (step : Value → Eval Bool) : List Value → Eval Unit
  | [] => return ()
  | v :: rest => do
    if ← step v then forEachItem step rest else return ()

/-- The identifier or member that a loop over a collection stores into. -/
def loopTarget (left : Tree) : Eval Tree :=
  match left with
  | .node _ (.variableDeclaration declarations _) =>
    attempt (declarations.item 0 >>= Tree.field "id")
  | t => return t

/-- The binary operator of a spelling. -/
def operatorOf (spelling : Tree) : Eval BinaryOperator := do
  match BinaryOperator.ofText? (← keyOf spelling) with
  | some op => return op
  | none => fail .unknownOperator

/-- The spelling of a compound assignment without its last character. -/
def withoutLast : Tree → Except Fault Tree
  | .text t => .ok (.text t.dropLast)
  | .tuple items => .ok (.tuple items.dropLast)
  | _ => .error .wrongType

/-- The binary operator in a compound assignment. -/
def compoundOf (spelling : Tree) : Eval BinaryOperator := do
  let operator ← attempt (withoutLast spelling)
  operatorOf operator

/-- The error at something that is no expression. -/
def refuseExpression {α : Type} (t : Tree) : Eval α :=
  if t.isNode then fail (.notExpression t.typeName t.location?) else fail (.malformed .noField)

/-- The error at something that is no statement. -/
def refuseStatement {α : Type} (t : Tree) : Eval α :=
  if t.isNode then fail (.notStatement t.typeName t.location?) else fail (.malformed .noField)

mutual

/-- The value of an expression. -/
def evaluate (limit : Nat) : (fuel : Nat) → (env : Nat) → Tree → Eval Value
  | 0, _, _ => throw .exhausted
  | fuel + 1, env, t =>
    match t with
    | .node l (.identifier name) => readName env name l
    | .node l (.literal value) => literalOf l value
    | .node _ (.array elements) => do
      let items ← (← attempt elements.items).mapM (evaluate limit fuel env)
      newArray items.toArray
    | .node _ (.function .expression id params body) => do
      if id.isNull then makeFunction env id params body
      else
        let own ← changeGet fun s => s.child env
        let f ← makeFunction own id params body
        let name ← nameOf id
        let key ← keyOf name
        change fun s => s.declare own key f
        return f
    | .node l (.call callee arguments) => do
      let f ← evaluate limit fuel env callee
      let args ← (← attempt arguments.items).mapM (evaluate limit fuel env)
      if f.isCallable then call limit fuel f args else fail (.notFunction (describe callee) l)
    | .node l (.member object property computed) => do
      let owner ← evaluate limit fuel env object
      let key ← propertyKey limit fuel env property computed
      getProperty l owner key
    | .node _ (.conditional test consequent alternate) => do
      if (← evaluate limit fuel env test).truthy then evaluate limit fuel env consequent
      else evaluate limit fuel env alternate
    | .node _ (.assignment operator left right) => do
      if operator.inline = plainAssignment then
        let v ← evaluate limit fuel env right
        assignTo limit fuel env left v
        return v
      else
        let current ← evaluate limit fuel env left
        let op ← compoundOf operator
        let operand ← evaluate limit fuel env right
        let v ← read fun s => s.operate op current operand
        assignTo limit fuel env left v
        return v
    | .node _ (.sequence expressions) => do
      (← attempt expressions.items).foldlM (fun _ e => evaluate limit fuel env e) .undefined
    | .node _ (.binary operator left right) => do
      let a ← evaluate limit fuel env left
      let b ← evaluate limit fuel env right
      let op ← operatorOf operator
      read fun s => s.operate op a b
    | .node _ (.logical operator left right) => do
      let a ← evaluate limit fuel env left
      let decides := if operator.inline = Text.ofString "&&" then !a.truthy else a.truthy
      if decides then return a else evaluate limit fuel env right
    | .node _ (.unary operator argument _) => do
      let op := UnaryOperator.ofText? operator.inline
      if op = some .typeOf && (← isUnbound env argument) then return .string "undefined"
      else
        let v ← evaluate limit fuel env argument
        read fun s => s.operateUnary op v
    | .node _ (.update operator argument isPrefix) => do
      let v ← evaluate limit fuel env argument
      let old ← numberOf v
      let new := if operator.inline = Text.ofString "++" then old.add .one else old.sub .one
      assignTo limit fuel env argument (.number new)
      return .number (if isPrefix.truthy then new else old)
    | t => refuseExpression t

/-- The key of a member: the value of an expression, or a name. -/
def propertyKey (limit : Nat) : (fuel : Nat) → (env : Nat) → (property computed : Tree) → Eval Value
  | 0, _, _, _ => throw .exhausted
  | fuel + 1, env, property, computed =>
    if computed.truthy then evaluate limit fuel env property
    else do
      let name ← nameOf property
      ofTree name

/-- Stores a value into a variable or member. -/
def assignTo (limit : Nat) : (fuel : Nat) → (env : Nat) → (target : Tree) → Value → Eval Unit
  | 0, _, _, _ => throw .exhausted
  | fuel + 1, env, target, v =>
    match target with
    | .node l (.identifier name) => writeName env name l v
    | .node l (.member object property computed) => do
      let owner ← evaluate limit fuel env object
      let key ← propertyKey limit fuel env property computed
      setProperty l owner key v
    | _ => fail (.malformed .noField)

/-- The result of a call. -/
def call (limit : Nat) : (fuel : Nat) → Value → List Value → Eval Value
  | 0, _, _ => throw .exhausted
  | fuel + 1, f, args =>
    match f with
    | .native n => callNative n.action args
    | .function ref => do
      let m ← get
      if limit ≤ m.depth then fail .stackOverflow
      match m.store.closures[ref]? with
      | none => fail (.malformed .noItem)
      | some c =>
        let env ← changeGet fun s => s.child c.environment
        bindParameters env (← attempt c.params.items) args
        let body ← attempt (c.body.field "body")
        hoist env body
        inCall c.strict do
          let statements ← attempt body.items
          statements.forM (execute limit fuel env)
    | v => do
      let t ← textOf v
      fail (.notFunction t none)

/-- Runs a statement. -/
def execute (limit : Nat) : (fuel : Nat) → (env : Nat) → Tree → Eval Unit
  | 0, _, _ => throw .exhausted
  | fuel + 1, env, t =>
    match t with
    | .node _ (.function .declaration ..) => return ()
    | .node _ .emptyStatement => return ()
    | .node _ (.block body) => do
      (← attempt body.items).forM (execute limit fuel env)
    | .node _ (.expressionStatement expression) => do
      let _ ← evaluate limit fuel env expression
    | .node _ (.variableDeclaration declarations _) => do
      (← attempt declarations.items).forM (startVariable limit fuel env)
    | .node _ (.ifStatement test consequent alternate) => do
      if (← evaluate limit fuel env test).truthy then execute limit fuel env consequent
      else if alternate.isNull then return ()
      else execute limit fuel env alternate
    | .node _ (.returnStatement argument) => do
      let v ← if argument.isNull then pure .undefined else evaluate limit fuel env argument
      throw (.returned v)
    | .node _ (.jump .breaks label) => do throw (.broke (← labelOf label))
    | .node _ (.jump .continues label) => do throw (.continued (← labelOf label))
    | .node _ (.labeled label body) => do
      let name ← nameOf label
      executeLabeled limit fuel env [← keyOf name] body
    | t => executeLoop limit fuel env [] t

/-- Runs the statement after some labels. -/
def executeLabeled (limit : Nat) : (fuel : Nat) → (env : Nat) → List Text → Tree → Eval Unit
  | 0, _, _, _ => throw .exhausted
  | fuel + 1, env, labels, t =>
    match t with
    | .node _ (.labeled label body) => do
      let name ← nameOf label
      executeLabeled limit fuel env (labels ++ [← keyOf name]) body
    | t =>
      if t.kind?.any Kind.isLoop then executeLoop limit fuel env labels t
      else labeled labels (execute limit fuel env t)

/-- Sets the variable of a declarator to its initial value, if it has one. -/
def startVariable (limit : Nat) : (fuel : Nat) → (env : Nat) → Tree → Eval Unit
  | 0, _, _ => throw .exhausted
  | fuel + 1, env, t => do
    let init ← attempt (t.field "init")
    if init.isNull then return ()
    else
      let id ← attempt (t.field "id")
      let v ← evaluate limit fuel env init
      let name ← nameOf id
      writeName env name id.location? v

/-- Runs a loop that has some labels. -/
def executeLoop (limit : Nat) : (fuel : Nat) → (env : Nat) → List Text → Tree → Eval Unit
  | 0, _, _, _ => throw .exhausted
  | fuel + 1, env, labels, t =>
    match t with
    | .node _ (.whileStatement test body) =>
      repeating
        (do
          if (← evaluate limit fuel env test).truthy then
            pass labels (execute limit fuel env body)
          else return false)
        fuel
    | .node _ (.doWhileStatement body test) =>
      repeating
        (do
          if ← pass labels (execute limit fuel env body) then
            return (← evaluate limit fuel env test).truthy
          else return false)
        fuel
    | .node _ (.forStatement init test step body) => do
      if init.hasKind .variableDeclaration then execute limit fuel env init
      else if !init.isNull then
        let _ ← evaluate limit fuel env init
      repeating
        (do
          let holds ←
            if test.isNull then pure true else Value.truthy <$> evaluate limit fuel env test
          if holds then
            if ← pass labels (execute limit fuel env body) then
              if !step.isNull then
                let _ ← evaluate limit fuel env step
              return true
            else return false
          else return false)
        fuel
    | .node _ (.forEach .keys left right body) => do
      let source ← evaluate limit fuel env right
      if source.isNullish then return ()
      else
        let keys ← keysOf source
        let target ← loopTarget left
        forEachItem
          (fun v => do
            assignTo limit fuel env target v
            pass labels (execute limit fuel env body))
          (keys.map .string)
    | .node _ (.forEach .values left right body) => do
      let source ← evaluate limit fuel env right
      let values ← valuesOf source
      let target ← loopTarget left
      forEachItem
        (fun v => do
          assignTo limit fuel env target v
          pass labels (execute limit fuel env body))
        values
    | t => refuseStatement t

end

end TailLoop.Eval
