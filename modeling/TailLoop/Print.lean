import TailLoop.Literal
import TailLoop.Operator
import TailLoop.Text.Letter
import TailLoop.Tree.Key

/-!
# Printing programs

The text of a tree as a program. An operand stands in parentheses exactly when it holds together
less tightly than its place requires. A statement is printed at a level of indentation: its first
line without, and the lines after it with the full indentation. An `if` that would take an `else`
meant for an outer one is put into braces.

An identifier is written as the name it holds. In most places a name that is no text is shown as in
messages; where texts are joined, it is a fault.
-/

namespace TailLoop

/-- Why a tree cannot be printed. -/
inductive PrintError where
  /-- There is no text for this kind of node. -/
  | notPrintable (kind : Text)
  /-- A binary or logical operator is not in the table. -/
  | unknownOperator
  /-- A statement stands in the place of an expression: its text, of this length, has no
  precedence. -/
  | noPrecedence (length : Nat)
  /-- A field does not hold what its node needs. -/
  | malformed (fault : Fault)
deriving DecidableEq

/-- The words for a statement in the place of an expression, by the length of its text. -/
def PrintError.noPrecedenceMessage (length : Nat) : Text :=
  if length < 2 then
    "not enough values to unpack (expected 2, got " ++ Text.ofNat length ++ ")"
  else "too many values to unpack (expected 2)"

/-- A fault while printing. -/
def Fault.whilePrinting {α : Type} (e : Except Fault α) : Except PrintError α :=
  e.mapError .malformed

namespace Print

/-- A text in parentheses. -/
def parenthesize (t : Text) : Text := "(" ++ t ++ ")"

/-- What is printed for a node. -/
inductive Printed where
  /-- The text of a statement. -/
  | statement (text : Text)
  /-- What is written for an expression, a text unless it is a bare name, and how tightly it holds
  together. -/
  | expression (written : Tree) (precedence : Precedence)

namespace Printed

/-- An expression with a text. -/
def ofText (t : Text) (precedence : Precedence) : Printed := .expression (.text t) precedence

/-- What is written for an expression at a place that requires a precedence. -/
def operand (required : Precedence) : Printed → Except PrintError Tree
  | .expression written precedence =>
    .ok (if precedence < required then .text (parenthesize written.inline) else written)
  | .statement t =>
    .error (if t.length = 2 then .malformed .wrongType else .noPrecedence t.length)

/-- The text of a statement on a line of its own. -/
def line : Printed → Except PrintError Text
  | .statement t => .ok t
  | .expression .. => .error (.malformed .wrongType)

/-- The text of a statement after a label. An expression there is shown with its precedence. -/
def afterLabel : Printed → Text
  | .statement t => t
  | .expression written precedence =>
    Tree.displayRow [written.display, Text.ofNat precedence]

end Printed

/-- What is written, where it has to be a text. -/
def textOf : Tree → Except PrintError Text
  | .text t => .ok t
  | _ => .error (.malformed .wrongType)

/-- The parts, which have to be texts, with commas between them. -/
def commaList (parts : List Tree) : Except PrintError Text :=
  (parts.mapM textOf).map (Text.join ", ")

/-- The name that a node carries. -/
def nameOf (t : Tree) : Except PrintError Tree := Fault.whilePrinting t.name

/-- The names of a row of parameters with commas between them. -/
def parameterList (params : Tree) : Except PrintError Text := do
  let items ← Fault.whilePrinting params.items
  commaList (← items.mapM nameOf)

/-- The name that a node carries after a blank, or nothing for an absent node. -/
def spacedName : Tree → Except PrintError Text
  | .null => .ok []
  | t => (nameOf t).map fun name => " " ++ name.inline

/-- A part of the head of a loop after a blank, or nothing for an empty one. -/
def spacedPart (written : Tree) : Except PrintError Text :=
  if written.truthy then (textOf written).map (Text.ofString " " ++ ·) else .ok []

/-- The character that a tree is. -/
def character? : Tree → Option Nat
  | .text [c] => some c
  | _ => none

/-- A literal. A number with a sign holds together like a negation. Anything that can be gone
through and holds nothing but characters is written like the text of them. -/
def literal : Tree → Except PrintError Printed
  | .null => .ok (.ofText "null" .primary)
  | .bool b => .ok (.ofText (if b then "true" else "false") .primary)
  | .int n => .ok (.ofText (Text.ofInt n) (if n < 0 then .unary else .primary))
  | .num d =>
    let text := d.numeral
    .ok (.ofText text (if text.startsWith "-" then .unary else .primary))
  | t => do
    let items ← Fault.whilePrinting t.items
    match items.mapM character? with
    | some characters => return .ofText (Literal.quote characters) .primary
    | none => throw (.malformed .wrongType)

/-- Whether a tree is a number literal, after which a dot would be read as a fraction. -/
def isNumber : Tree → Bool
  | .node _ (.literal (.num _)) => true
  | .node _ (.literal (.int _)) => true
  | _ => false

/-- Whether a tree is a block. -/
def isBlock (t : Tree) : Bool := t.hasKind .blockStatement

/-- Whether an `else` after the statement would belong to an `if` inside it. -/
def endsOpen : Tree → Bool
  | .node _ (.ifStatement _ _ .null) => true
  | .node _ (.ifStatement _ _ alternate) => endsOpen alternate
  | .node _ (.forStatement _ _ _ body) => endsOpen body
  | .node _ (.forEach _ _ _ body) => endsOpen body
  | .node _ (.whileStatement _ body) => endsOpen body
  | .node _ (.labeled _ body) => endsOpen body
  | _ => false

/-- Whether a text starts with the word `function`. -/
def startsFunction (t : Text) : Bool :=
  t.startsWith "function" && (t.drop 8).head?.all fun c => !Text.isWordPart c

/-- The precedence of a binary or logical operator. -/
def operatorPrecedence (operator : Tree) : Except PrintError Precedence := do
  match infixPrecedence? (← Fault.whilePrinting operator.key) with
  | some precedence => return precedence
  | none => throw .unknownOperator

/-- A unary operator before its operand. A word, and a sign before the same sign, is kept apart
from the operand by a blank. -/
def unaryText (operator argument : Tree) : Except PrintError Text :=
  match operator with
  | .text op =>
    let apart := op ++ " " ++ argument.inline
    let joined := op ++ argument.inline
    if op.isWord then .ok apart
    else if (Text.find? op "+-").isSome then
      match argument with
      | .text t => .ok (if t.startsWith op then apart else joined)
      | _ => .error (.malformed .noField)
    else .ok joined
  | _ => .error (.malformed .noField)

/-- The blanks at the start of a line. -/
def pad (indent : Text) (level : Nat) : Text := Text.times level indent

/-- A line feed and the blanks at the start of the next line. -/
def lineBreak (indent : Text) (level : Nat) : Text := [Text.newline] ++ pad indent level

/-- Statements between braces, one a line. -/
def braces (indent : Text) (level : Nat) (statements : List Text) : Text :=
  if statements.isEmpty then "\x7b\x7d"
  else
    "\x7b\n" ++ Text.join [Text.newline] (statements.map (pad indent (level + 1) ++ ·)) ++
      lineBreak indent level ++ "\x7d"

/-- The level at which the body of a compound statement is printed: a block at that of the
statement, anything else one further in. -/
def bodyLevel (level : Nat) (body : Tree) : Nat := if isBlock body then level else level + 1

/-- A printed body after its head: a block on the same line, anything else on a line of its own. -/
def place (indent : Text) (level : Nat) (body : Tree) (text : Text) : Text :=
  if isBlock body then " " ++ text else lineBreak indent (level + 1) ++ text

/-- A printed body after its head, put into braces. -/
def placeBraced (indent : Text) (level : Nat) (text : Text) : Text :=
  " " ++ braces indent level [text]

/-- The word that follows a body: on the same line after a closing brace, else on a new line. -/
def following (indent : Text) (level : Nat) (braced : Bool) : Text :=
  if braced then " " else lineBreak indent level

/-- The error at a tree that is neither a statement nor an expression. -/
def refuse : Tree → PrintError
  | .node _ shape => .notPrintable shape.kind.className
  | _ => .malformed .noField

/-- The error at something in the place of a row of nodes. What it holds, if anything, is no
node. -/
def refuseRow {α : Type} (t : Tree) : Except PrintError (List α) := do
  match ← Fault.whilePrinting t.items with
  | [] => return []
  | _ :: _ => throw (.malformed .noField)

mutual

/-- What is printed for a node whose lines are at a level of indentation. -/
def visit (indent : Text) (level : Nat) : Tree → Except PrintError Printed
  | .node _ (.identifier name) => .ok (.expression name .primary)
  | .node _ (.literal value) => literal value
  | .node _ (.array elements) => do
    let parts ← commaList (← operands indent level elements)
    return .ofText ("[" ++ parts ++ "]") .primary
  | .node _ (.function .expression id params body) => do
    let name ← spacedName id
    let parameters ← parameterList params
    let text ← block indent level body
    return .ofText ("function" ++ name ++ parenthesize parameters ++ " " ++ text) .assignment
  | .node _ (.call callee arguments) => do
    let function ← (← visit indent level callee).operand .call
    let parts ← commaList (← operands indent level arguments)
    return .ofText (function.inline ++ parenthesize parts) .call
  | .node _ (.member object property computed) => do
    let owner ← (← visit indent level object).operand .call
    let owner := if isNumber object then parenthesize owner.inline else owner.inline
    if computed.truthy then
      let key ← (← visit indent level property).operand .sequence
      return .ofText (owner ++ "[" ++ key.inline ++ "]") .call
    else
      let key ← nameOf property
      return .ofText (owner ++ "." ++ key.inline) .call
  | .node _ (.conditional test consequent alternate) => do
    let test ← (← visit indent level test).operand .logicalOr
    let yes ← (← visit indent level consequent).operand .assignment
    let no ← (← visit indent level alternate).operand .assignment
    return .ofText (test.inline ++ " ? " ++ yes.inline ++ " : " ++ no.inline) .conditional
  | .node _ (.assignment operator left right) => do
    let target ← (← visit indent level left).operand .call
    let value ← (← visit indent level right).operand .assignment
    return .ofText (target.inline ++ " " ++ operator.inline ++ " " ++ value.inline) .assignment
  | .node _ (.sequence expressions) => do
    let parts ← commaList (← operands indent level expressions)
    return .ofText parts .sequence
  | .node _ (.binary operator left right) => do
    let precedence ← operatorPrecedence operator
    let first ← (← visit indent level left).operand precedence
    let second ← (← visit indent level right).operand (precedence + 1)
    return .ofText (first.inline ++ " " ++ operator.inline ++ " " ++ second.inline) precedence
  | .node _ (.logical operator left right) => do
    let precedence ← operatorPrecedence operator
    let first ← (← visit indent level left).operand precedence
    let second ← (← visit indent level right).operand (precedence + 1)
    return .ofText (first.inline ++ " " ++ operator.inline ++ " " ++ second.inline) precedence
  | .node _ (.unary operator argument _) => do
    let operand ← (← visit indent level argument).operand .unary
    let text ← unaryText operator operand
    return .ofText text .unary
  | .node _ (.update operator argument isPrefix) => do
    if isPrefix.truthy then
      let operand ← (← visit indent level argument).operand .unary
      return .ofText (operator.inline ++ operand.inline) .unary
    else
      let operand ← (← visit indent level argument).operand .call
      return .ofText (operand.inline ++ operator.inline) .update
  | .node _ (.function .declaration id params body) => do
    let parameters ← parameterList params
    let name ← nameOf id
    let text ← block indent level body
    return .statement
      ("function " ++ name.inline ++ parenthesize parameters ++ " " ++ text)
  | .node _ (.block body) => do
    let parts ← lines indent (level + 1) body
    return .statement (braces indent level parts)
  | .node _ (.variableDeclaration declarations kind) => do
    let parts ← commaList (← declarators indent level declarations)
    return .statement (kind.inline ++ " " ++ parts ++ ";")
  | .node _ .emptyStatement => .ok (.statement ";")
  | .node _ (.expressionStatement expression) => do
    let written ← (← visit indent level expression).operand .sequence
    let text ← textOf written
    return .statement ((if startsFunction text then parenthesize text else text : Text) ++ ";")
  | .node _ (.ifStatement test consequent alternate) => do
    let condition ← (← visit indent level test).operand .sequence
    let head : Text := "if " ++ parenthesize condition.inline
    let yes ← (← visit indent (bodyLevel level consequent) consequent).line
    if alternate.isNull then return .statement (head ++ place indent level consequent yes)
    else
      let braced := endsOpen consequent
      let first :=
        if braced then placeBraced indent level yes else place indent level consequent yes
      let isElseIf := alternate.hasKind .ifStatement
      let elseLevel := if isElseIf then level else bodyLevel level alternate
      let no ← (← visit indent elseLevel alternate).line
      let last : Text := if isElseIf then " " ++ no else place indent level alternate no
      let isBraced := braced || isBlock consequent
      return .statement (head ++ first ++ following indent level isBraced ++ "else" ++ last)
  | .node _ (.forStatement init test step body) => do
    let start ←
      if init.hasKind .variableDeclaration then .text <$> declaration indent level init
      else if init.isNull then pure (.text [])
      else (← visit indent level init).operand .sequence
    let condition ←
      if test.isNull then pure .null else (← visit indent level test).operand .sequence
    let advance ←
      if step.isNull then pure .null else (← visit indent level step).operand .sequence
    let start ← textOf start
    let condition ← spacedPart condition
    let advance ← spacedPart advance
    let text ← (← visit indent (bodyLevel level body) body).line
    return .statement ("for (" ++ start ++ ";" ++ condition ++ ";" ++ advance ++ ")" ++
      place indent level body text)
  | .node _ (.forEach domain left right body) => do
    let target ←
      if left.hasKind .variableDeclaration then .text <$> declaration indent level left
      else (← visit indent level left).operand .call
    let (word, required) : Text × Precedence := match domain with
      | .keys => (" in ", .sequence)
      | .values => (" of ", .assignment)
    let source ← (← visit indent level right).operand required
    let text ← (← visit indent (bodyLevel level body) body).line
    return .statement ("for " ++ parenthesize (target.inline ++ word ++ source.inline) ++
      place indent level body text)
  | .node _ (.whileStatement test body) => do
    let condition ← (← visit indent level test).operand .sequence
    let text ← (← visit indent (bodyLevel level body) body).line
    return .statement ("while " ++ parenthesize condition.inline ++ place indent level body text)
  | .node _ (.doWhileStatement body test) => do
    let text ← (← visit indent (bodyLevel level body) body).line
    let condition ← (← visit indent level test).operand .sequence
    return .statement ("do" ++ place indent level body text ++
      following indent level (isBlock body) ++ "while " ++ parenthesize condition.inline ++ ";")
  | .node _ (.returnStatement argument) => do
    if argument.isNull then return .statement "return;"
    else
      let value ← (← visit indent level argument).operand .sequence
      return .statement ("return " ++ value.inline ++ ";")
  | .node _ (.jump kind label) => do
    let target ← spacedName label
    let word : Text := match kind with
      | .breaks => "break"
      | .continues => "continue"
    return .statement (word ++ target ++ ";")
  | .node _ (.labeled label body) => do
    let name ← nameOf label
    let printed ← visit indent level body
    return .statement (name.inline ++ ": " ++ printed.afterLabel)
  | t => .error (refuse t)

/-- What is written for the expressions of a row that commas separate. -/
def operands (indent : Text) (level : Nat) : Tree → Except PrintError (List Tree)
  | .tuple items => operandItems indent level items
  | .list items => operandItems indent level items
  | t => refuseRow t

/-- What is written for expressions that commas separate. -/
def operandItems (indent : Text) (level : Nat) : List Tree → Except PrintError (List Tree)
  | [] => .ok []
  | e :: rest => do
    let first ← (← visit indent level e).operand .assignment
    let more ← operandItems indent level rest
    return first :: more

/-- What is written for a row of declarators. -/
def declarators (indent : Text) (level : Nat) : Tree → Except PrintError (List Tree)
  | .tuple items => declaratorItems indent level items
  | .list items => declaratorItems indent level items
  | t => refuseRow t

/-- What is written for declarators: a name, and its initial value if it has one. -/
def declaratorItems (indent : Text) (level : Nat) : List Tree → Except PrintError (List Tree)
  | [] => .ok []
  | .node _ (.variableDeclarator id init) :: rest => do
    let name ← nameOf id
    let first ← if init.isNull then pure name else do
      let value ← (← visit indent level init).operand .assignment
      pure (.text (name.inline ++ " = " ++ value.inline))
    let more ← declaratorItems indent level rest
    return first :: more
  | _ :: _ => .error (.malformed .noField)

/-- The text of a declaration without what ends it. -/
def declaration (indent : Text) (level : Nat) : Tree → Except PrintError Text
  | .node _ (.variableDeclaration declarations kind) => do
    let parts ← commaList (← declarators indent level declarations)
    return kind.inline ++ " " ++ parts
  | t => .error (refuse t)

/-- The body of a function in braces. Any node with statements in it can be one. -/
def block (indent : Text) (level : Nat) : Tree → Except PrintError Text
  | .node _ (.block body) | .node _ (.program body) | .node _ (.function _ _ _ body)
  | .node _ (.forStatement _ _ _ body) | .node _ (.forEach _ _ _ body)
  | .node _ (.whileStatement _ body) | .node _ (.doWhileStatement body _)
  | .node _ (.labeled _ body) => do
    let parts ← lines indent (level + 1) body
    return braces indent level parts
  | _ => .error (.malformed .noField)

/-- The texts of a row of statements; what counts as false holds none. -/
def lines (indent : Text) (level : Nat) : Tree → Except PrintError (List Text)
  | .tuple items => lineItems indent level items
  | .list items => lineItems indent level items
  | t => if t.truthy then refuseRow t else .ok []

/-- The texts of statements. -/
def lineItems (indent : Text) (level : Nat) : List Tree → Except PrintError (List Text)
  | [] => .ok []
  | s :: rest => do
    let first ← (← visit indent level s).line
    let more ← lineItems indent level rest
    return first :: more

end

end Print

/-- The usual indentation. -/
def defaultIndent : Text := "    "

/-- What is written for a program, a statement or an expression: a text, unless it is a bare name
that is none. -/
def Tree.written (indent : Text) (t : Tree) : Except PrintError Tree :=
  match t with
  | .node _ (.program body) => do
    let items ← Fault.whilePrinting body.items
    let printed ← items.mapM (Print.visit indent 0)
    let lines ← printed.mapM Print.Printed.line
    return .text (Text.join [Text.newline] lines)
  | t =>
    if t.isStatement then do
      let printed ← Print.visit indent 0 t
      return .text (← printed.line)
    else if t.isExpression then do
      let printed ← Print.visit indent 0 t
      printed.operand .sequence
    else .error (.notPrintable t.typeName)

/-- The text of a program, a statement or an expression. -/
def Tree.print (indent : Text) (t : Tree) : Except PrintError Text :=
  (t.written indent).map Tree.inline

end TailLoop
