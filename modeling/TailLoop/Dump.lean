import TailLoop.Text.Case
import TailLoop.Tree.Access
import TailLoop.Tree.Display

/-!
# Tree dumps

A tree is dumped as an S-expression: a node is a list of its kind and its fields as
`:keyword value` pairs, with kinds and keywords in lower case with hyphens. The dump is written
on one line, or broken into lines of at most a hundred characters where it is longer.

Names of identifiers, kinds of generic nodes, changeable lists and tables go into the dump as they
are. The broken form shows what it has no notation for as messages do; the other form refuses nodes
and locations.
-/

namespace TailLoop

/-- An S-expression. -/
inductive SExpr where
  | symbol (name : Text)
  | list (items : List SExpr)
  /-- A value as it is. -/
  | raw (tree : Tree)

namespace SExpr

/-- The escapes of strings in the one-line form. -/
def compactEscapes : List (Nat × Text) :=
  [('\\'.toNat, "\\\\"), ('"'.toNat, "\\\""), (8, "\\b"), (12, "\\f"), (10, "\\n"), (13, "\\r"),
   (9, "\\t")]

/-- The escapes of strings in the broken form, where line feeds stay. -/
def prettyEscapes : List (Nat × Text) := [('\\'.toNat, "\\\\"), ('"'.toNat, "\\\"")]

/-- A string between quotes with the given escapes. -/
def quoteWith (escapes : List (Nat × Text)) (t : Text) : Text :=
  "\"" ++ t.flatMap (fun c => (escapes.lookup c).getD [c]) ++ "\""

/-- The characters that have a meaning of their own, so that a symbol has them after a
backslash. -/
def symbolSpecials : Text := " ?()#\\'`\"[;,]"

/-- A symbol in the one-line form. -/
def compactSymbol (name : Text) : Text :=
  name.flatMap fun c => if symbolSpecials.contains c then ['\\'.toNat, c] else [c]

/-- A list in the one-line form. -/
def compactList (items : List Text) : Text := "(" ++ Text.join " " items ++ ")"

/-- The rules of the one-line form of a value: absence and falsehood are the empty list, and a table
is a list of its names as keywords with their values. -/
def compactRules : Tree.Rules (Except Fault Text) where
  atom
    | .null => .ok "()"
    | .bool b => .ok (if b then "t" else "()")
    | .int n => .ok (Text.ofInt n)
    | .num d => .ok d.text
    | .text t => .ok (quoteWith compactEscapes t)
    | _ => .error .wrongType
  tuple items := (items.mapM id).map compactList
  list _ items := (items.mapM id).map compactList
  dict _ entries := do
    let parts ← entries.mapM fun (name, value) =>
      value.map fun v => [compactSymbol (":" ++ name), v]
    return compactList parts.flatten
  node _ _ := .error .wrongType

mutual

/-- The one-line form. -/
def compact : SExpr → Except Fault Text
  | .symbol name => .ok (compactSymbol name)
  | .list items => (compactItems items).map compactList
  | .raw t => t.fold compactRules

/-- The one-line forms of the items of a list. -/
def compactItems : List SExpr → Except Fault (List Text)
  | [] => .ok []
  | item :: rest => do
    let first ← compact item
    let more ← compactItems rest
    return first :: more

end

/-- The length up to which a list stays on one line. -/
def lineWidth : Nat := 100

/-- The lines of a broken list: a keyword shares a line with its value. -/
def brokenLines (lead : Text) : List Text → List Text
  | [] => []
  | [part] => [lead ++ part]
  | part :: value :: rest =>
    if part.head? = some ':'.toNat then (lead ++ part ++ " " ++ value) :: brokenLines lead rest
    else (lead ++ part) :: brokenLines lead (value :: rest)

/-- A list from its written items, on one line if it fits. -/
def layOut (indent : Nat) : List Text → Text
  | [] => "()"
  | first :: rest =>
    let line := compactList (first :: rest)
    if line.length ≤ lineWidth && !line.contains Text.newline then line
    else
      "(" ++ Text.join [Text.newline] (first :: brokenLines (Text.times (indent + 1) "  ") rest) ++
        [Text.newline] ++ Text.times indent "  " ++ ")"

/-- A value that is no list in the broken form. -/
def prettyPlain : Tree → Text
  | .null => "nil"
  | .bool b => if b then "true" else "false"
  | .text t => quoteWith prettyEscapes t
  | t => t.display

mutual

/-- A value in the broken form, at a depth of indentation. -/
def prettyValue (indent : Nat) : Tree → Text
  | .list items => layOut indent (prettyValues (indent + 1) items)
  | t => prettyPlain t

/-- Values in the broken form. -/
def prettyValues (indent : Nat) : List Tree → List Text
  | [] => []
  | t :: rest => prettyValue indent t :: prettyValues indent rest

end

mutual

/-- The broken form, at a depth of indentation. -/
def pretty (indent : Nat) : SExpr → Text
  | .symbol name => name
  | .list items => layOut indent (prettyItems (indent + 1) items)
  | .raw t => prettyValue indent t

/-- The broken forms of the items of a list. -/
def prettyItems (indent : Nat) : List SExpr → List Text
  | [] => []
  | item :: rest => pretty indent item :: prettyItems indent rest

end

end SExpr

namespace Tree

/-- The name with a hyphen before each ASCII capital but the first character, in small letters. -/
def hyphenated : Text → Text
  | [] => []
  | c :: rest =>
    Text.small (c :: rest.flatMap fun d => if 65 ≤ d ∧ d ≤ 90 then ['-'.toNat, d] else [d])

/-- A keyword. -/
def keyword (name : Text) : SExpr := .symbol (":" ++ hyphenated name)

/-- A plain value: absence and flags are symbols. -/
def dumpPlain : Tree → SExpr
  | .null => .symbol "nil"
  | .bool b => .symbol (if b then "true" else "false")
  | t => .raw t

/-- The value of a literal; an integral number is written without a fraction. -/
def dumpLiteral : Tree → Option SExpr
  | .num d => d.integer?.map fun n => .raw (.int n)
  | _ => none

/-- The location of a node as a field. -/
def dumpLocation (l : Location) : List SExpr :=
  [.symbol ":loc", .list [.raw (.text l.file), .raw (.int l.line), .raw (.int l.column)]]

/-- The fields of a node in a dump. -/
def dumpFields (children : List (Text × SExpr)) : List SExpr :=
  children.flatMap fun (name, value) => [keyword name, value]

/-- A node in a dump, without its location. -/
def dumpNode (t : Tree) (shape : Shape SExpr) : List SExpr :=
  match t, shape with
  | .node _ (.identifier name), _ => [.symbol "identifier", .raw name]
  | .node _ (.literal value), .literal dumped =>
    [.symbol "literal", (dumpLiteral value).getD dumped]
  | .node _ (.generic kind _), .generic _ children =>
    [.symbol "generic", .raw kind] ++ dumpFields children
  | _, shape => .symbol (hyphenated shape.kind.className) :: dumpFields shape.children

/-- The rules of a dump, with locations or without. -/
def dumpRules (located : Bool) : Rules SExpr where
  atom := dumpPlain
  tuple := .list
  list t _ := .raw t
  dict t _ := .raw t
  node t shape :=
    .list (dumpNode t shape ++
      (if located then (t.location?.map dumpLocation).getD [] else []))

/-- The S-expression of a tree. -/
def toSExpr (located : Bool) (t : Tree) : SExpr := fold (dumpRules located) t

/-- How a tree is dumped. -/
structure DumpStyle where
  /-- Broken into lines. -/
  pretty : Bool := true
  /-- With the place of each node. -/
  located : Bool := false

/-- The dump of a tree, broken into lines. -/
def prettyDump (located : Bool) (t : Tree) : Text := (toSExpr located t).pretty 0

/-- The dump of a tree. -/
def dump (style : DumpStyle) (t : Tree) : Except Fault Text :=
  if style.pretty then .ok (t.prettyDump style.located) else (toSExpr style.located t).compact

end Tree

end TailLoop
