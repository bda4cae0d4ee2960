import TailLoop.Elimination.Basic
import TailLoop.Print
import TailLoop.Source.Reader
import TailLoop.Validity

/-!
# The optimizer

From JavaScript text to JavaScript text: read, eliminate tail calls, check the result, print. The
steps between reading and printing are passes, each of which leaves a result of its own behind.
-/

namespace TailLoop

/-- The problem that an error in a source text is; limits of the reader are none. -/
def Source.Error.problem? (source : Text) (e : Source.Error) : Option Problem :=
  if e.isSyntax then
    some { category := .parse, reason := e.message, location := e.location?, source := some source,
           help := e.help? }
  else none

/-- The internal error that a kind of node without a text is. -/
def notPrintableError (kind : Text) : InternalError :=
  { message := "cannot print node kind " ++ kind }

/-- The passes. -/
inductive Pass where
  /-- Tail call elimination. -/
  | elimination
  /-- The check of the result, which presupposes elimination. -/
  | validation
deriving DecidableEq

namespace Pass

/-- The name of a pass. -/
def name : Pass → Text
  | .elimination => "TailCallPass"
  | .validation => "TreeValidationPass"

/-- The passes that have to come before a pass. -/
def requires : Pass → List Pass
  | .elimination => []
  | .validation => [.elimination]

/-- Adds a pass at the end of a list of passes. -/
def register (passes : List Pass) (p : Pass) : Except InternalError (List Pass) :=
  match p.requires.filter (!passes.contains ·) with
  | [] => .ok (passes ++ [p])
  | unmet =>
    .error { message := p.name ++ " must be registered after " ++ Text.join ", " (unmet.map name) }

/-- The error when the result of a pass is asked for that has not run. -/
def missingResult (p : Pass) : InternalError :=
  { message := "no results from " ++ p.name ++ " on this context" }

end Pass

/-- Why the optimizer has no result. -/
inductive Failure where
  /-- The text cannot be read. -/
  | reading (source : Text) (error : Source.Error)
  /-- Elimination refuses the program. -/
  | eliminating (refusal : Elimination.Refusal)
  /-- The result is not valid. -/
  | checking (error : CheckError)
  /-- The result cannot be printed. -/
  | printing (error : PrintError)
  /-- Something that is no program was given. -/
  | notProgram (what : Text)

namespace Failure

/-- The problem that a failure is, if it is one that is reported as a diagnostic. -/
def problem? : Failure → Option Problem
  | .reading source e => e.problem? source
  | .eliminating refusal => refusal.problem?
  | .checking e => e.problem?
  | .printing _ => none
  | .notProgram _ => none

/-- The message about something that is no program. -/
def notProgramMessage (what : Text) : Text :=
  "tail_call_optimise expects a syntax node, source text or function, got " ++ what

end Failure

/-- How the optimizer works. -/
structure Settings where
  /-- The names of generated code. -/
  naming : Elimination.Naming := {}
  /-- The indentation of the output. -/
  indent : Text := defaultIndent
  /-- Whether the result is checked. -/
  validates : Bool := true

/-- The passes under the given settings. -/
def Settings.passes (s : Settings) : List Pass :=
  if s.validates then [.elimination, .validation] else [.elimination]

/-- What the passes leave behind. -/
structure Analysis where
  /-- What elimination did. -/
  stats : Option Elimination.Stats := none
  /-- How many nodes the check has seen. -/
  nodes : Option Nat := none

/-- The file name of a source text that has none. -/
def defaultFile : Text := "<input>"

/-- A tree after one pass, with what the passes have left behind. -/
def Pass.run (naming : Elimination.Naming) (p : Pass) (t : Tree) (a : Analysis) :
    Except Failure (Tree × Analysis) :=
  match p with
  | .elimination =>
    match t.eliminateTailCalls naming with
    | .ok (t, stats) => .ok (t, { a with stats := some stats })
    | .error refusal => .error (.eliminating refusal)
  | .validation =>
    match t.validate with
    | .ok n => .ok (t, { a with nodes := some n })
    | .error e => .error (.checking e)

/-- A tree after some passes; what they have left behind is known also when one fails. -/
def runPasses (naming : Elimination.Naming) : List Pass → Tree → Analysis →
    Except Failure Tree × Analysis
  | [], t, a => (.ok t, a)
  | p :: rest, t, a =>
    match p.run naming t a with
    | .ok (t, a) => runPasses naming rest t a
    | .error e => (.error e, a)

/-- The program that a text is. -/
def readProgram (file source : Text) : Except Failure Tree :=
  (Source.parse file source).mapError (.reading source)

/-- The text of a tree. -/
def printTree (indent : Text) (t : Tree) : Except Failure Text :=
  (t.print indent).mapError .printing

/-- The tree of a source text after all passes. -/
def optimizeTree (s : Settings) (file source : Text) : Except Failure Tree × Analysis :=
  match readProgram file source with
  | .ok t => runPasses s.naming s.passes t {}
  | .error e => (.error e, {})

/-- The optimized text of a source text. -/
def optimizeSource (s : Settings) (file source : Text) : Except Failure Text := do
  let t ← (optimizeTree s file source).1
  printTree s.indent t

/-- What can be given to the optimizer. -/
inductive Subject where
  /-- A tree, which gives a tree that is not checked. -/
  | tree (t : Tree)
  /-- A source text, which gives a text. -/
  | source (text : Text)
  /-- Anything else, by the word for what it is. -/
  | other (what : Text)

/-- The subject that a tree is: a node is a tree to work on, and a text is a source text. -/
def Subject.ofTree : Tree → Subject
  | .node location shape => .tree (.node location shape)
  | .text program => .source program
  | t => .other t.typeName

/-- What the optimizer makes of a subject, with the usual settings. -/
def optimize : Subject → Except Failure Subject
  | .tree t =>
    match t.eliminateTailCalls {} with
    | .ok (t, _) => .ok (.tree t)
    | .error refusal => .error (.eliminating refusal)
  | .source text => (optimizeSource {} defaultFile text).map .source
  | .other what => .error (.notProgram what)

/-- The result of a compilation, which keeps problems as diagnostics. -/
structure Compilation where
  /-- Whether there is an output. -/
  success : Bool
  /-- The final tree. -/
  tree : Option Tree := none
  /-- The output. -/
  output : Option Text := none
  /-- What the passes have left behind. -/
  analysis : Analysis := {}
  /-- The source texts by file name. -/
  sources : List (Text × Text) := []
  /-- The problems. -/
  diagnostics : List Diagnostic := []

namespace Compilation

/-- Whether something is wrong. -/
def hasErrors (c : Compilation) : Bool := !c.diagnostics.isEmpty || !c.success

/-- The report on what is wrong, if there are diagnostics. -/
def report? (color : Bool) (c : Compilation) : Option Text :=
  if c.diagnostics.isEmpty then none
  else some (Diagnostic.renderAll c.sources color c.diagnostics)

end Compilation

/-- Compiles a source text. Only failures that are no problem of the program are left. -/
def compile (s : Settings) (file source : Text) : Except Failure Compilation :=
  let (result, analysis) := optimizeTree s file source
  match result with
  | .ok t => do
    let output ← printTree s.indent t
    return { success := true, tree := some t, output := some output, analysis,
             sources := [(file, source)] }
  | .error e =>
    match e.problem? with
    | some p =>
      .ok { success := false, analysis, sources := [(file, source)],
            diagnostics := [p.toDiagnostic] }
    | none => .error e

end TailLoop
