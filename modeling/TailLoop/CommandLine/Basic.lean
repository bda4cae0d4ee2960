import TailLoop.CommandLine.Options
import TailLoop.Dump
import TailLoop.Interpreter.Session
import TailLoop.Pipeline
import TailLoop.Text.Utf8

/-!
# The command

What the command does for a program in a file: it shows or writes the optimized text or its tree, or
calls a function of the optimized program and shows the result. Problems of the program are reported
on the error channel. The outcome is a value; reading and writing files is left to the caller.
-/

namespace TailLoop

/-- The errors of the language, which a program can bring about. The others are limits of the
evaluation itself. -/
def RuntimeError.isThrown : RuntimeError → Bool
  | .notDefined .. | .notFunction .. | .unreadable .. | .unwritable .. | .notIterable ..
  | .invalidLength .. | .notStatement .. | .notExpression .. | .stackOverflow => true
  | _ => false

namespace CommandLine

/-- An absolute path without `.` and `..`, from one that may start at a directory. -/
def resolve (directory path : Text) : Text :=
  let slash := '/'.toNat
  let whole := if path.head? = some slash then path else directory ++ slash :: path
  let parts := (whole.split slash).foldl
    (fun above part =>
      if part.isEmpty || part == Text.ofString "." then above
      else if part == Text.ofString ".." then above.drop 1
      else part :: above) []
  slash :: Text.join [slash] parts.reverse

/-- What is found at a path. -/
inductive Entry where
  | missing
  /-- Something that is no file. -/
  | directory
  | file (bytes : List UInt8)

/-- Why there is no source text. -/
inductive ReadError where
  | missing (path : Text)
  | notFile (path : Text)
  | notText (error : Utf8.Error)

/-- The words for a missing source text. -/
def ReadError.message : ReadError → Text
  | .missing path => "file not found: " ++ path
  | .notFile path => "not a file: " ++ path
  | .notText e => e.message

/-- The source text that is found at a path. -/
def sourceAt (path : Text) : Entry → Except ReadError Text
  | .missing => .error (.missing path)
  | .directory => .error (.notFile path)
  | .file bytes =>
    match Utf8.decode bytes with
    | .ok t => .ok t.unifyNewlines
    | .error e => .error (.notText e)

/-- What a command leaves behind. -/
structure Outcome where
  /-- The exit status. -/
  status : Nat := 0
  /-- What is shown. -/
  output : Text := []
  /-- What is shown on the error channel. -/
  errors : Text := []
  /-- A path and the text to be written there. -/
  written : Option (Text × Text) := none

/-- Why a command breaks off. -/
inductive Crash where
  /-- The optimizer fails in a way that is no problem of the program. -/
  | compiling (failure : Failure)
  /-- The evaluation ends in something that is no error of the language. -/
  | running (interrupt : Interrupt) (store : Store)
  /-- The text to be written has a surrogate in it. -/
  | notEncodable

/-- The outcome of a command that fails with a message. -/
def Outcome.failure (message : Text) : Outcome :=
  { status := 1, errors := message ++ [Text.newline] }

/-- The outcome of a command that shows a text. -/
def Outcome.shown (t : Text) : Outcome := { output := t ++ [Text.newline] }

/-- Runs a program and calls one of its functions. -/
def callAfter (program : Tree) (name : Text) (args : List Text) :
    Except Interrupt Value × Interpreter :=
  match (Interpreter.new Interpreter.defaultLimit).run program with
  | (.ok _, i) => i.callFunction name (args.map Value.ofArgument)
  | (.error e, i) => (.error e, i)

/-- Calls a function of a program and shows the result. -/
def showCall (program : Tree) (name : Text) (args : List Text) : Except Crash Outcome :=
  match callAfter program name args with
  | (.ok v, i) =>
    match i.machine.store.text v with
    | .ok t => .ok (.shown t)
    | .error e => .error (.running (.failed e) i.machine.store)
  | (.error e, i) =>
    match e with
    | .failed e =>
      if e.isThrown then .ok (.failure ("tailcallopt: runtime error: " ++ e.message))
      else .error (.running (.failed e) i.machine.store)
    | e => .error (.running e i.machine.store)

/-- Shows a text, or writes it with one line feed at its end. -/
def deliver (path : Option Text) (t : Text) : Except Crash Outcome :=
  match path with
  | none => .ok (.shown t)
  | some path =>
    if t.any Text.isSurrogate then .error .notEncodable
    else .ok { written := some (path, t.trimNewlines ++ [Text.newline]) }

/-- What the command does with the source text of a file. -/
def runSource (o : Options) (color : Bool) (path source : Text) : Except Crash Outcome := do
  let c ← (compile { validates := o.validates } path source).mapError .compiling
  match c.tree, c.output with
  | some tree, some output =>
    match o.call with
    | some (name, args) => showCall tree name args
    | none => deliver o.output (if o.dumpsTree then tree.prettyDump false else output)
  | _, _ => return .failure ((c.report? color).getD [])

/-- What the command does, given what is found at the path of its file. -/
def run (o : Options) (colors : Diagnostic.ColorSettings) (path : Text) (found : Entry) :
    Except Crash Outcome :=
  match sourceAt path found with
  | .ok source => runSource o colors.enabled path source
  | .error e => .ok (.failure ("tailcallopt: error: " ++ e.message))

end CommandLine

end TailLoop
