import TailLoop.CommandLine.Basic

/-!
# The program

Reads the command line, the environment and the file, and carries out what the command asks for.
-/

namespace TailLoop.CommandLine

/-- A text as a string. -/
def stringOf (t : Text) : String := String.ofList (t.map Char.ofNat)

/-- What stands at a path. -/
def find (path : String) : IO Entry := do
  try
    let real ← IO.FS.realPath path
    if ← real.isDir then return .directory
    if !(← real.pathExists) then return .missing
    return .file (← IO.FS.readBinFile real).toList
  catch _ => return .missing

/-- The settings of the environment that decide about colour. -/
def colorSettings : IO Diagnostic.ColorSettings := do
  let noColor ← IO.getEnv "NO_COLOR"
  let choice ← IO.getEnv "TAILCALLOPT_COLOR"
  return ⟨noColor.map Text.ofString, choice.map Text.ofString⟩

/-- Carries out an outcome. -/
def carryOut (o : Outcome) : IO UInt32 := do
  (← IO.getStdout).putStr (stringOf o.output)
  (← IO.getStderr).putStr (stringOf o.errors)
  match o.written with
  | some (path, t) => IO.FS.writeFile (stringOf path) (stringOf t)
  | none => pure ()
  return o.status.toUInt32

/-- Does what some options ask for. -/
def perform (o : Options) : IO UInt32 := do
  let directory ← IO.currentDir
  let path := resolve directory.toString o.file
  match run o (← colorSettings) path (← find (stringOf path)) with
  | .ok outcome => carryOut outcome
  | .error _ =>
    IO.eprintln "tailcallopt: internal error"
    return 1

/-- What can be given on the command line. -/
def usage : String :=
  "usage: tailcallopt [-h] [-o OUTPUT] [--dump-tree] [--no-validate] " ++
    "[--run NAME [ARG ...]] [-v] file"

end TailLoop.CommandLine

open TailLoop.CommandLine in
/-- The command. -/
def main (args : List String) : IO UInt32 := do
  match Request.ofTexts (args.map fun a => TailLoop.Text.ofString a) with
  | .help =>
    IO.println usage
    return 0
  | .misuse =>
    IO.eprintln usage
    return 2
  | .work options => perform options
