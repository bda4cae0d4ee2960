import TailLoop.Location
import TailLoop.Text.Class

/-!
# Diagnostics

A diagnostic has a message, a place and annotations. It is shown with the line of source text it
points to, when that text is known, and an underline below the place:

```text
error[E0102]: tail call to `h` passes 2 arguments, but `h` declares 1 parameter
 --> a.js:1:24
  |
1 | function h(a) { return h(a, a); }
  |                        ^^^^^^^ self-call in tail position
  |
  = help: remove the extra arguments
```
-/

namespace TailLoop

/-- One diagnostic. An annotation with an empty text counts as absent. -/
structure Diagnostic where
  /-- What is wrong. -/
  message : Text
  /-- Where it is. -/
  location : Option Location
  /-- The code of the kind of error. -/
  code : Option Text := none
  /-- Advice. -/
  help : Option Text := none
  /-- A remark. -/
  note : Option Text := none
  /-- What stands beside the underline. -/
  label : Option Text := none

namespace Diagnostic

/-- The styles of coloured output. -/
inductive Style where
  | bold | red | blue | cyan

/-- The control sequence that turns a style on. -/
def Style.code : Style → Text
  | .bold => "\x1b[1m"
  | .red => "\x1b[31m"
  | .blue => "\x1b[34m"
  | .cyan => "\x1b[36m"

/-- A text in some styles, which end after it. -/
def paint (color : Bool) (styles : List Style) (t : Text) : Text :=
  if color && !styles.isEmpty then styles.flatMap Style.code ++ t ++ "\x1b[0m" else t

/-- The settings that decide whether output is coloured. -/
structure ColorSettings where
  /-- Turns colour off unless it is absent or empty. -/
  noColor : Option Text
  /-- Turns colour off when it is a word for no. -/
  choice : Option Text

/-- Whether output is coloured under the given settings. -/
def ColorSettings.enabled (s : ColorSettings) : Bool :=
  (s.noColor.getD []).isEmpty &&
    !(Text.ofStrings ["0", "false", "no", "never"]).contains (s.choice.getD []).lower

/-- An annotation that is not empty. -/
def given (text : Option Text) : Option Text := text.filter (!·.isEmpty)

/-- Code points that make up words in an underline. -/
def isWordPart (c : Nat) : Bool := Text.isNamePart c || c == '.'.toNat

/-- How many code points the word or sign at the start of a text takes; one when there is none. -/
def wordWidth (t : Text) : Nat :=
  let word := t.takeWhile isWordPart
  if word.isEmpty then 1 else word.length

/-- How many characters of a line are underlined. -/
def spanWidth (l : Location) (line : Text) : Nat :=
  let start := max l.column 1
  if l.singleLine && start < l.endColumn then (l.endColumn - start).toNat
  else wordWidth (line.drop (start - 1).toNat)

/-- The help and the note below a snippet, indented to its gutter. -/
def annotations (color : Bool) (d : Diagnostic) (width : Nat) : List Text :=
  let pairs : List (Text × Text) :=
    ((given d.help).map (Text.ofString "help", ·)).toList ++
      ((given d.note).map (Text.ofString "note", ·)).toList
  let pad : Text := List.replicate (width + 1) 32
  if pairs.isEmpty then []
  else
    paint color [.bold, .blue] (pad ++ "|") ::
      pairs.map fun (kind, t) =>
        paint color [.bold, .cyan] (pad ++ "= ") ++ paint color [.bold] (kind ++ ": ") ++ t

/-- The first line of a diagnostic. -/
def header (color : Bool) (d : Diagnostic) : Text :=
  let code := ((given d.code).map fun (c : Text) => Text.ofString "[" ++ c ++ "]").getD []
  paint color [.bold, .red] ("error" ++ code) ++ paint color [.bold] (": " ++ d.message)

/-- The lines of a diagnostic whose source text is not known. -/
def plainLines (color : Bool) (d : Diagnostic) : List Text :=
  let place := (d.location.map Location.text).getD "<unknown location>"
  [header color d, paint color [.bold, .blue] " --> " ++ place] ++ annotations color d 1

/-- A line of a text, counted from one; empty when there is none. -/
def lineAt (source : Text) (n : Int) : Text :=
  if 0 < n then (source.lines[(n - 1).toNat]?).getD [] else []

/-- The lines of a diagnostic with the snippet of source text it points to. -/
def snippetLines (color : Bool) (d : Diagnostic) (l : Location) (source : Text) : List Text :=
  let number := Text.ofInt l.line
  let width := number.length
  let gutter : Text := List.replicate (width + 1) 32
  let line := lineAt source l.line
  let underline : Text := List.replicate (max l.column 1 - 1).toNat 32 ++
    List.replicate (spanWidth l line) '^'.toNat ++
    ((given d.label).map fun label => Text.ofString " " ++ label).getD []
  [header color d,
   paint color [.bold, .blue] ((List.replicate width 32 : Text) ++ "--> ") ++ l.text,
   paint color [.bold, .blue] (gutter ++ "|"),
   paint color [.bold, .blue] (number ++ " | ") ++ line,
   paint color [.bold, .blue] (gutter ++ "| ") ++ paint color [.bold, .red] underline] ++
    annotations color d width

/-- A diagnostic as text, against the known source texts by file name. -/
def render (sources : List (Text × Text)) (color : Bool) (d : Diagnostic) : Text :=
  Text.join [Text.newline] <|
    match d.location.bind fun l => (sources.lookup l.file).map (l, ·) with
    | some (l, source) => snippetLines color d l source
    | none => plainLines color d

/-- All diagnostics with an empty line between each two, and a last line that counts them. -/
def renderAll (sources : List (Text × Text)) (color : Bool) (ds : List Diagnostic) : Text :=
  let summary := paint color [.bold, .red] "error" ++
    paint color [.bold] (": aborting due to " ++ Text.counted ds.length "previous error")
  Text.join [Text.newline, Text.newline] (ds.map (render sources color) ++ [summary])

end Diagnostic

end TailLoop
