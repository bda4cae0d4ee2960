import TailLoop.Text.Basic

/-!
# Source locations

Where a node was read: a file name, the line and column of its first character counted from one,
the offsets of its first character and just past its last, and the line and column just past it.
-/

namespace TailLoop

/-- A stretch of source text. Numbers that are not known are zero. -/
structure Location where
  /-- The name of the file. -/
  file : Text
  /-- The line of the first character. -/
  line : Int
  /-- The column of the first character. -/
  column : Int
  /-- The offset of the first character. -/
  start : Int := 0
  /-- The offset just past the last character. -/
  stop : Int := 0
  /-- The line just past the end. -/
  endLine : Int := 0
  /-- The column just past the end. -/
  endColumn : Int := 0
deriving DecidableEq

namespace Location

/-- Whether the stretch is known to stay on its first line, or its end is not known. -/
def singleLine (l : Location) : Bool := l.endLine == 0 || l.endLine == l.line

/-- The location as messages show it: file, line and column. -/
def text (l : Location) : Text :=
  l.file ++ ":" ++ Text.ofInt l.line ++ ":" ++ Text.ofInt l.column

end Location

end TailLoop
