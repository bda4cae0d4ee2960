import TailLoop.Double.Format
import TailLoop.Double.Reader
import TailLoop.Text.Quoted

/-!
# Literals of programs

How string and number literals are spelled and read. A string is written between double quotes with
controls, quotes, backslashes and line separators escaped; reading also knows single-character
escapes and escapes by two or four hexadecimal digits, and takes any other escaped character for
itself.
-/

namespace TailLoop.Literal

/-- The escapes of one letter, with the code points they stand for when written. -/
def escapes : List (Nat × Text) :=
  [('\\'.toNat, "\\\\"), ('"'.toNat, "\\\""), (10, "\\n"), (13, "\\r"), (9, "\\t"), (8, "\\b"),
   (12, "\\f"), (11, "\\v"), (0, "\\0"), (0x2028, "\\u2028"), (0x2029, "\\u2029")]

/-- One code point inside a string literal. -/
def escapePoint (c : Nat) : Text :=
  match escapes.lookup c with
  | some escape => escape
  | none => if c < 0x20 then "\\x" ++ Text.ofHex 2 c else [c]

/-- A text as a string literal. -/
def quote (t : Text) : Text := "\"" ++ t.flatMap escapePoint ++ "\""

/-- The code point that a single-letter escape stands for. -/
def unescapePoint (c : Nat) : Nat :=
  if c = 'n'.toNat then 10
  else if c = 't'.toNat then 9
  else if c = 'r'.toNat then 13
  else if c = 'b'.toNat then 8
  else if c = 'f'.toNat then 12
  else if c = 'v'.toNat then 11
  else if c = '0'.toNat then 0
  else c

/-- The number of the first `count` code points, if there are so many and all are hexadecimal
digits. -/
def hexNumber? : (count number : Nat) → Text → Option Nat
  | 0, n, _ => some n
  | _ + 1, _, [] => none
  | count + 1, n, c :: rest => (Text.hexValue? c).bind fun v => hexNumber? count (n * 16 + v) rest

/-- The code point that an escape stands for, and how many code points after the backslash it
takes. -/
def readEscape (letter : Nat) (rest : Text) : Nat × Nat :=
  if letter = 'x'.toNat then
    match hexNumber? 2 0 rest with
    | some n => (n, 3)
    | none => (letter, 1)
  else if letter = 'u'.toNat then
    match hexNumber? 4 0 rest with
    | some n => (n, 5)
    | none => (letter, 1)
  else (unescapePoint letter, 1)

/-- The text that the inside of a string literal stands for, after `skip` code points that are
already read. -/
def unescapeAfter : (skip : Nat) → Text → Text
  | _, [] => []
  | skip + 1, _ :: rest => unescapeAfter skip rest
  | 0, c :: rest =>
    match c == '\\'.toNat, rest with
    | true, letter :: more =>
      let escape := readEscape letter more
      escape.1 :: unescapeAfter escape.2 rest
    | _, _ => c :: unescapeAfter 0 rest

/-- The text that the inside of a string literal stands for. -/
def unescape (t : Text) : Text := unescapeAfter 0 t

/-- The text of a string literal with its quotes. -/
def unquote (t : Text) : Text := unescape ((t.drop 1).dropLast)

/-- Why a number literal has no value. -/
inductive NumberFault where
  /-- A hexadecimal integer beyond the largest double. -/
  | tooLarge
  /-- Not a numeral. -/
  | notNumeral
deriving DecidableEq

/-- How much of a quoted text a message about an integer shows. -/
def shownLength : Nat := 200

/-- The words for a number literal without a value. -/
def NumberFault.message (t : Text) : NumberFault → Text
  | .tooLarge => "int too large to convert to float"
  | .notNumeral =>
    if Double.hasHexMark t then
      "invalid literal for int() with base 16: " ++ (Text.quoted (t.drop 2)).take shownLength
    else "could not convert string to float: " ++ t.quoted

/-- The value of a number literal. -/
def number (t : Text) : Except NumberFault Double :=
  if Double.hasHexMark t then
    match Double.hexInteger? (t.drop 2) with
    | some n =>
      match Double.ofInt? n with
      | some d => .ok d
      | none => .error .tooLarge
    | none => .error .notNumeral
  else
    match Double.ofText? t with
    | some d => .ok d
    | none => .error .notNumeral

end TailLoop.Literal
