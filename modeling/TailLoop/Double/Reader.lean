import TailLoop.Text.Class
import TailLoop.Double.Decimal

/-!
# Reading numbers

Numbers are read from text in two ways: in decimal notation, with digits of any script, single
underscores between digits, an optional exponent, and the words for the infinities and for
not-a-number; and in hexadecimal.
-/

namespace TailLoop.Double

/-- Blanks that may surround a number. The separators of data records are not among them. -/
def isPadding (c : Nat) : Bool := Text.isBlank c && !(0x1c ≤ c && c ≤ 0x1f)

/-- The text without the padding at both ends. -/
def unpad (t : Text) : Text :=
  ((t.dropWhile isPadding).reverse.dropWhile isPadding).reverse

/-- A run of digits in which single underscores may separate two digits. Gives the digits' number
so far, their count and the rest; the text must start with a digit for a count above zero. -/
def digitRun (value? : Nat → Option Nat) (base : Nat) :
    (number count : Nat) → Text → Nat × Nat × Text
  | n, k, [] => (n, k, [])
  | n, k, c :: rest =>
    match value? c with
    | some v => digitRun value? base (n * base + v) (k + 1) rest
    | none =>
      match rest with
      | d :: more =>
        match c == '_'.toNat && 0 < k, value? d with
        | true, some v => digitRun value? base (n * base + v) (k + 1) more
        | _, _ => (n, k, c :: rest)
      | [] => (n, k, [c])

/-- The sign at the start of a text, and the rest. -/
def splitSign : Text → Bool × Text
  | c :: rest =>
    if c = '-'.toNat then (true, rest)
    else if c = '+'.toNat then (false, rest)
    else (false, c :: rest)
  | [] => (false, [])

/-- The exponent part of a numeral at the end of the text: none, or `e` with digits. -/
def exponentPart? : Text → Option Int
  | [] => some 0
  | c :: rest =>
    if Text.lowerPoint c = 'e'.toNat then
      let (negative, digits) := splitSign rest
      match digitRun Text.digitValue? 10 0 0 digits with
      | (n, k, []) => if k = 0 then none else some (if negative then -(n : Int) else n)
      | _ => none
    else none

/-- An unsigned decimal numeral: digits, a fraction, an exponent. -/
def unsigned? (negative : Bool) (t : Text) : Option Double :=
  let (whole, wholeCount, rest) := digitRun Text.digitValue? 10 0 0 t
  let (digits, fractionCount, rest) :=
    match rest with
    | c :: after =>
      if c = '.'.toNat then
        match digitRun Text.digitValue? 10 0 0 after with
        | (fraction, count, rest) => (whole * Nat.pow 10 count + fraction, count, rest)
      else (whole, 0, c :: after)
    | [] => (whole, 0, [])
  if wholeCount + fractionCount = 0 then none
  else (exponentPart? rest).map fun e => ofDecimal negative digits (e - fractionCount)

/-- The double that a text denotes, if it is a numeral or one of the words for a special number. -/
def ofText? (t : Text) : Option Double :=
  let (negative, body) := splitSign (unpad t)
  if body.lower = Text.ofString "inf" ∨ body.lower = Text.ofString "infinity" then
    some (.infinite negative)
  else if body.lower = Text.ofString "nan" then some .nan
  else unsigned? negative body

/-- The value of a hexadecimal digit, where the decimal digits may be those of any script. -/
def hexDigit? (c : Nat) : Option Nat := (Text.hexValue? c).or (Text.digitValue? c)

/-- The text after a leading `0x`, after which one underscore may stand. -/
def dropHexMark : Text → Text
  | z :: x :: rest =>
    if z = '0'.toNat ∧ Text.lowerPoint x = 'x'.toNat then
      match rest with
      | u :: more => if u = '_'.toNat then more else rest
      | [] => []
    else z :: x :: rest
  | t => t

/-- The integer that a text denotes in hexadecimal. -/
def hexInteger? (t : Text) : Option Int :=
  let (negative, body) := splitSign (unpad t)
  match digitRun hexDigit? 16 0 0 (dropHexMark body) with
  | (n, k, []) => if k = 0 then none else some (if negative then -(n : Int) else n)
  | _ => none

/-- Whether the text starts with `0x` in either case. -/
def hasHexMark : Text → Bool
  | z :: x :: _ => z == '0'.toNat && Text.lowerPoint x == 'x'.toNat
  | _ => false

end TailLoop.Double
