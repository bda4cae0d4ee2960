import TailLoop.Grammar.Symbol
import TailLoop.Text.Class

/-!
# Tokens

How much of a text each kind of token takes. Names, numbers and strings are tried before signs, and
longer signs before shorter ones. Only the terminals that the reader can go on with are tried, so
a keyword is a name wherever the keyword itself cannot stand, and where no name can stand a keyword
ends without regard to what follows it.
-/

namespace TailLoop.Source

open Grammar

/-- How many code points a name takes at the start of a text. -/
def nameLength? : Text → Option Nat
  | c :: rest =>
    if Text.isNameStart c then some (1 + (rest.takeWhile Text.isNamePart).length) else none
  | [] => none

/-- How many decimal digits a text starts with. -/
def digitsLength (t : Text) : Nat := (t.takeWhile Text.isDecimal).length

/-- Whether a code point is a letter in either case. -/
def isLetterOf (letter c : Nat) : Bool := Text.lowerPoint c == letter

/-- How many code points an exponent takes at the start of a text; zero when there is none. -/
def exponentLength : Text → Nat
  | e :: rest =>
    if isLetterOf 'e'.toNat e then
      let signLength :=
        match rest with
        | s :: _ => if s = '+'.toNat ∨ s = '-'.toNat then 1 else 0
        | [] => 0
      let digits := digitsLength (rest.drop signLength)
      if digits = 0 then 0 else 1 + signLength + digits
    else 0
  | [] => 0

/-- How many code points a hexadecimal number takes at the start of a text. -/
def hexLength? : Text → Option Nat
  | z :: x :: rest =>
    let digits := (rest.takeWhile Text.isHexDigit).length
    if z = '0'.toNat ∧ isLetterOf 'x'.toNat x ∧ digits ≠ 0 then some (2 + digits) else none
  | _ => none

/-- How many code points the digits and the fraction of a decimal number take. -/
def decimalLength? (t : Text) : Option Nat :=
  let whole := digitsLength t
  match t.drop whole with
  | c :: rest =>
    if c = '.'.toNat then
      let fraction := digitsLength rest
      if whole = 0 ∧ fraction = 0 then none else some (whole + 1 + fraction)
    else if whole = 0 then none else some whole
  | [] => if whole = 0 then none else some whole

/-- How many code points a number takes at the start of a text. -/
def numberLength? (t : Text) : Option Nat :=
  (hexLength? t).or ((decimalLength? t).map fun n => n + exponentLength (t.drop n))

/-- How many code points the inside of a string and its closing quote take. A line cannot end in
it, not even after a backslash. -/
def stringRest? (quote : Nat) : (escaped : Bool) → Text → Option Nat
  | _, [] => none
  | true, c :: rest =>
    if c = Text.newline then none else (stringRest? quote false rest).map (· + 1)
  | false, c :: rest =>
    if c = quote then some 1
    else if c = Text.newline then none
    else (stringRest? quote (c == '\\'.toNat) rest).map (· + 1)

/-- How many code points a string takes at the start of a text. -/
def stringLength? : Text → Option Nat
  | q :: rest =>
    if q = '"'.toNat ∨ q = '\''.toNat then (stringRest? q false rest).map (· + 1) else none
  | [] => none

/-- White space between tokens. -/
def isSpace (c : Nat) : Bool := c == 32 || c == 9 || c == 12 || c == 13 || c == 10

/-- How many code points remain up to and with the end of a comment in `/* */`. -/
def commentRest? : Text → Option Nat
  | [] => none
  | c :: rest =>
    if c = '*'.toNat ∧ rest.head? = some '/'.toNat then some 2
    else (commentRest? rest).map (· + 1)

/-- How many code points are skipped at the start of a text: a run of white space or a comment. -/
def skipLength? : Text → Option Nat
  | c :: rest =>
    if isSpace c then some (1 + (rest.takeWhile isSpace).length)
    else if c = '/'.toNat then
      match rest with
      | d :: more =>
        if d = '/'.toNat then some (2 + (more.takeWhile (· != Text.newline)).length)
        else if d = '*'.toNat then (commentRest? more).map (· + 2)
        else none
      | [] => none
    else none
  | [] => none

/-- The terminals of a fixed spelling that may be tried: keywords only where no name is tried. -/
def fixedCandidates (allowed : List Terminal) : List (Terminal × Text) :=
  let named := allowed.contains .name
  Terminal.fixed.filterMap fun (t, _, spelling) =>
    if allowed.contains t && !(named && Terminal.keywords.contains t) then some (t, spelling)
    else none

/-- The longest of the given spellings at the start of a text. -/
def longestFixed? (t : Text) : List (Terminal × Text) → Option (Terminal × Nat)
  | [] => none
  | (terminal, spelling) :: rest =>
    let other := longestFixed? t rest
    if t.startsWith spelling && other.all (·.2 < spelling.length) then
      some (terminal, spelling.length)
    else other

/-- The keyword that a whole name is, among the allowed terminals. -/
def keyword? (allowed : List Terminal) (name : Text) : Option Terminal :=
  (Terminal.keywordTable.find? fun (t, _, spelling) => spelling == name && allowed.contains t).map
    (·.1)

/-- The token at the start of a text when only the given terminals are tried: its terminal and how
many code points it takes. -/
def match? (allowed : List Terminal) (t : Text) : Option (Terminal × Nat) :=
  let name? := if allowed.contains .name then nameLength? t else none
  let number? := if allowed.contains .number then numberLength? t else none
  let string? := if allowed.contains .string then stringLength? t else none
  match name?, number?, string? with
  | some n, _, _ => some ((keyword? allowed (t.take n)).getD .name, n)
  | none, some n, _ => some (.number, n)
  | none, none, some n => some (.string, n)
  | none, none, none => longestFixed? t (fixedCandidates allowed)

/-- The terminals to name as expected when none of the allowed ones matches. Keywords are not named
beside the name. -/
def expectedOf (allowed : List Terminal) : List Terminal :=
  let named := allowed.contains .name
  allowed.filter fun t => t != .endOfInput && !(named && Terminal.keywords.contains t)

end TailLoop.Source
