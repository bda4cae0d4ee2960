import TailLoop.Double.Decimal

/-!
# Number text

Two spellings of a number: the plain one, which dumps and messages use, and the one of programs,
where an integral value is written without a fraction.
-/

namespace TailLoop.Double

/-- The decisions of a number format. -/
structure Layout where
  /-- The least power of ten of the first digit that is written positionally. -/
  lowest : Int
  /-- The greatest such power. -/
  highest : Int
  /-- How many digits an exponent has at least. -/
  exponentWidth : Nat

/-- Numbers are positional from `0.0001` up to sixteen integer digits; an exponent has a sign and
at least two digits. -/
def layout : Layout := ⟨-4, 15, 2⟩

/-- An exponent with its sign, filled up with zeros. -/
def exponentText (width : Nat) (e : Int) : Text :=
  let digits := Text.ofNat e.natAbs
  (if e < 0 then Text.ofString "-" else Text.ofString "+") ++
    List.replicate (width - digits.length) '0'.toNat ++ digits

/-- A positive decimal in a layout. A positional integer gets a fraction of one zero. -/
def Layout.write (l : Layout) (d : Decimal) : Text :=
  let digits := Text.ofNat d.digits
  let first : Int := d.exponent + digits.length - 1
  let zeros (n : Int) : Text := List.replicate n.toNat '0'.toNat
  if first < l.lowest ∨ l.highest < first then
    let fraction := digits.drop 1
    let tail := if fraction = [] then [] else Text.ofString "." ++ fraction
    digits.take 1 ++ tail ++ "e" ++ exponentText l.exponentWidth first
  else if 0 ≤ d.exponent then digits ++ zeros d.exponent ++ ".0"
  else if first < 0 then "0." ++ zeros (-first - 1) ++ digits
  else
    let whole := (first + 1).toNat
    digits.take whole ++ "." ++ digits.drop whole

/-- The decimal without trailing zeros among its digits. -/
def Decimal.trim : Nat → Decimal → Decimal
  | 0, d => d
  | n + 1, d => if d.digits % 10 = 0 then Decimal.trim n ⟨d.digits / 10, d.exponent + 1⟩ else d

/-- The number as dumps and messages show it. -/
def text : Double → Text
  | .nan => "nan"
  | .infinite s => if s then "-inf" else "inf"
  | .finite s m e _ =>
    let magnitude : Text :=
      if m = 0 then "0.0" else layout.write (Decimal.trim 17 (shortest m e))
    if s then "-" ++ magnitude else magnitude

/-- The bound below which integral numbers are written out in full by programs. -/
def wholeBound : Nat := Nat.pow 10 21

/-- The number as a program spells it: integral values below `10 ^ 21` in full, without a fraction
and without a sign on zero. -/
def numeral : Double → Text
  | .nan => "NaN"
  | .infinite s => if s then "-Infinity" else "Infinity"
  | d =>
    match d.integer? with
    | some n => if n.natAbs < wholeBound then Text.ofInt n else d.text
    | none => d.text

end TailLoop.Double
