import TailLoop.Double.Basic

/-!
# Decimal numerals of doubles

Reading a decimal gives the nearest double. In the other direction a finite number is written with
the fewest decimal digits that read back as it; among those, the nearest decimal is taken, and an
exact tie goes to the even last digit.
-/

namespace TailLoop.Double

/-- How many decimal digits a number has; zero has one. -/
def digitCount (n : Nat) : Nat := (Nat.toDigits 10 n).length

/-- The double nearest to `digits * 10 ^ exponent`. A magnitude far outside the range of doubles is
settled without computing the power. -/
def ofDecimal (negative : Bool) (digits : Nat) (exponent : Int) : Double :=
  if digits = 0 then zero negative
  else
    let magnitude : Int := digitCount digits + exponent
    if magnitude > 310 then .infinite negative
    else if magnitude < -330 then zero negative
    else if 0 ≤ exponent then round negative (digits * Nat.pow 10 exponent.toNat) 0
    else ofRatio negative digits (Nat.pow 10 (-exponent).toNat)

/-- A positive rational number: a numerator over a denominator. -/
structure Ratio where
  /-- The number above the line. -/
  num : Nat
  /-- The number below the line, not zero. -/
  den : Nat

/-- The ratio `n * 2 ^ e`. -/
def Ratio.ofBinary (n : Nat) (e : Int) : Ratio := ⟨n <<< e.toNat, 1 <<< (-e).toNat⟩

/-- The ratio `n * 10 ^ e`. -/
def Ratio.ofDecimal (n : Nat) (e : Int) : Ratio :=
  ⟨n * Nat.pow 10 e.toNat, Nat.pow 10 (-e).toNat⟩

/-- Strict order of ratios. -/
def Ratio.lt (a b : Ratio) : Bool := a.num * b.den < b.num * a.den

/-- The decimal exponent of a positive ratio: the greatest `k` with `10 ^ k` not above it. The
estimate from the digit counts is never too low and at most one too high. -/
def Ratio.exponent (r : Ratio) : Int :=
  let k : Int := digitCount r.num - digitCount r.den
  if r.lt (.ofDecimal 1 k) then k - 1 else k

/-- The reals that round to a given double: between two bounds, which belong to it or do not. -/
structure Interval where
  /-- The lower bound. -/
  lower : Ratio
  /-- The upper bound. -/
  upper : Ratio
  /-- Whether the bounds themselves round to the double, which ties to even give to even ones. -/
  closed : Bool

/-- The rounding interval of `m * 2 ^ e`. Below a power of two the neighbour is half as far. -/
def Interval.ofParts (m : Nat) (e : Int) : Interval :=
  let narrow := m = 1 <<< 52 ∧ -1074 < e
  { lower := .ofBinary (4 * m - (if narrow then 1 else 2)) (e - 2)
    upper := .ofBinary (4 * m + 2) (e - 2)
    closed := m % 2 = 0 }

/-- Whether a ratio lies in the interval. -/
def Interval.contains (i : Interval) (r : Ratio) : Bool :=
  if i.closed then !r.lt i.lower && !i.upper.lt r else i.lower.lt r && r.lt i.upper

/-- A positive decimal: its digits as a number, and the power of ten of its last digit. -/
structure Decimal where
  /-- All digits, read as one number. -/
  digits : Nat
  /-- The power of ten by which the digits are multiplied. -/
  exponent : Int
deriving DecidableEq

/-- The neighbour of `value` on the grid of multiples of `10 ^ k` that lies in the interval: of two
the nearer, at equal distance the even one. -/
def nearestOnGrid (value : Ratio) (interval : Interval) (k : Int) : Option Decimal :=
  let scaledNum := value.num * Nat.pow 10 (-k).toNat
  let scaledDen := value.den * Nat.pow 10 k.toNat
  let below := scaledNum / scaledDen
  let rest := 2 * (scaledNum % scaledDen)
  let belowFits := 0 < below && interval.contains (.ofDecimal below k)
  let aboveFits := interval.contains (.ofDecimal (below + 1) k)
  let preferBelow := rest < scaledDen || (rest == scaledDen && below % 2 == 0)
  if belowFits && (preferBelow || !aboveFits) then some ⟨below, k⟩
  else if aboveFits then some ⟨below + 1, k⟩
  else none

/-- Tries grids from coarse to fine: `count` more digits from power `k` on. -/
def firstOnGrids (value : Ratio) (interval : Interval) : Nat → Int → Option Decimal
  | 0, _ => none
  | count + 1, k =>
    (nearestOnGrid value interval k).or (firstOnGrids value interval count (k - 1))

/-- The shortest decimal that reads back as `m * 2 ^ e`. Seventeen digits always suffice. -/
def shortest (m : Nat) (e : Int) : Decimal :=
  let value := Ratio.ofBinary m e
  let interval := Interval.ofParts m e
  (firstOnGrids value interval 17 value.exponent).getD ⟨m, e⟩

end TailLoop.Double
