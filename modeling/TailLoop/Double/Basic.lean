import TailLoop.Text.Basic

/-!
# Double-precision numbers

A number is an IEEE 754 double: not a number, an infinity, or a sign with a significand and a binary
exponent in the one canonical form. Every operation computes its exact result in integers and
rounds once, to nearest with ties to even, through `Double.round` or `Double.ofRatio`.
-/

namespace TailLoop

/-- The one form `significand * 2 ^ exponent` of a finite double: 53 bits, all of them used unless
the exponent is the least one. -/
def Double.Canonical (significand : Nat) (exponent : Int) : Prop :=
  significand < 1 <<< 53 ∧ -1074 ≤ exponent ∧ exponent ≤ 971 ∧
    (1 <<< 52 ≤ significand ∨ exponent = -1074)

instance (significand : Nat) (exponent : Int) : Decidable (Double.Canonical significand exponent) :=
  inferInstanceAs (Decidable (_ ∧ _ ∧ _ ∧ _))

/-- A double-precision number. All bit patterns of "not a number" are one value. -/
inductive Double where
  /-- Not a number. -/
  | nan
  /-- An infinity. -/
  | infinite (negative : Bool)
  /-- The number `significand * 2 ^ exponent`, negated when `negative`; zero has both signs. -/
  | finite (negative : Bool) (significand : Nat) (exponent : Int)
      (canonical : Double.Canonical significand exponent)
deriving DecidableEq

namespace Double

/-- Zero of the given sign. -/
def zero (negative : Bool) : Double := .finite negative 0 (-1074) (by decide)

instance : Inhabited Double := ⟨zero false⟩

/-- The number of the given form, or an infinity when its exponent is out of range. -/
def ofParts (negative : Bool) (significand : Nat) (exponent : Int) : Double :=
  if h : Canonical significand exponent then .finite negative significand exponent h
  else .infinite negative

/-- `n / 2 ^ k` to the nearest integer, a tie to the even one. -/
def shiftRound (n k : Nat) : Nat :=
  let quotient := n >>> k
  let rest := n - quotient <<< k
  if 2 * rest > 1 <<< k ∨ (2 * rest = 1 <<< k ∧ quotient % 2 = 1) then quotient + 1 else quotient

/-- The double nearest to `n * 2 ^ e`, a tie going to the even significand. -/
def round (negative : Bool) (n : Nat) (e : Int) : Double :=
  if n = 0 then zero negative
  else
    let q := max (e + Nat.log2 n - 52) (-1074)
    let m := if q ≤ e then n <<< (e - q).toNat else shiftRound n (q - e).toNat
    if m = 1 <<< 53 then ofParts negative (1 <<< 52) (q + 1) else ofParts negative m q

/-- The double nearest to `n / d`, for a positive `d`. The quotient is taken to at least 55 bits,
and one more bit records whether anything was left over. -/
def ofRatio (negative : Bool) (n d : Nat) : Double :=
  if n = 0 then zero negative
  else
    let s : Int := 55 + Nat.log2 d - Nat.log2 n
    let n' := n <<< s.toNat
    let d' := d <<< (-s).toNat
    round negative (2 * (n' / d') + (if n' % d' = 0 then 0 else 1)) (-s - 1)

/-- The double nearest to an integer; it is an infinity when the integer is too large. -/
def ofInt (n : Int) : Double := round (n < 0) n.natAbs 0

/-- The double nearest to a natural number. -/
def ofNat (n : Nat) : Double := round false n 0

/-- The double nearest to an integer, unless that is an infinity. -/
def ofInt? (n : Int) : Option Double :=
  match ofInt n with
  | .infinite _ => none
  | d => some d

/-- Whether the number is not a number. -/
def isNaN : Double → Bool
  | .nan => true
  | _ => false

/-- Whether the number is a zero of either sign. -/
def isZero : Double → Bool
  | .finite _ m _ _ => m == 0
  | _ => false

/-- The number with its sign turned. -/
def neg : Double → Double
  | .nan => .nan
  | .infinite s => .infinite !s
  | .finite s m e h => .finite (!s) m e h

/-- The number without its sign. -/
def abs : Double → Double
  | .nan => .nan
  | .infinite _ => .infinite false
  | .finite _ m e h => .finite false m e h

/-- The significand with its sign, counted in units of `2 ^ unit` for a unit not above the exponent
of the number. -/
def scaled (negative : Bool) (significand : Nat) (exponent unit : Int) : Int :=
  let n : Int := (significand <<< (exponent - unit).toNat : Nat)
  if negative then -n else n

/-- The integer toward zero from a finite number. -/
def truncate? : Double → Option Int
  | .finite s m e _ =>
    let n : Int := (if 0 ≤ e then m <<< e.toNat else m >>> (-e).toNat : Nat)
    some (if s then -n else n)
  | _ => none

/-- The greatest integer not above a finite number. -/
def floor? : Double → Option Int
  | .finite s m e _ =>
    let n : Int := if s then -m else m
    some (if 0 ≤ e then n * (1 <<< e.toNat : Nat) else n.fdiv (1 <<< (-e).toNat : Nat))
  | _ => none

/-- The integer that a finite number is, if it is one. -/
def integer? : Double → Option Int
  | .finite s m e _ =>
    if 0 ≤ e then
      let n : Int := (m <<< e.toNat : Nat)
      some (if s then -n else n)
    else if m % 1 <<< (-e).toNat = 0 then
      let n : Int := (m >>> (-e).toNat : Nat)
      some (if s then -n else n)
    else none
  | _ => none

/-- Numeric equality: the zeros are equal, and not-a-number equals nothing. -/
def eq : Double → Double → Bool
  | .infinite s, .infinite t => s == t
  | .finite s m e _, .finite t n f _ => (m == 0 && n == 0) || (s == t && m == n && e == f)
  | _, _ => false

/-- Numeric order; not-a-number is below and above nothing. -/
def lt : Double → Double → Bool
  | .nan, _ => false
  | _, .nan => false
  | .infinite s, .infinite t => s && !t
  | .infinite s, .finite .. => s
  | .finite .., .infinite t => !t
  | .finite s m e _, .finite t n f _ =>
    let unit := min e f
    scaled s m e unit < scaled t n f unit

/-- Numeric order or equality. -/
def le (a b : Double) : Bool := lt a b || eq a b

end Double

end TailLoop
