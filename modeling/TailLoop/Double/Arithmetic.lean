import TailLoop.Double.Basic

/-!
# Arithmetic on doubles

Addition, multiplication, division and remainder, each the exact result rounded once. The sign of
a zero result follows IEEE 754: a sum is negative zero only when both terms are, a product or
quotient takes the sign of its factors, a remainder that of the dividend.
-/

namespace TailLoop.Double

/-- The sum. -/
def add : Double → Double → Double
  | .nan, _ => .nan
  | _, .nan => .nan
  | .infinite s, .infinite t => if s = t then .infinite s else .nan
  | .infinite s, .finite .. => .infinite s
  | .finite .., .infinite t => .infinite t
  | .finite s m e _, .finite t n f _ =>
    let unit := min e f
    let sum := scaled s m e unit + scaled t n f unit
    if sum = 0 then zero (s && t) else round (sum < 0) sum.natAbs unit

/-- The difference. -/
def sub (a b : Double) : Double := add a (neg b)

/-- The product. -/
def mul : Double → Double → Double
  | .nan, _ => .nan
  | _, .nan => .nan
  | .infinite s, .infinite t => .infinite (s != t)
  | .infinite s, .finite t n _ _ => if n = 0 then .nan else .infinite (s != t)
  | .finite s m _ _, .infinite t => if m = 0 then .nan else .infinite (s != t)
  | .finite s m e _, .finite t n f _ => round (s != t) (m * n) (e + f)

/-- The quotient; a nonzero number over zero is an infinity. -/
def div : Double → Double → Double
  | .nan, _ => .nan
  | _, .nan => .nan
  | .infinite _, .infinite _ => .nan
  | .infinite s, .finite t _ _ _ => .infinite (s != t)
  | .finite s _ _ _, .infinite t => zero (s != t)
  | .finite s m e _, .finite t n f _ =>
    if n = 0 then if m = 0 then .nan else .infinite (s != t)
    else ofRatio (s != t) (m <<< (e - f).toNat) (n <<< (f - e).toNat)

/-- The remainder of the quotient truncated toward zero. -/
def rem : Double → Double → Double
  | .nan, _ => .nan
  | _, .nan => .nan
  | .infinite _, _ => .nan
  | .finite s m e h, .infinite _ => .finite s m e h
  | .finite s m e _, .finite _ n f _ =>
    if n = 0 then .nan
    else
      let unit := min e f
      round s ((m <<< (e - unit).toNat) % (n <<< (f - unit).toNat)) unit

/-- The larger of two numbers, the first when they are equal. -/
def larger (a b : Double) : Double := if lt a b then b else a

/-- The smaller of two numbers, the first when they are equal. -/
def smaller (a b : Double) : Double := if lt b a then b else a

/-- The circle constant. -/
def pi : Double := .finite false 7074237752028440 (-51) (by decide)

/-- One. -/
def one : Double := .finite false (1 <<< 52) (-52) (by decide)

end TailLoop.Double
