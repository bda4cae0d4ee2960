/-!
# Bits of integers

Integers have bits in two's complement: above its highest bit a natural number has zeros without
end, and a negative integer ones. Bitwise operations combine two integers bit by bit, the endless
bits included, so that they need no width. The definitions need the core library alone; Mathlib has
the same operation as `Int.bitwise`.
-/

namespace TailLoop.Bits

/-- Whether the endless bits of an integer are ones, and the natural number of the bits below that
differ from them. -/
def split : Int → Bool × Nat
  | .ofNat n => (false, n)
  | .negSucc n => (true, n)

/-- The integer with the given endless bits and the bits that differ from them. -/
def join : Bool → Nat → Int
  | false, n => .ofNat n
  | true, n => .negSucc n

/-- Two integers combined bit by bit. -/
def combine (f : Bool → Bool → Bool) (a b : Int) : Int :=
  match split a, split b with
  | (p, m), (q, n) => join (f p q) (Nat.bitwise (fun x y => f (x != p) (y != q) != f p q) m n)

end TailLoop.Bits
