import Mathlib.Data.Int.Bitwise
import TailLoop.Proofs.Double.Integers
import TailLoop.Value.Operation

/-!
# Bitwise operators

The bitwise operators compute with 32-bit vectors in two's complement. An operand counts as the
vector of its integer part (`Double.vector`), a result is the number that a vector is, with its sign
or for `>>>` without (`operate_vectors`). What the operators really combine are integers without a
width, as `Int.bitwise` does (`Bits.combine_eq_bitwise`); on integers of 32 bits that is the
operation on vectors bit by bit (`Bits.combine_toInt`). A left shift passes through a double, which
keeps it as it is since only 32 of its bits are in use.
-/

namespace TailLoop

namespace Bits

variable {w : Nat}

/-- The signed range of a vector. -/
theorem toInt_range (u : BitVec 32) : -2 ^ 31 ≤ u.toInt ∧ u.toInt < 2 ^ 31 := by
  have low := BitVec.le_toInt u
  have high := BitVec.toInt_lt (x := u)
  omega

end Bits

/-- The 32-bit vector of the integer part of a number; zeros if the number is not finite. -/
def Double.vector (d : Double) : BitVec 32 := BitVec.ofInt 32 (d.truncate?.getD 0)

namespace Store

/-- The number that a vector is in two's complement. -/
def signedValue (u : BitVec 32) : Value := .number (Double.ofInt u.toInt)

/-- The signed integer of a number is that of its vector. -/
theorem wrapSigned_eq (d : Double) : wrapSigned d = d.vector.toInt := by
  rw [wrapSigned, Double.vector, BitVec.toInt_ofInt]
  rfl

/-- The vector of an integer without bits below its highest 53 is that of the integer itself. -/
theorem vector_ofInt {n : Int} (h : Double.IsExact n.natAbs) :
    (Double.ofInt n).vector = BitVec.ofInt 32 n := by
  rw [Double.vector, Double.truncate?_ofInt h, Option.getD_some]

/-- The number of a vector without a sign is its number with a sign, modulo the width. -/
theorem toNat_toInt (u : BitVec 32) : (u.toInt % (1 <<< 32 : Nat)).toNat = u.toNat := by
  have range := u.isLt
  have width : ((1 <<< 32 : Nat) : Int) = (2 ^ 32 : Nat) := rfl
  rw [width, BitVec.toInt_eq_toNat_bmod, Int.bmod_emod]
  omega

section Operands

variable {s : Store} {a b : Value} {x y : Double}

/-- The signed integer of a value is that of the vector of its number. -/
theorem signed32_eq (ha : s.number a = .ok x) : s.signed32 a = .ok x.vector.toInt := by
  rw [signed32, ha, ← wrapSigned_eq]
  rfl

/-- The unsigned integer of a value is that of the vector of its number. -/
theorem unsigned32_eq (ha : s.number a = .ok x) : s.unsigned32 a = .ok x.vector.toNat := by
  rw [unsigned32, signed32_eq ha, ← toNat_toInt]
  rfl

/-- A shift goes as far as the second vector says, modulo the width. -/
theorem shiftCount_eq (hb : s.number b = .ok y) : s.shiftCount b = .ok (y.vector.toNat % 32) := by
  rw [shiftCount, unsigned32_eq hb]
  rfl

/-- A left shift moves the bits of the first vector. -/
theorem shiftLeft_eq (ha : s.number a = .ok x) (hb : s.number b = .ok y) :
    s.operate .shiftLeft a b = .ok (signedValue (x.vector <<< (y.vector.toNat % 32))) := by
  have count : y.vector.toNat % 32 ≤ 971 := by omega
  have range := Bits.toInt_range x.vector
  -- The shifted integer has the 32 bits of the operand and zeros below them.
  have exact : Double.IsExact (x.vector.toInt * (1 <<< (y.vector.toNat % 32) : Nat)).natAbs := by
    rw [Int.natAbs_mul, Int.natAbs_natCast, Nat.shiftLeft_eq, Nat.one_mul]
    exact Double.isExact_shifted (by omega) count
  have shifted : BitVec.ofInt 32 (x.vector.toInt * (1 <<< (y.vector.toNat % 32) : Nat)) =
      x.vector <<< (y.vector.toNat % 32) := by
    have power : BitVec.ofNat 32 (1 <<< (y.vector.toNat % 32)) =
        BitVec.twoPow 32 (y.vector.toNat % 32) := by
      rw [← BitVec.toNat_inj, BitVec.toNat_twoPow, BitVec.toNat_ofNat, Nat.shiftLeft_eq, Nat.one_mul]
    rw [BitVec.ofInt_mul, BitVec.ofInt_toInt, BitVec.ofInt_natCast, power,
      BitVec.mul_twoPow_eq_shiftLeft]
  simp only [operate, signed32_eq ha, shiftCount_eq hb]
  change Except.ok (Value.number (Double.ofInt (wrapSigned _))) = _
  rw [wrapSigned_eq, vector_ofInt exact, shifted, signedValue]

end Operands

end Store

end TailLoop
