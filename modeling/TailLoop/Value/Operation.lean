import TailLoop.Operator
import TailLoop.Value.Bits
import TailLoop.Value.Coercion

/-!
# Operators on values

What the binary operators compute. Addition joins texts when one operand is a text or an array;
comparison of two texts goes by code points; the bitwise operators work on the 32-bit integers of
their operands.
-/

namespace TailLoop.Store

/-- Whether addition of a value joins texts. -/
def joinsTexts : Value → Bool
  | .string _ => true
  | .array _ => true
  | _ => false

/-- A result of doubles computed from both operands as numbers. -/
def onNumbers (s : Store) (f : Double → Double → Double) (a b : Value) :
    Except RuntimeError Value := do
  let x ← s.number a
  let y ← s.number b
  return .number (f x y)

/-- A result computed bit by bit from both operands as 32-bit integers with sign. -/
def onBits (s : Store) (f : Bool → Bool → Bool) (a b : Value) : Except RuntimeError Value := do
  let x ← s.signed32 a
  let y ← s.signed32 b
  return .number (Double.ofInt (Bits.combine f x y))

/-- An order of both operands: texts by code points, anything else as numbers. Nothing is ordered
with not-a-number. -/
def ordered (s : Store) (texts : Text → Text → Bool) (numbers : Double → Double → Bool)
    (a b : Value) : Except RuntimeError Value :=
  match a, b with
  | .string t, .string u => .ok (.bool (texts t u))
  | _, _ => do
    let x ← s.number a
    let y ← s.number b
    return .bool (numbers x y)

/-- How far the second operand of a shift shifts. -/
def shiftCount (s : Store) (b : Value) : Except RuntimeError Nat := (s.unsigned32 b).map (· % 32)

/-- The result of a binary operator. -/
def operate (s : Store) (op : BinaryOperator) (a b : Value) : Except RuntimeError Value :=
  match op with
  | .add =>
    if joinsTexts a || joinsTexts b then do
      let t ← s.text a
      let u ← s.text b
      return .string (t ++ u)
    else s.onNumbers Double.add a b
  | .subtract => s.onNumbers Double.sub a b
  | .multiply => s.onNumbers Double.mul a b
  | .divide => s.onNumbers Double.div a b
  | .remainder => s.onNumbers Double.rem a b
  | .shiftLeft => do
    let x ← s.signed32 a
    let k ← s.shiftCount b
    return .number (Double.ofInt (wrapSigned (Double.ofInt (x * (1 <<< k : Nat)))))
  | .shiftRight => do
    let x ← s.signed32 a
    let k ← s.shiftCount b
    return .number (Double.ofInt (x >>> k))
  | .shiftRightUnsigned => do
    let x ← s.unsigned32 a
    let k ← s.shiftCount b
    return .number (Double.ofNat (x >>> k))
  | .bitAnd => s.onBits and a b
  | .bitOr => s.onBits or a b
  | .bitXor => s.onBits xor a b
  | .looseEqual => (s.looseEquals a b).map .bool
  | .looseUnequal => (s.looseEquals a b).map fun r => .bool !r
  | .strictEqual => .ok (.bool (a.strictEquals b))
  | .strictUnequal => .ok (.bool !(a.strictEquals b))
  | .less => s.ordered Text.before Double.lt a b
  | .greater => s.ordered (fun t u => u.before t) (fun x y => y.lt x) a b
  | .lessOrEqual => s.ordered (fun t u => !u.before t) Double.le a b
  | .greaterOrEqual => s.ordered (fun t u => !t.before u) (fun x y => y.le x) a b

/-- The result of a unary operator on the value of its operand. -/
def operateUnary (s : Store) (op : Option UnaryOperator) (v : Value) : Except RuntimeError Value :=
  match op with
  | some .not => .ok (.bool !v.truthy)
  | some .negate => (s.number v).map fun d => .number d.neg
  | some .plus => (s.number v).map .number
  | some .complement => (s.signed32 v).map fun n => .number (Double.ofInt (-n - 1))
  | some .typeOf => .ok (.string v.type.name)
  | some .void | none => .ok .undefined

end TailLoop.Store
