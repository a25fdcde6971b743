import Naskah.Number.Remainder
import Naskah.Value.Text

/-
  The operators on values. Addition joins texts and puts the printed form of any other value next to
  a text; the rest of arithmetic is for numbers; order is for two numbers or two texts, and texts are
  ordered by their characters; equality is for all values and never holds between types.
-/

namespace Naskah

namespace Value

/-- Equality in the language: `0` equals `-0`, and what is not a number differs from itself. -/
def same : Value → Value → Bool
  | number x, number y => x == y
  | text s, text t => s == t
  | boolean b, boolean c => b == c
  | _, _ => false

/-- The order of two floats; none if one of them is not a number. -/
def floatOrder (x y : Float) : Option Ordering :=
  if x < y then some .lt
  else if x == y then some .eq
  else if x > y then some .gt
  else none

/-- The order of two values that can be ordered; the inner option is as for floats. -/
def order? : Value → Value → Option (Option Ordering)
  | number x, number y => some (floatOrder x y)
  | text s, text t => some (some (compare s t))
  | _, _ => none

end Value

namespace BinaryOp

/-- Whether a relational operator holds of operands in the given order. -/
def holds : BinaryOp → Ordering → Bool
  | greater, o => o.isGT
  | greaterEqual, o => o.isGE
  | less, o => o.isLT
  | lessEqual, o => o.isLE
  | _, _ => false

/-- The arithmetic of an operator other than addition. -/
def arithmetic : BinaryOp → Float → Float → Float
  | subtract, x, y => x - y
  | multiply, x, y => x * y
  | divide, x, y => x / y
  | _, x, y => remainder x y

/-- The error of an operator that does not fit the types of its operands. -/
def mismatch (op : BinaryOp) (left right : Value) : RuntimeError :=
  .typeMismatch (.binary op left.type right.type)

/-- Addition: of numbers, or of texts when at least one operand is a text. -/
def sum : Value → Value → Except RuntimeError Value
  | .number x, .number y => .ok (.number (x + y))
  | .text s, right => .ok (.text (s ++ right.display))
  | left, .text t => .ok (.text (left.display ++ t))
  | left, right => .error (mismatch add left right)

/-- Arithmetic that is for numbers only. -/
def numeric (op : BinaryOp) : Value → Value → Except RuntimeError Value
  | .number x, .number y => .ok (.number (op.arithmetic x y))
  | left, right => .error (op.mismatch left right)

/-- A relational operator. -/
def relation (op : BinaryOp) (left right : Value) : Except RuntimeError Value :=
  match left.order? right with
  | some o => .ok (.boolean (o.any op.holds))
  | none => .error (op.mismatch left right)

/-- An operator applied to the values of both operands. Of `dan` and `atau` the value is that of the
    operand that decides. -/
def apply (op : BinaryOp) (left right : Value) : Except RuntimeError Value :=
  match op with
  | add => sum left right
  | subtract | multiply | divide | modulo => op.numeric left right
  | greater | greaterEqual | less | lessEqual => op.relation left right
  | equal => .ok (.boolean (left.same right))
  | notEqual => .ok (.boolean (!left.same right))
  | and => .ok (if left.isTruthy then right else left)
  | or => .ok (if left.isTruthy then left else right)

end BinaryOp

/-- A unary operator applied to a value: the truth of any value can be denied, and numbers can be
    negated. -/
def UnaryOp.apply : UnaryOp → Value → Except RuntimeError Value
  | .not, v => .ok (.boolean (!v.isTruthy))
  | .negate, .number x => .ok (.number (-x))
  | .negate, v => .error (.typeMismatch (.negation v.type))

end Naskah
