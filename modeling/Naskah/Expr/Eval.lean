import Naskah.Environment
import Naskah.Expr.Basic
import Naskah.Value.Operator

/-
  Evaluation of expressions. Operands are evaluated from the left; `dan` and `atau` leave out their
  right operand when the left one decides, and give the value of the operand that decided.
-/

namespace Naskah

/-- The value of an expression. -/
def Expr.eval (env : Environment) : Expr → Except RuntimeError Value
  | .number x => .ok (.number x)
  | .text s => .ok (.text s)
  | .boolean b => .ok (.boolean b)
  | .variable name =>
    match env.get? name with
    | some v => .ok v
    | none => .error (.unknownIdentifier name)
  | .unary op operand =>
    match operand.eval env with
    | .error e => .error e
    | .ok v => op.apply v
  | .binary .and left right =>
    match left.eval env with
    | .error e => .error e
    | .ok v => if v.isTruthy then right.eval env else .ok v
  | .binary .or left right =>
    match left.eval env with
    | .error e => .error e
    | .ok v => if v.isTruthy then .ok v else right.eval env
  | .binary op left right =>
    match left.eval env with
    | .error e => .error e
    | .ok v =>
      match right.eval env with
      | .error e => .error e
      | .ok w => op.apply v w

end Naskah
