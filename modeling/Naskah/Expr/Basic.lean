/-
  Expressions: literals, variables, and unary and binary operators.
-/

namespace Naskah

inductive UnaryOp where
  | negate
  | not
deriving DecidableEq, Repr

inductive BinaryOp where
  | add
  | subtract
  | multiply
  | divide
  | modulo
  | and
  | or
  | greater
  | greaterEqual
  | less
  | lessEqual
  | equal
  | notEqual
deriving DecidableEq, Repr

namespace BinaryOp

def all : List BinaryOp :=
  [add, subtract, multiply, divide, modulo, and, or, greater, greaterEqual, less, lessEqual, equal,
    notEqual]

/-- How the operator is written in source text. -/
def spelling : BinaryOp → String
  | add => "+"
  | subtract => "-"
  | multiply => "*"
  | divide => "/"
  | modulo => "%"
  | and => "dan"
  | or => "atau"
  | greater => ">"
  | greaterEqual => ">="
  | less => "<"
  | lessEqual => "<="
  | equal => "=="
  | notEqual => "!="

/-- The operator that is written so. -/
def ofSpelling? (s : String) : Option BinaryOp :=
  all.find? (·.spelling == s)

theorem ofSpelling?_spelling (op : BinaryOp) : ofSpelling? op.spelling = some op := by
  cases op <;> decide

end BinaryOp

inductive Expr where
  | number (x : Float)
  | text (s : String)
  | boolean (b : Bool)
  | variable (name : String)
  | unary (op : UnaryOp) (operand : Expr)
  | binary (op : BinaryOp) (left right : Expr)
deriving DecidableEq

/-- The number of operators in an expression. -/
def Expr.operators : Expr → Nat
  | .unary _ operand => operand.operators + 1
  | .binary _ left right => left.operators + right.operators + 1
  | _ => 0

end Naskah
