import Naskah.Expr.Basic
import Naskah.Number.Numeral
import Naskah.Parsed

/-
  Parsing of expressions. The levels, the loosest first:

    logical     negation, joined from the left by `dan` and `atau`
    negation    `bukan` and a negation, or a comparison
    comparison  a sum, or two sums with one relational operator between them
    sum         products, joined from the left by `+` and `-`
    product     signed operands, joined from the left by `*`, `/` and `%`
    sign        `-` and a sign, or a literal
    literal     a logical expression in parentheses, a number, a string, `benar`, `salah`, a name

  Two limits hold. Parentheses, `bukan` and `-` use up nesting levels, which are shared with the
  blocks around the expression; and a whole expression holds at most `maxOperators` operators.
-/

namespace Naskah

/-- The number of nesting levels of a program. -/
def maxNesting : Nat := 200

/-- The number of operators that one expression may hold. -/
def maxOperators : Nat := 1000

/-- The levels of the expression grammar. -/
inductive Expr.Level where
  | logical
  | negation
  | comparison
  | sum
  | product
  | sign
  | literal
deriving DecidableEq, Repr

namespace Expr.Parse

/-- A part of an expression that has been parsed, with fewer than `n` tokens left. -/
structure Operand (n : Nat) where
  expr : Expr
  /-- The operators met so far in the whole expression. -/
  used : Nat
  rest : Feed
  shorter : rest.size < n

/-- Parses a part of an expression, given the number of operators met before it. -/
abbrev OperandParser : Type :=
  (f : Feed) → (used : Nat) → Except Error (Operand f.size)

/-- Counts an operator and passes it; `line` is where the whole expression starts. -/
def takeOperator {n : Nat} (line used : Nat)
    (next : Except LexError { rest : Feed // rest.size < n }) :
    Except Error (Nat × { rest : Feed // rest.size < n }) :=
  if maxOperators ≤ used then .error (.structural (.expressionTooLarge maxOperators line))
  else
    match next with
    | .error e => .error (.lexical e)
    | .ok rest => .ok (used + 1, rest)

def logical? : Token.Kind → Option BinaryOp
  | .keyword .dan => some .and
  | .keyword .atau => some .or
  | _ => none

def relational? : Token.Kind → Option BinaryOp
  | .symbol .greater => some .greater
  | .symbol .greaterEquals => some .greaterEqual
  | .symbol .less => some .less
  | .symbol .lessEquals => some .lessEqual
  | .symbol .doubleEquals => some .equal
  | .symbol .notEquals => some .notEqual
  | _ => none

def additive? : Token.Kind → Option BinaryOp
  | .symbol .plus => some .add
  | .symbol .minus => some .subtract
  | _ => none

def multiplicative? : Token.Kind → Option BinaryOp
  | .symbol .star => some .multiply
  | .symbol .slash => some .divide
  | .symbol .percent => some .modulo
  | _ => none

/-- Joins further operands to `left`, from the left, as long as operators follow. -/
def chain (op? : Token.Kind → Option BinaryOp) (operand : OperandParser) (line : Nat) {n : Nat}
    (left : Operand n) : Except Error (Operand n) :=
  match left.rest.take? with
  | none => .ok left
  | some (t, next) =>
    match op? t.kind with
    | none => .ok left
    | some op =>
      match takeOperator line left.used next with
      | .error e => .error e
      | .ok (used, behind) =>
        match operand behind.1 used with
        | .error e => .error e
        | .ok right =>
          chain op? operand line
            ⟨.binary op left.expr right.expr, right.used, right.rest,
              Nat.lt_trans right.shorter (Nat.lt_trans behind.2 left.shorter)⟩
termination_by left.rest.size
decreasing_by exact Nat.lt_trans right.shorter behind.2

/-- An operand and all that are joined to it. -/
def joined (op? : Token.Kind → Option BinaryOp) (operand : OperandParser) (line : Nat) :
    OperandParser := fun f used =>
  match operand f used with
  | .error e => .error e
  | .ok left => chain op? operand line left

/-- A literal, with `nested` for what stands in parentheses. An error in the text behind the first
    token of the literal comes before a complaint about that token. -/
def literal (nested : Level → OperandParser) : OperandParser := fun f used =>
  match f.take? with
  | none => .error (.structural (.unexpectedEnd .expression f.line))
  | some (_, .error e) => .error (.lexical e)
  | some (t, .ok rest) =>
    match t.kind with
    | .symbol .parenOpen =>
      match nested .logical rest.1 used with
      | .error e => .error e
      | .ok inner =>
        match expectSymbol .parenClose inner.rest with
        | .error e => .error e
        | .ok close =>
          .ok ⟨inner.expr, inner.used, close.rest,
            Nat.lt_trans close.shorter (Nat.lt_trans inner.shorter rest.2)⟩
    | .keyword .benar => .ok ⟨.boolean true, used, rest.1, rest.2⟩
    | .keyword .salah => .ok ⟨.boolean false, used, rest.1, rest.2⟩
    | .number digits =>
      match Numeral.read? digits.toList with
      | none => .error (.structural (.invalidNumber digits t.line))
      | some x => .ok ⟨.number x, used, rest.1, rest.2⟩
    | .string content => .ok ⟨.text content, used, rest.1, rest.2⟩
    | .identifier name => .ok ⟨.variable name, used, rest.1, rest.2⟩
    | kind => .error (.structural (.unexpected .expression (.token kind) t.line))

/-- A unary operator and its operand, or what `otherwise` parses. -/
def marked (op : UnaryOp) (mark : Token.Kind) (operand otherwise : OperandParser) (line : Nat) :
    OperandParser := fun f used =>
  match f.take? with
  | none => otherwise f used
  | some (t, next) =>
    if t.kind = mark then
      match takeOperator line used next with
      | .error e => .error e
      | .ok (used, behind) =>
        match operand behind.1 used with
        | .error e => .error e
        | .ok inner =>
          .ok ⟨.unary op inner.expr, inner.used, inner.rest,
            Nat.lt_trans inner.shorter behind.2⟩
    else otherwise f used

/-- One operand, or two with a relational operator between them; a second relational operator is
    refused. -/
def compared (operand : OperandParser) (line : Nat) : OperandParser := fun f used =>
  match operand f used with
  | .error e => .error e
  | .ok left =>
    match left.rest.take? with
    | none => .ok left
    | some (t, next) =>
      match relational? t.kind with
      | none => .ok left
      | some op =>
        match takeOperator line left.used next with
        | .error e => .error e
        | .ok (used, behind) =>
          match operand behind.1 used with
          | .error e => .error e
          | .ok right =>
            if (right.rest.current?.bind relational?).isSome then
              .error (.structural (.chainedComparison right.rest.line))
            else
              .ok ⟨.binary op left.expr right.expr, right.used, right.rest,
                Nat.lt_trans right.shorter (Nat.lt_trans behind.2 left.shorter)⟩

section Levels

variable (nested : Level → OperandParser) (line : Nat)

def sign : OperandParser :=
  marked .negate (.symbol .minus) (nested .sign) (literal nested) line

def product : OperandParser :=
  joined multiplicative? (sign nested line) line

def sum : OperandParser :=
  joined additive? (product nested line) line

def comparison : OperandParser :=
  compared (sum nested line) line

def negation : OperandParser :=
  marked .not (.keyword .bukan) (nested .negation) (comparison nested line) line

def logical : OperandParser :=
  joined logical? (negation nested line) line

/-- The parser of each level, with `nested` for the operands that lie one level of nesting
    deeper. -/
def atLevel : Level → OperandParser
  | .literal => literal nested
  | .sign => sign nested line
  | .product => product nested line
  | .sum => sum nested line
  | .comparison => comparison nested line
  | .negation => negation nested line
  | .logical => logical nested line

end Levels

/-- Parses an operand one nesting level deeper, of which there are `room` left. -/
def nested (line : Nat) : Nat → Level → OperandParser
  | 0, _ => fun f _ => .error (.structural (.nestingTooDeep maxNesting f.line))
  | room + 1, level => atLevel (nested line room) line level

end Expr.Parse

open Expr.Parse in
/-- Parses a whole expression where `room` nesting levels are left. -/
def Expr.parse (room : Nat) : Parser Expr := fun f =>
  match atLevel (nested f.line room) f.line .logical f 0 with
  | .error e => .error e
  | .ok whole => .ok ⟨whole.expr, whole.rest, whole.shorter⟩

end Naskah
