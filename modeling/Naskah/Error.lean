import Naskah.Expr.Basic
import Naskah.Token.Basic

/-
  The causes for which a text is refused or a run stops, and the message of each. A text is refused
  before anything of it runs; a run stops at the statement that fails.
-/

namespace Naskah

/-- Why a text cannot be cut into tokens. -/
inductive LexError where
  /-- No token starts with this character. -/
  | invalidCharacter (ch : Char) (line : Nat)
  /-- The text ends inside the string that starts on this line. -/
  | unclosedString (line : Nat)
deriving DecidableEq, Repr

def LexError.message : LexError → String
  | .invalidCharacter ch line => s!"Invalid token '{ch}' at line {line}"
  | .unclosedString line => s!"Missing closing quote for string starting at line {line}"

/-- The statements that are closed by `yaudah`. -/
inductive Construct where
  | cond
  | count
  | loop
deriving DecidableEq, Repr

/-- The word that opens the construct. -/
def Construct.opener : Construct → Keyword
  | cond => .kalo
  | count => .ulangin
  | loop => .selama

/-- What would have been accepted. -/
inductive Expectation where
  | keyword (k : Keyword)
  | symbol (s : Symbol)
  | expression
  | loopVariable
  | inputTarget
  | assignmentTarget
deriving DecidableEq, Repr

def Expectation.describe : Expectation → String
  | .keyword k => s!"'{k.word}'"
  | .symbol s => s!"'{s.spelling}'"
  | .expression => "expression"
  | .loopVariable => "loop variable after 'ulangin'"
  | .inputTarget => "identifier after 'baca'"
  | .assignmentTarget => "identifier before 'itu'"

/-- What was found instead. -/
inductive Found where
  | token (kind : Token.Kind)
  /-- An expression that cannot be assigned to. -/
  | expression
deriving DecidableEq, Repr

def Found.describe : Found → String
  | .token kind => kind.describe
  | .expression => "expression"

/-- Why tokens do not make a program. -/
inductive ParseError where
  | unexpectedEnd (expected : Expectation) (line : Nat)
  | missingTerminator (construct : Construct) (openedAt : Nat)
  | unexpected (expected : Expectation) (found : Found) (line : Nat)
  | invalidNumber (text : String) (line : Nat)
  | chainedComparison (line : Nat)
  | nestingTooDeep (limit line : Nat)
  | expressionTooLarge (limit line : Nat)
deriving DecidableEq, Repr

def ParseError.message : ParseError → String
  | .unexpectedEnd expected line =>
    s!"Unexpected end of input at line {line}, expected {expected.describe}"
  | .missingTerminator construct openedAt =>
    s!"Missing 'yaudah' to close '{construct.opener.word}' block opened at line {openedAt}"
  | .unexpected expected found line =>
    s!"Expected {expected.describe}, got {found.describe} at line {line}"
  | .invalidNumber text line => s!"Invalid number literal '{text}' at line {line}"
  | .chainedComparison line => s!"Comparison operators cannot be chained (line {line})"
  | .nestingTooDeep limit line => s!"Nesting deeper than {limit} levels at line {line}"
  | .expressionTooLarge limit line =>
    s!"Expression with more than {limit} operators starting at line {line}"

/-- The types of values. -/
inductive ValueType where
  | number
  | text
  | boolean
deriving DecidableEq, Repr

def ValueType.name : ValueType → String
  | number => "number"
  | text => "text"
  | boolean => "boolean"

/-- The uses that ask for operands of certain types. -/
inductive Misuse where
  | binary (op : BinaryOp) (left right : ValueType)
  | negation (operand : ValueType)
  | rangeBound (bound : ValueType)
deriving DecidableEq, Repr

def Misuse.message : Misuse → String
  | .binary op left right =>
    s!"Cannot apply '{op.spelling}' to {left.name} and {right.name}"
  | .negation operand => s!"Cannot apply '-' to {operand.name} and nothing"
  | .rangeBound bound => s!"Cannot apply 'ulangin' to {bound.name} and range bound"

/-- Why a run stops. -/
inductive RuntimeError where
  | unknownIdentifier (name : String)
  | missingInput (target : String)
  | typeMismatch (misuse : Misuse)
deriving DecidableEq, Repr

def RuntimeError.message : RuntimeError → String
  | .unknownIdentifier name => s!"Unknown identifier '{name}'"
  | .missingInput target => s!"Missing input for '{target}'"
  | .typeMismatch misuse => misuse.message

/-- Any reason why a program does not come to its end. -/
inductive Error where
  | lexical (e : LexError)
  | structural (e : ParseError)
  | runtime (e : RuntimeError)
deriving DecidableEq, Repr

namespace Error

def message : Error → String
  | lexical e => "Lexical error: " ++ e.message
  | structural e => "Syntax error: " ++ e.message
  | runtime e => "Runtime error: " ++ e.message

/-- The exit code of a command that ends with the error. -/
def exitCode : Error → UInt8
  | lexical _ => 2
  | structural _ => 2
  | runtime _ => 3

end Error

end Naskah
