import Mathlib.Data.List.Forall2
import Naskah.Proofs.Program.Nesting

/-
  Printing of statements as source text. A printed text is a list of words together with the
  nesting levels that it takes. Parentheses stand where the level of an operand is looser than its
  place allows, and around a minus that could be taken for a subtraction because an expression
  comes right before it. The words are written with separators between them; a number is written
  as any plain numeral that is read as it, and a text with its quotes and backslashes escaped.
-/

namespace Naskah

open Naskah.Expr (Level)

/-! ## Words -/

/-- A word of a printed text: a number, whose numeral is left open, or a token. -/
inductive Word where
  | number (x : Float)
  | token (k : Token.Kind)

/-- The words of a text, and how many nesting levels lie within one another in it. -/
structure Printed where
  words : List Word
  nesting : Nat

namespace Printed

def nil : Printed := ⟨[], 0⟩

def number (x : Float) : Printed := ⟨[.number x], 0⟩

def token (k : Token.Kind) : Printed := ⟨[.token k], 0⟩

def keyword (k : Keyword) : Printed := token (.keyword k)

instance : Append Printed :=
  ⟨fun p q => ⟨p.words ++ q.words, max p.nesting q.nesting⟩⟩

/-- The same text as a nesting level of its own. -/
def nested (p : Printed) : Printed := ⟨p.words, p.nesting + 1⟩

/-- The text in parentheses, where they are demanded. -/
def enclosed (p : Printed) (demanded : Bool) : Printed :=
  if demanded then
    nested (token (.symbol .parenOpen) ++ (p ++ token (.symbol .parenClose)))
  else p

end Printed

/-! ## Expressions -/

namespace Expr

/-- The printed text of an expression at a place where the grammar has the level `l`. A guarded
    text does not start with a minus. -/
def print (guarded : Bool) (l : Level) : Expr → Printed
  | .number x => .number x
  | .text s => .token (.string s)
  | .boolean true => .keyword .benar
  | .boolean false => .keyword .salah
  | .variable x => .token (.identifier x)
  | .unary op operand =>
    (Printed.nested (.token op.kind ++ operand.print false op.level)).enclosed
      (decide (l.rank < op.level.rank) || guarded && op == .negate)
  | .binary op left right =>
    let demanded := decide (l.rank < op.level.rank)
    (left.print (guarded && !demanded) op.left ++
      (.token op.kind ++ right.print false op.right)).enclosed demanded

end Expr

/-! ## Statements -/

namespace Stmt

/-- The text of the statement ends in an expression. -/
def endsInExpr : Stmt → Bool
  | .assign .. | .print _ | .expr _ => true
  | _ => false

mutual

/-- The printed text of a statement, or of the statements of a block. The flag tells whether the
    text before it ends in an expression. -/
def text (after : Bool) : Stmt → Printed
  | .assign x value =>
    .token (.identifier x) ++ (.keyword .itu ++ value.print false .logical)
  | .cond test yes no =>
    .keyword .kalo ++ (test.print false .logical ++ (yes.text true ++ no.textElse))
  | .count x first last body =>
    .keyword .ulangin ++ (.token (.identifier x) ++ (.keyword .dari ++
      (first.print false .logical ++ (.keyword .sampe ++ (last.print false .logical ++
        (body.text true ++ .keyword .yaudah))))))
  | .loop test body =>
    .keyword .selama ++ (test.print false .logical ++ (body.text true ++ .keyword .yaudah))
  | .input x => .keyword .baca ++ .token (.identifier x)
  | .print value => .keyword .tulis ++ value.print false .logical
  | .block body => (textAll after body).nested
  | .expr value => value.print after .logical
  | .empty => .nil

/-- What follows the first branch of a conditional, given its second branch. -/
def textElse : Stmt → Printed
  | .cond test yes no =>
    .nested (.keyword .kalogak ++ (test.print false .logical ++ (yes.text true ++ no.textElse)))
  | .block body => .keyword .lainnya ++ ((textAll false body).nested ++ .keyword .yaudah)
  | _ => .keyword .yaudah

def textAll (after : Bool) : List Stmt → Printed
  | [] => .nil
  | s :: ss => s.text after ++ textAll s.endsInExpr ss

end

end Stmt

/-! ## Well-formed statements -/

/-- A word that can be a name. -/
structure IsName (x : String) : Prop where
  nonempty : x ≠ ""
  chars : ∀ c ∈ x.toList, Text.isWordChar c = true
  start : ∀ c ∈ x.toList.head?, c.isDigit = false
  free : ∀ k : Keyword, k.word ≠ x

/-- All variables of the expression have names. -/
def Expr.WellFormed : Expr → Prop
  | .variable x => IsName x
  | .unary _ operand => operand.WellFormed
  | .binary _ left right => left.WellFormed ∧ right.WellFormed
  | _ => True

namespace Stmt

/-- The places at which a statement can stand. -/
inductive Place where
  | list
  /-- The first branch of a conditional, and the body of a loop. -/
  | body
  | otherwise
deriving DecidableEq, Repr

/-- A statement that can stand at the place: a block as a body; a conditional, a block or the empty
    statement as a second branch; neither a block nor the empty statement in a list. -/
inductive WellFormed : Place → Stmt → Prop
  | assign {x : String} {value : Expr} (name : IsName x) (h : value.WellFormed) :
      WellFormed .list (.assign x value)
  | cond {p : Place} {test : Expr} {yes no : Stmt} (hp : p ≠ .body) (h : test.WellFormed)
      (first : WellFormed .body yes) (second : WellFormed .otherwise no) :
      WellFormed p (.cond test yes no)
  | count {x : String} {first last : Expr} {body : Stmt} (name : IsName x) (h : first.WellFormed)
      (h' : last.WellFormed) (run : WellFormed .body body) :
      WellFormed .list (.count x first last body)
  | loop {test : Expr} {body : Stmt} (h : test.WellFormed) (run : WellFormed .body body) :
      WellFormed .list (.loop test body)
  | input {x : String} (name : IsName x) : WellFormed .list (.input x)
  | print {value : Expr} (h : value.WellFormed) : WellFormed .list (.print value)
  | block {p : Place} {ss : List Stmt} (hp : p ≠ .list) (h : ∀ s ∈ ss, WellFormed .list s) :
      WellFormed p (.block ss)
  | expr {value : Expr} (h : value.WellFormed) : WellFormed .list (.expr value)
  | empty : WellFormed .otherwise .empty

end Stmt

/-! ## Written texts -/

/-- How a character is written between quotes. -/
def quoteChar (c : Char) : List Char :=
  if c = '\\' ∨ c = '"' then ['\\', c] else [c]

/-- The ways to write a word. -/
inductive Word.Spelled : Word → List Char → Prop
  /-- Digits with at most one point that are read as the number. A number that no such text is
      read as, one with its sign set for instance, cannot be written. -/
  | number {x : Float} {cs : List Char} (h : Numeral.IsPlain cs) (hx : Numeral.read? cs = some x) :
      Spelled (.number x) cs
  | symbol (s : Symbol) : Spelled (.token (.symbol s)) s.spelling.toList
  | keyword (k : Keyword) : Spelled (.token (.keyword k)) k.word.toList
  | name (x : String) : Spelled (.token (.identifier x)) x.toList
  | string (s : String) :
      Spelled (.token (.string s)) ('"' :: s.toList.flatMap quoteChar ++ ['"'])

/-- The words are written one after another, with separators between them and, if any, before and
    behind them. -/
inductive Written : List Word → List Char → Prop
  | nil {gap : List Char} (h : IsGap gap) : Written [] gap
  | cons {gap cs rest : List Char} {w : Word} {ws : List Word} (hg : IsGap gap) (hw : w.Spelled cs)
      (separated : ∀ c ∈ rest.head?, Scan.isSpace c = true) (more : Written ws rest) :
      Written (w :: ws) (gap ++ cs ++ rest)

end Naskah
