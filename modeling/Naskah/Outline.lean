import Naskah.Json.Write
import Naskah.Stmt.Basic

/-
  Outlines: trees written on one line with every operand in parentheses, so that no two trees look
  alike. Numbers are shown by the sixteen hexadecimal digits of their bits, and texts are quoted as
  in JSON.
-/

namespace Naskah

/-- The bits of a float as sixteen hexadecimal digits; `nan` for what is not a number. -/
def bitsText (x : Float) : String :=
  if x.isNaN then "nan"
  else
    let ds := Nat.toDigits 16 x.toBits.toNat
    .ofList (List.replicate (16 - ds.length) '0' ++ ds)

/-- Words in parentheses, separated by single spaces. -/
def parenthesized (words : List String) : String :=
  "(" ++ " ".intercalate words ++ ")"

def UnaryOp.outline : UnaryOp → String
  | negate => "neg"
  | not => "not"

def Expr.outline : Expr → String
  | .number x => "#" ++ bitsText x
  | .text s => .ofList (Json.quote s)
  | .boolean b => if b then "true" else "false"
  | .variable name => "$" ++ name
  | .unary op operand => parenthesized [op.outline, operand.outline]
  | .binary op left right => parenthesized [op.spelling, left.outline, right.outline]

mutual

def Stmt.outline : Stmt → String
  | .assign target value => parenthesized ["assign", "$" ++ target, value.outline]
  | .cond test yes no => parenthesized ["if", test.outline, yes.outline, no.outline]
  | .count counter first last body =>
    parenthesized ["for", "$" ++ counter, first.outline, last.outline, body.outline]
  | .loop test body => parenthesized ["while", test.outline, body.outline]
  | .input target => parenthesized ["input", "$" ++ target]
  | .print value => parenthesized ["print", value.outline]
  | .block body => parenthesized ("block" :: outlineAll body)
  | .expr value => parenthesized ["expr", value.outline]
  | .empty => parenthesized ["empty"]

def outlineAll : List Stmt → List String
  | [] => []
  | s :: ss => s.outline :: outlineAll ss

end

end Naskah
