import Naskah.Expr.Basic

/-
  Statements. The parser puts a block into every body and first branch, and into the second branch
  of a conditional a block, a further conditional, or the empty statement; the type does not demand
  it, and neither does execution.
-/

namespace Naskah

inductive Stmt where
  | assign (target : String) (value : Expr)
  | cond (test : Expr) (yes no : Stmt)
  /-- Runs the body with the variable counting up by one from the first bound to the second. -/
  | count (counter : String) (first last : Expr) (body : Stmt)
  | loop (test : Expr) (body : Stmt)
  /-- Takes the next input entry. -/
  | input (target : String)
  | print (value : Expr)
  | block (body : List Stmt)
  | expr (value : Expr)
  | empty

namespace Stmt

mutual

/-- Equality of statements is decided part by part. -/
def decEq : (s t : Stmt) → Decidable (s = t)
  | .assign x e, t => by
    cases t with
    | assign y f => exact decidable_of_iff (x = y ∧ e = f) (by simp)
    | _ => exact isFalse (by simp)
  | .cond e s₁ s₂, t => by
    cases t with
    | cond f t₁ t₂ =>
      have := decEq s₁ t₁
      have := decEq s₂ t₂
      exact decidable_of_iff (e = f ∧ s₁ = t₁ ∧ s₂ = t₂) (by simp)
    | _ => exact isFalse (by simp)
  | .count x e₁ e₂ s, t => by
    cases t with
    | count y f₁ f₂ t =>
      have := decEq s t
      exact decidable_of_iff (x = y ∧ e₁ = f₁ ∧ e₂ = f₂ ∧ s = t) (by simp)
    | _ => exact isFalse (by simp)
  | .loop e s, t => by
    cases t with
    | loop f t =>
      have := decEq s t
      exact decidable_of_iff (e = f ∧ s = t) (by simp)
    | _ => exact isFalse (by simp)
  | .input x, t => by
    cases t with
    | input y => exact decidable_of_iff (x = y) (by simp)
    | _ => exact isFalse (by simp)
  | .print e, t => by
    cases t with
    | print f => exact decidable_of_iff (e = f) (by simp)
    | _ => exact isFalse (by simp)
  | .block ss, t => by
    cases t with
    | block ts =>
      have := decEqAll ss ts
      exact decidable_of_iff (ss = ts) (by simp)
    | _ => exact isFalse (by simp)
  | .expr e, t => by
    cases t with
    | expr f => exact decidable_of_iff (e = f) (by simp)
    | _ => exact isFalse (by simp)
  | .empty, t => by
    cases t with
    | empty => exact isTrue rfl
    | _ => exact isFalse (by simp)

/-- Equality of statement lists is decided element by element. -/
def decEqAll : (ss ts : List Stmt) → Decidable (ss = ts)
  | [], [] => isTrue rfl
  | [], _ :: _ => isFalse (by simp)
  | _ :: _, [] => isFalse (by simp)
  | s :: ss, t :: ts =>
    have := decEq s t
    have := decEqAll ss ts
    decidable_of_iff (s = t ∧ ss = ts) (by simp)

end

instance : DecidableEq Stmt := decEq

/-- What a statement is called in a log. -/
def name : Stmt → String
  | .assign .. => "assignment"
  | .cond .. => "if"
  | .count .. => "for"
  | .loop .. => "while"
  | .input .. => "input"
  | .print .. => "print"
  | .block .. => "block"
  | .expr .. => "expression"
  | .empty => "empty"

end Stmt

end Naskah
