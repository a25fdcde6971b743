import Naskah.Expr.Eval
import Naskah.Stmt.Exec

/-
  Where evaluation fails. An expression fails at one of its parts, whose own operands have values
  (`Expr.fault_of_eval`): a variable that is not bound, or an operator that refuses the types of its
  operands. What an operator refuses is a matter of the types alone (`BinaryOp.apply_eq_error`); of
  the operators with two operands, `dan`, `atau`, `==` and `!=` refuse nothing.
-/

namespace Naskah

/-! ## Operators -/

/-- The operator does not fit operands of these types. -/
def BinaryOp.Refuses (op : BinaryOp) (left right : ValueType) : Prop :=
  match op with
  | add => left ≠ .text ∧ right ≠ .text ∧ ¬ (left = .number ∧ right = .number)
  | subtract | multiply | divide | modulo => ¬ (left = .number ∧ right = .number)
  | greater | greaterEqual | less | lessEqual =>
    ¬ (left = .number ∧ right = .number) ∧ ¬ (left = .text ∧ right = .text)
  | equal | notEqual | and | or => False

namespace BinaryOp

variable {op : BinaryOp} {v w : Value} {e : RuntimeError}

theorem sum_eq_error :
    sum v w = .error e ↔ add.Refuses v.type w.type ∧ e = add.mismatch v w := by
  cases v <;> cases w <;> simp [sum, Refuses, Value.type, eq_comm]

theorem numeric_eq_error :
    op.numeric v w = .error e ↔
      ¬ (v.type = .number ∧ w.type = .number) ∧ e = op.mismatch v w := by
  cases v <;> cases w <;> simp [numeric, Value.type, eq_comm]

theorem relation_eq_error :
    op.relation v w = .error e ↔
      (¬ (v.type = .number ∧ w.type = .number) ∧ ¬ (v.type = .text ∧ w.type = .text)) ∧
        e = op.mismatch v w := by
  cases v <;> cases w <;> simp [relation, Value.order?, Value.type, eq_comm]

/-- An operator fails on the types that it refuses, with an error that names them. -/
theorem apply_eq_error :
    op.apply v w = .error e ↔ op.Refuses v.type w.type ∧ e = op.mismatch v w := by
  cases op with
  | add => exact sum_eq_error
  | subtract | multiply | divide | modulo => exact numeric_eq_error
  | greater | greaterEqual | less | lessEqual => exact relation_eq_error
  | equal | notEqual | and | or => simp [apply, Refuses]

end BinaryOp

theorem UnaryOp.apply_eq_error {op : UnaryOp} {v : Value} {e : RuntimeError} :
    op.apply v = .error e ↔
      op = .negate ∧ v.type ≠ .number ∧ e = .typeMismatch (.negation v.type) := by
  cases op <;> cases v <;> simp [apply, Value.type, eq_comm]

/-! ## Expressions -/

/-- An expression and all those within it. -/
def Expr.parts : Expr → List Expr
  | .unary op operand => .unary op operand :: operand.parts
  | .binary op left right => .binary op left right :: (left.parts ++ right.parts)
  | leaf => [leaf]

/-- The expression itself fails with the error: its operands have values. -/
inductive Expr.Fault (env : Environment) : Expr → RuntimeError → Prop where
  | unbound {name : String} (h : env.get? name = none) :
      Fault env (.variable name) (.unknownIdentifier name)
  | negation {operand : Expr} {v : Value} (hv : operand.eval env = .ok v)
      (h : v.type ≠ .number) :
      Fault env (.unary .negate operand) (.typeMismatch (.negation v.type))
  | binary {op : BinaryOp} {left right : Expr} {v w : Value} (hv : left.eval env = .ok v)
      (hw : right.eval env = .ok w) (h : op.Refuses v.type w.type) :
      Fault env (.binary op left right) (.typeMismatch (.binary op v.type w.type))

namespace Expr

variable {env : Environment} {e : RuntimeError}

theorem mem_parts (x : Expr) : x ∈ x.parts := by
  cases x <;> exact List.mem_cons_self

/-- What makes an operator with two operands fail: one of these, or the operator itself. -/
theorem eval_binary_eq_error {op : BinaryOp} {left right : Expr}
    (h : (Expr.binary op left right).eval env = .error e) :
    left.eval env = .error e ∨ right.eval env = .error e ∨
      ∃ v w, left.eval env = .ok v ∧ right.eval env = .ok w ∧ op.apply v w = .error e := by
  cases hl : left.eval env with
  | error e' =>
    refine .inl ?_
    cases op <;> simpa only [eval, hl] using h
  | ok v =>
    refine .inr ?_
    cases hr : right.eval env with
    | error e' =>
      refine .inl ?_
      cases op <;> cases hv : v.isTruthy <;> simp_all [eval]
    | ok w =>
      refine .inr ⟨v, w, rfl, rfl, ?_⟩
      cases op <;> cases hv : v.isTruthy <;> simp_all [eval]

/-- An expression fails at one of its parts. -/
theorem fault_of_eval {x : Expr} (h : x.eval env = .error e) : ∃ part ∈ x.parts, Fault env part e := by
  induction x with
  | number | text | boolean => cases h
  | «variable» name =>
    refine ⟨_, mem_parts _, ?_⟩
    rw [eval] at h
    split at h
    · cases h
    · next hname =>
      cases h
      exact .unbound hname
  | unary op operand ih =>
    rw [eval] at h
    split at h
    · next e' he =>
      cases h
      obtain ⟨part, hpart, hfault⟩ := ih he
      exact ⟨part, List.mem_cons_of_mem _ hpart, hfault⟩
    · next v hv =>
      obtain ⟨rfl, htype, rfl⟩ := UnaryOp.apply_eq_error.1 h
      exact ⟨_, mem_parts _, .negation hv htype⟩
  | binary op left right ihl ihr =>
    rcases eval_binary_eq_error h with hl | hr | ⟨v, w, hv, hw, happly⟩
    · obtain ⟨part, hpart, hfault⟩ := ihl hl
      exact ⟨part, List.mem_cons_of_mem _ (List.mem_append_left _ hpart), hfault⟩
    · obtain ⟨part, hpart, hfault⟩ := ihr hr
      exact ⟨part, List.mem_cons_of_mem _ (List.mem_append_right _ hpart), hfault⟩
    · obtain ⟨hrefuses, rfl⟩ := BinaryOp.apply_eq_error.1 happly
      exact ⟨_, mem_parts _, .binary hv hw hrefuses⟩

/-- A test fails only if its expression does. -/
theorem evalTest_eq_error {x : Expr} : x.evalTest env = .error e ↔ x.eval env = .error e := by
  unfold evalTest
  cases x.eval env <;> simp

/-- A range bound fails if its expression does, and if it is no number. -/
theorem evalBound_eq_error {x : Expr} :
    x.evalBound env = .error e ↔ x.eval env = .error e ∨
      ∃ v, x.eval env = .ok v ∧ v.type ≠ .number ∧ e = .typeMismatch (.rangeBound v.type) := by
  unfold evalBound
  cases x.eval env with
  | error e' => simp
  | ok v => cases v <;> simp [Value.type, eq_comm]

/-- A range bound is what the expression evaluates to, if that is a number. -/
theorem evalBound_eq_ok {x : Expr} {bound : Float} :
    x.evalBound env = .ok bound ↔ x.eval env = .ok (.number bound) := by
  unfold evalBound
  cases x.eval env with
  | error e' => simp
  | ok v => cases v <;> simp

end Expr

end Naskah
