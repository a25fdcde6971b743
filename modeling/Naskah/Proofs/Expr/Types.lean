import Naskah.Proofs.Expr.Eager

/-
  The types of expressions. Without `dan` and `atau` the types of the variables settle the type that an
  expression evaluates to, or the error that it fails with (`Expr.type`, `Expr.map_type_eval`): numbers
  and texts themselves play no part in it. So in environments with the same types an expression has
  values of the same type, or the same error.
-/

namespace Naskah

/-! ## Operators -/

namespace BinaryOp

/-- The type that an operator gives to operands that it does not refuse. The value of `dan` and `atau`
    may have the type of either operand; the right one stands for it here. -/
def result (op : BinaryOp) (left right : ValueType) : ValueType :=
  match op with
  | add => if left = .text ∨ right = .text then .text else .number
  | subtract | multiply | divide | modulo => .number
  | greater | greaterEqual | less | lessEqual | equal | notEqual => .boolean
  | and | or => right

instance (op : BinaryOp) (left right : ValueType) : Decidable (op.Refuses left right) :=
  match op with
  | add => inferInstanceAs (Decidable (_ ∧ _ ∧ ¬ (_ ∧ _)))
  | subtract | multiply | divide | modulo => inferInstanceAs (Decidable (¬ (_ ∧ _)))
  | greater | greaterEqual | less | lessEqual =>
    inferInstanceAs (Decidable (¬ (_ ∧ _) ∧ ¬ (_ ∧ _)))
  | equal | notEqual | and | or => inferInstanceAs (Decidable False)

/-- The type of an operator's value, or its error. -/
def type (op : BinaryOp) (left right : ValueType) : Except RuntimeError ValueType :=
  if op.Refuses left right then .error (.typeMismatch (.binary op left right))
  else .ok (op.result left right)

variable {op : BinaryOp} {u v w : Value}

theorem type_of_apply (hand : op ≠ .and) (hor : op ≠ .or) (h : op.apply v w = .ok u) :
    u.type = op.result v.type w.type := by
  cases op with
  | and => exact absurd rfl hand
  | or => exact absurd rfl hor
  | add => cases v <;> cases w <;> cases h <;> rfl
  | equal | notEqual => cases h; rfl
  | subtract | multiply | divide | modulo => cases v <;> cases w <;> cases h <;> rfl
  | greater | greaterEqual | less | lessEqual => cases v <;> cases w <;> cases h <;> rfl

/-- The types of the operands settle the type of the value, and the error. -/
theorem map_type_apply (hand : op ≠ .and) (hor : op ≠ .or) :
    (op.apply v w).map Value.type = op.type v.type w.type := by
  unfold type
  cases happly : op.apply v w with
  | error e =>
    obtain ⟨hrefuses, rfl⟩ := apply_eq_error.1 happly
    exact (if_pos hrefuses).symm
  | ok u =>
    have hadmits : ¬ op.Refuses v.type w.type := by
      intro hrefuses
      rw [apply_eq_error.2 ⟨hrefuses, rfl⟩] at happly
      cases happly
    rw [if_neg hadmits, ← type_of_apply hand hor happly]
    rfl

end BinaryOp

/-- The type of a unary operator's value, or its error. -/
def UnaryOp.type : UnaryOp → ValueType → Except RuntimeError ValueType
  | .not, _ => .ok .boolean
  | .negate, .number => .ok .number
  | .negate, operand => .error (.typeMismatch (.negation operand))

theorem UnaryOp.map_type_apply (op : UnaryOp) (v : Value) :
    (op.apply v).map Value.type = op.type v.type := by
  cases op <;> cases v <;> rfl

theorem cases_of_map_eq {ε α β : Type} {x y : Except ε α} {f : α → β} (h : x.map f = y.map f) :
    (∃ a b, x = .ok a ∧ y = .ok b ∧ f a = f b) ∨ ∃ e, x = .error e ∧ y = .error e := by
  cases x with
  | ok a =>
    cases y with
    | ok b => exact .inl ⟨a, b, rfl, rfl, Except.ok.inj h⟩
    | error e => cases h
  | error e =>
    cases y with
    | ok b => cases h
    | error e' => exact .inr ⟨e, rfl, congrArg _ (Except.error.inj h).symm⟩

/-! ## Expressions -/

namespace Environment

/-- The type of the value of a name. -/
def type? (env : Environment) (name : String) : Option ValueType :=
  (env.get? name).map Value.type

end Environment

namespace Expr

/-- The type of the value of an expression, or its error, where the variables have the given types. -/
def type (types : String → Option ValueType) : Expr → Except RuntimeError ValueType
  | .number _ => .ok .number
  | .text _ => .ok .text
  | .boolean _ => .ok .boolean
  | .variable name =>
    match types name with
    | some t => .ok t
    | none => .error (.unknownIdentifier name)
  | .unary op operand => operand.type types >>= op.type
  | .binary op left right => do
    let l ← left.type types
    let r ← right.type types
    op.type l r

theorem map_type_eager {env : Environment} {x : Expr} (h : x.Strict) :
    (x.eager env).map Value.type = x.type env.type? := by
  induction x with
  | number | text | boolean => rfl
  | «variable» name =>
    show (Expr.eval env (.variable name)).map Value.type = _
    rw [eval, type, Environment.type?]
    cases env.get? name <;> rfl
  | unary op operand ih =>
    rw [eager, type, ← ih h]
    cases operand.eager env with
    | error e => rfl
    | ok v => exact op.map_type_apply v
  | binary op left right ihl ihr =>
    obtain ⟨hand, hor, hleft, hright⟩ := h
    rw [eager, type, ← ihl hleft, ← ihr hright]
    cases left.eager env with
    | error e => rfl
    | ok v =>
      cases right.eager env with
      | error e => rfl
      | ok w => exact BinaryOp.map_type_apply hand hor

/-- Without `dan` and `atau` the types of the variables settle the type of the value, and the error. -/
theorem map_type_eval {env : Environment} {x : Expr} (h : x.Strict) :
    (x.eval env).map Value.type = x.type env.type? := by
  rw [← h.eager_eq]
  exact map_type_eager h

/-- The expressions differ at most in the numbers, texts and booleans that are written in them. -/
inductive Alike : Expr → Expr → Prop where
  | number (x y : Float) : Alike (.number x) (.number y)
  | text (s t : String) : Alike (.text s) (.text t)
  | boolean (b c : Bool) : Alike (.boolean b) (.boolean c)
  | variable (name : String) : Alike (.variable name) (.variable name)
  | unary (op : UnaryOp) {operand operand' : Expr} :
      Alike operand operand' → Alike (.unary op operand) (.unary op operand')
  | binary (op : BinaryOp) {left left' right right' : Expr} :
      Alike left left' → Alike right right' → Alike (.binary op left right) (.binary op left' right')

theorem Alike.strict {x y : Expr} (h : x.Alike y) (hx : x.Strict) : y.Strict := by
  induction h with
  | number | text | boolean | «variable» => trivial
  | unary op _ ih => exact ih hx
  | binary op _ _ ihl ihr =>
    obtain ⟨hand, hor, hleft, hright⟩ := hx
    exact ⟨hand, hor, ihl hleft, ihr hright⟩

theorem Alike.type_eq {x y : Expr} (h : x.Alike y) (types : String → Option ValueType) :
    x.type types = y.type types := by
  induction h with
  | number | text | boolean | «variable» => rfl
  | unary op _ ih => rw [type, type, ih]
  | binary op _ _ ihl ihr => rw [type, type, ihl, ihr]

/-- Without `dan` and `atau`, expressions that are alike have values of the same type, or fail with the
    same error, in environments where the names have the same types. -/
theorem map_type_eval_congr {x y : Expr} (hx : x.Strict) (hxy : x.Alike y) {env env' : Environment}
    (htypes : ∀ name, env.type? name = env'.type? name) :
    (x.eval env).map Value.type = (y.eval env').map Value.type := by
  rw [map_type_eval hx, map_type_eval (hxy.strict hx), hxy.type_eq, funext htypes]

theorem Alike.refl (x : Expr) : x.Alike x := by
  induction x with
  | number x => exact .number x x
  | text s => exact .text s s
  | boolean b => exact .boolean b b
  | «variable» name => exact .variable name
  | unary op _ ih => exact .unary op ih
  | binary op _ _ ihl ihr => exact .binary op ihl ihr

/-- Without `dan` and `atau`, an expression has values of the same type, or fails with the same error,
    in environments where the names have the same types. Whatever numbers, texts and booleans stand in
    it and are bound to the names, it fails with this error or not at all. -/
theorem eval_settled_by_types {x : Expr} (hx : x.Strict) {env env' : Environment}
    (htypes : ∀ name, env.type? name = env'.type? name) :
    ((∃ v v', x.eval env = .ok v ∧ x.eval env' = .ok v' ∧ v.type = v'.type) ∨
        ∃ e, x.eval env = .error e ∧ x.eval env' = .error e) ∧
      ∀ y, x.Alike y → ∀ e, x.eval env = .error e ↔ y.eval env' = .error e := by
  refine ⟨cases_of_map_eq (map_type_eval_congr hx (.refl x) htypes), fun y hxy e => ?_⟩
  rcases cases_of_map_eq (map_type_eval_congr hx hxy htypes) with ⟨v, v', hv, hv', -⟩ | ⟨e', he, he'⟩
  · rw [hv, hv']
    exact ⟨nofun, nofun⟩
  · rw [he, he']

/-- The product of a variable and a text fails in the same way for a number and for what is none, and
    for the empty text. -/
theorem eval_settled_by_types_product :
    let x : Expr := .binary .multiply (.variable "a") (.text "b")
    let y : Expr := .binary .multiply (.variable "a") (.text "")
    let env := Environment.empty.set "a" (.number 1.0)
    let env' := Environment.empty.set "a" (.number (0.0 / 0.0))
    x.Strict ∧ (∀ name, env.type? name = env'.type? name) ∧ x.Alike y ∧
      x.eval env = .error (.typeMismatch (.binary .multiply .number .text)) ∧
      y.eval env' = .error (.typeMismatch (.binary .multiply .number .text)) := by
  have hx : (Expr.binary .multiply (.variable "a") (.text "b")).Strict :=
    ⟨by decide, by decide, trivial, trivial⟩
  have hxy : (Expr.binary .multiply (.variable "a") (.text "b")).Alike
      (.binary .multiply (.variable "a") (.text "")) := .binary _ (.variable _) (.text _ _)
  have htypes (name : String) : (Environment.empty.set "a" (.number 1.0)).type? name =
      (Environment.empty.set "a" (.number (0.0 / 0.0))).type? name := by
    rw [Environment.type?, Environment.type?, Environment.get?_set, Environment.get?_set]
    split <;> rfl
  exact ⟨hx, htypes, hxy, rfl, ((eval_settled_by_types hx htypes).2 _ hxy _).1 rfl⟩

end Expr

end Naskah
