import Naskah.Proofs.Expr.Faults

/-
  Eager evaluation. It evaluates both operands of every operator with two, also of `dan` and `atau`,
  and then applies the operator. The evaluator leaves out the right operand where the left one decides
  (`BinaryOp.decides`); in these cases `dan` and `atau`, when they are applied, do not look at it either
  (`BinaryOp.apply_of_decides`). So what the evaluator gives is what eager evaluation gives, unless an
  operand that was left out fails; then the first of these that fails decides (`Expr.eager_of_eval`).
-/

namespace Naskah

/-! ## Operands that decide -/

namespace BinaryOp

/-- The operator has its value from this left operand alone. -/
def decides (op : BinaryOp) (left : Value) : Bool :=
  match op with
  | and => !left.isTruthy
  | or => left.isTruthy
  | _ => false

theorem apply_of_decides {op : BinaryOp} {v : Value} (h : op.decides v = true) (w : Value) :
    op.apply v w = .ok v := by
  cases op with
  | and =>
    have hv : v.isTruthy = false := by simpa [decides] using h
    simp [apply, hv]
  | or =>
    have hv : v.isTruthy = true := h
    simp [apply, hv]
  | _ => cases h

end BinaryOp

theorem exists_of_bind_eq_ok {ε α β : Type} {x : Except ε α} {f : α → Except ε β} {b : β}
    (h : x >>= f = .ok b) : ∃ a, x = .ok a ∧ f a = .ok b := by
  cases x with
  | error e => cases h
  | ok a => exact ⟨a, rfl, h⟩

namespace Expr

variable {env : Environment} {v : Value} {e : RuntimeError}

theorem eval_unary (op : UnaryOp) (operand : Expr) :
    (unary op operand).eval env = operand.eval env >>= op.apply := by
  rw [eval]
  cases operand.eval env <;> rfl

/-- Where the left operand does not decide, `dan` and `atau` are evaluated like other operators. -/
theorem eval_binary (op : BinaryOp) (left right : Expr) :
    (binary op left right).eval env = (left.eval env >>= fun v =>
      if op.decides v then .ok v else right.eval env >>= op.apply v) := by
  cases hleft : left.eval env with
  | error e => cases op <;> simp only [eval, hleft] <;> rfl
  | ok v =>
    cases op with
    | and | or =>
      cases hv : v.isTruthy <;> cases hright : right.eval env <;>
        simp [eval, BinaryOp.decides, BinaryOp.apply, hleft, hright, hv, bind, Except.bind]
    | _ =>
      simp only [eval, hleft]
      cases right.eval env <;> rfl

/-! ## Eager evaluation -/

/-- The value of an expression when all operands are evaluated. -/
def eager (env : Environment) : Expr → Except RuntimeError Value
  | .unary op operand => operand.eager env >>= op.apply
  | .binary op left right => do
    let v ← left.eager env
    let w ← right.eager env
    op.apply v w
  | leaf => leaf.eval env

/-- The operands that evaluation leaves out, from the left: those behind an operand that decides. -/
def skipped (env : Environment) : Expr → List Expr
  | .unary _ operand => operand.skipped env
  | .binary op left right =>
    left.skipped env ++
      match left.eval env with
      | .ok v => if op.decides v then [right] else right.skipped env
      | .error _ => []
  | _ => []

theorem skipped_binary {left : Expr} (op : BinaryOp) (right : Expr) (h : left.eval env = .ok v) :
    (binary op left right).skipped env =
      left.skipped env ++ if op.decides v then [right] else right.skipped env := by
  rw [skipped, h]

/-- The error of an expression whose operands are all evaluated, if there is one. -/
def eagerError? (env : Environment) (x : Expr) : Option RuntimeError :=
  match x.eager env with
  | .ok _ => none
  | .error e => some e

theorem eagerError?_eq_some {x : Expr} : x.eagerError? env = some e ↔ x.eager env = .error e := by
  unfold eagerError?
  cases x.eager env <;> simp

/-- An operand that is left out stands behind one that decides. -/
theorem mem_skipped {x part : Expr} (h : part ∈ x.skipped env) :
    ∃ op left v, binary op left part ∈ x.parts ∧ left.eval env = .ok v ∧ op.decides v = true := by
  induction x with
  | number | text | boolean | «variable» => cases h
  | unary op operand ih =>
    obtain ⟨op', left, v, hmem, hv, hdecides⟩ := ih h
    exact ⟨op', left, v, List.mem_cons_of_mem _ hmem, hv, hdecides⟩
  | binary op left right ihl ihr =>
    rcases List.mem_append.1 h with h | h
    · obtain ⟨op', left', v, hmem, hv, hdecides⟩ := ihl h
      exact ⟨op', left', v, List.mem_cons_of_mem _ (List.mem_append_left _ hmem), hv, hdecides⟩
    · cases hleft : left.eval env with
      | error e =>
        rw [hleft] at h
        cases h
      | ok v =>
        rw [hleft] at h
        dsimp only at h
        split at h
        · next hdecides =>
          obtain rfl := List.mem_singleton.1 h
          exact ⟨op, left, v, List.mem_cons_self, hleft, hdecides⟩
        · obtain ⟨op', left', w, hmem, hw, hdecides⟩ := ihr h
          exact ⟨op', left', w, List.mem_cons_of_mem _ (List.mem_append_right _ hmem), hw, hdecides⟩

/-- A value of eager evaluation is that of evaluation. -/
theorem eval_of_eager {x : Expr} (h : x.eager env = .ok v) : x.eval env = .ok v := by
  induction x generalizing v with
  | number | text | boolean | «variable» => exact h
  | unary op operand ih =>
    obtain ⟨u, hu, happly⟩ := exists_of_bind_eq_ok h
    rw [eval_unary, ih hu]
    exact happly
  | binary op left right ihl ihr =>
    obtain ⟨u, hu, h⟩ := exists_of_bind_eq_ok h
    obtain ⟨w, hw, happly⟩ := exists_of_bind_eq_ok h
    rw [eval_binary, ihl hu, ihr hw]
    cases hdecides : op.decides u with
    | true =>
      rw [BinaryOp.apply_of_decides hdecides] at happly
      simpa [bind, Except.bind, hdecides] using happly
    | false => simpa [bind, Except.bind, hdecides] using happly

/-- Where evaluation has a value, eager evaluation has the same one, or fails with the error of the
    first operand that was left out and fails. -/
theorem eager_of_eval {x : Expr} (h : x.eval env = .ok v) :
    x.eager env = ((x.skipped env).findSome? (eagerError? env)).elim (.ok v) .error := by
  induction x generalizing v with
  | number | text | boolean | «variable» => exact h
  | unary op operand ih =>
    rw [eval_unary] at h
    obtain ⟨u, hu, happly⟩ := exists_of_bind_eq_ok h
    rw [eager, skipped, ih hu]
    cases (operand.skipped env).findSome? (eagerError? env) with
    | none => exact happly
    | some e => rfl
  | binary op left right ihl ihr =>
    rw [eval_binary] at h
    obtain ⟨u, hu, h⟩ := exists_of_bind_eq_ok h
    rw [eager, skipped_binary op right hu, List.findSome?_append, ihl hu]
    cases (left.skipped env).findSome? (eagerError? env) with
    | some e => rfl
    | none =>
      show right.eager env >>= op.apply u = (List.findSome? _ _).elim _ _
      by_cases hdecides : op.decides u = true
      · rw [if_pos hdecides] at h ⊢
        cases h
        rw [List.findSome?_cons, eagerError?]
        cases right.eager env with
        | error e => rfl
        | ok w => exact BinaryOp.apply_of_decides hdecides w
      · have h : (if op.decides u then Except.ok u else right.eval env >>= op.apply u) = .ok v := h
        rw [if_neg hdecides] at h ⊢
        obtain ⟨w, hw, happly⟩ := exists_of_bind_eq_ok h
        rw [ihr hw]
        cases (right.skipped env).findSome? (eagerError? env) with
        | some e => rfl
        | none => exact happly

/-! ## Operators that evaluate both operands -/

/-- The expression has no `dan` and no `atau`. -/
def Strict : Expr → Prop
  | .unary _ operand => operand.Strict
  | .binary op left right => op ≠ .and ∧ op ≠ .or ∧ left.Strict ∧ right.Strict
  | _ => True

theorem decides_eq_false {op : BinaryOp} (hand : op ≠ .and) (hor : op ≠ .or) (v : Value) :
    op.decides v = false := by
  cases op with
  | and => exact absurd rfl hand
  | or => exact absurd rfl hor
  | _ => rfl

/-- Without `dan` and `atau` evaluation is eager. -/
theorem Strict.eager_eq {x : Expr} (h : x.Strict) : x.eager env = x.eval env := by
  induction x with
  | number | text | boolean | «variable» => rfl
  | unary op operand ih => rw [eager, eval_unary, ih h]
  | binary op left right ihl ihr =>
    obtain ⟨hand, hor, hleft, hright⟩ := h
    rw [eager, eval_binary, ihl hleft, ihr hright]
    cases left.eval env with
    | error e => rfl
    | ok v => exact (if_neg (by rw [decides_eq_false hand hor v]; decide)).symm

/-- Evaluation against eager evaluation. A value of eager evaluation is that of evaluation. A value of
    evaluation is that of eager evaluation unless this fails, and then it fails with the error of an
    operand that evaluation left out, behind one that decides. Without `dan` and `atau` both give the
    same, errors included. -/
theorem eval_against_eager (env : Environment) (x : Expr) :
    (∀ v, x.eager env = .ok v → x.eval env = .ok v) ∧
      (∀ v, x.eval env = .ok v → x.eager env = .ok v ∨
        ∃ part ∈ x.skipped env, ∃ e, part.eager env = .error e ∧ x.eager env = .error e) ∧
      (∀ part ∈ x.skipped env, ∃ op left v,
        binary op left part ∈ x.parts ∧ left.eval env = .ok v ∧ op.decides v = true) ∧
      (x.Strict → x.eager env = x.eval env) := by
  refine ⟨fun v => eval_of_eager, fun v h => ?_, fun part => mem_skipped, Strict.eager_eq⟩
  have heager := eager_of_eval h
  cases hfirst : (x.skipped env).findSome? (eagerError? env) with
  | none =>
    rw [hfirst] at heager
    exact .inl heager
  | some e =>
    rw [hfirst] at heager
    obtain ⟨part, hpart, he⟩ := List.exists_of_findSome?_eq_some hfirst
    exact .inr ⟨part, hpart, e, eagerError?_eq_some.1 he, heager⟩

/-- In `benar atau x` the name is left out, and eager evaluation fails with its error; `benar dan "a"`
    has its value in both ways; `"a" == x` fails in both ways. -/
theorem eval_against_eager_unbound :
    let outer : Expr := .binary .or (.boolean true) (.variable "x")
    let both : Expr := .binary .and (.boolean true) (.text "a")
    let strict : Expr := .binary .equal (.text "a") (.variable "x")
    (outer.eval .empty = .ok (.boolean true) ∧ ∃ part ∈ outer.skipped .empty, ∃ e,
        part.eager .empty = .error e ∧ outer.eager .empty = .error e) ∧
      (both.eager .empty = .ok (.text "a") ∧ both.eval .empty = .ok (.text "a")) ∧
      (strict.Strict ∧ strict.eager .empty = strict.eval .empty) := by
  have hstrict : (Expr.binary .equal (.text "a") (.variable "x")).Strict :=
    ⟨by decide, by decide, trivial, trivial⟩
  refine ⟨⟨rfl, ?_⟩, ⟨rfl, (eval_against_eager _ _).1 _ rfl⟩, hstrict,
    (eval_against_eager _ _).2.2.2 hstrict⟩
  exact ((eval_against_eager .empty (.binary .or (.boolean true) (.variable "x"))).2.1 _
    rfl).resolve_left nofun

end Expr

end Naskah
