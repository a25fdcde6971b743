import Naskah.Program

/-
  The names in a program. A program is made of its statements and all those within them
  (`Stmt.parts`). Each of these binds at most one name itself (`Stmt.target?`) and evaluates
  expressions, which refer to names. What an expression evaluates to is a matter of the names that it
  refers to (`Expr.eval_congr`).
-/

namespace Naskah

/-! ## Environments -/

namespace Environment

/-- Looking up any of the names gives the same in both environments. -/
def Agree (names : List String) (env env' : Environment) : Prop :=
  ∀ x ∈ names, env.get? x = env'.get? x

variable {names : List String} {env env' : Environment}

theorem Agree.symm (h : env.Agree names env') : env'.Agree names env :=
  fun x hx => (h x hx).symm

theorem Agree.mono {more : List String} (h : env.Agree more env') (hsub : names ⊆ more) :
    env.Agree names env' :=
  fun x hx => h x (hsub hx)

/-- Environments that agree do so after the same binding. -/
theorem Agree.set (h : env.Agree names env') (name : String) (value : Value) :
    (env.set name value).Agree names (env'.set name value) := by
  intro x hx
  rw [get?_set, get?_set, h x hx]

end Environment

/-! ## Expressions -/

namespace Expr

/-- The names that an expression refers to. -/
def names : Expr → List String
  | .variable name => [name]
  | .unary _ operand => operand.names
  | .binary _ left right => left.names ++ right.names
  | _ => []

variable {env env' : Environment}

/-- An expression evaluates to the same, or fails with the same error, where the names that it
    refers to are bound to the same. -/
theorem eval_congr {e : Expr} (h : env.Agree e.names env') : e.eval env = e.eval env' := by
  induction e with
  | number | text | boolean => rfl
  | «variable» name =>
    have hname : env.get? name = env'.get? name := h name List.mem_cons_self
    rw [eval, eval, hname]
  | unary op operand ih =>
    have hoperand : operand.eval env = operand.eval env' := ih h
    rw [eval, eval, hoperand]
  | binary op left right ihl ihr =>
    have hleft : left.eval env = left.eval env' := ihl (h.mono (List.subset_append_left _ _))
    have hright : right.eval env = right.eval env' := ihr (h.mono (List.subset_append_right _ _))
    cases op <;> simp only [eval, hleft, hright]

theorem evalTest_congr {e : Expr} (h : env.Agree e.names env') :
    e.evalTest env = e.evalTest env' := by
  rw [evalTest, evalTest, eval_congr h]

theorem evalBound_congr {e : Expr} (h : env.Agree e.names env') :
    e.evalBound env = e.evalBound env' := by
  rw [evalBound, evalBound, eval_congr h]

end Expr

/-! ## Statements -/

namespace Stmt

mutual

/-- A statement and all those within it. -/
def parts : Stmt → List Stmt
  | .assign target value => [.assign target value]
  | .cond test yes no => .cond test yes no :: (yes.parts ++ no.parts)
  | .count counter first last body => .count counter first last body :: body.parts
  | .loop test body => .loop test body :: body.parts
  | .input target => [.input target]
  | .print value => [.print value]
  | .block body => .block body :: partsAll body
  | .expr value => [.expr value]
  | .empty => [.empty]

/-- Statements and all those within them. -/
def partsAll : List Stmt → List Stmt
  | [] => []
  | s :: ss => s.parts ++ partsAll ss

end

theorem mem_parts (s : Stmt) : s ∈ s.parts := by
  cases s <;> exact List.mem_cons_self

theorem parts_subset_all {s : Stmt} {ss : List Stmt} (h : s ∈ ss) : s.parts ⊆ partsAll ss := by
  induction h with
  | head => exact List.subset_append_left _ _
  | tail _ _ ih => exact List.Subset.trans ih (List.subset_append_right _ _)

/-- The name that a statement itself binds. -/
def target? : Stmt → Option String
  | .assign target _ => some target
  | .count counter _ _ _ => some counter
  | .input target => some target
  | _ => none

/-- The expressions that a statement itself evaluates. -/
def evaluated : Stmt → List Expr
  | .assign _ value => [value]
  | .cond test _ _ => [test]
  | .count _ first last _ => [first, last]
  | .loop test _ => [test]
  | .print value => [value]
  | .expr value => [value]
  | _ => []

/-- The names that are bound by some of the statements. -/
def targets (ss : List Stmt) : List String :=
  ss.filterMap target?

/-- The names that are bound by some of the statements or referred to by their expressions. -/
def mentioned (ss : List Stmt) : List String :=
  targets ss ++ (ss.flatMap evaluated).flatMap Expr.names

theorem mem_targets {s : Stmt} {ss : List Stmt} {x : String} (hs : s ∈ ss)
    (hx : s.target? = some x) : x ∈ targets ss :=
  List.mem_filterMap.2 ⟨s, hs, hx⟩

theorem names_subset_mentioned {s : Stmt} {ss : List Stmt} {e : Expr} (hs : s ∈ ss)
    (he : e ∈ s.evaluated) : e.names ⊆ mentioned ss := by
  intro x hx
  have hmem : e ∈ ss.flatMap evaluated := List.mem_flatMap.2 ⟨s, hs, he⟩
  exact List.mem_append_right _ (List.mem_flatMap.2 ⟨e, hmem, hx⟩)

end Stmt

namespace Program

/-- The statements of a program and all those within them. -/
def parts (p : Program) : List Stmt :=
  Stmt.partsAll p.statements

/-- The names that assignments, input statements and counted loops anywhere in a program bind. -/
def targets (p : Program) : List String :=
  Stmt.targets p.parts

/-- All the names that occur in a program. -/
def names (p : Program) : List String :=
  Stmt.mentioned p.parts

end Program

end Naskah
