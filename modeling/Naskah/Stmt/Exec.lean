import Naskah.Context
import Naskah.Expr.Eval
import Naskah.Stmt.Basic

/-
  Execution of statements. Only loops can go on for ever, so a run is given a number of passes that
  all its loops together may make. A run that ends within its passes ends the same way with more; a
  run that needs more than it has is `exhausted`, which is neither success nor failure.
-/

namespace Naskah

/-- How execution ends. -/
inductive Outcome where
  /-- The context behind the statement, and the passes that are left. -/
  | finished (ctx : Context) (left : Nat)
  /-- The context in which a statement failed; the failing statement has not changed it. -/
  | failed (e : RuntimeError) (ctx : Context)
  | exhausted
deriving DecidableEq

/-- The value of a range bound, which has to be a number. -/
def Expr.evalBound (env : Environment) (e : Expr) : Except RuntimeError Float :=
  match e.eval env with
  | .error e => .error e
  | .ok (.number x) => .ok x
  | .ok v => .error (.typeMismatch (.rangeBound v.type))

/-- Whether the value of an expression is true. -/
def Expr.evalTest (env : Environment) (e : Expr) : Except RuntimeError Bool :=
  match e.eval env with
  | .error e => .error e
  | .ok v => .ok v.isTruthy

namespace Stmt

/-- Makes passes as long as the test is true. -/
def loopFrom (test : Expr) (body : Nat → Context → Outcome) (passes : Nat) (ctx : Context) :
    Outcome :=
  match test.evalTest ctx.environment with
  | .error e => .failed e ctx
  | .ok false => .finished ctx passes
  | .ok true =>
    match passes with
    | 0 => .exhausted
    | n + 1 =>
      match body n ctx with
      | .finished ctx left => loopFrom test body (min left n) ctx
      | stopped => stopped
termination_by passes
decreasing_by omega

/-- Makes passes as long as the counter has not gone beyond the last bound. The counter is bound at
    the start of each pass, and what the body binds it to does not matter. -/
def countFrom (counter : String) (last : Float) (body : Nat → Context → Outcome) (passes : Nat)
    (x : Float) (ctx : Context) : Outcome :=
  if x ≤ last then
    match passes with
    | 0 => .exhausted
    | n + 1 =>
      match body n (ctx.bind counter (.number x)) with
      | .finished ctx left => countFrom counter last body (min left n) (x + 1.0) ctx
      | stopped => stopped
  else .finished ctx passes
termination_by passes
decreasing_by omega

mutual

/-- Executes one statement. -/
def exec : Stmt → (passes : Nat) → Context → Outcome
  | .assign target value, passes, ctx =>
    match value.eval ctx.environment with
    | .error e => .failed e ctx
    | .ok v => .finished (ctx.bind target v) passes
  | .cond test yes no, passes, ctx =>
    match test.evalTest ctx.environment with
    | .error e => .failed e ctx
    | .ok true => yes.exec passes ctx
    | .ok false => no.exec passes ctx
  | .count counter first last body, passes, ctx =>
    match first.evalBound ctx.environment with
    | .error e => .failed e ctx
    | .ok x =>
      match last.evalBound ctx.environment with
      | .error e => .failed e ctx
      | .ok y => countFrom counter y (fun n c => body.exec n c) passes x ctx
  | .loop test body, passes, ctx => loopFrom test (fun n c => body.exec n c) passes ctx
  | .input target, passes, ctx =>
    match ctx.read? target with
    | none => .failed (.missingInput target) ctx
    | some ctx => .finished ctx passes
  | .print value, passes, ctx =>
    match value.eval ctx.environment with
    | .error e => .failed e ctx
    | .ok v => .finished (ctx.print v) passes
  | .block body, passes, ctx => execAll body passes ctx
  | .expr value, passes, ctx =>
    match value.eval ctx.environment with
    | .error e => .failed e ctx
    | .ok _ => .finished ctx passes
  | .empty, passes, ctx => .finished ctx passes

/-- Executes statements one after another until one does not finish. -/
def execAll : List Stmt → (passes : Nat) → Context → Outcome
  | [], passes, ctx => .finished ctx passes
  | s :: ss, passes, ctx =>
    match s.exec passes ctx with
    | .finished ctx left => execAll ss left ctx
    | stopped => stopped

end

end Stmt

end Naskah
