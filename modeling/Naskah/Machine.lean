import Naskah.Stmt.Exec

/-
  A machine that executes statements in small steps. Its state is a stack of what is still to be
  done together with a context, and a step takes the top of the stack and does one thing: it
  evaluates a test or the bounds of a range, binds, reads, prints, or evaluates. A step that fails
  leaves the context as it was.
-/

namespace Naskah

/-- What is still to be done. -/
inductive Task where
  | stmt (s : Stmt)
  /-- A loop that has made a pass. -/
  | loop (test : Expr) (body : Stmt)
  /-- A counted loop that comes to its next pass. -/
  | count (counter : String) (next last : Float) (body : Stmt)
deriving DecidableEq

structure Machine where
  pending : List Task
  context : Context
deriving DecidableEq

/-- What becomes of a machine. -/
inductive Progress where
  | running (m : Machine)
  | halted (ctx : Context)
  | failed (e : RuntimeError) (ctx : Context)
deriving DecidableEq

namespace Machine

/-- The machine that is about to execute statements. -/
def start (ss : List Stmt) (ctx : Context) : Machine :=
  ⟨ss.map .stmt, ctx⟩

/-- Goes on with the stack below the top and the given tasks on it, in the context that the result
    of the top task gives. -/
def proceed {α : Type} (m : Machine) (result : Except RuntimeError α)
    (next : α → Machine) : Progress :=
  match result with
  | .error e => .failed e m.context
  | .ok a => .running (next a)

/-- Starts a pass of a loop if its test is true. -/
def stepLoop (m : Machine) (test : Expr) (body : Stmt) (rest : List Task) : Progress :=
  m.proceed (test.evalTest m.context.environment) fun
    | true => ⟨.stmt body :: .loop test body :: rest, m.context⟩
    | false => ⟨rest, m.context⟩

/-- Starts a pass of a counted loop if its counter has not gone beyond the last bound. -/
def stepCount (m : Machine) (counter : String) (x last : Float) (body : Stmt)
    (rest : List Task) : Progress :=
  if x ≤ last then
    .running ⟨.stmt body :: .count counter (x + 1.0) last body :: rest,
      m.context.bind counter (.number x)⟩
  else .running ⟨rest, m.context⟩

/-- Executes a statement, or the first part of it. -/
def stepStmt (m : Machine) (s : Stmt) (rest : List Task) : Progress :=
  let env := m.context.environment
  match s with
  | .assign target value =>
    m.proceed (value.eval env) fun v => ⟨rest, m.context.bind target v⟩
  | .cond test yes no =>
    m.proceed (test.evalTest env) fun b => ⟨.stmt (if b then yes else no) :: rest, m.context⟩
  | .count counter first last body =>
    match first.evalBound env with
    | .error e => .failed e m.context
    | .ok x =>
      m.proceed (last.evalBound env) fun y => ⟨.count counter x y body :: rest, m.context⟩
  | .loop test body => m.stepLoop test body rest
  | .input target =>
    match m.context.read? target with
    | none => .failed (.missingInput target) m.context
    | some ctx => .running ⟨rest, ctx⟩
  | .print value => m.proceed (value.eval env) fun v => ⟨rest, m.context.print v⟩
  | .block body => .running ⟨body.map .stmt ++ rest, m.context⟩
  | .expr value => m.proceed (value.eval env) fun _ => ⟨rest, m.context⟩
  | .empty => .running ⟨rest, m.context⟩

def step (m : Machine) : Progress :=
  match m.pending with
  | [] => .halted m.context
  | .stmt s :: rest => m.stepStmt s rest
  | .loop test body :: rest => m.stepLoop test body rest
  | .count counter x last body :: rest => m.stepCount counter x last body rest

/-- Makes up to `n` steps. -/
def run (m : Machine) : (n : Nat) → Progress
  | 0 => .running m
  | n + 1 =>
    match m.step with
    | .running next => next.run n
    | ended => ended

/-- The statement that the next step starts, if it starts one. -/
def starting? (m : Machine) : Option Stmt :=
  match m.pending with
  | .stmt s :: _ => some s
  | _ => none

/-- The statements that the next `n` steps start, in order, behind those of `before`. -/
def started (m : Machine) (before : Array Stmt) : (n : Nat) → Array Stmt
  | 0 => before
  | n + 1 =>
    let sofar := match m.starting? with
      | some s => before.push s
      | none => before
    match m.step with
    | .running next => next.started sofar n
    | _ => sofar

end Machine

end Naskah
