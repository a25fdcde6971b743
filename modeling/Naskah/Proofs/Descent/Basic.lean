import Naskah.Program
import Naskah.Proofs.Expr.Grammar

/-
  The descent: parsing step by step. It looks at one token and asks the scanner for the next one when
  it passes that; it counts the nesting levels up when it enters something and down when it leaves,
  and the operators of the expression that it is in. Whatever the scanner has answered is noted.

  What is done is an action, a sequence of steps and calls, and every call stands for an action of
  its own (`Call.body`), so that they may call each other and themselves. `Performs` says how an
  action comes to an end. Nothing makes it do so: an action whose calls went on forever would just
  not be performed, and that there is none such is a theorem (`Proofs/Descent/Discipline`).
-/

namespace Naskah

namespace Descent

open Naskah.Expr (Level)
open Naskah.Expr.Parse (logical? relational? additive? multiplicative?)

/-! ## Looking ahead -/

/-- What a descent looks at. -/
inductive Current where
  | token (t : Token)
  /-- The end of the text. -/
  | finish (line : Nat)
deriving DecidableEq, Repr

namespace Current

def kind? : Current → Option Token.Kind
  | token t => some t.kind
  | finish _ => none

def line : Current → Nat
  | token t => t.line
  | finish line => line

/-- The answer of the scanner that it comes from. -/
def met : Current → Scan
  | token t => .token t
  | finish line => .finish line

end Current

/-- A scanner with one token ahead of it, and all that it has answered. -/
structure Lookahead where
  /-- Where the scanner goes on, behind the current token. -/
  cursor : Cursor
  current : Current
  asked : List Scan

/-- Asks the scanner for the next token, which becomes the current one. -/
def Lookahead.ask (l : Lookahead) : Except LexError Unit × Lookahead :=
  match l.cursor.scan with
  | (.token t, cursor) => (.ok (), ⟨cursor, .token t, l.asked ++ [.token t]⟩)
  | (.finish line, cursor) => (.ok (), ⟨cursor, .finish line, l.asked ++ [.finish line]⟩)
  | (.fault e, cursor) => (.error e, ⟨cursor, l.current, l.asked ++ [.fault e]⟩)

/-! ## Actions -/

structure State where
  ahead : Lookahead
  /-- The nesting levels that have been entered and not been left. -/
  depth : Nat
  /-- The operators met so far in the whole expression. -/
  operators : Nat
  /-- Where the whole expression starts. -/
  startLine : Nat

/-- Why a descent stops. -/
inductive Halt where
  | refused (e : Error)
  /-- More nesting levels were left than had been entered. -/
  | underflow
deriving DecidableEq

/-- What can be called, by what it returns. A loop goes on by calling itself. -/
inductive Call : Type → Type
  | expr (l : Level) : Call Expr
  /-- Joins further operands to `left` as long as operators follow. -/
  | joined (op? : Token.Kind → Option BinaryOp) (operand : Level) (left : Expr) : Call Expr
  /-- A whole expression, whose operators are counted anew. -/
  | expression : Call Expr
  | statement : Call Stmt
  /-- An expression, or an assignment when `itu` follows it. -/
  | assignmentOrExpr : Call Stmt
  | input : Call Stmt
  | print : Call Stmt
  | cond : Call Stmt
  | count : Call Stmt
  | loop : Call Stmt
  /-- The test, the first branch and what follows it, up to the closing `yaudah`. -/
  | conditional (openedAt : Nat) : Call Stmt
  | block (construct : Construct) (openedAt : Nat) : Call Stmt
  /-- Statements up to `yaudah`, `kalogak` or `lainnya`, which is left to the caller. -/
  | statements (construct : Construct) (openedAt : Nat) : Call (List Stmt)
  /-- Statements up to the end of the text. -/
  | program : Call (List Stmt)

/-- Steps and calls, each with what follows it. -/
inductive Action (α : Type) : Type 1
  | done (a : α)
  | step {β : Type} (f : State → Except Halt β × State) (next : β → Action α)
  | call {β : Type} (c : Call β) (next : β → Action α)

protected def Action.bind {α β : Type} (act : Action α) (f : α → Action β) : Action β :=
  match act with
  | .done a => f a
  | .step g next => .step g fun b => (next b).bind f
  | .call c next => .call c fun b => (next b).bind f

instance : Monad Action where
  pure := .done
  bind := .bind

variable {α : Type}

def step (f : State → Except Halt α × State) : Action α :=
  .step f .done

def call (c : Call α) : Action α :=
  .call c .done

/-! ## Steps -/

def refuse (e : ParseError) : Action α :=
  step fun s => (.error (.refused (.structural e)), s)

def current : Action Current :=
  step fun s => (.ok s.ahead.current, s)

def kind? : Action (Option Token.Kind) :=
  step fun s => (.ok s.ahead.current.kind?, s)

/-- The line of the current token. -/
def line : Action Nat :=
  step fun s => (.ok s.ahead.current.line, s)

/-- Passes the current token. -/
def pass : Action Unit :=
  step fun s =>
    match s.ahead.ask with
    | (.ok (), ahead) => (.ok (), { s with ahead })
    | (.error e, ahead) => (.error (.refused (.lexical e)), { s with ahead })

/-- Enters a nesting level. -/
def enter : Action Unit :=
  step fun s =>
    if maxNesting ≤ s.depth then
      (.error (.refused (.structural (.nestingTooDeep maxNesting s.ahead.current.line))), s)
    else (.ok (), { s with depth := s.depth + 1 })

/-- Leaves a nesting level. -/
def leave : Action Unit :=
  step fun s =>
    match s.depth with
    | 0 => (.error .underflow, s)
    | depth + 1 => (.ok (), { s with depth })

/-- Counts an operator. -/
def countOperator : Action Unit :=
  step fun s =>
    let counted := { s with operators := s.operators + 1 }
    if maxOperators < counted.operators then
      (.error (.refused (.structural (.expressionTooLarge maxOperators s.startLine))), counted)
    else (.ok (), counted)

/-- Starts to count the operators of a whole expression. -/
def startExpression : Action Unit :=
  step fun s => (.ok (), { s with operators := 0, startLine := s.ahead.current.line })

/-- Counts an operator and passes it. -/
def operator : Action Unit := do
  countOperator
  pass

/-- Complains about the current token. -/
def unexpected (wanted : Expectation) : Action α := do
  match ← current with
  | .token t => refuse (.unexpected wanted (.token t.kind) t.line)
  | .finish line => refuse (.unexpectedEnd wanted line)

/-- Passes the current token if it is acceptable. -/
def take (wanted : Expectation) (accept : Token.Kind → Option α) : Action α := do
  match (← kind?).bind accept with
  | some a =>
    pass
    return a
  | none => unexpected wanted

def takeKeyword (k : Keyword) : Action Unit :=
  take (.keyword k) fun kind => if kind = .keyword k then some () else none

def takeSymbol (s : Symbol) : Action Unit :=
  take (.symbol s) fun kind => if kind = .symbol s then some () else none

def takeName (wanted : Expectation) : Action String :=
  take wanted fun
    | .identifier name => some name
    | _ => none

/-! ## Expressions -/

/-- A unary operator before an operand of the level, or what stands at the other level. -/
def marked (op : UnaryOp) (operand otherwise : Level) : Action Expr := do
  if (← kind?) = some op.kind then
    operator
    enter
    let inner ← call (.expr operand)
    leave
    return .unary op inner
  else call (.expr otherwise)

def comparison : Action Expr := do
  let left ← call (.expr .sum)
  match (← kind?).bind relational? with
  | none => return left
  | some op =>
    operator
    let right ← call (.expr .sum)
    match (← kind?).bind relational? with
    | none => return .binary op left right
    | some _ => refuse (.chainedComparison (← line))

def literal : Action Expr := do
  match ← current with
  | .finish line => refuse (.unexpectedEnd .expression line)
  | .token t =>
    pass
    match t.kind with
    | .symbol .parenOpen =>
      enter
      let inner ← call (.expr .logical)
      takeSymbol .parenClose
      leave
      return inner
    | .keyword .benar => return .boolean true
    | .keyword .salah => return .boolean false
    | .number digits =>
      match Numeral.read? digits.toList with
      | none => refuse (.invalidNumber digits t.line)
      | some x => return .number x
    | .string content => return .text content
    | .identifier name => return .variable name
    | kind => refuse (.unexpected .expression (.token kind) t.line)

def expr : Level → Action Expr
  | .logical => do
    let left ← call (.expr .negation)
    call (.joined logical? .negation left)
  | .negation => marked .not .negation .comparison
  | .comparison => comparison
  | .sum => do
    let left ← call (.expr .product)
    call (.joined additive? .product left)
  | .product => do
    let left ← call (.expr .sign)
    call (.joined multiplicative? .sign left)
  | .sign => marked .negate .sign .literal
  | .literal => literal

def joined (op? : Token.Kind → Option BinaryOp) (operand : Level) (left : Expr) : Action Expr := do
  match (← kind?).bind op? with
  | none => return left
  | some op =>
    operator
    let right ← call (.expr operand)
    call (.joined op? operand (.binary op left right))

def expression : Action Expr := do
  startExpression
  call (.expr .logical)

/-! ## Statements -/

def statement : Action Stmt := do
  match ← kind? with
  | some (.keyword .ulangin) => call .count
  | some (.keyword .kalo) => call .cond
  | some (.keyword .baca) => call .input
  | some (.keyword .tulis) => call .print
  | some (.keyword .selama) => call .loop
  | _ => call .assignmentOrExpr

def assignmentOrExpr : Action Stmt := do
  let left ← call .expression
  match ← current with
  | .token ⟨.keyword .itu, line⟩ =>
    match left with
    | .variable target =>
      pass
      let value ← call .expression
      return .assign target value
    | _ => refuse (.unexpected .assignmentTarget .expression line)
  | _ => return .expr left

def input : Action Stmt := do
  takeKeyword .baca
  let target ← takeName .inputTarget
  return .input target

def print : Action Stmt := do
  takeKeyword .tulis
  let value ← call .expression
  return .print value

def cond : Action Stmt := do
  let openedAt ← line
  takeKeyword .kalo
  call (.conditional openedAt)

def count : Action Stmt := do
  let openedAt ← line
  takeKeyword .ulangin
  let counter ← takeName .loopVariable
  takeKeyword .dari
  let first ← call .expression
  takeKeyword .sampe
  let last ← call .expression
  let body ← call (.block .count openedAt)
  takeKeyword .yaudah
  return .count counter first last body

def loop : Action Stmt := do
  let openedAt ← line
  takeKeyword .selama
  let test ← call .expression
  let body ← call (.block .loop openedAt)
  takeKeyword .yaudah
  return .loop test body

def conditional (openedAt : Nat) : Action Stmt := do
  let test ← call .expression
  let yes ← call (.block .cond openedAt)
  match ← kind? with
  | some (.keyword .kalogak) =>
    pass
    enter
    let no ← call (.conditional openedAt)
    leave
    return .cond test yes no
  | some (.keyword .lainnya) =>
    pass
    let no ← call (.block .cond openedAt)
    takeKeyword .yaudah
    return .cond test yes no
  | some (.keyword .yaudah) =>
    pass
    return .cond test yes .empty
  | _ => unexpected (.keyword .yaudah)

def block (construct : Construct) (openedAt : Nat) : Action Stmt := do
  enter
  let body ← call (.statements construct openedAt)
  leave
  return .block body

def statements (construct : Construct) (openedAt : Nat) : Action (List Stmt) := do
  match ← kind? with
  | none => refuse (.missingTerminator construct openedAt)
  | some kind =>
    if kind ∈ [.keyword .yaudah, .keyword .kalogak, .keyword .lainnya] then return []
    else
      let first ← call .statement
      let more ← call (.statements construct openedAt)
      return first :: more

def program : Action (List Stmt) := do
  match ← kind? with
  | none => return []
  | some _ =>
    let first ← call .statement
    let more ← call .program
    return first :: more

/-! ## Performing -/

def Call.body {α : Type} : Call α → Action α
  | .expr l => Descent.expr l
  | .joined op? operand left => Descent.joined op? operand left
  | .expression => Descent.expression
  | .statement => Descent.statement
  | .assignmentOrExpr => Descent.assignmentOrExpr
  | .input => Descent.input
  | .print => Descent.print
  | .cond => Descent.cond
  | .count => Descent.count
  | .loop => Descent.loop
  | .conditional openedAt => Descent.conditional openedAt
  | .block construct openedAt => Descent.block construct openedAt
  | .statements construct openedAt => Descent.statements construct openedAt
  | .program => Descent.program

/-- Performed in the state `s` the action comes to an end with the result `r` in the state `s'`. -/
inductive Performs : {α : Type} → Action α → (s : State) → (r : Except Halt α) → (s' : State) → Prop
  | done {α : Type} {a : α} {s : State} : Performs (.done a) s (.ok a) s
  | step {α β : Type} {f : State → Except Halt β × State} {next : β → Action α} {s s' s'' : State}
      {b : β} {r : Except Halt α} (h : f s = (.ok b, s')) (hnext : Performs (next b) s' r s'') :
      Performs (.step f next) s r s''
  | stepFails {α β : Type} {f : State → Except Halt β × State} {next : β → Action α} {s s' : State}
      {e : Halt} (h : f s = (.error e, s')) : Performs (.step f next) s (.error e) s'
  | call {α β : Type} {c : Call β} {next : β → Action α} {s s' s'' : State} {b : β}
      {r : Except Halt α} (h : Performs c.body s (.ok b) s') (hnext : Performs (next b) s' r s'') :
      Performs (.call c next) s r s''
  | callFails {α β : Type} {c : Call β} {next : β → Action α} {s s' : State} {e : Halt}
      (h : Performs c.body s (.error e) s') : Performs (.call c next) s (.error e) s'

/-- The state in which a descent through a text starts, unless the first question to the scanner
    meets an error. -/
def State.start (source : String) : Except LexError State :=
  match (Cursor.start source).scan with
  | (.token t, cursor) => .ok ⟨⟨cursor, .token t, [.token t]⟩, 0, 0, 1⟩
  | (.finish line, cursor) => .ok ⟨⟨cursor, .finish line, [.finish line]⟩, 0, 0, 1⟩
  | (.fault e, _) => .error e

end Descent

end Naskah
