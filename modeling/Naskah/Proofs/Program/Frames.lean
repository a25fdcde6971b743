import Naskah.Proofs.Program.Nesting

/-
  Execution within a limited stack. Every call of the evaluation of an expression takes a frame,
  and so does every call of the execution of a statement; without a frame left there is no result.
  `execWithin` and `evalWithin` do what `exec` and `eval` do, a call with one frame less for the
  calls within it. A tree whose height is within the frames is executed as if there were no limit,
  and every compiled program is (`compile_bounded`).
-/

namespace Naskah

/-- Results are compared part by part. -/
instance resultDecEq {ε α : Type} [DecidableEq ε] [DecidableEq α] : DecidableEq (Except ε α)
  | .error e, .error e' => decidable_of_iff (e = e') (by simp)
  | .ok a, .ok a' => decidable_of_iff (a = a') (by simp)
  | .error _, .ok _ => isFalse (by simp)
  | .ok _, .error _ => isFalse (by simp)

namespace Expr

/-- The value of an expression, if `frames` calls may lie within one another. -/
def evalWithin (env : Environment) : (frames : Nat) → Expr → Option (Except RuntimeError Value)
  | 0, _ => none
  | n + 1, .unary op operand =>
    match evalWithin env n operand with
    | some (.ok v) => some (op.apply v)
    | stopped => stopped
  | n + 1, .binary op left right =>
    match evalWithin env n left with
    | some (.ok v) =>
      match op, v.isTruthy with
      | .and, false | .or, true => some (.ok v)
      | .and, true | .or, false => evalWithin env n right
      | op, _ =>
        match evalWithin env n right with
        | some (.ok w) => some (op.apply v w)
        | stopped => stopped
    | stopped => stopped
  | _ + 1, leaf => some (leaf.eval env)

theorem height_pos (e : Expr) : 0 < e.height := by
  cases e <;> exact Nat.succ_pos _

/-- An expression that is no higher than there are frames is evaluated. -/
theorem evalWithin_eq (env : Environment) {n : Nat} {e : Expr} (h : e.height ≤ n) :
    e.evalWithin env n = some (e.eval env) := by
  induction n generalizing e with
  | zero => exact absurd e.height_pos (Nat.not_lt_of_le h)
  | succ n ih =>
    cases e with
    | unary op operand =>
      have hoperand := ih (Nat.le_of_succ_le_succ h)
      rw [evalWithin, hoperand, eval]
      cases operand.eval env <;> rfl
    | binary op left right =>
      have hmax := Nat.max_le.1 (Nat.le_of_succ_le_succ h)
      have hleft := ih hmax.1
      have hright := ih hmax.2
      rw [evalWithin, hleft]
      match hv : left.eval env with
      | .error e => cases op <;> simp only [eval, hv]
      | .ok v =>
        match ht : v.isTruthy, hw : right.eval env with
        | true, .error e => cases op <;> simp only [eval, hv, ht, hright, hw, if_true]
        | false, .error e =>
          cases op <;> simp only [eval, hv, ht, hright, hw, if_false, Bool.false_eq_true]
        | true, .ok w => cases op <;> simp only [eval, hv, ht, hright, hw, if_true]
        | false, .ok w =>
          cases op <;> simp only [eval, hv, ht, hright, hw, if_false, Bool.false_eq_true]
    | _ => rfl

/-- The truth of an expression, if `frames` calls may lie within one another. -/
def testWithin (env : Environment) (frames : Nat) (e : Expr) :
    Option (Except RuntimeError Bool) :=
  match e.evalWithin env frames with
  | none => none
  | some (.error e) => some (.error e)
  | some (.ok v) => some (.ok v.isTruthy)

theorem testWithin_eq (env : Environment) {n : Nat} {e : Expr} (h : e.height ≤ n) :
    e.testWithin env n = some (e.evalTest env) := by
  unfold testWithin evalTest
  rw [evalWithin_eq env h]
  cases e.eval env <;> rfl

/-- A range bound, if `frames` calls may lie within one another. -/
def boundWithin (env : Environment) (frames : Nat) (e : Expr) :
    Option (Except RuntimeError Float) :=
  match e.evalWithin env frames with
  | none => none
  | some (.error e) => some (.error e)
  | some (.ok (.number x)) => some (.ok x)
  | some (.ok v) => some (.error (.typeMismatch (.rangeBound v.type)))

theorem boundWithin_eq (env : Environment) {n : Nat} {e : Expr} (h : e.height ≤ n) :
    e.boundWithin env n = some (e.evalBound env) := by
  unfold boundWithin evalBound
  rw [evalWithin_eq env h]
  match e.eval env with
  | .error e => rfl
  | .ok v => cases v <;> rfl

end Expr

namespace Stmt

/-! ## Loops -/

/-- Makes passes as long as the test is true. -/
def loopWithin (test : Context → Option (Except RuntimeError Bool))
    (body : Nat → Context → Option Outcome) (passes : Nat) (ctx : Context) : Option Outcome :=
  match test ctx with
  | none => none
  | some (.error e) => some (.failed e ctx)
  | some (.ok false) => some (.finished ctx passes)
  | some (.ok true) =>
    match passes with
    | 0 => some .exhausted
    | n + 1 =>
      match body n ctx with
      | some (.finished ctx left) => loopWithin test body (min left n) ctx
      | stopped => stopped
termination_by passes
decreasing_by omega

theorem loopWithin_eq {e : Expr} {test : Context → Option (Except RuntimeError Bool)}
    {within : Nat → Context → Option Outcome} {body : Nat → Context → Outcome}
    (htest : ∀ ctx, test ctx = some (e.evalTest ctx.environment))
    (hbody : ∀ n ctx, within n ctx = some (body n ctx)) (passes : Nat) (ctx : Context) :
    loopWithin test within passes ctx = some (loopFrom e body passes ctx) := by
  induction passes using Nat.strongRecOn generalizing ctx with
  | ind passes ih =>
    unfold loopWithin loopFrom
    rw [htest]
    match e.evalTest ctx.environment with
    | .error e => rfl
    | .ok false => rfl
    | .ok true =>
      cases passes with
      | zero => rfl
      | succ n =>
        simp only [hbody]
        cases body n ctx with
        | finished ctx left => exact ih (min left n) (by omega) ctx
        | failed e ctx => rfl
        | exhausted => rfl

/-- Makes passes as long as the counter has not gone beyond the last bound. -/
def countWithin (counter : String) (last : Float) (body : Nat → Context → Option Outcome)
    (passes : Nat) (x : Float) (ctx : Context) : Option Outcome :=
  if x ≤ last then
    match passes with
    | 0 => some .exhausted
    | n + 1 =>
      match body n (ctx.bind counter (.number x)) with
      | some (.finished ctx left) => countWithin counter last body (min left n) (x + 1.0) ctx
      | stopped => stopped
  else some (.finished ctx passes)
termination_by passes
decreasing_by omega

theorem countWithin_eq {within : Nat → Context → Option Outcome} {body : Nat → Context → Outcome}
    (hbody : ∀ n ctx, within n ctx = some (body n ctx)) (counter : String) (last : Float)
    (passes : Nat) (x : Float) (ctx : Context) :
    countWithin counter last within passes x ctx =
      some (countFrom counter last body passes x ctx) := by
  induction passes using Nat.strongRecOn generalizing x ctx with
  | ind passes ih =>
    unfold countWithin countFrom
    by_cases hx : x ≤ last
    · rw [if_pos hx, if_pos hx]
      cases passes with
      | zero => rfl
      | succ n =>
        simp only [hbody]
        cases body n (ctx.bind counter (.number x)) with
        | finished ctx left => exact ih (min left n) (by omega) (x + 1.0) ctx
        | failed e ctx => rfl
        | exhausted => rfl
    · rw [if_neg hx, if_neg hx]

/-! ## Statements -/

/-- Executes statements one after another until one does not finish. -/
def execAllWithin (one : Stmt → Nat → Context → Option Outcome) :
    List Stmt → (passes : Nat) → Context → Option Outcome
  | [], passes, ctx => some (.finished ctx passes)
  | s :: ss, passes, ctx =>
    match one s passes ctx with
    | some (.finished ctx left) => execAllWithin one ss left ctx
    | stopped => stopped

theorem execAllWithin_eq {one : Stmt → Nat → Context → Option Outcome} {ss : List Stmt}
    (h : ∀ s ∈ ss, ∀ passes ctx, one s passes ctx = some (s.exec passes ctx)) (passes : Nat)
    (ctx : Context) : execAllWithin one ss passes ctx = some (execAll ss passes ctx) := by
  induction ss generalizing passes ctx with
  | nil => rfl
  | cons s ss ih =>
    rw [execAllWithin, execAll, h s (List.mem_cons_self ..)]
    match s.exec passes ctx with
    | .finished ctx left => exact ih (fun t ht => h t (List.mem_cons_of_mem _ ht)) left ctx
    | .failed e ctx => rfl
    | .exhausted => rfl

/-- Executes one statement, if `frames` calls of the execution and, on top of them, `evals` calls
    of the evaluation may lie within one another. -/
def execWithin (evals : Nat) :
    (frames : Nat) → Stmt → (passes : Nat) → Context → Option Outcome
  | 0, _, _, _ => none
  | n + 1, s, passes, ctx =>
    match s with
    | .assign target value =>
      match value.evalWithin ctx.environment evals with
      | none => none
      | some (.error e) => some (.failed e ctx)
      | some (.ok v) => some (.finished (ctx.bind target v) passes)
    | .cond test yes no =>
      match test.testWithin ctx.environment evals with
      | none => none
      | some (.error e) => some (.failed e ctx)
      | some (.ok true) => execWithin evals n yes passes ctx
      | some (.ok false) => execWithin evals n no passes ctx
    | .count counter first last body =>
      match first.boundWithin ctx.environment evals with
      | none => none
      | some (.error e) => some (.failed e ctx)
      | some (.ok x) =>
        match last.boundWithin ctx.environment evals with
        | none => none
        | some (.error e) => some (.failed e ctx)
        | some (.ok y) => countWithin counter y (execWithin evals n body) passes x ctx
    | .loop test body =>
      loopWithin (fun ctx => test.testWithin ctx.environment evals) (execWithin evals n body)
        passes ctx
    | .print value =>
      match value.evalWithin ctx.environment evals with
      | none => none
      | some (.error e) => some (.failed e ctx)
      | some (.ok v) => some (.finished (ctx.print v) passes)
    | .block body => execAllWithin (execWithin evals n) body passes ctx
    | .expr value =>
      match value.evalWithin ctx.environment evals with
      | none => none
      | some (.error e) => some (.failed e ctx)
      | some (.ok _) => some (.finished ctx passes)
    | leaf => some (leaf.exec passes ctx)

theorem height_pos (s : Stmt) : 0 < s.height := by
  cases s <;> exact Nat.succ_pos _

/-- A statement that is no higher than there are frames, with expressions of which the same holds,
    is executed. -/
theorem execWithin_eq {evals n : Nat} {s : Stmt} (h : s.height ≤ n)
    (he : ∀ e ∈ s.expressions, e.height ≤ evals) (passes : Nat) (ctx : Context) :
    s.execWithin evals n passes ctx = some (s.exec passes ctx) := by
  induction n generalizing s passes ctx with
  | zero => exact absurd s.height_pos (Nat.not_lt_of_le h)
  | succ n ih =>
    cases s with
    | assign target value | print value | expr value =>
      have hvalue := Expr.evalWithin_eq ctx.environment (he value (List.mem_singleton_self _))
      rw [execWithin, exec, hvalue]
      cases value.eval ctx.environment <;> rfl
    | cond test yes no =>
      obtain ⟨htest, hbranches⟩ := List.forall_mem_cons.1 he
      obtain ⟨hyes, hno⟩ := List.forall_mem_append.1 hbranches
      have hmax := Nat.max_le.1 (Nat.le_of_succ_le_succ h)
      rw [execWithin, exec, Expr.testWithin_eq _ htest]
      match test.evalTest ctx.environment with
      | .error e => rfl
      | .ok true => exact ih hmax.1 hyes passes ctx
      | .ok false => exact ih hmax.2 hno passes ctx
    | count counter first last body =>
      obtain ⟨hfirst, hrest⟩ := List.forall_mem_cons.1 he
      obtain ⟨hlast, hbody⟩ := List.forall_mem_cons.1 hrest
      have hrun := ih (Nat.le_of_succ_le_succ h) hbody
      rw [execWithin, exec, Expr.boundWithin_eq _ hfirst, Expr.boundWithin_eq _ hlast]
      match first.evalBound ctx.environment, last.evalBound ctx.environment with
      | .error e, _ => rfl
      | .ok x, .error e => rfl
      | .ok x, .ok y => exact countWithin_eq hrun counter y passes x ctx
    | loop test body =>
      obtain ⟨htest, hbody⟩ := List.forall_mem_cons.1 he
      have hrun := ih (Nat.le_of_succ_le_succ h) hbody
      rw [execWithin, exec]
      exact loopWithin_eq (fun ctx => Expr.testWithin_eq ctx.environment htest) hrun passes ctx
    | block body =>
      rw [execWithin, exec]
      refine execAllWithin_eq (fun s hs passes ctx => ih ?_ ?_ passes ctx) passes ctx
      · exact Nat.le_trans (height_le_all hs) (Nat.le_of_succ_le_succ h)
      · exact fun e hmem => he e (expressions_subset_all hs hmem)
    | input | empty => rfl

example (ctx : Context) : (Stmt.block [.empty]).execWithin 1 1 0 ctx = none := rfl

end Stmt

/-- Executes a program, if `frames` calls of the execution and, on top of them, `evals` calls of
    the evaluation may lie within one another. -/
def Program.executeWithin (p : Program) (frames evals passes : Nat) (ctx : Context) :
    Option Outcome :=
  Stmt.execAllWithin (Stmt.execWithin evals frames) p.statements passes ctx

/-- A compiled program is bounded: the operators of each of its expressions, what lies within one
    another in each of its statements, and the calls that lie within one another when it is
    executed. -/
theorem compile_bounded {source : String} {p : Program} (h : compile source = .ok p) :
    (∀ s ∈ p.statements, (∀ e ∈ s.expressions, e.operators ≤ 1000) ∧ s.nesting ≤ 200) ∧
      ∀ passes ctx, p.executeWithin 401 1001 passes ctx = some (p.execute passes ctx) := by
  obtain ⟨ts, line, -, hder⟩ := derives_of_compile h
  have hoperators (s : Stmt) (hs : s ∈ p.statements) (e : Expr) (he : e ∈ s.expressions) :
      e.operators ≤ 1000 :=
    hder.operators_le e (Stmt.expressions_subset_all hs he)
  have hnesting (s : Stmt) (hs : s ∈ p.statements) : s.nesting ≤ 200 :=
    Nat.le_trans (Stmt.nesting_le_all hs) (Nat.le_of_succ_le_succ hder.nesting_le)
  have hheight (s : Stmt) (hs : s ∈ p.statements) : s.height ≤ 401 :=
    Nat.le_trans (Stmt.height_le_all hs) (Nat.le_of_succ_le_succ hder.height_le)
  refine ⟨fun s hs => ⟨hoperators s hs, hnesting s hs⟩, fun passes ctx => ?_⟩
  refine Stmt.execAllWithin_eq (fun s hs passes ctx => ?_) passes ctx
  refine Stmt.execWithin_eq (hheight s hs) (fun e he => ?_) passes ctx
  exact Nat.le_trans e.height_le_operators (Nat.succ_le_succ (hoperators s hs e he))

/-- A conditional that prints a negated variable is executed within the bounds. -/
theorem bounded_negated_print :
    compile "kalo x tulis -x yaudah" =
        .ok ⟨[.cond (.variable "x") (.block [.print (.unary .negate (.variable "x"))]) .empty]⟩ ∧
      ∀ passes ctx,
        Program.executeWithin
          ⟨[.cond (.variable "x") (.block [.print (.unary .negate (.variable "x"))]) .empty]⟩
          401 1001 passes ctx =
        some (Program.execute
          ⟨[.cond (.variable "x") (.block [.print (.unary .negate (.variable "x"))]) .empty]⟩
          passes ctx) :=
  have h : compile "kalo x tulis -x yaudah" =
      .ok ⟨[.cond (.variable "x") (.block [.print (.unary .negate (.variable "x"))]) .empty]⟩ := by
    decide +kernel
  ⟨h, (compile_bounded h).2⟩

end Naskah
