import Naskah.Proofs.Machine.Failure
import Naskah.Proofs.Program.Ends

/-
  What the error of a run tells (`Program.ends_truthful`). An error names something that occurs in the
  program, and the context that the run has left still shows why the run could not go on: a name is
  not bound, or no entry is left, or the operands of an operator have values of types that it
  refuses. The environment in which a step fails is that of the final context, since a step that
  fails changes nothing.
-/

namespace Naskah

/-! ## Misuses -/

namespace Misuse

/-- How the operation that was misused is written. -/
def operation : Misuse → String
  | binary op _ _ => op.spelling
  | negation _ => "-"
  | rangeBound _ => Keyword.ulangin.word

/-- The type of the first operand. -/
def left : Misuse → ValueType
  | binary _ left _ => left
  | negation operand => operand
  | rangeBound bound => bound

/-- What stands in the place of the second operand. -/
def right : Misuse → String
  | binary _ _ right => right.name
  | negation _ => "nothing"
  | rangeBound _ => "range bound"

theorem message_eq (misuse : Misuse) :
    misuse.message =
      s!"Cannot apply '{misuse.operation}' to {misuse.left.name} and {misuse.right}" := by
  cases misuse with
  | binary op left right => rfl
  | negation operand => cases operand <;> decide
  | rangeBound bound => cases bound <;> decide

end Misuse

/-- The operations that are not for operands of all types. -/
def Misuse.operations : List String :=
  ["+", "-", "*", "/", "%", ">", ">=", "<", "<=", "ulangin"]

theorem BinaryOp.Refuses.spelling_mem {op : BinaryOp} {left right : ValueType}
    (h : op.Refuses left right) : op.spelling ∈ Misuse.operations := by
  cases op with
  | equal | notEqual | and | or => exact h.elim
  | add | subtract | multiply | divide | modulo | greater | greaterEqual | less | lessEqual =>
    decide

/-! ## Errors -/

/-- The expressions in a program, with all those within them. -/
def Program.exprs (p : Program) : List Expr :=
  (p.parts.flatMap Stmt.evaluated).flatMap Expr.parts

/-- The error is about something in the program, and the context shows that it is so. -/
inductive RuntimeError.TrueOf (p : Program) (final : Context) : RuntimeError → Prop where
  | unknownIdentifier {name : String} (hp : .variable name ∈ p.exprs)
      (h : final.environment.get? name = none) : TrueOf p final (.unknownIdentifier name)
  | missingInput {target : String} (hp : .input target ∈ p.parts) (h : final.input = []) :
      TrueOf p final (.missingInput target)
  | binary {op : BinaryOp} {left right : Expr} {v w : Value} (hp : .binary op left right ∈ p.exprs)
      (hv : left.eval final.environment = .ok v) (hw : right.eval final.environment = .ok w)
      (h : op.Refuses v.type w.type) :
      TrueOf p final (.typeMismatch (.binary op v.type w.type))
  | negation {operand : Expr} {v : Value} (hp : .unary .negate operand ∈ p.exprs)
      (hv : operand.eval final.environment = .ok v) (h : v.type ≠ .number) :
      TrueOf p final (.typeMismatch (.negation v.type))
  | rangeBound {counter : String} {first last bound : Expr} {body : Stmt} {v : Value}
      (hp : .count counter first last body ∈ p.parts) (hbound : bound = first ∨ bound = last)
      (hv : bound.eval final.environment = .ok v) (h : v.type ≠ .number) :
      TrueOf p final (.typeMismatch (.rangeBound v.type))

namespace RuntimeError

variable {p : Program} {final : Context} {e : RuntimeError}

theorem TrueOf.of_fault {part : Expr} (hp : part ∈ p.exprs)
    (h : Expr.Fault final.environment part e) : TrueOf p final e := by
  cases h with
  | unbound h => exact .unknownIdentifier hp h
  | negation hv h => exact .negation hp hv h
  | binary hv hw h => exact .binary hp hv hw h

theorem TrueOf.of_stops (h : Stmt.Stops p.parts final.environment e) : TrueOf p final e := by
  cases h with
  | expr hs hx h =>
    obtain ⟨part, hpart, hfault⟩ := Expr.fault_of_eval h
    refine .of_fault (List.mem_flatMap.2 ⟨_, ?_, hpart⟩) hfault
    exact List.mem_flatMap.2 ⟨_, hs, hx⟩
  | bound hs hx hv h => exact .rangeBound hs hx hv h

/-- The operation that a true error is about is not for operands of all types. -/
theorem TrueOf.operation_mem {misuse : Misuse} (h : TrueOf p final (.typeMismatch misuse)) :
    misuse.operation ∈ Misuse.operations := by
  cases h with
  | binary hp hv hw h => exact h.spelling_mem
  | negation hp hv h => exact List.mem_cons_of_mem _ List.mem_cons_self
  | rangeBound hp hbound hv h => exact List.mem_of_getElem? (i := 9) rfl

end RuntimeError

/-! ## Operations for all types -/

/-- Of the operators with two operands these fail only if an operand does. -/
theorem Expr.eval_binary_of_total {op : BinaryOp} (hop : op ∈ [.equal, .notEqual, .and, .or])
    {env : Environment} {left right : Expr} {e : RuntimeError}
    (h : (Expr.binary op left right).eval env = .error e) :
    left.eval env = .error e ∨ right.eval env = .error e := by
  rcases eval_binary_eq_error h with hl | hr | ⟨v, w, -, -, happly⟩
  · exact .inl hl
  · exact .inr hr
  · have hrefuses := (BinaryOp.apply_eq_error.1 happly).1
    simp only [List.mem_cons, List.not_mem_nil, or_false] at hop
    rcases hop with rfl | rfl | rfl | rfl <;> exact hrefuses.elim

theorem Expr.eval_not_eq_error {env : Environment} {operand : Expr} {e : RuntimeError}
    (h : (Expr.unary .not operand).eval env = .error e) : operand.eval env = .error e := by
  rw [eval] at h
  split at h
  · next e' he =>
    cases h
    exact he
  · cases h

/-- The conditional or loop whose test comes next. -/
def Task.test? : Task → Option Expr
  | .stmt (.cond test _ _) => some test
  | .stmt (.loop test _) => some test
  | .loop test _ => some test
  | _ => none

/-- A conditional or a loop fails at its test only if the test has no value. -/
theorem Machine.eval_test_of_step {m : Machine} {task : Task} {rest : List Task} {test : Expr}
    {e : RuntimeError} {final : Context} (hpending : m.pending = task :: rest)
    (htest : task.test? = some test) (h : m.step = .failed e final) :
    test.eval m.context.environment = .error e := by
  obtain ⟨task', rest', hpending', hwhy⟩ := failure_of_step h
  cases hpending.symm.trans hpending'
  rcases hwhy with hplan | ⟨target, rfl, -, -⟩
  · have hloop {body : Stmt} (h : Plan.loop m.context.environment test body = .error e) :
        test.eval m.context.environment = .error e :=
      Expr.evalTest_eq_error.1 (error_of_map h)
    unfold Task.test? at htest
    split at htest
    · cases htest
      exact Expr.evalTest_eq_error.1 (error_of_map hplan)
    · cases htest
      exact hloop hplan
    · cases htest
      exact hloop hplan
    · cases htest
  · cases htest

/-! ## Programs -/

namespace Program

open Machine

/-- If a run ends with an error, the error is about something in the program, and the final context
    shows that it is so; an error about types is about an operation that is not for operands of all
    types. The comparisons for equality, `dan`, `atau`, `bukan` and the tests of conditionals and
    loops have no errors of their own: they fail only with the error of an operand. -/
theorem ends_truthful (p : Program) (ctx : Context) :
    (∀ e final, p.Ends ctx (.error e) final →
        e.TrueOf p final ∧ ∀ misuse, e = .typeMismatch misuse →
          misuse.operation ∈ ["+", "-", "*", "/", "%", ">", ">=", "<", "<=", "ulangin"] ∧
          e.message =
            s!"Cannot apply '{misuse.operation}' to {misuse.left.name} and {misuse.right}") ∧
      (∀ env left right e, ∀ op ∈ [BinaryOp.equal, .notEqual, .and, .or],
        (Expr.binary op left right).eval env = .error e →
          left.eval env = .error e ∨ right.eval env = .error e) ∧
      (∀ env operand e, (Expr.unary .not operand).eval env = .error e →
        operand.eval env = .error e) ∧
      ∀ (m : Machine) task rest test e final, m.pending = task :: rest → task.test? = some test →
        m.step = .failed e final → test.eval m.context.environment = .error e := by
  refine ⟨fun e final h => ?_, fun env left right e op hop h => Expr.eval_binary_of_total hop h,
    fun env operand e h => Expr.eval_not_eq_error h,
    fun m task rest test e final hpending htest h => eval_test_of_step hpending htest h⟩
  obtain ⟨n, m, hn, hend, rfl⟩ := ends_iff_reaches.1 h
  have htrue : e.TrueOf p m.context := by
    rcases stops_of_step hend (Reaches.within hn (p.machine_within ctx)) with
      hstops | ⟨target, hp, -, hinput, rfl⟩
    · exact .of_stops hstops
    · exact .missingInput hp hinput
  refine ⟨htrue, ?_⟩
  rintro misuse rfl
  exact ⟨htrue.operation_mem, misuse.message_eq⟩

/-- A sum of a boolean and a number is refused within a loop, in the second pass of it. A comparison,
    a denial and a conditional fail with the error of a name that is not bound. -/
theorem ends_truthful_sum :
    (Ends ⟨[.count "i" (.number 1) (.number 2) (.block [.expr (.binary .add (.variable "x")
            (.variable "i")), .assign "x" (.boolean true)])]⟩
          ((Context.start []).bind "x" (.number 0))
          (.error (.typeMismatch (.binary .add .boolean .number)))
          (((Context.start []).bind "i" (.number 2)).bind "x" (.boolean true)) ∧
        "+" ∈ ["+", "-", "*", "/", "%", ">", ">=", "<", "<=", "ulangin"]) ∧
      ((Expr.variable "y").eval .empty = .error (.unknownIdentifier "y") ∨
        (Expr.number 1).eval .empty = .error (.unknownIdentifier "y")) ∧
      (Expr.variable "y").eval .empty = .error (.unknownIdentifier "y") ∧
      (Expr.variable "y").eval (Context.start []).environment = .error (.unknownIdentifier "y") := by
  have hends : Ends ⟨[.count "i" (.number 1) (.number 2) (.block [.expr (.binary .add (.variable "x")
        (.variable "i")), .assign "x" (.boolean true)])]⟩
      ((Context.start []).bind "x" (.number 0))
      (.error (.typeMismatch (.binary .add .boolean .number)))
      (((Context.start []).bind "i" (.number 2)).bind "x" (.boolean true)) := by
    refine ends_iff_execute.2 ⟨2, ?_⟩
    show execute _ 2 _ = .failed _ _
    decide +kernel
  obtain ⟨hrun, hequal, hnot, htest⟩ := ends_truthful ⟨[.count "i" (.number 1) (.number 2)
    (.block [.expr (.binary .add (.variable "x") (.variable "i")), .assign "x" (.boolean true)])]⟩
    ((Context.start []).bind "x" (.number 0))
  refine ⟨⟨hends, ((hrun _ _ hends).2 _ rfl).1⟩, ?_, ?_, ?_⟩
  · exact hequal .empty (.variable "y") (.number 1) _ .equal List.mem_cons_self (by rfl)
  · exact hnot .empty (.variable "y") _ (by rfl)
  · exact htest ⟨[.stmt (.cond (.variable "y") .empty .empty)], .start []⟩ _ _ _ _ _ rfl rfl (by rfl)

end Program

end Naskah
