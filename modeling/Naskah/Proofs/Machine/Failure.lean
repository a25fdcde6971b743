import Naskah.Proofs.Expr.Faults
import Naskah.Proofs.Machine.Plan

/-
  Why a step fails (`Machine.failure_of_step`): an expression that the program evaluates has no
  value in the environment, or it is a range bound that is no number, or an input statement is to be
  executed and no entry is left.
-/

namespace Naskah

/-- What can stop a run in an environment, apart from an entry that is missing: one of the
    statements evaluates an expression that fails, or a range bound that is no number. -/
inductive Stmt.Stops (ps : List Stmt) (env : Environment) : RuntimeError → Prop where
  | expr {s : Stmt} {x : Expr} {e : RuntimeError} (hs : s ∈ ps) (hx : x ∈ s.evaluated)
      (h : x.eval env = .error e) : Stops ps env e
  | bound {counter : String} {first last x : Expr} {body : Stmt} {v : Value}
      (hs : .count counter first last body ∈ ps) (hx : x = first ∨ x = last)
      (hv : x.eval env = .ok v) (h : v.type ≠ .number) :
      Stops ps env (.typeMismatch (.rangeBound v.type))

variable {env : Environment} {ps : List Stmt} {task : Task} {made : Plan} {e : RuntimeError}

theorem error_of_map {ε α β : Type} {x : Except ε α} {f : α → β} {e : ε}
    (h : x.map f = .error e) : x = .error e := by
  cases x with
  | error e' => exact congrArg _ (Except.error.inj h)
  | ok a => cases h

theorem Stmt.Stops.of_bound {counter : String} {first last x : Expr} {body : Stmt}
    (hs : .count counter first last body ∈ ps) (hx : x = first ∨ x = last)
    (h : x.evalBound env = .error e) : Stops ps env e := by
  rcases Expr.evalBound_eq_error.1 h with h | ⟨v, hv, htype, rfl⟩
  · refine .expr hs ?_ h
    rcases hx with rfl | rfl
    · exact List.mem_cons_self
    · exact List.mem_cons_of_mem _ List.mem_cons_self
  · exact .bound hs hx hv htype

theorem Stmt.stops_of_plan {s : Stmt} (hs : s ∈ ps) (h : s.plan env = .error e) :
    Stops ps env e := by
  cases s with
  | assign target value | print value | expr value =>
    exact .expr hs List.mem_cons_self (error_of_map h)
  | cond test yes no | loop test body =>
    exact .expr hs List.mem_cons_self (Expr.evalTest_eq_error.1 (error_of_map h))
  | count counter first last body =>
    rw [plan] at h
    split at h
    · next e' hfirst =>
      cases h
      exact .of_bound hs (.inl rfl) hfirst
    · exact .of_bound hs (.inr rfl) (error_of_map h)
  | input | block | empty => cases h

theorem Task.stops_of_plan (h : task.Within ps) (hplan : task.plan env = .error e) :
    Stmt.Stops ps env e := by
  cases task with
  | stmt s => exact Stmt.stops_of_plan (h s.mem_parts) hplan
  | loop test body =>
    exact Stmt.stops_of_plan (s := .loop test body) (h (Stmt.mem_parts _)) hplan
  | count counter x last body =>
    rw [plan] at hplan
    split at hplan
    · cases hplan
    · cases hplan

/-- Evaluation does not miss an entry. -/
theorem Stmt.Stops.ne_missingInput (h : Stops ps env e) (target : String) :
    e ≠ .missingInput target := by
  rintro rfl
  cases h with
  | expr hs hx h =>
    obtain ⟨part, -, hfault⟩ := Expr.fault_of_eval h
    cases hfault

/-- Only an input statement is to read. -/
theorem Task.plan_read {target : String} (h : task.plan env = .ok made)
    (heffect : made.effect = .read target) : task = .stmt (.input target) := by
  cases task with
  | loop test body =>
    obtain ⟨b, -, rfl⟩ := exists_of_map_eq_ok h
    cases heffect
  | count counter x last body =>
    rw [plan] at h
    split at h
    · cases h
      cases heffect
    · cases h
      cases heffect
  | stmt s =>
    cases s with
    | assign target' value | cond test yes no | loop test body | print value | expr value =>
      obtain ⟨v, -, rfl⟩ := exists_of_map_eq_ok h
      cases heffect
    | count counter first last body =>
      rw [plan, Stmt.plan] at h
      split at h
      · cases h
      · obtain ⟨y, -, rfl⟩ := exists_of_map_eq_ok h
        cases heffect
    | input target' =>
      cases h
      cases heffect
      rfl
    | block body | empty =>
      cases h
      cases heffect

namespace Machine

/-- A step fails because nothing can be planned for the topmost task, or because this is an input
    statement and no entry is left. -/
theorem failure_of_step {m : Machine} {final : Context} (h : m.step = .failed e final) :
    ∃ task rest, m.pending = task :: rest ∧ (task.plan m.context.environment = .error e ∨
      ∃ target, task = .stmt (.input target) ∧ m.context.input = [] ∧ e = .missingInput target) := by
  obtain ⟨task, rest, hpending, hplan | ⟨made, hplan, happly⟩⟩ := step_eq_failed h
  · exact ⟨task, rest, hpending, .inl hplan⟩
  · obtain ⟨target, heffect, hinput, he⟩ := Effect.apply_eq_error.1 happly
    exact ⟨task, rest, hpending, .inr ⟨target, Task.plan_read hplan heffect, hinput, he⟩⟩

/-- What stops a machine whose tasks stem from the statements. -/
theorem stops_of_step {m : Machine} {final : Context} (h : m.step = .failed e final)
    (hm : ∀ t ∈ m.pending, t.Within ps) :
    Stmt.Stops ps m.context.environment e ∨
      ∃ target, .input target ∈ ps ∧ m.starting? = some (.input target) ∧
        m.context.input = [] ∧ e = .missingInput target := by
  obtain ⟨task, rest, hpending, hwhy⟩ := failure_of_step h
  have htask : task.Within ps := hm task (by rw [hpending]; exact List.mem_cons_self)
  rcases hwhy with hplan | ⟨target, rfl, hinput, he⟩
  · exact .inl (task.stops_of_plan htask hplan)
  · refine .inr ⟨target, htask (Stmt.mem_parts _), ?_, hinput, he⟩
    unfold starting?
    rw [hpending]

end Machine

end Naskah
