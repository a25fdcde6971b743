import Naskah.Proofs.Program.Concatenation

/-
  How single statements end. A statement ends as the program does that consists of it alone
  (`Stmt.Ends`), so it ends in one way only and needs no more than some number of passes. A block
  ends as its statements do one after another, each in the context that the one before has left.
-/

namespace Naskah

/-! ## Outcomes -/

namespace Outcome

variable {ctx final : Context} {result : Except RuntimeError Unit}

theorem ended_finished {left : Nat} :
    (finished ctx left).Ended result final ↔ result = .ok () ∧ final = ctx := by
  constructor
  · intro h
    cases result with
    | ok u =>
      obtain ⟨left', hleft⟩ := h
      cases hleft
      exact ⟨rfl, rfl⟩
    | error e => cases h
  · rintro ⟨rfl, rfl⟩
    exact ⟨left, rfl⟩

theorem ended_failed {e : RuntimeError} :
    (failed e ctx).Ended result final ↔ result = .error e ∧ final = ctx := by
  constructor
  · intro h
    cases result with
    | ok u =>
      obtain ⟨left, hleft⟩ := h
      cases hleft
    | error e' =>
      cases h
      exact ⟨rfl, rfl⟩
  · rintro ⟨rfl, rfl⟩
    rfl

theorem not_ended_exhausted : ¬ exhausted.Ended result final := by
  intro h
  cases result with
  | ok u =>
    obtain ⟨left, hleft⟩ := h
    cases hleft
  | error e => cases h

end Outcome

/-! ## Statements -/

namespace Stmt

/-- Given enough passes for its loops, the statement ends so, in the given context. -/
def Ends (s : Stmt) (ctx : Context) (result : Except RuntimeError Unit) (final : Context) : Prop :=
  Program.Ends ⟨[s]⟩ ctx result final

variable {s : Stmt} {ss : List Stmt} {ctx mid final : Context} {result : Except RuntimeError Unit}
  {passes left : Nat}

theorem execute_single (s : Stmt) (passes : Nat) (ctx : Context) :
    Program.execute ⟨[s]⟩ passes ctx = s.exec passes ctx := by
  show execAll [s] passes ctx = _
  rw [execAll]
  cases s.exec passes ctx <;> rfl

theorem ends_iff_exec :
    s.Ends ctx result final ↔ ∃ passes, (s.exec passes ctx).Ended result final := by
  unfold Ends
  rw [Program.ends_iff_execute]
  simp only [execute_single]

theorem Ends.of_exec (h : (s.exec passes ctx).Ended result final) : s.Ends ctx result final :=
  ends_iff_exec.2 ⟨passes, h⟩

/-- From some number of passes on, the statement is executed so with any. -/
theorem Ends.enough (h : s.Ends ctx result final) :
    ∃ enough, ∀ passes, enough ≤ passes → (s.exec passes ctx).Ended result final := by
  obtain ⟨enough, hall⟩ := h
  refine ⟨enough, fun passes hle => ?_⟩
  rw [← execute_single]
  exact hall passes hle

theorem Ends.unique {result' : Except RuntimeError Unit} {final' : Context}
    (h : s.Ends ctx result final) (h' : s.Ends ctx result' final') :
    result = result' ∧ final = final' :=
  Program.Ends.unique h h'

/-- No statement is left more passes than it was given. -/
theorem left_le_of_exec (h : s.exec passes ctx = .finished final left) : left ≤ passes := by
  have hachieves := s.exec_achieves [] passes ctx
  rw [h] at hachieves
  exact hachieves.1

/-- A statement that succeeds can be given so many passes that any number of them is left. -/
theorem Ends.spare (h : s.Ends ctx (.ok ()) final) (wanted : Nat) :
    ∃ passes left, s.exec passes ctx = .finished final left ∧ wanted ≤ left := by
  obtain ⟨passes, left, hrun, hle⟩ := Program.Ends.spare h wanted
  rw [execute_single] at hrun
  exact ⟨passes, left, hrun, hle⟩

/-! ## Assignments and blocks -/

theorem ends_assign {x : String} {e : Expr} {v : Value} (h : e.eval ctx.environment = .ok v) :
    (assign x e).Ends ctx (.ok ()) (ctx.bind x v) := by
  refine ends_iff_exec.2 ⟨0, ?_⟩
  rw [exec, h]
  exact Outcome.ended_finished.2 ⟨rfl, rfl⟩

theorem ends_nil : Program.Ends ⟨[]⟩ ctx result final ↔ result = .ok () ∧ final = ctx := by
  rw [Program.ends_iff_execute]
  constructor
  · rintro ⟨passes, h⟩
    exact Outcome.ended_finished.1 h
  · intro h
    exact ⟨0, Outcome.ended_finished.2 h⟩

/-- Statements end as the first one does if it fails, and otherwise as the others do in the context
    that it leaves. -/
theorem ends_cons : Program.Ends ⟨s :: ss⟩ ctx result final ↔
    (∃ e, result = .error e ∧ s.Ends ctx (.error e) final) ∨
      ∃ mid, s.Ends ctx (.ok ()) mid ∧ Program.Ends ⟨ss⟩ mid result final :=
  Program.ends_followedBy_iff (p := ⟨[s]⟩) (q := ⟨ss⟩)

/-- Behind a statement that is known to succeed the others are executed. -/
theorem ends_cons_of_ok (h : s.Ends ctx (.ok ()) mid) :
    Program.Ends ⟨s :: ss⟩ ctx result final ↔ Program.Ends ⟨ss⟩ mid result final := by
  rw [ends_cons]
  constructor
  · rintro (⟨e, -, hfail⟩ | ⟨mid', hmid', hmore⟩)
    · cases (h.unique hfail).1
    · rw [(h.unique hmid').2]
      exact hmore
  · intro hmore
    exact .inr ⟨mid, h, hmore⟩

theorem ends_block :
    (block ss).Ends ctx result final ↔ Program.Ends ⟨ss⟩ ctx result final := by
  rw [ends_iff_exec, Program.ends_iff_execute]
  simp only [exec]
  rfl

end Stmt

end Naskah
