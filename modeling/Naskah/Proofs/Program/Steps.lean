import Naskah.Machine
import Naskah.Program

/-
  Execution in small steps. What `Stmt.exec` does by recursion the machine does one primitive at a
  time, with the statements and loops that are still to be done on its stack. `Machine.Achieves`
  says what a machine comes to when the execution of its topmost tasks ends in the given way, and
  `Stmt.exec_achieves` that it always does. A pass of a loop takes at least one step, so an
  execution that has used up its passes goes along with as many steps of the machine: that is how
  runs without an end are matched (`execute_iff_steps`).
-/

namespace Naskah

/-- The outcome of something that is followed by something else. -/
def Outcome.andThen (o : Outcome) (go : Context → Nat → Outcome) : Outcome :=
  match o with
  | .finished ctx left => go ctx left
  | stopped => stopped

namespace Machine

/-- The machine gets from one state to another in `n` steps. -/
def Reaches (m : Machine) (n : Nat) (m' : Machine) : Prop :=
  m.run n = .running m'

theorem run_of_step {m next : Machine} (h : m.step = .running next) (n : Nat) :
    m.run (n + 1) = next.run n := by
  rw [run, h]

theorem run_add {m m' : Machine} {a : Nat} (h : m.Reaches a m') (b : Nat) :
    m.run (a + b) = m'.run b := by
  induction a generalizing m with
  | zero =>
    cases h
    rw [Nat.zero_add]
  | succ a ih =>
    unfold Reaches run at h
    split at h
    · next next hstep =>
      rw [Nat.succ_add, run_of_step hstep]
      exact ih h
    · next hne => exact absurd h (hne m')

theorem Reaches.refl (m : Machine) : m.Reaches 0 m := rfl

theorem Reaches.cons {m next m' : Machine} {n : Nat} (hstep : m.step = .running next)
    (h : next.Reaches n m') : m.Reaches (n + 1) m' :=
  (run_of_step hstep n).trans h

theorem Reaches.uncons {m m' : Machine} {n : Nat} (h : m.Reaches (n + 1) m') :
    ∃ next, m.step = .running next ∧ next.Reaches n m' := by
  unfold Reaches run at h
  split at h
  · next next hstep => exact ⟨next, hstep, h⟩
  · next hne => exact absurd h (hne m')

theorem Reaches.trans {m m' m'' : Machine} {a b : Nat} (h : m.Reaches a m')
    (h' : m'.Reaches b m'') : m.Reaches (a + b) m'' :=
  (run_add h b).trans h'

/-! ## Where a machine stops -/

/-- The machine makes no further step. -/
def Stopped (m : Machine) : Prop :=
  ∀ next, m.step ≠ .running next

theorem proceed_eq_failed {α : Type} {m : Machine} {result : Except RuntimeError α}
    {next : α → Machine} {p : Progress} (h : m.proceed result next = p) :
    (∃ m', p = .running m') ∨ ∃ e, p = .failed e m.context := by
  subst h
  cases result with
  | error e => exact .inr ⟨e, rfl⟩
  | ok a => exact .inl ⟨next a, rfl⟩

/-- A step on a task goes on, or it fails and leaves the context as it was. -/
theorem step_cases (m : Machine) :
    (m.pending = [] ∧ m.step = .halted m.context) ∨ (∃ next, m.step = .running next) ∨
      ∃ e, m.step = .failed e m.context := by
  unfold step
  split
  · next h => exact .inl ⟨h, rfl⟩
  · refine .inr ?_
    unfold stepStmt
    dsimp only
    split
    · exact proceed_eq_failed rfl
    · exact proceed_eq_failed rfl
    · split
      · next e _ => exact .inr ⟨e, rfl⟩
      · exact proceed_eq_failed rfl
    · exact proceed_eq_failed rfl
    · split
      · exact .inr ⟨_, rfl⟩
      · exact .inl ⟨_, rfl⟩
    · exact proceed_eq_failed rfl
    · exact .inl ⟨_, rfl⟩
    · exact proceed_eq_failed rfl
    · exact .inl ⟨_, rfl⟩
  · exact .inr (proceed_eq_failed rfl)
  · unfold stepCount
    split
    · exact .inr (.inl ⟨_, rfl⟩)
    · exact .inr (.inl ⟨_, rfl⟩)

theorem stopped_of_nil (ctx : Context) : Stopped ⟨[], ctx⟩ :=
  fun _ h => nomatch h

theorem stopped_of_failed {m : Machine} {e : RuntimeError} {ctx : Context}
    (h : m.step = .failed e ctx) : m.Stopped := by
  intro next hnext
  rw [h] at hnext
  cases hnext

theorem Stopped.not_reaches {m m' : Machine} {n : Nat} (h : m.Stopped) :
    ¬ m.Reaches (n + 1) m' := by
  intro hr
  unfold Reaches run at hr
  split at hr
  · next next hstep => exact h next hstep
  · next hne => exact hne m' hr

theorem Stopped.cases {m : Machine} (h : m.Stopped) :
    m = ⟨[], m.context⟩ ∨ ∃ e, m.step = .failed e m.context := by
  rcases m.step_cases with ⟨hnil, -⟩ | ⟨next, hnext⟩ | hfail
  · exact .inl (by rw [← hnil])
  · exact absurd hnext (h next)
  · exact .inr hfail

/-- No state lies behind one in which the machine has stopped. -/
theorem Stopped.le {m m₁ m₂ : Machine} {a b : Nat} (h₁ : m₁.Stopped) (ha : m.Reaches a m₁)
    (hb : m.Reaches b m₂) : b ≤ a := by
  refine Nat.le_of_not_lt fun hlt => ?_
  obtain ⟨n, rfl⟩ := Nat.exists_eq_add_of_lt hlt
  have hrest : m₁.Reaches (n + 1) m₂ := (run_add ha (n + 1)).symm.trans hb
  exact h₁.not_reaches hrest

/-- A machine stops in one state only. -/
theorem Stopped.unique {m m₁ m₂ : Machine} {a b : Nat} (h₁ : m₁.Stopped) (h₂ : m₂.Stopped)
    (ha : m.Reaches a m₁) (hb : m.Reaches b m₂) : m₁ = m₂ := by
  cases Nat.le_antisymm (h₂.le hb ha) (h₁.le ha hb)
  exact Progress.running.inj (ha.symm.trans hb)

/-- A machine that never stops is at any time on its way. -/
theorem reaches_or_stopped (m : Machine) (n : Nat) :
    (∃ m', m.Reaches n m') ∨ ∃ k m', m.Reaches k m' ∧ m'.Stopped := by
  induction n with
  | zero => exact .inl ⟨m, .refl m⟩
  | succ n ih =>
    rcases ih with ⟨m', h⟩ | h
    · match hstep : m'.step with
      | .running next => exact .inl ⟨next, h.trans (.cons hstep (.refl next))⟩
      | .halted ctx => exact .inr ⟨n, m', h, fun next hnext => by rw [hstep] at hnext; cases hnext⟩
      | .failed e ctx => exact .inr ⟨n, m', h, stopped_of_failed hstep⟩
    · exact .inr h

/-! ## What an execution achieves -/

/-- What becomes of the machine when its topmost tasks are executed with the given outcome: it gets
    to the tasks below them, or to a step that fails and leaves the context as it was, or it makes
    at least as many steps as there were passes. -/
def Achieves (m : Machine) (rest : List Task) (passes : Nat) : Outcome → Prop
  | .finished ctx left => left ≤ passes ∧ ∃ n, m.Reaches n ⟨rest, ctx⟩ ∧ passes ≤ left + n
  | .failed e ctx => ∃ n m', m.Reaches n m' ∧ m'.step = .failed e ctx ∧ m'.context = ctx
  | .exhausted => ∃ n m', m.Reaches n m' ∧ passes ≤ n

variable {m next : Machine} {rest mid : List Task} {passes left : Nat} {ctx : Context}
  {o : Outcome}

theorem Achieves.of_step (hstep : m.step = .running next) (h : next.Achieves rest passes o) :
    m.Achieves rest passes o := by
  cases o with
  | finished ctx left =>
    obtain ⟨hle, n, hn, hp⟩ := h
    exact ⟨hle, n + 1, .cons hstep hn, Nat.le_succ_of_le hp⟩
  | failed e ctx =>
    obtain ⟨n, m', hn, hend⟩ := h
    exact ⟨n + 1, m', .cons hstep hn, hend⟩
  | exhausted =>
    obtain ⟨n, m', hn, hp⟩ := h
    exact ⟨n + 1, m', .cons hstep hn, Nat.le_succ_of_le hp⟩

/-- What comes first is achieved, and when it is finished the machine goes on from there. -/
theorem Achieves.andThen {go : Context → Nat → Outcome} (h : m.Achieves mid passes o)
    (hgo : ∀ ctx left, left ≤ passes → (Machine.mk mid ctx).Achieves rest left (go ctx left)) :
    m.Achieves rest passes (o.andThen go) := by
  cases o with
  | finished ctx left =>
    obtain ⟨hle, a, ha, hpasses⟩ := h
    have hrest := hgo ctx left hle
    show m.Achieves rest passes (go ctx left)
    cases hend : go ctx left with
    | finished ctx' left' =>
      rw [hend] at hrest
      obtain ⟨hle', n, hn, hp⟩ := hrest
      exact ⟨Nat.le_trans hle' hle, a + n, ha.trans hn, by omega⟩
    | failed e ctx' =>
      rw [hend] at hrest
      obtain ⟨n, m', hn, hfail⟩ := hrest
      exact ⟨a + n, m', ha.trans hn, hfail⟩
    | exhausted =>
      rw [hend] at hrest
      obtain ⟨n, m', hn, hp⟩ := hrest
      exact ⟨a + n, m', ha.trans hn, by omega⟩
  | failed e ctx => exact h
  | exhausted => exact h

/-- A pass and the step that starts it. -/
theorem Achieves.of_pass (hstep : m.step = .running next) (h : next.Achieves rest passes o) :
    m.Achieves rest (passes + 1) o := by
  cases o with
  | finished ctx left =>
    obtain ⟨hle, n, hn, hp⟩ := h
    exact ⟨Nat.le_succ_of_le hle, n + 1, .cons hstep hn, Nat.succ_le_succ hp⟩
  | failed e ctx =>
    obtain ⟨n, m', hn, hend⟩ := h
    exact ⟨n + 1, m', .cons hstep hn, hend⟩
  | exhausted =>
    obtain ⟨n, m', hn, hp⟩ := h
    exact ⟨n + 1, m', .cons hstep hn, Nat.succ_le_succ hp⟩

theorem achieves_finished (hstep : m.step = .running ⟨rest, ctx⟩) :
    m.Achieves rest passes (.finished ctx passes) :=
  ⟨Nat.le_refl _, 1, .cons hstep (.refl _), Nat.le_add_right _ _⟩

theorem achieves_failed {e : RuntimeError} (hstep : m.step = .failed e m.context) :
    m.Achieves rest passes (.failed e m.context) :=
  ⟨0, m, .refl m, hstep, rfl⟩

/-! ## Loops -/

/-- Every execution of the statement is one of the machine. -/
def Followed (s : Stmt) (run : Nat → Context → Outcome) : Prop :=
  ∀ rest passes ctx, (Machine.mk (.stmt s :: rest) ctx).Achieves rest passes (run passes ctx)

/-- The induction is on the passes. A loop that has made a pass stands on the stack as a task of its
    own, so the machine is given by its next step. -/
theorem loopFrom_achieves {test : Expr} {body : Stmt} {run : Nat → Context → Outcome}
    (hbody : Followed body run) (hstep : m.step = m.stepLoop test body rest) :
    m.Achieves rest passes (Stmt.loopFrom test run passes m.context) := by
  induction passes using Nat.strongRecOn generalizing m with
  | ind passes ih =>
    unfold Stmt.loopFrom
    unfold stepLoop proceed at hstep
    cases htest : test.evalTest m.context.environment with
    | error e =>
      rw [htest] at hstep
      exact achieves_failed hstep
    | ok truth =>
      rw [htest] at hstep
      cases truth with
      | false => exact achieves_finished hstep
      | true =>
        cases passes with
        | zero => exact ⟨0, m, .refl m, Nat.le_refl 0⟩
        | succ n =>
          refine .of_pass hstep ((hbody _ n m.context).andThen fun ctx left hle => ?_)
          rw [Nat.min_eq_left hle]
          exact ih left (Nat.lt_succ_of_le hle) rfl

theorem countFrom_achieves {counter : String} {last x : Float} {body : Stmt}
    {run : Nat → Context → Outcome} (hbody : Followed body run) :
    (Machine.mk (.count counter x last body :: rest) ctx).Achieves rest passes
      (Stmt.countFrom counter last run passes x ctx) := by
  induction passes using Nat.strongRecOn generalizing x ctx with
  | ind passes ih =>
    unfold Stmt.countFrom
    by_cases hx : x ≤ last
    · have hstep : (Machine.mk (.count counter x last body :: rest) ctx).step =
          .running ⟨.stmt body :: .count counter (x + 1.0) last body :: rest,
            ctx.bind counter (.number x)⟩ := if_pos hx
      rw [if_pos hx]
      cases passes with
      | zero => exact ⟨0, _, .refl _, Nat.le_refl 0⟩
      | succ n =>
        refine .of_pass hstep ((hbody _ n _).andThen fun ctx left hle => ?_)
        rw [Nat.min_eq_left hle]
        exact ih left (Nat.lt_succ_of_le hle)
    · rw [if_neg hx]
      exact achieves_finished (if_neg hx)

end Machine

namespace Stmt

open Machine

mutual

/-- The machine executes a statement that is on top of its stack as `exec` does. -/
theorem exec_achieves (s : Stmt) : Followed s s.exec := by
  intro rest passes ctx
  match s with
  | .assign target value | .print value | .expr value =>
    rw [exec]
    match hv : value.eval ctx.environment with
    | .error e => exact achieves_failed (by simp only [step, stepStmt, proceed, hv])
    | .ok v => exact achieves_finished (by simp only [step, stepStmt, proceed, hv])
  | .cond test yes no =>
    rw [exec]
    match ht : test.evalTest ctx.environment with
    | .error e => exact achieves_failed (by simp only [step, stepStmt, proceed, ht])
    | .ok true =>
      exact .of_step (by simp only [step, stepStmt, proceed, ht]; rfl)
        (exec_achieves yes rest passes ctx)
    | .ok false =>
      exact .of_step (by simp only [step, stepStmt, proceed, ht]; rfl)
        (exec_achieves no rest passes ctx)
  | .count counter first last body =>
    rw [exec]
    match hx : first.evalBound ctx.environment with
    | .error e => exact achieves_failed (by simp only [step, stepStmt, hx])
    | .ok x =>
      match hy : last.evalBound ctx.environment with
      | .error e => exact achieves_failed (by simp only [step, stepStmt, proceed, hx, hy])
      | .ok y =>
        exact .of_step (by simp only [step, stepStmt, proceed, hx, hy])
          (countFrom_achieves (exec_achieves body))
  | .loop test body =>
    rw [exec]
    exact loopFrom_achieves (m := ⟨.stmt (.loop test body) :: rest, ctx⟩) (exec_achieves body) rfl
  | .input target =>
    rw [exec]
    match hr : ctx.read? target with
    | none => exact achieves_failed (by simp only [step, stepStmt, hr])
    | some ctx' => exact achieves_finished (by simp only [step, stepStmt, hr])
  | .block body =>
    rw [exec]
    exact .of_step rfl (execAll_achieves body rest passes ctx)
  | .empty =>
    rw [exec]
    exact achieves_finished rfl

/-- The machine executes statements one after another as `execAll` does. -/
theorem execAll_achieves (ss : List Stmt) (rest : List Task) (passes : Nat) (ctx : Context) :
    (Machine.mk (ss.map .stmt ++ rest) ctx).Achieves rest passes (execAll ss passes ctx) := by
  match ss with
  | [] => exact ⟨Nat.le_refl _, 0, .refl _, Nat.le_refl _⟩
  | s :: ss =>
    rw [execAll]
    exact (exec_achieves s _ passes ctx).andThen fun ctx left _ =>
      execAll_achieves ss rest left ctx

end

end Stmt

/-! ## Programs -/

namespace Program

open Machine

/-- Given enough passes for its loops, the program finishes in the context. -/
def Finishes (p : Program) (ctx final : Context) : Prop :=
  ∃ enough, ∀ passes, enough ≤ passes → ∃ left, p.execute passes ctx = .finished final left

/-- Given enough passes for its loops, the program fails in the context. -/
def Fails (p : Program) (ctx : Context) (e : RuntimeError) (final : Context) : Prop :=
  ∃ enough, ∀ passes, enough ≤ passes → p.execute passes ctx = .failed e final

variable {p : Program} {ctx final : Context} {e : RuntimeError} {passes left : Nat}

/-- The machine that is to execute the program. -/
def machine (p : Program) (ctx : Context) : Machine :=
  .start p.statements ctx

theorem execute_achieves (p : Program) (passes : Nat) (ctx : Context) :
    (p.machine ctx).Achieves [] passes (p.execute passes ctx) := by
  have h := Stmt.execAll_achieves p.statements [] passes ctx
  rwa [List.append_nil] at h

theorem reaches_of_finished (h : p.execute passes ctx = .finished final left) :
    ∃ n, (p.machine ctx).Reaches n ⟨[], final⟩ := by
  have hrun := p.execute_achieves passes ctx
  rw [h] at hrun
  obtain ⟨-, n, hn, -⟩ := hrun
  exact ⟨n, hn⟩

theorem reaches_of_failed (h : p.execute passes ctx = .failed e final) :
    ∃ n m, (p.machine ctx).Reaches n m ∧ m.step = .failed e final ∧ m.context = final := by
  have hrun := p.execute_achieves passes ctx
  rwa [h] at hrun

/-- Once the machine has stopped, more passes than it has made steps are enough. -/
theorem execute_ne_exhausted {n : Nat} {m : Machine} (hm : (p.machine ctx).Reaches n m)
    (hstop : m.Stopped) (hn : n < passes) : p.execute passes ctx ≠ .exhausted := by
  intro h
  have hrun := p.execute_achieves passes ctx
  rw [h] at hrun
  obtain ⟨k, m', hk, hle⟩ := hrun
  exact absurd (hstop.le hm hk) (by omega)

theorem finishes_of_reaches {n : Nat} (h : (p.machine ctx).Reaches n ⟨[], final⟩) :
    p.Finishes ctx final := by
  refine ⟨n + 1, fun passes hle => ?_⟩
  cases hrun : p.execute passes ctx with
  | finished final' left =>
    obtain ⟨k, hk⟩ := reaches_of_finished hrun
    cases (stopped_of_nil final').unique (stopped_of_nil final) hk h
    exact ⟨left, rfl⟩
  | failed e final' =>
    obtain ⟨k, m, hk, hfail, -⟩ := reaches_of_failed hrun
    cases (stopped_of_failed hfail).unique (stopped_of_nil final) hk h
    cases hfail
  | exhausted => exact absurd hrun (execute_ne_exhausted h (stopped_of_nil final) hle)

theorem fails_of_reaches {n : Nat} {m : Machine} (h : (p.machine ctx).Reaches n m)
    (hstep : m.step = .failed e final) : p.Fails ctx e final := by
  refine ⟨n + 1, fun passes hle => ?_⟩
  have hstop := stopped_of_failed hstep
  cases hrun : p.execute passes ctx with
  | finished final' left =>
    obtain ⟨k, hk⟩ := reaches_of_finished hrun
    cases (stopped_of_nil final').unique hstop hk h
    cases hstep
  | failed e' final' =>
    obtain ⟨k, m', hk, hfail, -⟩ := reaches_of_failed hrun
    cases (stopped_of_failed hfail).unique hstop hk h
    rw [hstep] at hfail
    cases hfail
    rfl
  | exhausted => exact absurd hrun (execute_ne_exhausted h hstop hle)

/-- A program finishes in a context if and only if its machine empties the stack in that context; it
    fails if and only if its machine comes to a step that fails with the same error, and the context
    is the one before this step; and it does neither, however many passes its loops may make, if
    and only if its machine runs for ever. -/
theorem execute_iff_steps (p : Program) (ctx : Context) :
    (∀ final, p.Finishes ctx final ↔ ∃ n, (p.machine ctx).Reaches n ⟨[], final⟩) ∧
      (∀ e final, p.Fails ctx e final ↔
        ∃ n m, (p.machine ctx).Reaches n m ∧ m.step = .failed e final ∧ m.context = final) ∧
      ((¬ (∃ final, p.Finishes ctx final) ∧ ¬ ∃ e final, p.Fails ctx e final) ↔
        ∀ n, ∃ m, (p.machine ctx).Reaches n m) ∧
      ((∀ passes, p.execute passes ctx = .exhausted) ↔ ∀ n, ∃ m, (p.machine ctx).Reaches n m) := by
  have hfinish (final : Context) :
      p.Finishes ctx final ↔ ∃ n, (p.machine ctx).Reaches n ⟨[], final⟩ := by
    constructor
    · rintro ⟨enough, h⟩
      obtain ⟨left, hrun⟩ := h enough (Nat.le_refl _)
      exact reaches_of_finished hrun
    · rintro ⟨n, h⟩
      exact finishes_of_reaches h
  have hfail (e : RuntimeError) (final : Context) : p.Fails ctx e final ↔
      ∃ n m, (p.machine ctx).Reaches n m ∧ m.step = .failed e final ∧ m.context = final := by
    constructor
    · rintro ⟨enough, h⟩
      exact reaches_of_failed (h enough (Nat.le_refl _))
    · rintro ⟨n, m, h, hstep, -⟩
      exact fails_of_reaches h hstep
  have hends : (∃ n m, (p.machine ctx).Reaches n m ∧ m.Stopped) ↔
      (∃ final, p.Finishes ctx final) ∨ ∃ e final, p.Fails ctx e final := by
    constructor
    · rintro ⟨n, m, h, hstop⟩
      rcases Machine.Stopped.cases hstop with hnil | ⟨e, hstep⟩
      · rw [hnil] at h
        exact .inl ⟨m.context, finishes_of_reaches h⟩
      · exact .inr ⟨e, m.context, fails_of_reaches h hstep⟩
    · rintro (⟨final, h⟩ | ⟨e, final, h⟩)
      · obtain ⟨n, hn⟩ := (hfinish final).1 h
        exact ⟨n, _, hn, stopped_of_nil final⟩
      · obtain ⟨n, m, hn, hstep, -⟩ := (hfail e final).1 h
        exact ⟨n, m, hn, stopped_of_failed hstep⟩
  have hforever : (¬ ∃ n m, (p.machine ctx).Reaches n m ∧ m.Stopped) ↔
      ∀ n, ∃ m, (p.machine ctx).Reaches n m := by
    constructor
    · intro hno n
      exact ((p.machine ctx).reaches_or_stopped n).resolve_right hno
    · rintro hall ⟨n, m, hm, hstop⟩
      obtain ⟨m', hm'⟩ := hall (n + 1)
      exact absurd (hstop.le hm hm') (Nat.not_succ_le_self n)
  refine ⟨hfinish, hfail, ?_, ?_⟩
  · rw [← not_or, ← hends, hforever]
  · rw [← hforever]
    constructor
    · rintro hall ⟨n, m, hm, hstop⟩
      exact execute_ne_exhausted hm hstop (Nat.lt_succ_self n) (hall (n + 1))
    · intro hno passes
      cases hrun : p.execute passes ctx with
      | exhausted => rfl
      | finished final left =>
        obtain ⟨n, hn⟩ := reaches_of_finished hrun
        exact absurd ⟨n, _, hn, stopped_of_nil final⟩ hno
      | failed e final =>
        obtain ⟨n, m, hn, hstep, -⟩ := reaches_of_failed hrun
        exact absurd ⟨n, m, hn, stopped_of_failed hstep⟩ hno

end Program

end Naskah
