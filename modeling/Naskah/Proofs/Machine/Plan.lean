import Naskah.Proofs.Program.Steps
import Naskah.Proofs.Stmt.Names

/-
  A step of the machine in two halves. What is done with the context, and which tasks come in the
  place of the topmost one, is planned from the environment alone; then the effect that is planned is
  brought about (`Machine.step_eq`). So what holds of effects holds of steps. A task stems from the
  statements of the program, and so do its effect and the tasks that come in its place
  (`Task.plan_within`).
-/

namespace Naskah

/-- What a step does with the context. -/
inductive Effect where
  | keep
  | bind (name : String) (value : Value)
  | print (value : Value)
  | read (target : String)

/-- The context behind the effect. Only reading can fail. -/
def Effect.apply : Effect → Context → Except RuntimeError Context
  | keep, ctx => .ok ctx
  | bind name value, ctx => .ok (ctx.bind name value)
  | print value, ctx => .ok (ctx.print value)
  | read target, ctx =>
    match ctx.read? target with
    | none => .error (.missingInput target)
    | some ctx => .ok ctx

theorem Effect.apply_read {ctx ctx' : Context} {target : String} :
    (read target).apply ctx = .ok ctx' ↔
      ∃ raw input, ctx.input = raw :: input ∧
        ctx' = { ctx with input }.bind target (.ofInput raw) := by
  unfold apply Context.read?
  dsimp only
  constructor
  · intro h
    cases hinput : ctx.input with
    | nil =>
      rw [hinput] at h
      cases h
    | cons raw input =>
      rw [hinput] at h
      exact ⟨raw, input, rfl, (Except.ok.inj h).symm⟩
  · rintro ⟨raw, input, hinput, rfl⟩
    rw [hinput]

/-- An effect fails only if it is to read and there is nothing to be read. -/
theorem Effect.apply_eq_error {effect : Effect} {ctx : Context} {e : RuntimeError} :
    effect.apply ctx = .error e ↔
      ∃ target, effect = .read target ∧ ctx.input = [] ∧ e = .missingInput target := by
  constructor
  · intro h
    cases effect with
    | keep | bind name value | print value => cases h
    | read target =>
      unfold apply Context.read? at h
      dsimp only at h
      cases hinput : ctx.input with
      | nil =>
        rw [hinput] at h
        exact ⟨target, rfl, rfl, (Except.error.inj h).symm⟩
      | cons raw input =>
        rw [hinput] at h
        cases h
  · rintro ⟨target, rfl, hinput, rfl⟩
    unfold apply Context.read?
    dsimp only
    rw [hinput]

/-- The name that an effect binds. -/
def Effect.target? : Effect → Option String
  | bind name _ => some name
  | read target => some target
  | _ => none

/-- An effect, and the tasks that come in the place of the task that has it. -/
structure Plan where
  effect : Effect
  tasks : List Task

theorem exists_of_map_eq_ok {ε α β : Type} {x : Except ε α} {f : α → β} {b : β}
    (h : x.map f = .ok b) : ∃ a, x = .ok a ∧ f a = b := by
  cases x with
  | error e => cases h
  | ok a => exact ⟨a, rfl, Except.ok.inj h⟩

/-- What is planned for a loop that comes to its test. -/
def Plan.loop (env : Environment) (test : Expr) (body : Stmt) : Except RuntimeError Plan :=
  (test.evalTest env).map fun b => ⟨.keep, if b then [.stmt body, .loop test body] else []⟩

/-- What is planned for a statement. -/
def Stmt.plan (env : Environment) : Stmt → Except RuntimeError Plan
  | .assign target value => (value.eval env).map fun v => ⟨.bind target v, []⟩
  | .cond test yes no =>
    (test.evalTest env).map fun b => ⟨.keep, [.stmt (if b then yes else no)]⟩
  | .count counter first last body =>
    match first.evalBound env with
    | .error e => .error e
    | .ok x => (last.evalBound env).map fun y => ⟨.keep, [.count counter x y body]⟩
  | .loop test body => Plan.loop env test body
  | .input target => .ok ⟨.read target, []⟩
  | .print value => (value.eval env).map fun v => ⟨.print v, []⟩
  | .block body => .ok ⟨.keep, body.map .stmt⟩
  | .expr value => (value.eval env).map fun _ => ⟨.keep, []⟩
  | .empty => .ok ⟨.keep, []⟩

/-- What is planned for a task in an environment. -/
def Task.plan (env : Environment) : Task → Except RuntimeError Plan
  | .stmt s => s.plan env
  | .loop test body => Plan.loop env test body
  | .count counter x last body =>
    if x ≤ last then
      .ok ⟨.bind counter (.number x), [.stmt body, .count counter (x + 1.0) last body]⟩
    else .ok ⟨.keep, []⟩

variable {env env' : Environment} {ps : List Stmt} {task : Task} {made : Plan}

/-! ## Steps -/

namespace Machine

/-- What becomes of the machine if this is planned for the topmost task. -/
def follow (ctx : Context) (rest : List Task) : Except RuntimeError Plan → Progress
  | .error e => .failed e ctx
  | .ok plan =>
    match plan.effect.apply ctx with
    | .error e => .failed e ctx
    | .ok ctx' => .running ⟨plan.tasks ++ rest, ctx'⟩

theorem stepLoop_eq (m : Machine) (test : Expr) (body : Stmt) (rest : List Task) :
    m.stepLoop test body rest = follow m.context rest (Plan.loop m.context.environment test body) := by
  unfold stepLoop proceed Plan.loop
  cases test.evalTest m.context.environment with
  | error e => rfl
  | ok b => cases b <;> rfl

theorem stepStmt_eq (m : Machine) (s : Stmt) (rest : List Task) :
    m.stepStmt s rest = follow m.context rest (s.plan m.context.environment) := by
  unfold stepStmt proceed Stmt.plan
  cases s with
  | assign target value | print value | expr value =>
    dsimp only
    cases value.eval m.context.environment <;> rfl
  | cond test yes no =>
    dsimp only
    cases test.evalTest m.context.environment <;> rfl
  | count counter first last body =>
    dsimp only
    cases first.evalBound m.context.environment with
    | error e => rfl
    | ok x =>
      dsimp only
      cases last.evalBound m.context.environment <;> rfl
  | loop test body => exact m.stepLoop_eq test body rest
  | input target =>
    dsimp only [follow, Effect.apply]
    cases m.context.read? target <;> rfl
  | block body => rfl
  | empty => rfl

theorem step_eq {m : Machine} {task : Task} {rest : List Task} (h : m.pending = task :: rest) :
    m.step = follow m.context rest (task.plan m.context.environment) := by
  unfold step
  rw [h]
  cases task with
  | stmt s => exact stepStmt_eq _ s rest
  | loop test body => exact stepLoop_eq _ test body rest
  | count counter x last body =>
    unfold stepCount Task.plan
    dsimp only
    by_cases hx : x ≤ last
    · rw [if_pos hx, if_pos hx]
      rfl
    · rw [if_neg hx, if_neg hx]
      rfl

theorem step_of_apply {m : Machine} {task : Task} {rest : List Task} {plan : Plan} {ctx : Context}
    (h : m.pending = task :: rest) (hplan : task.plan m.context.environment = .ok plan)
    (happly : plan.effect.apply m.context = .ok ctx) :
    m.step = .running ⟨plan.tasks ++ rest, ctx⟩ := by
  rw [step_eq h, hplan]
  unfold follow
  dsimp only
  rw [happly]

theorem step_of_error {m : Machine} {task : Task} {rest : List Task} {e : RuntimeError}
    (h : m.pending = task :: rest)
    (he : task.plan m.context.environment = .error e ∨
      ∃ plan, task.plan m.context.environment = .ok plan ∧
        plan.effect.apply m.context = .error e) : m.step = .failed e m.context := by
  rw [step_eq h]
  unfold follow
  rcases he with hplan | ⟨plan, hplan, happly⟩
  · rw [hplan]
  · rw [hplan]
    dsimp only
    rw [happly]

/-- A step that goes on brings about what is planned for the topmost task. -/
theorem step_eq_running {m next : Machine} (h : m.step = .running next) :
    ∃ task rest plan, m.pending = task :: rest ∧ task.plan m.context.environment = .ok plan ∧
      plan.effect.apply m.context = .ok next.context ∧ next.pending = plan.tasks ++ rest := by
  cases hpending : m.pending with
  | nil =>
    unfold step at h
    rw [hpending] at h
    cases h
  | cons task rest =>
    rw [step_eq hpending] at h
    unfold follow at h
    split at h
    · cases h
    · next plan hplan =>
      split at h
      · cases h
      · next ctx' happly =>
        cases h
        exact ⟨task, rest, plan, rfl, hplan, happly, rfl⟩

/-- A step that fails cannot plan for the topmost task, or cannot bring about what is planned. -/
theorem step_eq_failed {m : Machine} {e : RuntimeError} {ctx : Context}
    (h : m.step = .failed e ctx) :
    ∃ task rest, m.pending = task :: rest ∧ (task.plan m.context.environment = .error e ∨
      ∃ plan, task.plan m.context.environment = .ok plan ∧
        plan.effect.apply m.context = .error e) := by
  cases hpending : m.pending with
  | nil =>
    unfold step at h
    rw [hpending] at h
    cases h
  | cons task rest =>
    rw [step_eq hpending] at h
    unfold follow at h
    split at h
    · next e' hplan =>
      cases h
      exact ⟨task, rest, rfl, .inl hplan⟩
    · next plan hplan =>
      split at h
      · next e' happly =>
        cases h
        exact ⟨task, rest, rfl, .inr ⟨plan, hplan, happly⟩⟩
      · cases h

end Machine

/-! ## Where tasks stem from -/

/-- The task stems from the statements: it is to execute one of them, or it is a loop among them
    that has been begun. -/
def Task.Within (ps : List Stmt) : Task → Prop
  | .stmt s => s.parts ⊆ ps
  | .loop test body => (Stmt.loop test body).parts ⊆ ps
  | .count counter _ _ body => ∃ first last, (Stmt.count counter first last body).parts ⊆ ps

/-- The effect binds no name but one that some of the statements bind, and the tasks stem from the
    statements. -/
structure Plan.Within (ps : List Stmt) (plan : Plan) : Prop where
  target : ∀ x ∈ plan.effect.target?, x ∈ Stmt.targets ps
  tasks : ∀ t ∈ plan.tasks, t.Within ps

theorem Plan.Within.of_none (h : made.effect.target? = none)
    (htasks : ∀ t ∈ made.tasks, t.Within ps) : made.Within ps where
  target x hx := by
    rw [h] at hx
    cases hx
  tasks := htasks

theorem Plan.Within.nothing : Plan.Within ps ⟨.keep, []⟩ :=
  .of_none rfl (List.forall_mem_nil _)

theorem Plan.within_loop {test : Expr} {body : Stmt} (h : (Stmt.loop test body).parts ⊆ ps)
    (hplan : Plan.loop env test body = .ok made) : made.Within ps := by
  obtain ⟨b, -, rfl⟩ := exists_of_map_eq_ok hplan
  have hbody : body.parts ⊆ ps := (List.cons_subset.1 h).2
  cases b with
  | false => exact .nothing
  | true => exact .of_none rfl (List.forall_mem_cons.2 ⟨hbody, List.forall_mem_singleton.2 h⟩)

theorem Stmt.plan_within {s : Stmt} (h : s.parts ⊆ ps) (hplan : s.plan env = .ok made) :
    made.Within ps := by
  have hs : s ∈ ps := h s.mem_parts
  cases s with
  | assign target value =>
    obtain ⟨v, -, rfl⟩ := exists_of_map_eq_ok hplan
    exact ⟨fun x hx => mem_targets hs hx, List.forall_mem_nil _⟩
  | cond test yes no =>
    obtain ⟨b, -, rfl⟩ := exists_of_map_eq_ok hplan
    obtain ⟨hyes, hno⟩ := List.append_subset.1 (List.cons_subset.1 h).2
    refine .of_none rfl (List.forall_mem_singleton.2 ?_)
    cases b with
    | false => exact hno
    | true => exact hyes
  | count counter first last body =>
    cases hfirst : first.evalBound env with
    | error e => simp only [plan, hfirst, reduceCtorEq] at hplan
    | ok x =>
      simp only [plan, hfirst] at hplan
      obtain ⟨y, -, rfl⟩ := exists_of_map_eq_ok hplan
      exact .of_none rfl (List.forall_mem_singleton.2 ⟨first, last, h⟩)
  | loop test body => exact Plan.within_loop h hplan
  | input target =>
    cases hplan
    exact ⟨fun x hx => mem_targets hs hx, List.forall_mem_nil _⟩
  | print value =>
    obtain ⟨v, -, rfl⟩ := exists_of_map_eq_ok hplan
    exact .of_none rfl (List.forall_mem_nil _)
  | block body =>
    cases hplan
    refine .of_none rfl fun t ht => ?_
    obtain ⟨s, hs, rfl⟩ := List.mem_map.1 ht
    exact List.Subset.trans (parts_subset_all hs) (List.cons_subset.1 h).2
  | expr value =>
    obtain ⟨v, -, rfl⟩ := exists_of_map_eq_ok hplan
    exact .nothing
  | empty =>
    cases hplan
    exact .nothing

/-- What is planned for a task stems from where the task stems from. -/
theorem Task.plan_within (h : task.Within ps) (hplan : task.plan env = .ok made) :
    made.Within ps := by
  cases task with
  | stmt s => exact Stmt.plan_within h hplan
  | loop test body => exact Plan.within_loop h hplan
  | count counter x last body =>
    obtain ⟨a, b, hparts⟩ := h
    obtain ⟨hself, hbody⟩ := List.cons_subset.1 hparts
    by_cases hx : x ≤ last
    · rw [plan, if_pos hx] at hplan
      cases hplan
      exact ⟨fun x hx => Stmt.mem_targets hself hx,
        List.forall_mem_cons.2 ⟨hbody, List.forall_mem_singleton.2 ⟨a, b, hparts⟩⟩⟩
    · rw [plan, if_neg hx] at hplan
      cases hplan
      exact .nothing

/-- The tasks of a machine that is to execute a program stem from the statements of the program. -/
theorem Program.machine_within (p : Program) (ctx : Context) :
    ∀ t ∈ (p.machine ctx).pending, t.Within p.parts := by
  intro t ht
  obtain ⟨s, hs, rfl⟩ := List.mem_map.1 ht
  exact Stmt.parts_subset_all hs

/-- A step keeps to the statements that the tasks stem from. -/
theorem Machine.within_step {m next : Machine} (h : m.step = .running next)
    (hm : ∀ t ∈ m.pending, t.Within ps) : ∀ t ∈ next.pending, t.Within ps := by
  obtain ⟨task, rest, plan, hpending, hplan, -, hnext⟩ := step_eq_running h
  rw [hpending] at hm
  obtain ⟨htask, hrest⟩ := List.forall_mem_cons.1 hm
  rw [hnext]
  exact List.forall_mem_append.2 ⟨(task.plan_within htask hplan).tasks, hrest⟩

/-- A run keeps to the statements that the tasks stem from. -/
theorem Machine.Reaches.within {m m' : Machine} {n : Nat} (h : m.Reaches n m')
    (hm : ∀ t ∈ m.pending, t.Within ps) : ∀ t ∈ m'.pending, t.Within ps := by
  induction n generalizing m with
  | zero =>
    cases h
    exact hm
  | succ n ih =>
    obtain ⟨next, hstep, hnext⟩ := h.uncons
    exact ih hnext (within_step hstep hm)

/-! ## What plans depend on -/

theorem Plan.loop_congr {test : Expr} {body : Stmt} (h : env.Agree test.names env') :
    Plan.loop env test body = Plan.loop env' test body := by
  rw [Plan.loop, Plan.loop, Expr.evalTest_congr h]

theorem Stmt.plan_congr {s : Stmt} (h : ∀ e ∈ s.evaluated, env.Agree e.names env') :
    s.plan env = s.plan env' := by
  cases s with
  | assign target value | print value | expr value =>
    have hvalue := Expr.eval_congr (h value List.mem_cons_self)
    rw [plan, plan, hvalue]
  | cond test yes no =>
    have htest := Expr.evalTest_congr (h test List.mem_cons_self)
    rw [plan, plan, htest]
  | count counter first last body =>
    have hfirst := Expr.evalBound_congr (h first List.mem_cons_self)
    have hlast := Expr.evalBound_congr (h last (List.mem_cons_of_mem _ List.mem_cons_self))
    rw [plan, plan, hfirst, hlast]
  | loop test body => exact Plan.loop_congr (h test List.mem_cons_self)
  | input | block | empty => rfl

/-- What is planned depends on the names that the statements mention, and on nothing else. -/
theorem Task.plan_congr (h : task.Within ps) (hagree : env.Agree (Stmt.mentioned ps) env') :
    task.plan env = task.plan env' := by
  cases task with
  | stmt s =>
    refine Stmt.plan_congr fun e he => hagree.mono ?_
    exact Stmt.names_subset_mentioned (h s.mem_parts) he
  | loop test body =>
    refine Plan.loop_congr (hagree.mono ?_)
    exact Stmt.names_subset_mentioned (h (Stmt.mem_parts _)) List.mem_cons_self
  | count counter x last body => rfl

end Naskah
