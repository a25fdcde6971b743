import Naskah.Proofs.Program.History
import Naskah.Proofs.Stmt.Ends

/-
  The passes of loops. A loop makes passes that succeed, one after another, and then it stops: it is
  over, or something fails (`Stmt.count_ends_iff`, `Stmt.loop_ends_iff`). The counter of a counted
  loop goes up by one from pass to pass, whatever the body does (`Passes.next_eq`).
-/

namespace Naskah

namespace Stmt

variable {counter : String} {first last test : Expr} {body : Stmt} {x y z next : Float}
  {ctx mid final : Context} {starts : List Context} {result : Except RuntimeError Unit}

/-! ## Counted loops -/

/-- A counted loop whose counter is `x` makes passes that succeed. They start in the contexts
    `starts`, and then the counter is `next` and the context `final`. -/
inductive Passes (counter : String) (y : Float) (body : Stmt) :
    (x : Float) → Context → (starts : List Context) → (next : Float) → (final : Context) → Prop
  | none {x : Float} {ctx : Context} : Passes counter y body x ctx [] x ctx
  | pass {x next : Float} {ctx mid final : Context} {starts : List Context} (within : x ≤ y)
      (run : body.Ends (ctx.bind counter (.number x)) (.ok ()) mid)
      (more : Passes counter y body (x + 1.0) mid starts next final) :
      Passes counter y body x ctx (ctx.bind counter (.number x) :: starts) next final

/-- How a counted loop stops when its counter is `next`: the counter has gone beyond the last bound,
    or the body fails in a pass. -/
inductive CountStops (counter : String) (y : Float) (body : Stmt) (next : Float) (ctx : Context) :
    Except RuntimeError Unit → (final : Context) → Prop
  | beyond (h : ¬ next ≤ y) : CountStops counter y body next ctx (.ok ()) ctx
  | failed {e : RuntimeError} {final : Context} (within : next ≤ y)
      (run : body.Ends (ctx.bind counter (.number next)) (.error e) final) :
      CountStops counter y body next ctx (.error e) final

/-- The counter of the pass that comes after `k` others. -/
def counterAt (x : Float) (k : Nat) : Float := (· + 1.0)^[k] x

theorem counterAt_succ (x : Float) (k : Nat) : counterAt x (k + 1) = counterAt x k + 1.0 :=
  Function.iterate_succ_apply' _ k x

/-- The counter depends on nothing but the number of the passes that have been made. -/
theorem Passes.next_eq (h : Passes counter y body x ctx starts next final) :
    next = counterAt x starts.length := by
  induction h with
  | none => rfl
  | pass _ _ _ ih => exact ih

/-- Every pass starts with the variable bound to the counter, and within the last bound. -/
theorem Passes.get?_starts (h : Passes counter y body x ctx starts next final) {k : Nat}
    (hk : k < starts.length) :
    starts[k].environment.get? counter = some (.number (counterAt x k)) ∧ counterAt x k ≤ y := by
  induction h generalizing k with
  | none => exact absurd hk (Nat.not_lt_zero k)
  | @pass x _ ctx _ _ _ within _ _ ih =>
    cases k with
    | zero => exact ⟨ctx.get?_bind_self counter _, within⟩
    | succ k => exact ih (Nat.lt_of_succ_lt_succ hk)

theorem Passes.eq_of_nil (h : Passes counter y body x ctx [] next final) : final = ctx := by
  cases h
  rfl

/-- One more pass behind the others. -/
theorem Passes.snoc (h : Passes counter y body x ctx starts next mid) (within : next ≤ y)
    (run : body.Ends (mid.bind counter (.number next)) (.ok ()) final) :
    Passes counter y body x ctx (starts ++ [mid.bind counter (.number next)]) (next + 1.0)
      final := by
  induction h with
  | none => exact .pass within run .none
  | pass within' run' _ ih => exact .pass within' run' (ih within run)

/-- How many passes are made until the counter has gone beyond the last bound is a matter of the
    bounds alone. -/
theorem Passes.length_unique {body' : Stmt} {next' : Float} {ctx' final' : Context}
    {starts' : List Context} (h : Passes counter y body x ctx starts next final)
    (hbeyond : ¬ next ≤ y) (h' : Passes counter y body' x ctx' starts' next' final')
    (hbeyond' : ¬ next' ≤ y) : starts.length = starts'.length := by
  rw [h.next_eq] at hbeyond
  rw [h'.next_eq] at hbeyond'
  rcases Nat.lt_trichotomy starts.length starts'.length with hlt | heq | hlt
  · exact absurd (h'.get?_starts hlt).2 hbeyond
  · exact heq
  · exact absurd (h.get?_starts hlt).2 hbeyond'

/-- A counted loop whose bounds are numbers. -/
theorem exec_count (hx : first.evalBound ctx.environment = .ok x)
    (hy : last.evalBound ctx.environment = .ok y) (passes : Nat) :
    (count counter first last body).exec passes ctx =
      countFrom counter y (fun n c => body.exec n c) passes x ctx := by
  rw [exec, hx]
  dsimp only
  rw [hy]

/-- A pass that succeeds, and a counted loop that goes on from the next counter. -/
theorem ends_count_of_pass (hx : first.evalBound ctx.environment = .ok x)
    (hy : last.evalBound ctx.environment = .ok y) (within : x ≤ y)
    (run : body.Ends (ctx.bind counter (.number x)) (.ok ()) mid)
    (more : (count counter (.number (x + 1.0)) (.number y) body).Ends mid result final) :
    (count counter first last body).Ends ctx result final := by
  obtain ⟨enough, hall⟩ := more.enough
  obtain ⟨passes, left, hrun, hle⟩ := run.spare enough
  have hmore := hall left hle
  rw [exec_count (x := x + 1.0) (y := y) rfl rfl] at hmore
  have hmin : min left passes = left := Nat.min_eq_left (left_le_of_exec hrun)
  refine ends_iff_exec.2 ⟨passes + 1, ?_⟩
  rw [exec_count hx hy, countFrom, if_pos within]
  simp only [hrun, hmin]
  exact hmore

theorem ends_count_of_stops (hx : first.evalBound ctx.environment = .ok x)
    (hy : last.evalBound ctx.environment = .ok y)
    (h : CountStops counter y body x ctx result final) :
    (count counter first last body).Ends ctx result final := by
  cases h with
  | beyond hbeyond =>
    refine ends_iff_exec.2 ⟨0, ?_⟩
    rw [exec_count hx hy, countFrom, if_neg hbeyond]
    exact Outcome.ended_finished.2 ⟨rfl, rfl⟩
  | @failed e _ within run =>
    obtain ⟨passes, hfail⟩ := ends_iff_exec.1 run
    have hrun : body.exec passes (ctx.bind counter (.number x)) = .failed e final := hfail
    refine ends_iff_exec.2 ⟨passes + 1, ?_⟩
    rw [exec_count hx hy, countFrom, if_pos within]
    simp only [hrun]
    exact Outcome.ended_failed.2 ⟨rfl, rfl⟩

/-- The induction is on the passes that the loop is given. -/
theorem exists_passes {passes : Nat}
    (h : (countFrom counter y (fun n c => body.exec n c) passes x ctx).Ended result final) :
    ∃ starts next mid, Passes counter y body x ctx starts next mid ∧
      CountStops counter y body next mid result final := by
  induction passes using Nat.strongRecOn generalizing x ctx with
  | ind passes ih =>
    unfold countFrom at h
    by_cases within : x ≤ y
    · rw [if_pos within] at h
      cases passes with
      | zero => exact absurd h Outcome.not_ended_exhausted
      | succ n =>
        dsimp only at h
        cases hrun : body.exec n (ctx.bind counter (.number x)) with
        | finished mid left =>
          rw [hrun] at h
          have hlt : min left n < n + 1 := by omega
          obtain ⟨starts, next, mid', hpasses, hstops⟩ := ih _ hlt h
          have run := Ends.of_exec (hrun ▸ Outcome.ended_finished.2 ⟨rfl, rfl⟩)
          exact ⟨_, next, mid', .pass within run hpasses, hstops⟩
        | failed e mid =>
          rw [hrun] at h
          obtain ⟨rfl, rfl⟩ := Outcome.ended_failed.1 h
          have run := Ends.of_exec (hrun ▸ Outcome.ended_failed.2 ⟨rfl, rfl⟩)
          exact ⟨[], x, ctx, .none, .failed within run⟩
        | exhausted =>
          rw [hrun] at h
          exact absurd h Outcome.not_ended_exhausted
    · rw [if_neg within] at h
      obtain ⟨rfl, rfl⟩ := Outcome.ended_finished.1 h
      exact ⟨[], x, final, .none, .beyond within⟩

/-- A counted loop ends as it stops behind passes that succeed. -/
theorem count_ends_iff (hx : first.evalBound ctx.environment = .ok x)
    (hy : last.evalBound ctx.environment = .ok y) :
    (count counter first last body).Ends ctx result final ↔
      ∃ starts next mid, Passes counter y body x ctx starts next mid ∧
        CountStops counter y body next mid result final := by
  constructor
  · intro h
    obtain ⟨passes, hrun⟩ := ends_iff_exec.1 h
    rw [exec_count hx hy] at hrun
    exact exists_passes hrun
  · rintro ⟨starts, next, mid, hpasses, hstops⟩
    induction hpasses generalizing first last with
    | none => exact ends_count_of_stops hx hy hstops
    | pass within run _ ih => exact ends_count_of_pass hx hy within run (ih rfl rfl hstops)

/-! ## While loops -/

/-- A loop makes passes that succeed. -/
inductive Rounds (test : Expr) (body : Stmt) : Context → (final : Context) → Prop
  | none {ctx : Context} : Rounds test body ctx ctx
  | pass {ctx mid final : Context} (holds : test.evalTest ctx.environment = .ok true)
      (run : body.Ends ctx (.ok ()) mid) (more : Rounds test body mid final) :
      Rounds test body ctx final

/-- How a loop stops: its test is false or fails, or the body fails in a pass. -/
inductive LoopStops (test : Expr) (body : Stmt) (ctx : Context) :
    Except RuntimeError Unit → (final : Context) → Prop
  | finished (h : test.evalTest ctx.environment = .ok false) : LoopStops test body ctx (.ok ()) ctx
  | unclear {e : RuntimeError} (h : test.evalTest ctx.environment = .error e) :
      LoopStops test body ctx (.error e) ctx
  | failed {e : RuntimeError} {final : Context}
      (holds : test.evalTest ctx.environment = .ok true) (run : body.Ends ctx (.error e) final) :
      LoopStops test body ctx (.error e) final

theorem ends_loop_of_pass (holds : test.evalTest ctx.environment = .ok true)
    (run : body.Ends ctx (.ok ()) mid) (more : (loop test body).Ends mid result final) :
    (loop test body).Ends ctx result final := by
  obtain ⟨enough, hall⟩ := more.enough
  obtain ⟨passes, left, hrun, hle⟩ := run.spare enough
  have hmore := hall left hle
  rw [exec] at hmore
  have hmin : min left passes = left := Nat.min_eq_left (left_le_of_exec hrun)
  refine ends_iff_exec.2 ⟨passes + 1, ?_⟩
  rw [exec, loopFrom, holds]
  simp only [hrun, hmin]
  exact hmore

theorem ends_loop_of_stops (h : LoopStops test body ctx result final) :
    (loop test body).Ends ctx result final := by
  cases h with
  | finished h =>
    refine ends_iff_exec.2 ⟨0, ?_⟩
    rw [exec, loopFrom, h]
    exact Outcome.ended_finished.2 ⟨rfl, rfl⟩
  | unclear h =>
    refine ends_iff_exec.2 ⟨0, ?_⟩
    rw [exec, loopFrom, h]
    exact Outcome.ended_failed.2 ⟨rfl, rfl⟩
  | @failed e _ h run =>
    obtain ⟨passes, hfail⟩ := ends_iff_exec.1 run
    have hrun : body.exec passes ctx = .failed e final := hfail
    refine ends_iff_exec.2 ⟨passes + 1, ?_⟩
    rw [exec, loopFrom, h]
    simp only [hrun]
    exact Outcome.ended_failed.2 ⟨rfl, rfl⟩

/-- The induction is on the passes that the loop is given. -/
theorem exists_rounds {passes : Nat}
    (h : (loopFrom test (fun n c => body.exec n c) passes ctx).Ended result final) :
    ∃ mid, Rounds test body ctx mid ∧ LoopStops test body mid result final := by
  induction passes using Nat.strongRecOn generalizing ctx with
  | ind passes ih =>
    unfold loopFrom at h
    cases htest : test.evalTest ctx.environment with
    | error e =>
      rw [htest] at h
      obtain ⟨rfl, rfl⟩ := Outcome.ended_failed.1 h
      exact ⟨final, .none, .unclear htest⟩
    | ok truth =>
      rw [htest] at h
      cases truth with
      | false =>
        obtain ⟨rfl, rfl⟩ := Outcome.ended_finished.1 h
        exact ⟨final, .none, .finished htest⟩
      | true =>
        cases passes with
        | zero => exact absurd h Outcome.not_ended_exhausted
        | succ n =>
          dsimp only at h
          cases hrun : body.exec n ctx with
          | finished mid left =>
            rw [hrun] at h
            have hlt : min left n < n + 1 := by omega
            obtain ⟨mid', hrounds, hstops⟩ := ih _ hlt h
            have run := Ends.of_exec (hrun ▸ Outcome.ended_finished.2 ⟨rfl, rfl⟩)
            exact ⟨mid', .pass htest run hrounds, hstops⟩
          | failed e mid =>
            rw [hrun] at h
            obtain ⟨rfl, rfl⟩ := Outcome.ended_failed.1 h
            have run := Ends.of_exec (hrun ▸ Outcome.ended_failed.2 ⟨rfl, rfl⟩)
            exact ⟨ctx, .none, .failed htest run⟩
          | exhausted =>
            rw [hrun] at h
            exact absurd h Outcome.not_ended_exhausted

/-- A loop ends as it stops behind passes that succeed. -/
theorem loop_ends_iff : (loop test body).Ends ctx result final ↔
    ∃ mid, Rounds test body ctx mid ∧ LoopStops test body mid result final := by
  constructor
  · intro h
    obtain ⟨passes, hrun⟩ := ends_iff_exec.1 h
    rw [exec] at hrun
    exact exists_rounds hrun
  · rintro ⟨mid, hrounds, hstops⟩
    induction hrounds with
    | none => exact ends_loop_of_stops hstops
    | pass holds run _ ih => exact ends_loop_of_pass holds run (ih hstops)

end Stmt

end Naskah
