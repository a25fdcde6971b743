import Naskah.Machine
import Naskah.Proofs.Expr.Faults
import Naskah.Proofs.Loop.Passes
import Naskah.Proofs.Number.Order
import Naskah.Proofs.Program.Hidden

/-
  Counted loops as while loops. A counted loop does what a loop does that keeps the counter and the
  last bound under two names of its own (`Stmt.asLoop`): both end or neither does, and they end in the
  same way but for what these two names are bound to (`Stmt.count_iff_asLoop`). The passes of the two
  go together one by one (`Held.passes`, `Held.rounds`), and what carries them is that the context of
  the second loop holds the two numbers where the first one has them outside its context (`Held`).
-/

namespace Naskah

namespace Stmt

/-! ## The while loop -/

/-- The counter has not gone beyond the last bound. -/
def withinTest (c e : String) : Expr :=
  .binary .lessEqual (.variable c) (.variable e)

/-- A pass: binds the variable to the counter, executes the body, and goes on to the next counter. -/
def counted (c counter : String) (body : Stmt) : Stmt :=
  .block [.assign counter (.variable c), body,
    .assign c (.binary .add (.variable c) (.number 1.0))]

/-- What a counted loop does, done by a loop: `c` is the name for the counter and `e` that for the
    last bound. -/
def asLoop (c e counter : String) (first last : Expr) (body : Stmt) : Stmt :=
  .block [.assign c first, .assign e last, .loop (withinTest c e) (counted c counter body)]

variable {c e counter : String} {first last : Expr} {body : Stmt} {x y next : Float}
  {ctx ctx' mid mid' final : Context} {starts : List Context} {result : Except RuntimeError Unit}

/-- Beside the context of a counted loop, that of the loop which does the same: it holds the counter
    and the last bound. -/
structure Held (c e : String) (x y : Float) (ctx ctx' : Context) : Prop where
  same : Context.SameBut [c, e] ctx ctx'
  counter : ctx'.environment.get? c = some (.number x)
  last : ctx'.environment.get? e = some (.number y)

theorem eval_variable {env : Environment} {name : String} {v : Value}
    (h : env.get? name = some v) : (Expr.variable name).eval env = .ok v := by
  rw [Expr.eval, h]

/-- The test of the loop is the comparison that the counted loop makes. -/
theorem Held.test (h : Held c e x y ctx ctx') :
    (withinTest c e).evalTest ctx'.environment = .ok (decide (x ≤ y)) := by
  have hvalue : (withinTest c e).eval ctx'.environment =
      .ok (.boolean ((Value.floatOrder x y).any Ordering.isLE)) := by
    simp only [withinTest, Expr.eval, h.counter, h.last]
    rfl
  rw [Expr.evalTest, hvalue, Binary.any_floatOrder_isLE]
  rfl

/-! ## One pass -/

/-- The names of the loop do not occur in the body, nor is one of them the loop variable. -/
structure Apart (c e counter : String) (body : Stmt) : Prop where
  different : c ≠ e
  counter : counter ∉ [c, e]
  body : ∀ x ∈ body.names, x ∉ [c, e]

namespace Held

theorem bind (h : Held c e x y ctx ctx') {name : String} (hname : name ∉ [c, e]) (v : Value) :
    Held c e x y (ctx.bind name v) (ctx'.bind name v) where
  same := h.same.bind name v
  counter := by
    have hne : c ≠ name := fun heq => hname (heq ▸ List.mem_cons_self)
    unfold Context.bind
    rw [Environment.get?_set, if_neg hne, h.counter]
  last := by
    have hne : e ≠ name := fun heq => hname (heq ▸ List.mem_cons_of_mem _ List.mem_cons_self)
    unfold Context.bind
    rw [Environment.get?_set, if_neg hne, h.last]

theorem advance (h : Held c e x y ctx ctx') (hne : c ≠ e) :
    Held c e (x + 1.0) y ctx (ctx'.bind c (.number (x + 1.0))) where
  same := h.same.bind_hidden List.mem_cons_self _
  counter := ctx'.get?_bind_self c _
  last := by
    unfold Context.bind
    rw [Environment.get?_set, if_neg hne.symm, h.last]

/-- A statement that mentions neither of the two names leaves them as they are. -/
theorem run (h : Held c e x y ctx ctx') (hbody : ∀ x ∈ body.names, x ∉ [c, e])
    (hrun : body.Ends ctx result mid) :
    ∃ mid', body.Ends ctx' result mid' ∧ Held c e x y mid mid' := by
  obtain ⟨mid', hrun', hsame, hkept⟩ := hrun.sameBut h.same hbody
  refine ⟨mid', hrun', hsame, ?_, ?_⟩
  · rw [hkept c List.mem_cons_self, h.counter]
  · rw [hkept e (List.mem_cons_of_mem _ List.mem_cons_self), h.last]

/-- In a pass of the loop the body is executed as in a pass of the counted loop. -/
theorem ends_counted_iff (h : Held c e x y ctx ctx') :
    (counted c counter body).Ends ctx' result final ↔
      (∃ err, result = .error err ∧
        body.Ends (ctx'.bind counter (.number x)) (.error err) final) ∨
      ∃ mid', body.Ends (ctx'.bind counter (.number x)) (.ok ()) mid' ∧
        Program.Ends ⟨[.assign c (.binary .add (.variable c) (.number 1.0))]⟩ mid' result
          final := by
  rw [counted, ends_block, ends_cons_of_ok (ends_assign (eval_variable h.counter)), ends_cons]

/-- A pass of the counted loop, made by the loop. -/
theorem pass (h : Held c e x y ctx ctx') (hapart : Apart c e counter body)
    (hrun : body.Ends (ctx.bind counter (.number x)) (.ok ()) mid) :
    ∃ mid', (counted c counter body).Ends ctx' (.ok ()) mid' ∧ Held c e (x + 1.0) y mid mid' := by
  obtain ⟨mid', hrun', hheld⟩ := (h.bind hapart.counter _).run hapart.body hrun
  have hstep : (Expr.binary .add (.variable c) (.number 1.0)).eval mid'.environment =
      .ok (.number (x + 1.0)) := by
    simp only [Expr.eval, hheld.counter]
    rfl
  exact ⟨_, h.ends_counted_iff.2 (.inr ⟨mid', hrun', ends_assign hstep⟩),
    hheld.advance hapart.different⟩

/-- A pass of the counted loop in which the body fails. -/
theorem failing (h : Held c e x y ctx ctx') (hapart : Apart c e counter body) {err : RuntimeError}
    (hrun : body.Ends (ctx.bind counter (.number x)) (.error err) mid) :
    ∃ mid', (counted c counter body).Ends ctx' (.error err) mid' ∧ Held c e x y mid mid' := by
  obtain ⟨mid', hrun', hheld⟩ := (h.bind hapart.counter _).run hapart.body hrun
  exact ⟨mid', h.ends_counted_iff.2 (.inl ⟨err, rfl, hrun'⟩), hheld⟩

/-- The body ends in a pass of the counted loop if it does so in the pass of the loop. -/
theorem exists_run (h : Held c e x y ctx ctx') (hapart : Apart c e counter body)
    (hrun : (counted c counter body).Ends ctx' result mid') :
    ∃ result mid, body.Ends (ctx.bind counter (.number x)) result mid := by
  have hback : Context.SameBut [c, e] (ctx'.bind counter (.number x))
      (ctx.bind counter (.number x)) := (h.same.bind counter _).symm
  rcases h.ends_counted_iff.1 hrun with ⟨err, -, hfail⟩ | ⟨mid', hok, -⟩
  · obtain ⟨mid, hmid, -⟩ := hfail.sameBut hback hapart.body
    exact ⟨_, mid, hmid⟩
  · obtain ⟨mid, hmid, -⟩ := hok.sameBut hback hapart.body
    exact ⟨_, mid, hmid⟩

/-! ## All passes -/

/-- What a counted loop does from some pass on, done by the loop. The induction is on the passes. -/
theorem passes (h : Held c e x y ctx ctx') (hapart : Apart c e counter body)
    (hpasses : Passes counter y body x ctx starts next mid)
    (hstops : CountStops counter y body next mid result final) :
    ∃ final', (loop (withinTest c e) (counted c counter body)).Ends ctx' result final' ∧
      Context.SameBut [c, e] final final' := by
  induction hpasses generalizing ctx' with
  | none =>
    have htest := h.test
    cases hstops with
    | beyond hbeyond =>
      rw [decide_eq_false hbeyond] at htest
      exact ⟨ctx', ends_loop_of_stops (.finished htest), h.same⟩
    | failed within run =>
      rw [decide_eq_true within] at htest
      obtain ⟨final', hfail, hheld⟩ := h.failing hapart run
      exact ⟨final', ends_loop_of_stops (.failed htest hfail), hheld.same⟩
  | pass within run _ ih =>
    have htest := h.test
    rw [decide_eq_true within] at htest
    obtain ⟨mid', hpass, hheld⟩ := h.pass hapart run
    obtain ⟨final', hends, hsame⟩ := ih hheld hstops
    exact ⟨final', ends_loop_of_pass htest hpass hends, hsame⟩

/-- The counted loop ends from where the loop does. The induction is on the rounds of the loop. -/
theorem rounds (h : Held c e x y ctx ctx') (hapart : Apart c e counter body)
    (hrounds : Rounds (withinTest c e) (counted c counter body) ctx' mid')
    (hstops : LoopStops (withinTest c e) (counted c counter body) mid' result final) :
    ∃ starts next mid result final, Passes counter y body x ctx starts next mid ∧
      CountStops counter y body next mid result final := by
  induction hrounds generalizing x ctx with
  | none =>
    cases hstops with
    | finished hover =>
      have hbeyond : ¬ x ≤ y := of_decide_eq_false (Except.ok.inj (h.test.symm.trans hover))
      exact ⟨[], x, ctx, _, _, .none, .beyond hbeyond⟩
    | unclear hunclear => cases h.test.symm.trans hunclear
    | failed holds run =>
      have within : x ≤ y := of_decide_eq_true (Except.ok.inj (h.test.symm.trans holds))
      obtain ⟨result', mid, hrun⟩ := h.exists_run hapart run
      cases result' with
      | error err => exact ⟨[], x, ctx, _, mid, .none, .failed within hrun⟩
      | ok u =>
        obtain ⟨mid', hpass, -⟩ := h.pass hapart hrun
        cases (hpass.unique run).1
  | pass holds run _ ih =>
    have within : x ≤ y := of_decide_eq_true (Except.ok.inj (h.test.symm.trans holds))
    obtain ⟨result', mid, hrun⟩ := h.exists_run hapart run
    cases result' with
    | error err =>
      obtain ⟨mid', hpass, -⟩ := h.failing hapart hrun
      cases (hpass.unique run).1
    | ok u =>
      obtain ⟨mid', hpass, hheld⟩ := h.pass hapart hrun
      obtain ⟨-, rfl⟩ := hpass.unique run
      obtain ⟨starts, next, mid', result, final, hpasses, hstop⟩ := ih hheld hstops
      exact ⟨_, next, mid', result, final, .pass within hrun hpasses, hstop⟩

end Held

/-! ## Whole loops -/

theorem apart_of_names (hne : c ≠ e) (hc : c ∉ (count counter first last body).names)
    (he : e ∉ (count counter first last body).names) : Apart c e counter body := by
  have hnames (name : String) (h : name ∈ (count counter first last body).names) :
      name ∉ [c, e] := by
    intro hmem
    rcases List.mem_pair.1 hmem with rfl | rfl
    · exact hc h
    · exact he h
  exact ⟨hne, hnames counter counter_mem_names, fun name h => hnames name (body_names_subset h)⟩

/-- Behind the first two assignments the loop is in a context that holds the two numbers. -/
theorem ends_asLoop_iff (hx : first.evalBound ctx.environment = .ok x)
    (hy : last.evalBound ctx.environment = .ok y) (hc : c ∉ last.names) :
    (asLoop c e counter first last body).Ends ctx result final ↔
      (loop (withinTest c e) (counted c counter body)).Ends
        ((ctx.bind c (.number x)).bind e (.number y)) result final := by
  have hagree : ctx.environment.Agree last.names (ctx.bind c (.number x)).environment := by
    intro name hname
    have hne : name ≠ c := fun heq => hc (heq ▸ hname)
    unfold Context.bind
    rw [Environment.get?_set, if_neg hne]
  have hlast : last.eval (ctx.bind c (.number x)).environment = .ok (.number y) := by
    rw [← Expr.eval_congr hagree]
    exact Expr.evalBound_eq_ok.1 hy
  rw [asLoop, ends_block, ends_cons_of_ok (ends_assign (Expr.evalBound_eq_ok.1 hx)),
    ends_cons_of_ok (ends_assign hlast)]
  rfl

theorem held_start (ctx : Context) (hne : c ≠ e) :
    Held c e x y ctx ((ctx.bind c (.number x)).bind e (.number y)) where
  same := ((Context.SameBut.refl ctx).bind_hidden List.mem_cons_self _).bind_hidden
    (List.mem_cons_of_mem _ List.mem_cons_self) _
  counter := by
    rw [Context.bind, Environment.get?_set, if_neg hne]
    exact ctx.get?_bind_self c _
  last := (ctx.bind c (.number x)).get?_bind_self e _

/-- The statement fails with nothing changed, and starts no other one. -/
def FailsAtOnce (s : Stmt) (ctx : Context) (err : RuntimeError) : Prop :=
  (∀ passes, s.exec passes ctx = .failed err ctx) ∧
    ∀ n, (Machine.start [s] ctx).started #[] (n + 1) = #[s]

theorem failsAtOnce_of_first {err : RuntimeError}
    (h : first.evalBound ctx.environment = .error err) :
    FailsAtOnce (count counter first last body) ctx err := by
  constructor
  · intro passes
    rw [exec, h]
  · intro n
    have hstep : (Machine.start [count counter first last body] ctx).step = .failed err ctx := by
      simp only [Machine.start, List.map_cons, Machine.step, Machine.stepStmt, h]
    rw [Machine.started, hstep]
    rfl

theorem failsAtOnce_of_last {err : RuntimeError}
    (hx : first.evalBound ctx.environment = .ok x)
    (h : last.evalBound ctx.environment = .error err) :
    FailsAtOnce (count counter first last body) ctx err := by
  constructor
  · intro passes
    rw [exec, hx]
    dsimp only
    rw [h]
  · intro n
    have hstep : (Machine.start [count counter first last body] ctx).step = .failed err ctx := by
      simp only [Machine.start, List.map_cons, Machine.step, Machine.stepStmt, hx, h,
        Machine.proceed]
    rw [Machine.started, hstep]
    rfl

/-- What the loop does, if the counted loop ends. -/
theorem asLoop_of_count (hapart : Apart c e counter body) (hc : c ∉ last.names)
    (hx : first.evalBound ctx.environment = .ok x) (hy : last.evalBound ctx.environment = .ok y)
    (h : (count counter first last body).Ends ctx result final) :
    ∃ final', (asLoop c e counter first last body).Ends ctx result final' ∧
      Context.SameBut [c, e] final final' := by
  obtain ⟨starts, next, mid, hpasses, hstops⟩ := (count_ends_iff hx hy).1 h
  obtain ⟨final', hends, hsame⟩ :=
    (held_start ctx hapart.different).passes hapart hpasses hstops
  exact ⟨final', (ends_asLoop_iff hx hy hc).2 hends, hsame⟩

theorem exists_count_of_asLoop (hapart : Apart c e counter body) (hc : c ∉ last.names)
    (hx : first.evalBound ctx.environment = .ok x) (hy : last.evalBound ctx.environment = .ok y)
    (h : (asLoop c e counter first last body).Ends ctx result final) :
    ∃ result final, (count counter first last body).Ends ctx result final := by
  obtain ⟨mid', hrounds, hstops⟩ := loop_ends_iff.1 ((ends_asLoop_iff hx hy hc).1 h)
  obtain ⟨starts, next, mid, result, final, hcount⟩ :=
    (held_start ctx hapart.different).rounds hapart hrounds hstops
  exact ⟨result, final, (count_ends_iff hx hy).2 ⟨starts, next, mid, hcount⟩⟩

/-- Let `c` and `e` be two names that do not occur in a counted loop. Where the bounds are numbers,
    it ends if and only if the loop does that keeps the counter and the last bound under these
    names, with the same result, the same output, the same input left and the same bindings of all
    other names. It makes passes, each of which starts with the variable bound to the counter; the
    counter depends on the first bound and the number of the passes made alone, and so does the
    number of all passes on the two bounds, whatever the body does. Where a bound fails or is no
    number, the counted loop fails with that error and does nothing, and the first bound is looked
    at first. -/
theorem count_iff_asLoop (hne : c ≠ e) (hc : c ∉ (count counter first last body).names)
    (he : e ∉ (count counter first last body).names) (ctx : Context) :
    (∀ x y, first.evalBound ctx.environment = .ok x → last.evalBound ctx.environment = .ok y →
      ((∃ result final, (count counter first last body).Ends ctx result final) ↔
        ∃ result final, (asLoop c e counter first last body).Ends ctx result final) ∧
      (∀ result final result' final', (count counter first last body).Ends ctx result final →
        (asLoop c e counter first last body).Ends ctx result' final' →
        result = result' ∧ Context.SameBut [c, e] final final') ∧
      (∀ result final, (count counter first last body).Ends ctx result final →
        ∃ starts next mid, Passes counter y body x ctx starts next mid ∧
          CountStops counter y body next mid result final) ∧
      (∀ starts next mid, Passes counter y body x ctx starts next mid →
        next = counterAt x starts.length ∧ ∀ k (hk : k < starts.length),
          starts[k].environment.get? counter = some (.number (counterAt x k)) ∧
            counterAt x k ≤ y) ∧
      ∀ starts next final other ctx' starts' next' final',
        Passes counter y body x ctx starts next final → ¬ next ≤ y →
        Passes counter y other x ctx' starts' next' final' → ¬ next' ≤ y →
        starts.length = starts'.length) ∧
    (∀ err, first.evalBound ctx.environment = .error err →
      FailsAtOnce (count counter first last body) ctx err) ∧
    ∀ x err, first.evalBound ctx.environment = .ok x →
      last.evalBound ctx.environment = .error err →
      FailsAtOnce (count counter first last body) ctx err := by
  have hapart : Apart c e counter body := apart_of_names hne hc he
  have hlast : c ∉ last.names := fun h => hc (last_names_subset h)
  refine ⟨fun x y hx hy => ⟨⟨?_, ?_⟩, ?_, ?_, ?_, ?_⟩, ?_, ?_⟩
  · rintro ⟨result, final, h⟩
    obtain ⟨final', h', -⟩ := asLoop_of_count hapart hlast hx hy h
    exact ⟨result, final', h'⟩
  · rintro ⟨result, final, h⟩
    exact exists_count_of_asLoop hapart hlast hx hy h
  · intro result final result' final' h h'
    obtain ⟨twin, htwin, hsame⟩ := asLoop_of_count hapart hlast hx hy h
    obtain ⟨rfl, rfl⟩ := htwin.unique h'
    exact ⟨rfl, hsame⟩
  · intro result final h
    exact (count_ends_iff hx hy).1 h
  · intro starts next mid h
    exact ⟨h.next_eq, fun k hk => h.get?_starts hk⟩
  · intro starts next final other ctx' starts' next' final' h hbeyond h' hbeyond'
    exact h.length_unique hbeyond h' hbeyond'
  · intro err h
    exact failsAtOnce_of_first h
  · intro x err hx h
    exact failsAtOnce_of_last hx h

/-- A body that overwrites both the loop variable and the variable of its last bound. -/
theorem count_iff_asLoop_overwriting : ∃ final,
    (asLoop "c" "e" "i" (.number 1.0) (.variable "n") (.block [.print (.variable "i"),
      .assign "i" (.number 7.0), .assign "n" (.number 9.0)])).Ends
        ((Context.start []).bind "n" (.number 2.0)) (.ok ()) final ∧
      final.output = #["1", "2"] ∧ final.environment.get? "n" = some (.number 9.0) := by
  have hends : (count "i" (.number 1.0) (.variable "n") (.block [.print (.variable "i"),
      .assign "i" (.number 7.0), .assign "n" (.number 9.0)])).Ends
        ((Context.start []).bind "n" (.number 2.0)) (.ok ())
        ⟨(Environment.empty.set "n" (.number 9.0)).set "i" (.number 7.0), [], #["1", "2"]⟩ :=
    ends_iff_exec.2 ⟨2, 0, by decide +kernel⟩
  obtain ⟨hnumbers, -⟩ := @count_iff_asLoop "c" "e" "i" (.number 1.0) (.variable "n")
    (.block [.print (.variable "i"), .assign "i" (.number 7.0), .assign "n" (.number 9.0)])
    (by decide) (by decide +kernel) (by decide +kernel)
    ((Context.start []).bind "n" (.number 2.0))
  obtain ⟨hboth, hsame, -⟩ := hnumbers 1.0 2.0 rfl rfl
  obtain ⟨result, final, hfinal⟩ := hboth.1 ⟨_, _, hends⟩
  obtain ⟨rfl, halike⟩ := hsame _ _ _ _ hends hfinal
  refine ⟨final, hfinal, halike.output.symm, ?_⟩
  rw [← halike.bound "n" (by decide)]
  rfl

end Stmt

end Naskah
