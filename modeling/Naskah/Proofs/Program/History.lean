import Naskah.Proofs.Machine.Plan
import Naskah.Proofs.Program.Ends

/-
  What a run does to its context, however it ends (`Program.ends_history`). What was printed before
  stays in front of what the run prints; the entries that are read are taken from the front of the
  input, one by each input statement that is executed, in the order of execution; no binding is
  lost; and names that the program does not bind keep theirs. Each step does so (`follows_step`), and
  the run by induction on its steps (`Reaches.follows`).
-/

namespace Naskah

/-! ## Contexts -/

/-- What a context has become, where no names but the given ones were bound and the entries `taken`
    were read. -/
structure Context.Follows (names taken : List String) (before after : Context) : Prop where
  output : ∃ printed, after.output = before.output ++ printed
  input : before.input = taken ++ after.input
  bound : ∀ x, before.environment.contains x = true → after.environment.contains x = true
  kept : ∀ x, x ∉ names → after.environment.get? x = before.environment.get? x
  own : ∀ x, x ∉ names →
    after.environment.bindings.get? x = before.environment.bindings.get? x

namespace Context.Follows

variable {names taken more : List String} {before mid after : Context}

theorem refl (ctx : Context) : Follows names [] ctx ctx where
  output := ⟨#[], Array.append_empty.symm⟩
  input := rfl
  bound _ h := h
  kept _ _ := rfl
  own _ _ := rfl

theorem trans (h : Follows names taken before mid) (h' : Follows names more mid after) :
    Follows names (taken ++ more) before after where
  output := by
    obtain ⟨first, hfirst⟩ := h.output
    obtain ⟨second, hsecond⟩ := h'.output
    exact ⟨first ++ second, by rw [hsecond, hfirst, Array.append_assoc]⟩
  input := by rw [h.input, h'.input, List.append_assoc]
  bound x hx := h'.bound x (h.bound x hx)
  kept x hx := (h'.kept x hx).trans (h.kept x hx)
  own x hx := (h'.own x hx).trans (h.own x hx)

theorem print (ctx : Context) (value : Value) : Follows names [] ctx (ctx.print value) where
  output := ⟨#[value.display], Array.push_eq_append⟩
  input := rfl
  bound _ h := h
  kept _ _ := rfl
  own _ _ := rfl

/-- A name is bound, and the entries `taken` are read. -/
theorem bind {x : String} (value : Value) (hx : x ∈ names) (hinput : before.input = taken ++ mid.input)
    (henv : mid.environment = before.environment) (hout : mid.output = before.output) :
    Follows names taken before (mid.bind x value) where
  output := ⟨#[], hout.trans Array.append_empty.symm⟩
  input := hinput
  bound y hy := by
    unfold Context.bind Environment.contains at *
    rw [Environment.get?_set, henv]
    split
    · rfl
    · exact hy
  kept y hy := by
    have hne : y ≠ x := fun h => hy (h ▸ hx)
    unfold Context.bind
    rw [Environment.get?_set, if_neg hne, henv]
  own y hy := by
    have hne : y ≠ x := fun h => hy (h ▸ hx)
    unfold Context.bind
    rw [Environment.bindings_set, Bindings.get?_set, if_neg hne, henv]

end Context.Follows

theorem Context.get?_bind_self (ctx : Context) (x : String) (value : Value) :
    (ctx.bind x value).environment.get? x = some value := by
  unfold Context.bind
  rw [Environment.get?_set, if_pos rfl]

/-! ## Steps -/

/-- The name that a statement reads into, if it is an input statement. -/
def Stmt.inputTarget? : Stmt → Option String
  | .input target => some target
  | _ => none

/-- The name that an effect reads into, if it is to read. -/
def Effect.inputTarget? : Effect → Option String
  | .read target => some target
  | _ => none

namespace Machine

/-- The name that the next step reads into, if it executes an input statement. -/
def inputTarget? (m : Machine) : Option String :=
  m.starting?.bind Stmt.inputTarget?

/-- What the first `n` steps read: the target of each input statement that is executed, in order,
    with the value that the target is bound to behind the step. -/
def reads (m : Machine) : (n : Nat) → List (String × Option Value)
  | 0 => []
  | n + 1 =>
    match m.step with
    | .running next =>
      (m.inputTarget?.toList.map fun x => (x, next.context.environment.get? x)) ++ next.reads n
    | _ => []

theorem inputTarget?_plan {m : Machine} {task : Task} {rest : List Task} {plan : Plan}
    (hpending : m.pending = task :: rest)
    (hplan : task.plan m.context.environment = .ok plan) :
    m.inputTarget? = plan.effect.inputTarget? := by
  unfold inputTarget? starting?
  rw [hpending]
  cases task with
  | loop test body =>
    obtain ⟨b, -, rfl⟩ := exists_of_map_eq_ok hplan
    rfl
  | count counter x last body =>
    unfold Task.plan at hplan
    dsimp only at hplan
    split at hplan
    · cases hplan
      rfl
    · cases hplan
      rfl
  | stmt s =>
    cases s with
    | assign target value | cond test yes no | loop test body | print value | expr value =>
      obtain ⟨v, -, rfl⟩ := exists_of_map_eq_ok hplan
      rfl
    | count counter first last body =>
      unfold Task.plan Stmt.plan at hplan
      dsimp only at hplan
      split at hplan
      · cases hplan
      · obtain ⟨y, -, rfl⟩ := exists_of_map_eq_ok hplan
        rfl
    | input target | block body | empty =>
      cases hplan
      rfl

/-- Only the targets of the statements are bound by a step, and an entry is read if and only if the
    step executes an input statement. -/
theorem follows_step {ps : List Stmt} {m next : Machine} (h : m.step = .running next)
    (hm : ∀ t ∈ m.pending, t.Within ps) :
    ∃ taken, Context.Follows (Stmt.targets ps) taken m.context next.context ∧
      (m.inputTarget?.toList.map fun x => next.context.environment.get? x) =
        taken.map fun raw => some (.ofInput raw) := by
  obtain ⟨task, rest, ⟨effect, tasks⟩, hpending, hplan, happly, -⟩ := step_eq_running h
  have htask : task.Within ps := hm task (by rw [hpending]; exact List.mem_cons_self)
  have htarget := (task.plan_within htask hplan).target
  rw [inputTarget?_plan hpending hplan]
  cases effect with
  | keep =>
    rw [← Except.ok.inj happly]
    exact ⟨[], .refl m.context, rfl⟩
  | bind x value =>
    rw [← Except.ok.inj happly]
    exact ⟨[], .bind value (htarget x rfl) rfl rfl rfl, rfl⟩
  | print value =>
    rw [← Except.ok.inj happly]
    exact ⟨[], .print m.context value, rfl⟩
  | read x =>
    obtain ⟨raw, input, hinput, hctx⟩ := Effect.apply_read.1 happly
    rw [hctx]
    refine ⟨[raw], .bind _ (htarget x rfl) hinput rfl rfl, ?_⟩
    exact congrArg (fun v => [v]) (Context.get?_bind_self _ x _)

/-! ## Runs -/

/-- The induction is on the steps. What a run reads is what its first step reads and then what the
    rest of it does. -/
theorem Reaches.follows {ps : List Stmt} {m m' : Machine} {n : Nat} (h : m.Reaches n m')
    (hm : ∀ t ∈ m.pending, t.Within ps) :
    ∃ taken, Context.Follows (Stmt.targets ps) taken m.context m'.context ∧
      (m.reads n).map Prod.snd = taken.map fun raw => some (.ofInput raw) := by
  induction n generalizing m with
  | zero =>
    cases h
    exact ⟨[], .refl _, rfl⟩
  | succ n ih =>
    obtain ⟨next, hstep, hnext⟩ := h.uncons
    obtain ⟨first, hfirst, hread⟩ := follows_step hstep hm
    obtain ⟨more, hmore, hreads⟩ := ih hnext (within_step hstep hm)
    refine ⟨first ++ more, hfirst.trans hmore, ?_⟩
    rw [reads, hstep]
    dsimp only
    rw [List.map_append, List.map_map, List.map_append, hreads, ← hread]
    rfl

/-- The targets of what a run reads are those of the input statements that it starts. -/
theorem Reaches.started_inputs {m m' : Machine} {n : Nat} (h : m.Reaches n m')
    (before : Array Stmt) :
    (m.started before n).toList.filterMap Stmt.inputTarget? =
      before.toList.filterMap Stmt.inputTarget? ++ (m.reads n).map Prod.fst := by
  induction n generalizing m before with
  | zero => exact (List.append_nil _).symm
  | succ n ih =>
    obtain ⟨next, hstep, hnext⟩ := h.uncons
    rw [started, reads, hstep]
    dsimp only
    rw [ih hnext, List.map_append, List.map_map, ← List.append_assoc]
    refine congrArg (· ++ _) ?_
    unfold inputTarget?
    cases m.starting? with
    | none => exact (List.append_nil _).symm
    | some s =>
      rw [Array.toList_push, List.filterMap_append, Option.bind_some]
      cases hs : s.inputTarget? <;> simp [hs]

end Machine

namespace Program

/-- However a run ends, its output goes on from that of the context; the entries that it has read
    come first in the input of the context and the others are left, each executed input statement
    has read one, in the order of execution, and has bound its target to the value of the entry;
    every name that was bound still is; and a name that the program does not bind is bound as it
    was, or still not bound. -/
theorem ends_history {p : Program} {ctx final : Context} {result : Except RuntimeError Unit}
    (h : p.Ends ctx result final) :
    (∃ printed, final.output = ctx.output ++ printed) ∧
      (∃ n m entries, (p.machine ctx).Reaches n m ∧ m.Ended result ∧ m.context = final ∧
        ctx.input = entries ++ final.input ∧
        ((p.machine ctx).reads n).map Prod.fst =
          ((p.machine ctx).started #[] n).toList.filterMap Stmt.inputTarget? ∧
        ((p.machine ctx).reads n).map Prod.snd = entries.map fun raw => some (.ofInput raw)) ∧
      (∀ x, ctx.environment.contains x = true → final.environment.contains x = true) ∧
      ∀ x, x ∉ p.targets → final.environment.get? x = ctx.environment.get? x ∧
        final.environment.bindings.get? x = ctx.environment.bindings.get? x := by
  obtain ⟨n, m, hn, hend, rfl⟩ := ends_iff_reaches.1 h
  obtain ⟨entries, hfollows, hvalues⟩ := hn.follows (p.machine_within ctx)
  have htargets := hn.started_inputs #[]
  exact ⟨hfollows.output, ⟨n, m, entries, hn, hend, rfl, hfollows.input, htargets.symm, hvalues⟩,
    hfollows.bound, fun x hx => ⟨hfollows.kept x hx, hfollows.own x hx⟩⟩

/-- Two reads of which the second one misses its input. -/
theorem ends_history_missing :
    Ends ⟨[.input "x", .input "y"]⟩ (.start ["a"]) (.error (.missingInput "y"))
        ((Context.start []).bind "x" (.text "a")) ∧
      ∃ n entries, ["a"] = entries ++ ([] : List String) ∧
        ((machine ⟨[.input "x", .input "y"]⟩ (.start ["a"])).reads n).map Prod.snd =
          entries.map fun raw => some (.ofInput raw) := by
  have hends : Ends ⟨[.input "x", .input "y"]⟩ (.start ["a"]) (.error (.missingInput "y"))
      ((Context.start []).bind "x" (.text "a")) := by
    refine ends_iff_execute.2 ⟨0, ?_⟩
    show execute ⟨[.input "x", .input "y"]⟩ 0 (.start ["a"]) = .failed (.missingInput "y") _
    decide +kernel
  obtain ⟨-, ⟨n, -, entries, -, -, -, hinput, -, hvalues⟩, -⟩ := ends_history hends
  exact ⟨hends, n, entries, hinput, hvalues⟩

end Program

end Naskah
