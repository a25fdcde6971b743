import Naskah.Proofs.Machine.Plan
import Naskah.Proofs.Program.Ends

/-
  What a run does not depend on (`Program.ends_unrelated`). In two contexts with the same input, whose
  environments agree on the names in a program, the machines of the program go along with each other:
  they have the same tasks on their stacks, and what the one prints and reads the other does
  (`Machine.Twins`). So the one stops as the other does, and goes on for ever if the other does.
-/

namespace Naskah

/-! ## Contexts -/

/-- The two contexts look the same where only these names are looked at: the same entries are left
    to be read, and what has been printed is the same, behind `out` in the one and behind `out'` in
    the other. -/
structure Context.Alike (names : List String) (out out' : Array String) (ctx ctx' : Context) :
    Prop where
  input : ctx.input = ctx'.input
  agree : ctx.environment.Agree names ctx'.environment
  output : ∃ printed, ctx.output = out ++ printed ∧ ctx'.output = out' ++ printed

namespace Context.Alike

variable {names : List String} {out out' : Array String} {ctx ctx' : Context}

theorem start (hinput : ctx.input = ctx'.input)
    (hagree : ctx.environment.Agree names ctx'.environment) :
    Alike names ctx.output ctx'.output ctx ctx' where
  input := hinput
  agree := hagree
  output := ⟨#[], Array.append_empty.symm, Array.append_empty.symm⟩

theorem bind (h : Alike names out out' ctx ctx') (name : String) (value : Value) :
    Alike names out out' (ctx.bind name value) (ctx'.bind name value) where
  input := h.input
  agree := h.agree.set name value
  output := h.output

theorem print (h : Alike names out out' ctx ctx') (value : Value) :
    Alike names out out' (ctx.print value) (ctx'.print value) where
  input := h.input
  agree := h.agree
  output := by
    obtain ⟨printed, hout, hout'⟩ := h.output
    refine ⟨printed.push value.display, ?_, ?_⟩
    · rw [Array.append_push, ← hout]
      rfl
    · rw [Array.append_push, ← hout']
      rfl

/-- What an effect does to one of the contexts it does to the other. -/
theorem apply (h : Alike names out out' ctx ctx') {effect : Effect} {next : Context}
    (happly : effect.apply ctx = .ok next) :
    ∃ next', effect.apply ctx' = .ok next' ∧ Alike names out out' next next' := by
  cases effect with
  | keep =>
    cases happly
    exact ⟨ctx', rfl, h⟩
  | bind name value =>
    cases happly
    exact ⟨_, rfl, h.bind name value⟩
  | print value =>
    cases happly
    exact ⟨_, rfl, h.print value⟩
  | read target =>
    obtain ⟨raw, input, hinput, rfl⟩ := Effect.apply_read.1 happly
    have hinput' : ctx'.input = raw :: input := h.input.symm.trans hinput
    exact ⟨_, Effect.apply_read.2 ⟨raw, input, hinput', rfl⟩, rfl, h.agree.set target _, h.output⟩

theorem apply_error (h : Alike names out out' ctx ctx') {effect : Effect} {e : RuntimeError}
    (happly : effect.apply ctx = .error e) : effect.apply ctx' = .error e := by
  obtain ⟨target, heffect, hinput, he⟩ := Effect.apply_eq_error.1 happly
  exact Effect.apply_eq_error.2 ⟨target, heffect, h.input.symm.trans hinput, he⟩

end Context.Alike

/-! ## Machines -/

namespace Machine

/-- The two machines have the same tasks left, all of which stem from the statements, and their
    contexts look the same where only the names in the statements are looked at. -/
structure Twins (ps : List Stmt) (out out' : Array String) (m m' : Machine) : Prop where
  pending : m.pending = m'.pending
  within : ∀ t ∈ m.pending, t.Within ps
  context : Context.Alike (Stmt.mentioned ps) out out' m.context m'.context

namespace Twins

variable {ps : List Stmt} {out out' : Array String} {m m' next last : Machine}

theorem plan (h : Twins ps out out' m m') {task : Task} {rest : List Task}
    (hpending : m.pending = task :: rest) :
    task.plan m'.context.environment = task.plan m.context.environment := by
  have htask : task.Within ps := h.within task (by rw [hpending]; exact List.mem_cons_self)
  exact (task.plan_congr htask h.context.agree).symm

theorem step (h : Twins ps out out' m m') (hstep : m.step = .running next) :
    ∃ next', m'.step = .running next' ∧ Twins ps out out' next next' := by
  obtain ⟨task, rest, made, hpending, hplan, happly, hnext⟩ := step_eq_running hstep
  have hplan' : task.plan m'.context.environment = .ok made := (h.plan hpending).trans hplan
  obtain ⟨ctx', happly', halike⟩ := h.context.apply happly
  have hstep' := step_of_apply (h.pending ▸ hpending) hplan' happly'
  exact ⟨_, hstep', ⟨hnext, within_step hstep h.within, halike⟩⟩

theorem failed (h : Twins ps out out' m m') {e : RuntimeError} {ctx : Context}
    (hstep : m.step = .failed e ctx) : m'.step = .failed e m'.context := by
  obtain ⟨task, rest, hpending, he⟩ := step_eq_failed hstep
  refine step_of_error (h.pending ▸ hpending) ?_
  rw [h.plan hpending]
  refine he.imp_right ?_
  rintro ⟨made, hplan, happly⟩
  exact ⟨made, hplan, h.context.apply_error happly⟩

theorem ended (h : Twins ps out out' m m') {result : Except RuntimeError Unit}
    (hend : m.Ended result) : m'.Ended result := by
  cases result with
  | ok u => exact h.pending.symm.trans hend
  | error e => exact h.failed hend

/-- By induction on the steps, each of which keeps the machines alike. -/
theorem reaches {n : Nat} (h : Twins ps out out' m m') (hn : m.Reaches n last) :
    ∃ last', m'.Reaches n last' ∧ Twins ps out out' last last' := by
  induction n generalizing m m' with
  | zero =>
    cases hn
    exact ⟨m', .refl m', h⟩
  | succ n ih =>
    obtain ⟨next, hstep, hnext⟩ := hn.uncons
    obtain ⟨next', hstep', htwins⟩ := h.step hstep
    obtain ⟨last', hlast', hlast⟩ := ih htwins hnext
    exact ⟨last', .cons hstep' hlast', hlast⟩

end Twins

end Machine

/-! ## Programs -/

namespace Program

open Machine

variable {p : Program} {ctx ctx' final : Context} {result : Except RuntimeError Unit}

theorem Ends.alike (h : p.Ends ctx result final) (hinput : ctx.input = ctx'.input)
    (hagree : ctx.environment.Agree p.names ctx'.environment) :
    ∃ final', p.Ends ctx' result final' ∧
      Context.Alike p.names ctx.output ctx'.output final final' := by
  obtain ⟨n, m, hn, hend, rfl⟩ := ends_iff_reaches.1 h
  have htwins : Twins p.parts ctx.output ctx'.output (p.machine ctx) (p.machine ctx') :=
    ⟨rfl, p.machine_within ctx, .start hinput hagree⟩
  obtain ⟨m', hn', hlast⟩ := htwins.reaches hn
  exact ⟨m'.context, ends_of_reaches hn' (hlast.ended hend), hlast.context⟩

/-- In two contexts with the same input, whose environments agree on all names that occur in the
    program, the program ends in both or in neither. If it ends, it does so with the same result,
    has printed the same behind what was there before, leaves the same input, and the environments
    still agree on the names in the program. -/
theorem ends_unrelated (hinput : ctx.input = ctx'.input)
    (hagree : ctx.environment.Agree p.names ctx'.environment) :
    ((∃ result final, p.Ends ctx result final) ↔ ∃ result final, p.Ends ctx' result final) ∧
      ∀ result final result' final', p.Ends ctx result final → p.Ends ctx' result' final' →
        result = result' ∧ final.input = final'.input ∧
          final.environment.Agree p.names final'.environment ∧
          ∃ printed, final.output = ctx.output ++ printed ∧
            final'.output = ctx'.output ++ printed := by
  refine ⟨⟨?_, ?_⟩, ?_⟩
  · rintro ⟨result, final, h⟩
    obtain ⟨final', h', -⟩ := h.alike hinput hagree
    exact ⟨result, final', h'⟩
  · rintro ⟨result, final, h⟩
    obtain ⟨final', h', -⟩ := h.alike hinput.symm hagree.symm
    exact ⟨result, final', h'⟩
  · intro result final result' final' h h'
    obtain ⟨twin, htwin, halike⟩ := h.alike hinput hagree
    obtain ⟨rfl, rfl⟩ := htwin.unique h'
    exact ⟨rfl, halike.input, halike.agree, halike.output⟩

/-- A name that is bound in a parent frame, beside an unrelated binding and behind some output, is
    as good as one that is bound in the only frame. -/
theorem ends_unrelated_frames :
    Ends ⟨[.input "y", .print (.variable "x")]⟩ ⟨.set .empty "x" (.text "a"), ["b"], #[]⟩ (.ok ())
        ⟨(Environment.empty.set "x" (.text "a")).set "y" (.text "b"), [], #["a"]⟩ ∧
      ∃ final, Ends ⟨[.input "y", .print (.variable "x")]⟩
        ⟨(Environment.empty.set "x" (.text "a")).withParent.set "z" (.text "c"), ["b"], #["d"]⟩
        (.ok ()) final ∧ final.output = #["d", "a"] := by
  have hends : Ends ⟨[.input "y", .print (.variable "x")]⟩
      ⟨.set .empty "x" (.text "a"), ["b"], #[]⟩ (.ok ())
      ⟨(Environment.empty.set "x" (.text "a")).set "y" (.text "b"), [], #["a"]⟩ :=
    ends_iff_execute.2 ⟨0, 0, by decide +kernel⟩
  have hagree : (Environment.empty.set "x" (.text "a")).Agree
      (names ⟨[.input "y", .print (.variable "x")]⟩)
      ((Environment.empty.set "x" (.text "a")).withParent.set "z" (.text "c")) := by
    unfold Environment.Agree
    decide +kernel
  have hinput : (Context.mk (.set .empty "x" (.text "a")) ["b"] #[]).input =
      (Context.mk (.set (.withParent (.set .empty "x" (.text "a"))) "z" (.text "c")) ["b"]
        #["d"]).input := rfl
  obtain ⟨hboth, hsame⟩ := ends_unrelated hinput hagree
  obtain ⟨result, final, hfinal⟩ := hboth.1 ⟨_, _, hends⟩
  obtain ⟨rfl, -, -, printed, hout, hout'⟩ := hsame _ _ _ _ hends hfinal
  have hprinted : printed = #["a"] := (hout.trans Array.empty_append).symm
  refine ⟨hends, final, hfinal, ?_⟩
  rw [hout', hprinted]
  rfl

end Program

end Naskah
