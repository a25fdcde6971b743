import Naskah.Proofs.Machine.Failure
import Naskah.Proofs.Program.History

/-
  How a run depends on its input (`Program.ends_supply`). A machine reads from the front of the
  input, so it goes the same way with more entries behind those that it reads, and with fewer of
  those that it does not read (`step_supply`, `Reaches.supply`, `Reaches.of_supply`). Only a machine that
  misses an entry goes on when there is one.
-/

namespace Naskah

/-! ## Contexts -/

/-- The context with more entries behind those that are left. -/
def Context.supply (ctx : Context) (more : List String) : Context :=
  { ctx with input := ctx.input ++ more }

theorem Context.supply_injective {ctx ctx' : Context} {more : List String}
    (h : ctx.supply more = ctx'.supply more) : ctx = ctx' := by
  obtain ⟨env, input, out⟩ := ctx
  obtain ⟨env', input', out'⟩ := ctx'
  obtain ⟨henv, hinput, hout⟩ := Context.mk.inj h
  cases henv
  cases hout
  cases List.append_cancel_right hinput
  rfl

/-- A context whose input ends in the given entries has them supplied. -/
theorem Context.eq_supply {ctx : Context} {front more : List String}
    (h : ctx.input = front ++ more) : ctx = { ctx with input := front }.supply more := by
  unfold supply
  rw [← h]

/-- An effect does the same with more entries behind, as long as these are left. -/
theorem Effect.apply_supply {effect : Effect} {ctx next : Context} {more : List String} :
    effect.apply (ctx.supply more) = .ok (next.supply more) ↔ effect.apply ctx = .ok next := by
  cases effect with
  | keep =>
    constructor
    · intro h
      rw [Context.supply_injective (Except.ok.inj h)]
      rfl
    · intro h
      cases h
      rfl
  | bind name value =>
    constructor
    · intro h
      have hbind : (ctx.bind name value).supply more = next.supply more := Except.ok.inj h
      rw [← Context.supply_injective hbind]
      rfl
    · intro h
      cases h
      rfl
  | print value =>
    constructor
    · intro h
      have hprint : (ctx.print value).supply more = next.supply more := Except.ok.inj h
      rw [← Context.supply_injective hprint]
      rfl
    · intro h
      cases h
      rfl
  | read target =>
    constructor
    · intro h
      obtain ⟨raw, input, hinput, hnext⟩ := Effect.apply_read.1 h
      have hleft : next.input ++ more = input := congrArg Context.input hnext
      have hfront : ctx.input = raw :: next.input := by
        rw [← hleft, ← List.cons_append] at hinput
        exact List.append_cancel_right hinput
      have hsame : next.supply more =
          ({ ctx with input := next.input }.bind target (.ofInput raw)).supply more := by
        rw [hnext, ← hleft]
        rfl
      exact Effect.apply_read.2 ⟨raw, next.input, hfront, Context.supply_injective hsame⟩
    · intro h
      obtain ⟨raw, input, hinput, rfl⟩ := Effect.apply_read.1 h
      refine Effect.apply_read.2 ⟨raw, input ++ more, ?_, rfl⟩
      exact congrArg (· ++ more) hinput

/-! ## Machines -/

namespace Machine

/-- The machine with more entries behind those that are left. -/
def supply (m : Machine) (more : List String) : Machine :=
  { m with context := m.context.supply more }

variable {m next last : Machine} {more : List String} {n : Nat}

theorem step_supply :
    (m.supply more).step = .running (next.supply more) ↔ m.step = .running next := by
  constructor
  · intro h
    obtain ⟨task, rest, plan, hpending, hplan, happly, hnext⟩ := step_eq_running h
    have happly : plan.effect.apply m.context = .ok next.context := Effect.apply_supply.1 happly
    rw [step_of_apply (m := m) hpending hplan happly]
    exact congrArg (fun tasks => Progress.running ⟨tasks, next.context⟩) hnext.symm
  · intro h
    obtain ⟨task, rest, plan, hpending, hplan, happly, hnext⟩ := step_eq_running h
    rw [step_of_apply (m := m.supply more) hpending hplan (Effect.apply_supply.2 happly), ← hnext]
    rfl

/-- A machine that fails for another reason than a missing entry fails whatever its input is. -/
theorem failed_supply {e : RuntimeError} (he : ∀ target, e ≠ .missingInput target) :
    (m.supply more).step = .failed e (m.context.supply more) ↔ m.step = .failed e m.context := by
  constructor
  · intro h
    obtain ⟨task, rest, hpending, hplan | ⟨target, -, -, hmissing⟩⟩ := failure_of_step h
    · exact step_of_error hpending (.inl hplan)
    · exact absurd hmissing (he target)
  · intro h
    obtain ⟨task, rest, hpending, hplan | ⟨target, -, -, hmissing⟩⟩ := failure_of_step h
    · exact step_of_error (m := m.supply more) hpending (.inl hplan)
    · exact absurd hmissing (he target)

theorem ended_supply {result : Except RuntimeError Unit}
    (h : ∀ target, result ≠ .error (.missingInput target)) :
    (m.supply more).Ended result ↔ m.Ended result := by
  cases result with
  | ok u => exact Iff.rfl
  | error e => exact failed_supply fun target he => h target (congrArg _ he)

/-- With more entries a machine goes the same way. -/
theorem Reaches.supply (h : m.Reaches n last) (more : List String) :
    (m.supply more).Reaches n (last.supply more) := by
  induction n generalizing m with
  | zero =>
    cases h
    exact .refl _
  | succ n ih =>
    obtain ⟨next, hstep, hnext⟩ := h.uncons
    exact .cons (step_supply.2 hstep) (ih hnext)

/-- A machine goes the same way without the entries that it leaves. Of the entries that are left at
    the end each step on the way leaves all, because input is read from the front. -/
theorem Reaches.of_supply {ps : List Stmt} (hm : ∀ t ∈ m.pending, t.Within ps)
    (h : (m.supply more).Reaches n (last.supply more)) : m.Reaches n last := by
  induction n generalizing m with
  | zero =>
    have hsame : m.supply more = last.supply more := Progress.running.inj h
    obtain ⟨hpending, hcontext⟩ := Machine.mk.inj hsame
    have heq : m = last := by
      obtain ⟨tasks, ctx⟩ := m
      obtain ⟨tasks', ctx'⟩ := last
      cases (hpending : tasks = tasks')
      cases Context.supply_injective hcontext
      rfl
    rw [heq]
    exact .refl last
  | succ n ih =>
    obtain ⟨⟨tasks, ctx⟩, hstep, hnext⟩ := h.uncons
    have hwithin : ∀ t ∈ tasks, t.Within ps := within_step hstep hm
    obtain ⟨taken, hfollows, -⟩ := hnext.follows hwithin
    have hinput : ctx.input = (taken ++ last.context.input) ++ more :=
      hfollows.input.trans (List.append_assoc _ _ _).symm
    rw [Context.eq_supply hinput] at hstep hnext
    have hback : m.step = .running ⟨tasks, { ctx with input := taken ++ last.context.input }⟩ :=
      step_supply.1 hstep
    exact .cons hback (ih hwithin hnext)

/-- A machine that is about to read and has an entry binds the target to its value. -/
theorem step_of_starting {target raw : String} {input : List String}
    (h : m.starting? = some (.input target)) (hinput : m.context.input = raw :: input) :
    m.step = .running ⟨m.pending.tail, { m.context with input }.bind target (.ofInput raw)⟩ := by
  unfold starting? at h
  split at h
  · next s rest hpending =>
    cases h
    rw [step_of_apply hpending rfl (Effect.apply_read.2 ⟨raw, input, hinput, rfl⟩), hpending]
    rfl
  · cases h

end Machine

/-! ## Programs -/

namespace Program

open Machine

/-- A run that ends, and does not miss an entry, ends the same way with any entries behind those of
    its input, which it leaves together with those that it left before, and also with nothing but
    the entries that it reads. A run that misses an entry for a target has read all of its input;
    with one more entry, and any behind it, the machine comes to the same input statement in the same
    context, and there binds the target to the value of the first of them. -/
theorem ends_supply {p : Program} {ctx final : Context} {result : Except RuntimeError Unit}
    (h : p.Ends ctx result final) :
    ((∀ target, result ≠ .error (.missingInput target)) →
      (∀ more, p.Ends (ctx.supply more) result (final.supply more)) ∧
        ∃ consumed, ctx.input = consumed ++ final.input ∧
          p.Ends { ctx with input := consumed } result { final with input := [] }) ∧
      ∀ target, result = .error (.missingInput target) →
        final.input = [] ∧ ∃ n m, (p.machine ctx).Reaches n m ∧ m.Ended result ∧
          m.context = final ∧ m.starting? = some (.input target) ∧
          ∀ raw more,
            (p.machine (ctx.supply (raw :: more))).Reaches n
                ⟨m.pending, { final with input := raw :: more }⟩ ∧
              step ⟨m.pending, { final with input := raw :: more }⟩ =
                .running ⟨m.pending.tail,
                  { final with input := more }.bind target (.ofInput raw)⟩ := by
  obtain ⟨n, m, hn, hend, rfl⟩ := ends_iff_reaches.1 h
  refine ⟨fun hne => ⟨fun more => ?_, ?_⟩, ?_⟩
  · exact ends_of_reaches (hn.supply more) ((ended_supply hne).2 hend)
  · obtain ⟨consumed, hfollows, -⟩ := hn.follows (p.machine_within ctx)
    refine ⟨consumed, hfollows.input, ?_⟩
    -- the machine on what is read, and where it comes to: both are supplied with what is left
    let short : Context := { ctx with input := consumed }
    let last : Machine := ⟨m.pending, { m.context with input := [] }⟩
    have hstart : p.machine ctx = (p.machine short).supply m.context.input :=
      congrArg p.machine (Context.eq_supply hfollows.input)
    have hlast : m = last.supply m.context.input := rfl
    rw [hstart, hlast] at hn
    rw [hlast] at hend
    exact ends_of_reaches (hn.of_supply (p.machine_within short)) ((ended_supply hne).1 hend)
  · rintro target rfl
    rcases stops_of_step hend (Reaches.within hn (p.machine_within ctx)) with
      hstops | ⟨target', -, hstarting, hinput, he⟩
    · exact absurd rfl (hstops.ne_missingInput target)
    · cases he
      refine ⟨hinput, n, m, hn, hend, rfl, hstarting, fun raw more => ?_⟩
      have hmore := hn.supply (raw :: more)
      have hcontext : m.context.supply (raw :: more) = { m.context with input := raw :: more } := by
        unfold Context.supply
        rw [hinput]
        rfl
      unfold Machine.supply at hmore
      rw [hcontext] at hmore
      exact ⟨hmore, step_of_starting (m := ⟨m.pending, { m.context with input := raw :: more }⟩)
        hstarting rfl⟩

/-- One read leaves an entry and would leave another one; of two reads the second one misses its
    entry, and reads any that is supplied. -/
theorem ends_supply_reads :
    Ends ⟨[.input "x"]⟩ (.start ["a", "b"]) (.ok ()) ((Context.start ["b"]).bind "x" (.text "a")) ∧
      Ends ⟨[.input "x"]⟩ (.start ["a", "b", "c"]) (.ok ())
        ((Context.start ["b", "c"]).bind "x" (.text "a")) ∧
      Ends ⟨[.input "x", .input "y"]⟩ (.start ["a"]) (.error (.missingInput "y"))
        ((Context.start []).bind "x" (.text "a")) ∧
      ∃ n m, (machine ⟨[.input "x", .input "y"]⟩ (.start ["a", "b"])).Reaches n m ∧
        m.step = .running ⟨m.pending.tail,
          ((Context.start []).bind "x" (.text "a")).bind "y" (.text "b")⟩ := by
  have hread : Ends ⟨[.input "x"]⟩ (.start ["a", "b"]) (.ok ())
      ((Context.start ["b"]).bind "x" (.text "a")) :=
    ends_iff_execute.2 ⟨0, 0, by decide +kernel⟩
  have hmissing : Ends ⟨[.input "x", .input "y"]⟩ (.start ["a"]) (.error (.missingInput "y"))
      ((Context.start []).bind "x" (.text "a")) := by
    refine ends_iff_execute.2 ⟨0, ?_⟩
    show execute ⟨[.input "x", .input "y"]⟩ 0 (.start ["a"]) = .failed (.missingInput "y") _
    decide +kernel
  have hmore := ((ends_supply hread).1 fun target => nofun).1 ["c"]
  obtain ⟨-, n, m, -, -, -, -, hgoes⟩ := (ends_supply hmissing).2 "y" rfl
  obtain ⟨hreaches, hstep⟩ := hgoes "b" []
  have hvalue : Value.ofInput "b" = .text "b" := by decide +kernel
  rw [hvalue] at hstep
  exact ⟨hread, hmore, hmissing, n, _, hreaches, hstep⟩

end Program

end Naskah
