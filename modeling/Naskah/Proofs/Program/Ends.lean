import Naskah.Proofs.Program.Steps

/-
  How runs end. A run that has enough passes for its loops ends with success or with an error, always
  in the same way, or it goes on for ever (`Program.Ends`). Any number of passes in which it ends
  tells how (`ends_iff_execute`), and so does the machine of the program, which stops in the same way
  (`ends_iff_reaches`).
-/

namespace Naskah

/-- The outcome of a run that has ended so, in the given context. -/
def Outcome.Ended (o : Outcome) (result : Except RuntimeError Unit) (final : Context) : Prop :=
  match result with
  | .ok () => ∃ left, o = .finished final left
  | .error e => o = .failed e final

namespace Machine

/-- The machine has stopped so: nothing is left to be done, or the next step fails. -/
def Ended (m : Machine) (result : Except RuntimeError Unit) : Prop :=
  match result with
  | .ok () => m.pending = []
  | .error e => m.step = .failed e m.context

theorem Ended.eq_of_ok {m : Machine} (h : m.Ended (.ok ())) : m = ⟨[], m.context⟩ := by
  rw [← (h : m.pending = [])]

theorem Ended.stopped {m : Machine} {result : Except RuntimeError Unit} (h : m.Ended result) :
    m.Stopped := by
  cases result with
  | ok u =>
    rw [h.eq_of_ok]
    exact stopped_of_nil m.context
  | error e => exact stopped_of_failed h

theorem Ended.unique {m : Machine} {result result' : Except RuntimeError Unit}
    (h : m.Ended result) (h' : m.Ended result') : result = result' := by
  have hnil {e : RuntimeError} (hp : m.pending = []) (hs : m.step = .failed e m.context) :
      False := by
    unfold step at hs
    rw [hp] at hs
    cases hs
  cases result with
  | ok u =>
    cases result' with
    | ok u' => rfl
    | error e' => exact (hnil h h').elim
  | error e =>
    cases result' with
    | ok u' => exact (hnil h' h).elim
    | error e' =>
      have hstep : Progress.failed e m.context = .failed e' m.context := Eq.trans h.symm h'
      cases hstep
      rfl

end Machine

namespace Program

open Machine

variable {p : Program} {ctx final : Context} {result : Except RuntimeError Unit}

/-- Given enough passes for its loops, the program ends so, in the given context. -/
def Ends (p : Program) (ctx : Context) (result : Except RuntimeError Unit) (final : Context) :
    Prop :=
  ∃ enough, ∀ passes, enough ≤ passes → (p.execute passes ctx).Ended result final

theorem ends_of_reaches {n : Nat} {m : Machine} (h : (p.machine ctx).Reaches n m)
    (hend : m.Ended result) : p.Ends ctx result m.context := by
  cases result with
  | ok u =>
    rw [hend.eq_of_ok] at h
    exact finishes_of_reaches h
  | error e => exact fails_of_reaches h hend

theorem reaches_of_ended {passes : Nat} (h : (p.execute passes ctx).Ended result final) :
    ∃ n m, (p.machine ctx).Reaches n m ∧ m.Ended result ∧ m.context = final := by
  cases result with
  | ok u =>
    obtain ⟨left, hrun⟩ := h
    obtain ⟨n, hn⟩ := reaches_of_finished hrun
    exact ⟨n, _, hn, rfl, rfl⟩
  | error e =>
    obtain ⟨n, m, hn, hstep, rfl⟩ := reaches_of_failed h
    exact ⟨n, m, hn, hstep, rfl⟩

/-- A program ends as its machine stops. -/
theorem ends_iff_reaches : p.Ends ctx result final ↔
    ∃ n m, (p.machine ctx).Reaches n m ∧ m.Ended result ∧ m.context = final := by
  constructor
  · rintro ⟨enough, h⟩
    exact reaches_of_ended (h enough (Nat.le_refl _))
  · rintro ⟨n, m, hn, hend, rfl⟩
    exact ends_of_reaches hn hend

/-- A run that ends within its passes ends so with any number that is enough. -/
theorem ends_iff_execute :
    p.Ends ctx result final ↔ ∃ passes, (p.execute passes ctx).Ended result final := by
  constructor
  · rintro ⟨enough, h⟩
    exact ⟨enough, h enough (Nat.le_refl _)⟩
  · rintro ⟨passes, h⟩
    exact ends_iff_reaches.2 (reaches_of_ended h)

/-- A program ends in one way only. -/
theorem Ends.unique {result' : Except RuntimeError Unit} {final' : Context}
    (h : p.Ends ctx result final) (h' : p.Ends ctx result' final') :
    result = result' ∧ final = final' := by
  obtain ⟨n, m, hn, hend, rfl⟩ := ends_iff_reaches.1 h
  obtain ⟨n', m', hn', hend', rfl⟩ := ends_iff_reaches.1 h'
  cases hend.stopped.unique hend'.stopped hn hn'
  exact ⟨hend.unique hend', rfl⟩

/-- A program that finishes can be given so many passes that any number of them is left. -/
theorem Ends.spare (h : p.Ends ctx (.ok ()) final) (wanted : Nat) :
    ∃ passes left, p.execute passes ctx = .finished final left ∧ wanted ≤ left := by
  obtain ⟨n, m, hn, hend, -⟩ := ends_iff_reaches.1 h
  obtain ⟨enough, hall⟩ := h
  obtain ⟨left, hrun⟩ := hall (enough + (n + wanted)) (Nat.le_add_right _ _)
  refine ⟨_, left, hrun, ?_⟩
  have hachieves := p.execute_achieves (enough + (n + wanted)) ctx
  rw [hrun] at hachieves
  obtain ⟨-, k, hk, hle⟩ := hachieves
  have hsteps : k ≤ n := hend.stopped.le hn hk
  omega

end Program

end Naskah
