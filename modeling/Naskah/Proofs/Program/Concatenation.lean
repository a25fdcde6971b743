import Naskah.Proofs.Program.Ends
import Naskah.Proofs.Program.Exact
import Naskah.Proofs.Stmt.Fragment
import Naskah.Proofs.Token.Extension

/-
  Programs put together. A text behind another, with a separator between them, is compiled to the
  statements of the one and then those of the other (`compile_append`). Statements are not
  separated, so the second text must not go on with what could be the last expression of the first;
  of the tokens that a statement starts with only `-` could.
-/

namespace Naskah

/-- The statements of a program and then those of another. -/
def Program.followedBy (p q : Program) : Program :=
  ⟨p.statements ++ q.statements⟩

/-- The kind of the first token of a text, if it has one. -/
def firstKind? (source : String) : Option Token.Kind :=
  match tokenize source with
  | .ok (t :: _, _) => some t.kind
  | _ => none

theorem firstKind?_eq {source : String} {ts : List Token} {line : Nat}
    (h : tokenize source = .ok (ts, line)) : firstKind? source = (ts.map Token.kind).head? := by
  unfold firstKind?
  rw [h]
  cases ts <;> rfl

/-! ## Execution -/

theorem Stmt.execAll_append (ss ts : List Stmt) (passes : Nat) (ctx : Context) :
    execAll (ss ++ ts) passes ctx =
      (execAll ss passes ctx).andThen fun mid left => execAll ts left mid := by
  induction ss generalizing passes ctx with
  | nil =>
    rw [List.nil_append, execAll]
    rfl
  | cons s ss ih =>
    rw [List.cons_append, execAll, execAll]
    cases s.exec passes ctx with
    | finished mid left => exact ih left mid
    | failed e mid => rfl
    | exhausted => rfl

namespace Program

variable {p q : Program} {ctx final : Context} {result : Except RuntimeError Unit}

theorem execute_followedBy (p q : Program) (passes : Nat) (ctx : Context) :
    (p.followedBy q).execute passes ctx =
      (p.execute passes ctx).andThen fun mid left => q.execute left mid :=
  Stmt.execAll_append p.statements q.statements passes ctx

/-- Two programs end as the first one does if it fails, and otherwise as the second one does in the
    context that the first one leaves. -/
theorem ends_followedBy_iff : (p.followedBy q).Ends ctx result final ↔
    (∃ e, result = .error e ∧ p.Ends ctx (.error e) final) ∨
      ∃ mid, p.Ends ctx (.ok ()) mid ∧ q.Ends mid result final := by
  constructor
  · intro h
    obtain ⟨passes, hrun⟩ := ends_iff_execute.1 h
    rw [execute_followedBy] at hrun
    cases hp : p.execute passes ctx with
    | finished mid left =>
      rw [hp] at hrun
      exact .inr ⟨mid, ends_iff_execute.2 ⟨passes, left, hp⟩, ends_iff_execute.2 ⟨left, hrun⟩⟩
    | failed e mid =>
      rw [hp] at hrun
      cases result with
      | ok u =>
        obtain ⟨left, hleft⟩ := hrun
        cases hleft
      | error e' =>
        cases hrun
        exact .inl ⟨e, rfl, ends_iff_execute.2 ⟨passes, hp⟩⟩
    | exhausted =>
      rw [hp] at hrun
      cases result with
      | ok u =>
        obtain ⟨left, hleft⟩ := hrun
        cases hleft
      | error e' => cases hrun
  · rintro (⟨e, rfl, hfail⟩ | ⟨mid, hfinish, hq⟩)
    · obtain ⟨passes, hrun⟩ := ends_iff_execute.1 hfail
      refine ends_iff_execute.2 ⟨passes, ?_⟩
      rw [execute_followedBy, (hrun : p.execute passes ctx = .failed e final)]
      rfl
    · obtain ⟨enough, hall⟩ := hq
      obtain ⟨passes, left, hrun, hleft⟩ := hfinish.spare enough
      refine ends_iff_execute.2 ⟨passes, ?_⟩
      rw [execute_followedBy, hrun]
      exact hall left hleft

end Program

/-! ## Texts -/

theorem compile_followedBy {a w b : String} {p q : Program} (hw : w ≠ "")
    (hgap : IsGap w.toList) (ha : compile a = .ok p) (hb : compile b = .ok q)
    (hjoin : firstKind? a = none ∨ firstKind? b ≠ some (.symbol .minus)) :
    compile (a ++ w ++ b) = .ok (p.followedBy q) := by
  obtain ⟨ts, la, htokensA, hderA⟩ := derives_of_compile ha
  obtain ⟨us, lb, htokensB, hderB⟩ := derives_of_compile hb
  obtain ⟨vs, line, htokens, hkinds⟩ := tokenize_append hw hgap htokensA htokensB
  rw [firstKind?_eq htokensA, firstKind?_eq htokensB] at hjoin
  refine compile_of_derives htokens ?_
  rw [List.map_append, hkinds]
  rcases hjoin with hnone | hminus
  · rw [List.head?_eq_none_iff.1 hnone] at hderA ⊢
    rw [hderA.eq_nil]
    exact hderB
  · exact (hderA.append (hderB.joinless hminus)).followed hderB

/-- A text behind another is compiled to the statements of both, if the first text has no tokens or
    the second one does not start with `-`. To execute them is to execute the statements of the
    first text and, if they succeed, then those of the second in the context that is left. -/
theorem compile_append {a w b : String} {p q : Program} (hw : w ≠ "") (hgap : IsGap w.toList)
    (ha : compile a = .ok p) (hb : compile b = .ok q)
    (hjoin : firstKind? a = none ∨ firstKind? b ≠ some (.symbol .minus)) :
    compile (a ++ w ++ b) = .ok ⟨p.statements ++ q.statements⟩ ∧
      (∀ passes ctx, Program.execute ⟨p.statements ++ q.statements⟩ passes ctx =
        (p.execute passes ctx).andThen fun mid left => q.execute left mid) ∧
      ∀ ctx result final, Program.Ends ⟨p.statements ++ q.statements⟩ ctx result final ↔
        (∃ e, result = .error e ∧ p.Ends ctx (.error e) final) ∨
          ∃ mid, p.Ends ctx (.ok ()) mid ∧ q.Ends mid result final :=
  ⟨compile_followedBy hw hgap ha hb hjoin, p.execute_followedBy q,
    fun _ _ _ => Program.ends_followedBy_iff⟩

/-- A text that reads and one that prints, on two lines. -/
theorem compile_append_lines :
    compile "baca x" = .ok ⟨[.input "x"]⟩ ∧ compile "tulis x" = .ok ⟨[.print (.variable "x")]⟩ ∧
      compile ("baca x" ++ "\n" ++ "tulis x") = .ok ⟨[.input "x", .print (.variable "x")]⟩ := by
  have hfirst : compile "baca x" = .ok ⟨[.input "x"]⟩ := by decide +kernel
  have hsecond : compile "tulis x" = .ok ⟨[.print (.variable "x")]⟩ := by decide +kernel
  have hgap : IsGap "\n".toList := List.forall_mem_singleton.2 rfl
  have hstart : firstKind? "tulis x" ≠ some (.symbol .minus) := by decide +kernel
  exact ⟨hfirst, hsecond, (compile_append (by decide) hgap hfirst hsecond (.inr hstart)).1⟩

end Naskah
