import Naskah.Program
import Naskah.Proofs.Stmt.Completeness

/-
  A text compiles to a program exactly if its tokens are derived by the grammar as the statements
  of the program. All limits are part of the grammar: the nesting levels, the operators of an
  expression, the digits and points of a number, and that no expression stops in front of an
  operator.
-/

namespace Naskah

theorem derives_of_compile {source : String} {p : Program} (h : compile source = .ok p) :
    ∃ ts line, tokenize source = .ok (ts, line) ∧
      Stmt.Derives .statements maxNesting (ts.map Token.kind) (.block p.statements) [] := by
  unfold compile at h
  split at h
  · cases h
  · next f hf =>
    split at h
    · cases h
    · next ss hparse =>
      cases h
      obtain ⟨ks, line, hks, hder⟩ := Stmt.parseAll_sound (Feed.ofCursor_scanned _ hf) hparse
      obtain ⟨ts, hts, rfl⟩ := Feed.tokens_of_takes hks
      refine ⟨ts, line, ?_, hder⟩
      unfold tokenize
      rw [hf]
      exact hts

theorem compile_of_derives {source : String} {ts : List Token} {line : Nat} {ss : List Stmt}
    (htokens : tokenize source = .ok (ts, line))
    (hder : Stmt.Derives .statements maxNesting (ts.map Token.kind) (.block ss) []) :
    compile source = .ok ⟨ss⟩ := by
  unfold tokenize at htokens
  unfold compile
  match hf : Feed.ofSource source with
  | .error e =>
    rw [hf] at htokens
    cases htokens
  | .ok f =>
    rw [hf] at htokens
    have hparse := Stmt.parseAll_complete hder (Feed.takes_of_tokens htokens)
    simp only [hparse]

/-- The program of a text, if the text is scanned and its tokens are derived. -/
theorem compile_eq_ok_iff (source : String) (ss : List Stmt) :
    compile source = .ok ⟨ss⟩ ↔
      ∃ ts line, tokenize source = .ok (ts, line) ∧
        Stmt.Derives .statements maxNesting (ts.map Token.kind) (.block ss) [] := by
  constructor
  · intro h
    exact derives_of_compile h
  · rintro ⟨ts, line, htokens, hder⟩
    exact compile_of_derives htokens hder

end Naskah
