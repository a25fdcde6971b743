import Naskah.Proofs.Program.Exact
import Naskah.Proofs.Stmt.Reading

/-
  A text is scanned no further than it is parsed. It makes no difference to what is accepted, and
  only this to what is complained about: where the text has an error of scanning, a complaint about
  a token in front of it may come first.
-/

namespace Naskah

open Reading

namespace Feed

/-- A feed without an error is that of its tokens. -/
theorem eq_ofTokens {f : Feed} {ts : List Token} {line : Nat} (h : f.tokens = .ok (ts, line)) :
    f = ofTokens ts line := by
  induction f generalizing ts with
  | finish l =>
    cases h
    rfl
  | token t rest ih =>
    rw [tokens] at h
    rcases hr : rest.tokens with e | ⟨us, l⟩
    · rw [hr] at h
      cases h
    · rw [hr] at h
      cases h
      exact congrArg (token t) (ih hr)
  | faulty t e => cases h

theorem tokens_of_scanned {f : Feed} {ss : List Stmt} (hf : f.Scanned)
    (h : Stmt.parseAll f = .ok ss) : f.Complete := by
  obtain ⟨ks, line, hks, -⟩ := Stmt.parseAll_sound hf h
  exact hks.complete (complete_finish line)

end Feed

theorem compile_eq_parseAll {source : String} {f : Feed} (h : Feed.ofSource source = .ok f) :
    compile source = (Stmt.parseAll f).map Program.mk := by
  unfold compile
  rw [h]
  dsimp only
  cases Stmt.parseAll f <;> rfl

theorem compile_eq_ok {source : String} {p : Program} (h : compile source = .ok p) :
    ∃ f, Feed.ofSource source = .ok f ∧ Stmt.parseAll f = .ok p.statements := by
  unfold compile at h
  split at h
  · cases h
  · next f hsource =>
    split at h
    · cases h
    · next ss hparse =>
      cases h
      exact ⟨f, hsource, hparse⟩

/-- A text is refused where it is scanned first, or where it is parsed. -/
theorem compile_eq_error {source : String} {e : Error} (h : compile source = .error e) :
    (∃ le, Feed.ofSource source = .error le ∧ e = .lexical le) ∨
      ∃ f, Feed.ofSource source = .ok f ∧ Stmt.parseAll f = .error e := by
  unfold compile at h
  split at h
  · next le hsource =>
    cases h
    exact .inl ⟨le, hsource, rfl⟩
  · next f hsource =>
    split at h
    · next e' hparse =>
      cases h
      exact .inr ⟨f, hsource, hparse⟩
    · cases h

theorem tokenize_eq_tokens {source : String} {f : Feed} (h : Feed.ofSource source = .ok f) :
    tokenize source = f.tokens := by
  unfold tokenize
  rw [h]
  rfl

/-- The feed of a text without an error is that of its tokens. -/
theorem ofSource_eq_ofTokens {source : String} {ts : List Token} {line : Nat}
    (h : tokenize source = .ok (ts, line)) :
    Feed.ofSource source = .ok (Feed.ofTokens ts line) := by
  unfold tokenize at h
  cases hsource : Feed.ofSource source with
  | error e =>
    rw [hsource] at h
    cases h
  | ok f =>
    rw [hsource] at h
    rw [Feed.eq_ofTokens h]

/-- Where the text has an error of scanning, the program is refused with it, or with a complaint
    that is not about the end of the text. Where it has none, no such error is met, and what is
    parsed is the list of all tokens. -/
theorem compile_of_tokenize (source : String) :
    match tokenize source with
    | .error e =>
      compile source = .error (.lexical e) ∨
        ∃ pe : ParseError, compile source = .error (.structural pe) ∧ ¬ pe.AtEnd
    | .ok (ts, line) =>
      (∀ e, compile source ≠ .error (.lexical e)) ∧
        compile source = (Stmt.parseAll (Feed.ofTokens ts line)).map Program.mk := by
  cases hsource : Feed.ofSource source with
  | error e =>
    have htokens : tokenize source = .error e := by
      unfold tokenize
      rw [hsource]
      rfl
    have hcompile : compile source = .error (.lexical e) := by
      unfold compile
      rw [hsource]
    rw [htokens]
    exact .inl hcompile
  | ok f =>
    rw [tokenize_eq_tokens hsource, compile_eq_parseAll hsource]
    cases htokens : f.tokens with
    | error e =>
      have hincomplete := Feed.not_complete htokens
      dsimp only
      cases hparse : Stmt.parseAll f with
      | ok ss =>
        exact absurd (Feed.tokens_of_scanned (Feed.ofCursor_scanned _ hsource) hparse) hincomplete
      | error pe =>
        have htrue := Stmt.parseAll_truthful hparse
        cases pe with
        | lexical e' =>
          rw [Truthful, htokens] at htrue
          cases htrue
          exact .inl rfl
        | structural pe => exact .inr ⟨pe, rfl, fun hend => hincomplete (htrue.2 hend)⟩
        | runtime e' => exact htrue.elim
    | ok r =>
      obtain ⟨ts, line⟩ := r
      dsimp only
      refine ⟨fun e hlexical => ?_, by rw [← Feed.eq_ofTokens htokens]⟩
      cases hparse : Stmt.parseAll f with
      | ok ss =>
        rw [hparse] at hlexical
        cases hlexical
      | error pe =>
        have htrue := Stmt.parseAll_truthful hparse
        rw [hparse] at hlexical
        cases hlexical
        rw [Truthful, htokens] at htrue
        cases htrue

end Naskah
