import Naskah.Proofs.Program.Lazy
import Naskah.Proofs.Token.Extension

/-
  Incomplete texts and invalid ones. A text that is refused may begin a text that is accepted, but
  only if it is refused for its end: it ends inside a string, inside a statement or inside a block
  (`compile_incomplete`).
-/

namespace Naskah

open Reading Stmt.Parse

/-- The text is refused for its end: it comes inside a string, a statement or a block. -/
def Error.Unfinished : Error → Prop
  | .lexical (.unclosedString _) => True
  | .structural e => e.AtEnd
  | _ => False

/-- Every one of the tokens is passed when they are parsed: if there was an error of scanning right
    behind one of them, it would be met. -/
def Stmt.PassesAll (ts : List Token) : Prop :=
  ∀ us t vs e, ts = us ++ t :: vs →
    Stmt.parseAll (us.foldr Feed.token (.faulty t e)) = .error (.lexical e)

theorem Stmt.all_foretells {f g : Feed} (h : f.BreaksOff g) : Foretells f (all f) (all g) := by
  have hall : Parallel id (fun _ => True) false all all := all_parallel
  exact hall.foretells h

/-! ## Texts without an error of scanning -/

namespace Feed

theorem breaksOff_faulty (us vs : List Token) (t : Token) (e : LexError) (line : Nat) :
    (us.foldr token (faulty t e)).BreaksOff (ofTokens (us ++ t :: vs) line) := by
  induction us with
  | nil => exact .faulty
  | cons u us ih => exact .token ih

end Feed

/-- A complaint about the end of the text is made there, behind all tokens. -/
theorem Stmt.passesAll_of_atEnd {ts : List Token} {line : Nat} {pe : ParseError}
    (h : Stmt.parseAll (Feed.ofTokens ts line) = .error (.structural pe)) (hend : pe.AtEnd) :
    Stmt.PassesAll ts := by
  rintro us t vs e rfl
  have htokens : (us.foldr Feed.token (.faulty t e)).tokens = .error e := by
    rw [Feed.tokens_foldr]
    rfl
  have hall : Parallel id (fun _ => True) false all all := all_parallel
  exact Stmt.parseAll_of_all
    (hall.meets (Feed.breaksOff_faulty us vs t e line) htokens hend (Stmt.all_of_parseAll h))

theorem Token.Kind.describe_ne_endOfInput (k : Token.Kind) : k.describe ≠ Token.endOfInput := by
  intro h
  have hhead := congrArg (fun s : String => s.toList.head?) h
  cases k with
  | symbol s => cases s <;> revert hhead <;> decide
  | keyword k => cases k <;> revert hhead <;> decide
  | number text => simp [describe, endOfInput, toString] at hhead
  | string content => simp [describe, endOfInput, toString] at hhead
  | identifier name => simp [describe, endOfInput, toString] at hhead

theorem Found.describe_ne_endOfInput (found : Found) : found.describe ≠ Token.endOfInput := by
  cases found with
  | token kind => exact kind.describe_ne_endOfInput
  | expression => decide

/-! ## Texts that go on -/

theorem compile_unfinished {a w b : String} {p : Program} {e : Error} (hw : w ≠ "")
    (hgap : IsGap w.toList) (hwhole : compile (a ++ w ++ b) = .ok p)
    (h : compile a = .error e) : e.Unfinished := by
  obtain ⟨g, hg, hparse⟩ := compile_eq_ok hwhole
  have hcomplete := Feed.tokens_of_scanned (Feed.ofCursor_scanned _ hg) hparse
  rcases compile_eq_error h with ⟨le, ha, rfl⟩ | ⟨f, ha, hrefused⟩
  · rcases Feed.ofSource_breaksOff hw hgap hg hcomplete with ⟨line, ha'⟩ | ⟨f, ha', -⟩
    · rw [ha] at ha'
      cases ha'
      trivial
    · rw [ha] at ha'
      cases ha'
  · rcases Feed.ofSource_breaksOff hw hgap hg hcomplete with ⟨line, ha'⟩ | ⟨f', ha', hbreaks, hlex⟩
    · rw [ha] at ha'
      cases ha'
    · rw [ha] at ha'
      cases ha'
      have htrue := Stmt.parseAll_truthful hrefused
      have hforetells := Stmt.all_foretells hbreaks
      rw [Stmt.all_of_parseAll hrefused] at hforetells
      have haccepted : ∀ e', all g ≠ .error e' := by
        intro e' he'
        rw [Stmt.parseAll_of_all he'] at hparse
        cases hparse
      rcases hforetells with hincomplete | hrefused' | ⟨-, e', he'⟩
      · cases e with
        | lexical le =>
          obtain ⟨line, rfl⟩ := hlex le htrue
          trivial
        | structural pe => exact hincomplete
        | runtime e => exact hincomplete
      · exact absurd hrefused' (haccepted e)
      · exact absurd he' (haccepted e')

/-- A text that begins an accepted one, cut off at a separator, is refused only for its end. A
    complaint about the end of the text is made only if the text is scanned to its end and all
    tokens are passed, and what a complaint names as found is never the end. -/
theorem compile_incomplete (a : String) :
    (∀ w b p e, w ≠ "" → IsGap w.toList → compile (a ++ w ++ b) = .ok p →
      compile a = .error e → e.Unfinished) ∧
    (∀ pe : ParseError, compile a = .error (.structural pe) → pe.AtEnd →
      ∃ ts line, tokenize a = .ok (ts, line) ∧ Stmt.PassesAll ts) ∧
    (∀ expected found line, compile a = .error (.structural (.unexpected expected found line)) →
      found.describe ≠ Token.endOfInput) := by
  refine ⟨fun w b p e hw hgap hwhole h => compile_unfinished hw hgap hwhole h,
    fun pe h hend => ?_, fun _ found _ _ => found.describe_ne_endOfInput⟩
  rcases compile_eq_error h with ⟨le, -, hle⟩ | ⟨f, hsource, hparse⟩
  · cases hle
  · obtain ⟨-, hcomplete⟩ := Stmt.parseAll_truthful hparse
    obtain ⟨ts, line, htokens⟩ := hcomplete hend
    rw [Feed.eq_ofTokens htokens] at hparse
    exact ⟨ts, line, (tokenize_eq_tokens hsource).trans htokens,
      Stmt.passesAll_of_atEnd hparse hend⟩

/-- An open block is closed by text behind it. -/
theorem compile_incomplete_open :
    compile ("kalo x" ++ " " ++ "yaudah") = .ok ⟨[.cond (.variable "x") (.block []) .empty]⟩ ∧
      compile "kalo x" = .error (.structural (.missingTerminator .cond 1)) ∧
      (Error.structural (.missingTerminator .cond 1)).Unfinished := by
  have hwhole : compile ("kalo x" ++ " " ++ "yaudah") =
      .ok ⟨[.cond (.variable "x") (.block []) .empty]⟩ := by decide +kernel
  have hopen : compile "kalo x" = .error (.structural (.missingTerminator .cond 1)) := by
    decide +kernel
  exact ⟨hwhole, hopen,
    (compile_incomplete "kalo x").1 _ _ _ _ (by decide) isGap_space hwhole hopen⟩

end Naskah
