import Naskah.Proofs.Expr.Soundness
import Naskah.Proofs.Stmt.Grammar

/-
  What the parser of statements returns is derived by the grammar (`statement_sound`,
  `parseAll_sound`). The proof goes along the parser: from the parsers of blocks and links one
  nesting level deeper to those of statements, and by induction on the nesting levels that are
  left.
-/

namespace Naskah

open Naskah.Expr (Reads)

namespace Stmt.Parse

/-- What a parser has returned from a feed is derived from the tokens taken, whatever kinds follow
    them, if only the first of these is that of the feed that is left. -/
def Returned (D : List Token.Kind → Stmt → List Token.Kind → Prop) (f : Feed) {n : Nat}
    (r : Parsed Stmt n) : Prop :=
  ∃ ks, f.Takes ks r.rest ∧ ∀ rest, rest.head? = r.rest.current? → D (ks ++ rest) r.value rest

theorem parse_reads {n : Nat} {f : Feed} {r : Parsed Expr f.size} (hf : f.Scanned)
    (h : Expr.parse n f = .ok r) :
    ∃ ks, f.Takes ks r.rest ∧
      ∀ rest, rest.head? = r.rest.current? → Reads n (ks ++ rest) r.value rest := by
  obtain ⟨ks, hks, hwhole, hstop⟩ := Expr.parse_sound hf h
  exact ⟨ks, hks, fun rest hr => ⟨ks, rfl, hwhole, fun op => hr ▸ hstop op⟩⟩

/-- The invariant of the parsers one nesting level deeper. -/
structure NestedSound (inner : Nested) (n : Nat) : Prop where
  block {construct : Construct} {openedAt : Nat} {f : Feed} {r : Parsed Stmt (f.size + 1)}
    (hf : f.Scanned) (h : inner.block construct openedAt f = .ok r) :
    Returned (Derives .block n) f r
  link {openedAt : Nat} {f : Feed} {r : Parsed Stmt f.size} (hf : f.Scanned)
    (h : inner.link openedAt f = .ok r) :
    ∃ m, n = m + 1 ∧ Returned (Derives .conditional m) f r

variable {n : Nat} {inner : Nested}

/-- A conditional goes on, behind its first branch, with a link, a second branch or the end. -/
theorem conditional_eq_ok {openedAt : Nat} {f : Feed} {r : Parsed Stmt f.size}
    (h : conditional n inner openedAt f = .ok r) :
    ∃ test yes, Expr.parse n f = .ok test ∧ inner.block .cond openedAt test.rest = .ok yes ∧
      ((∃ g no, yes.rest.Takes [.keyword .kalogak] g ∧ inner.link openedAt g = .ok no ∧
          r.rest = no.rest ∧ r.value = .cond test.value yes.value no.value) ∨
        (∃ g no, yes.rest.Takes [.keyword .lainnya] g ∧ inner.block .cond openedAt g = .ok no ∧
          no.rest.Takes [.keyword .yaudah] r.rest ∧
          r.value = .cond test.value yes.value no.value) ∨
        (yes.rest.Takes [.keyword .yaudah] r.rest ∧
          r.value = .cond test.value yes.value .empty)) := by
  unfold conditional at h
  split at h
  · cases h
  · next test htest =>
    split at h
    · cases h
    · next yes hyes =>
      refine ⟨test, yes, htest, hyes, ?_⟩
      split at h
      · cases h
      · next t next htake =>
        split at h
        · cases h
        · cases h
        · cases h
        · next behind hk =>
          have htok := Feed.take?_takes htake
          rw [hk] at htok
          split at h
          · cases h
          · next no hno =>
            cases h
            exact .inl ⟨behind.1, no, htok, hno, rfl, rfl⟩
        · next behind hk =>
          have htok := Feed.take?_takes htake
          rw [hk] at htok
          split at h
          · cases h
          · next no hno =>
            split at h
            · cases h
            · next close hclose =>
              cases h
              exact .inr (.inl ⟨behind.1, no, htok, hno, expectKeyword_takes hclose, rfl⟩)
        · next behind hk =>
          have htok := Feed.take?_takes htake
          rw [hk] at htok
          cases h
          exact .inr (.inr ⟨htok, rfl⟩)
        · cases h

theorem conditional_sound (hi : NestedSound inner n) {openedAt : Nat} {f : Feed}
    {r : Parsed Stmt f.size} (hf : f.Scanned) (h : conditional n inner openedAt f = .ok r) :
    Returned (Derives .conditional n) f r := by
  obtain ⟨test, yes, htest, hyes, hcases⟩ := conditional_eq_ok h
  obtain ⟨ks, hks, hreads⟩ := parse_reads hf htest
  have hf₁ := hks.scanned hf
  obtain ⟨ms, hms, hblock⟩ := hi.block hf₁ hyes
  have hf₂ := hms.scanned hf₁
  obtain ⟨g, no, htok, hno, hrest, hvalue⟩ | ⟨g, no, htok, hno, hend, hvalue⟩ | ⟨htok, hvalue⟩ :=
    hcases
  · obtain ⟨m, rfl, ls, hls, hlink⟩ := hi.link (htok.scanned hf₂) hno
    rw [Returned, hvalue, hrest]
    refine ⟨ks ++ (ms ++ (.keyword .kalogak :: ls)), hks.append (hms.append (htok.append hls)),
      fun rest hr => ?_⟩
    have h₃ := htok.head? (hls.head? hr)
    rw [List.append_assoc, List.append_assoc]
    exact .kalogak (hreads _ (hms.head? h₃)) (hblock _ h₃) (hlink rest hr)
  · obtain ⟨ls, hls, hotherwise⟩ := hi.block (htok.scanned hf₂) hno
    rw [Returned, hvalue]
    refine ⟨ks ++ (ms ++ ([.keyword .lainnya] ++ (ls ++ [.keyword .yaudah]))),
      hks.append (hms.append (htok.append (hls.append hend))), fun rest hr => ?_⟩
    have h₄ := hend.head? hr
    have h₃ := htok.head? (hls.head? h₄)
    simp only [List.append_assoc, List.cons_append, List.nil_append] at h₃ h₄ ⊢
    exact .lainnya (hreads _ (hms.head? h₃)) (hblock _ h₃) (hotherwise _ h₄)
  · rw [Returned, hvalue]
    refine ⟨ks ++ (ms ++ [.keyword .yaudah]), hks.append (hms.append htok), fun rest hr => ?_⟩
    have h₃ := htok.head? hr
    rw [List.append_assoc, List.append_assoc]
    exact .closed (hreads _ (hms.head? h₃)) (hblock _ h₃)

theorem counted_sound (hi : NestedSound inner n) {openedAt : Nat} {f : Feed}
    {r : Parsed Stmt f.size} (hf : f.Scanned) (h : counted n inner openedAt f = .ok r) :
    Returned (fun ks => Derives .statement n (.keyword .ulangin :: ks)) f r := by
  unfold counted at h
  split at h
  · cases h
  · next counter hcounter =>
    have hname := expectName_takes hcounter
    have hf₁ := hname.scanned hf
    split at h
    · cases h
    · next start hstart =>
      have hdari := expectKeyword_takes hstart
      have hf₂ := hdari.scanned hf₁
      split at h
      · cases h
      · next first hfirst =>
        obtain ⟨ks, hks, hreads⟩ := parse_reads hf₂ hfirst
        have hf₃ := hks.scanned hf₂
        split at h
        · cases h
        · next stop hstop =>
          have hsampe := expectKeyword_takes hstop
          have hf₄ := hsampe.scanned hf₃
          split at h
          · cases h
          · next last hlast =>
            obtain ⟨ms, hms, hreads'⟩ := parse_reads hf₄ hlast
            have hf₅ := hms.scanned hf₄
            split at h
            · cases h
            · next body hbody =>
              obtain ⟨ls, hls, hblock⟩ := hi.block hf₅ hbody
              split at h
              · cases h
              · next close hclose =>
                have hend := expectKeyword_takes hclose
                cases h
                refine ⟨[.identifier counter.value] ++ ([.keyword .dari] ++ (ks ++
                  ([.keyword .sampe] ++ (ms ++ (ls ++ [.keyword .yaudah]))))),
                  hname.append (hdari.append (hks.append (hsampe.append
                    (hms.append (hls.append hend))))), fun rest hr => ?_⟩
                have h₆ := hend.head? hr
                have h₅ := hls.head? h₆
                have h₃ := hsampe.head? (hms.head? h₅)
                simp only [List.append_assoc, List.cons_append, List.nil_append] at h₃ h₅ h₆ ⊢
                exact .count (hreads _ h₃) (hreads' _ h₅) (hblock _ h₆)

theorem repeated_sound (hi : NestedSound inner n) {openedAt : Nat} {f : Feed}
    {r : Parsed Stmt f.size} (hf : f.Scanned) (h : repeated n inner openedAt f = .ok r) :
    Returned (fun ks => Derives .statement n (.keyword .selama :: ks)) f r := by
  unfold repeated at h
  split at h
  · cases h
  · next test htest =>
    obtain ⟨ks, hks, hreads⟩ := parse_reads hf htest
    have hf₁ := hks.scanned hf
    split at h
    · cases h
    · next body hbody =>
      obtain ⟨ms, hms, hblock⟩ := hi.block hf₁ hbody
      split at h
      · cases h
      · next close hclose =>
        have hend := expectKeyword_takes hclose
        cases h
        refine ⟨ks ++ (ms ++ [.keyword .yaudah]), hks.append (hms.append hend),
          fun rest hr => ?_⟩
        have h₂ := hend.head? hr
        rw [List.append_assoc, List.append_assoc]
        exact .loop (hreads _ (hms.head? h₂)) (hblock _ h₂)

theorem inputTarget_sound {f : Feed} {r : Parsed Stmt f.size} (h : inputTarget f = .ok r) :
    Returned (fun ks => Derives .statement n (.keyword .baca :: ks)) f r := by
  unfold inputTarget at h
  split at h
  · cases h
  · next target htarget =>
    cases h
    exact ⟨_, expectName_takes htarget, fun rest _ => .input⟩

theorem printed_sound {f : Feed} {r : Parsed Stmt f.size} (hf : f.Scanned)
    (h : printed n f = .ok r) :
    Returned (fun ks => Derives .statement n (.keyword .tulis :: ks)) f r := by
  unfold printed at h
  split at h
  · cases h
  · next value hvalue =>
    obtain ⟨ks, hks, hreads⟩ := parse_reads hf hvalue
    cases h
    exact ⟨ks, hks, fun rest hr => .print (hreads rest hr)⟩

theorem assignmentOrExpr_sound {f : Feed} {r : Parsed Stmt f.size} (hf : f.Scanned)
    (h : assignmentOrExpr n f = .ok r) : Returned (Derives .statement n) f r := by
  unfold assignmentOrExpr at h
  split at h
  · cases h
  · next left hleft =>
    obtain ⟨ks, hks, hwhole, hstop⟩ := Expr.parse_sound hf hleft
    have hf₁ := hks.scanned hf
    split at h
    · next line next htake =>
      split at h
      · cases h
      · next target behind hvar =>
        have htok := Feed.take?_takes htake
        rw [hvar] at hwhole
        split at h
        · cases h
        · next value hvalue =>
          obtain ⟨ms, hms, hreads⟩ := parse_reads (htok.scanned hf₁) hvalue
          cases h
          refine ⟨ks ++ (.keyword .itu :: ms), hks.append (htok.append hms), fun rest hr => ?_⟩
          rw [List.append_assoc, List.cons_append]
          exact .assign (target_of_derives hwhole.1) (hreads rest hr)
      · cases h
    · cases h
      exact ⟨ks, hks, fun rest hr => .expr ⟨ks, rfl, hwhole, fun op => hr ▸ hstop op⟩⟩

theorem behindWord_eq_ok {N : Nat} {next : Except LexError { rest : Feed // rest.size < N }}
    {p : Parser Stmt} {r : Parsed Stmt N} (h : behindWord next p = .ok r) :
    ∃ behind s, next = .ok behind ∧ p behind.1 = .ok s ∧ r.value = s.value ∧ r.rest = s.rest := by
  unfold behindWord at h
  split at h
  · cases h
  · next behind =>
    split at h
    · cases h
    · next s hs =>
      cases h
      exact ⟨behind, s, rfl, hs, rfl, rfl⟩

/-- What follows the first word of a statement decides together with it. -/
theorem behindWord_sound {D : List Token.Kind → Stmt → List Token.Kind → Prop} {w : Keyword}
    {line : Nat} {f : Feed} {next : Except LexError { rest : Feed // rest.size < f.size }}
    {p : Parser Stmt} {r : Parsed Stmt f.size} (hf : f.Scanned)
    (htake : f.take? = some (⟨.keyword w, line⟩, next)) (h : behindWord next p = .ok r)
    (hp : ∀ (g : Feed) (s : Parsed Stmt g.size), g.Scanned → p g = .ok s →
      Returned (fun ks => D (.keyword w :: ks)) g s) : Returned D f r := by
  obtain ⟨behind, s, rfl, hs, hvalue, hrest⟩ := behindWord_eq_ok h
  have htok := Feed.take?_takes htake
  obtain ⟨ks, hks, hder⟩ := hp behind.1 s (htok.scanned hf) hs
  rw [Returned, hvalue, hrest]
  exact ⟨.keyword w :: ks, htok.append hks, hder⟩

theorem statement_sound (hi : NestedSound inner n) {f : Feed} {r : Parsed Stmt f.size}
    (hf : f.Scanned) (h : statement n inner f = .ok r) : Returned (Derives .statement n) f r := by
  unfold statement at h
  split at h
  · next line next htake =>
    exact behindWord_sound hf htake h fun _ _ hg hs => counted_sound hi hg hs
  · next line next htake =>
    refine behindWord_sound hf htake h fun _ _ hg hs => ?_
    obtain ⟨ks, hks, hder⟩ := conditional_sound hi hg hs
    exact ⟨ks, hks, fun rest hr => .cond (hder rest hr)⟩
  · next line next htake =>
    exact behindWord_sound hf htake h fun _ _ _ hs => inputTarget_sound hs
  · next line next htake =>
    exact behindWord_sound hf htake h fun _ _ hg hs => printed_sound hg hs
  · next line next htake =>
    exact behindWord_sound hf htake h fun _ _ hg hs => repeated_sound hi hg hs
  · exact assignmentOrExpr_sound hf h

/-- The loop over the statements of a block. The induction is on its rounds. -/
theorem statements_sound (hi : NestedSound inner n) {construct : Construct} {openedAt : Nat}
    {f : Feed} (hf : f.Scanned) {r : Parsed (List Stmt) (f.size + 1)}
    (h : statements (statement n inner) construct openedAt f = .ok r) :
    ∃ ks, f.Takes ks r.rest ∧ ∀ rest, rest.head? = r.rest.current? →
      Derives .statements n (ks ++ rest) (.block r.value) rest := by
  induction f using statements.induct (statement n inner) construct openedAt with
  | case1 f hc =>
    rw [statements, hc] at h
    cases h
  | case2 f hc | case3 f hc | case4 f hc =>
    rw [statements, hc] at h
    cases h
    exact ⟨[], .nil, fun rest _ => .nil⟩
  | case5 f k h₁ h₂ h₃ hc e hone =>
    rw [statements, hc] at h
    simp only [hone] at h
    cases h
  | case6 f k h₁ h₂ h₃ hc first hone e hmore =>
    rw [statements, hc] at h
    simp only [hone, hmore] at h
    cases h
  | case7 f k h₁ h₂ h₃ hc first hone more hmore ih =>
    rw [statements, hc] at h
    simp only [hone, hmore] at h
    cases h
    obtain ⟨ks, hks, hfirst⟩ := statement_sound hi hf hone
    obtain ⟨ms, hms, hrest⟩ := ih (hks.scanned hf) hmore
    refine ⟨ks ++ ms, hks.append hms, fun rest hr => ?_⟩
    rw [List.append_assoc]
    exact .cons (hfirst _ (hms.head? hr)) (hrest rest hr)

/-- The parsers of each nesting level are sound. The induction is on the levels left. -/
theorem nested_sound (n : Nat) : NestedSound (nested n) n := by
  induction n with
  | zero =>
    refine ⟨fun _ h => ?_, fun _ h => ?_⟩
    · cases h
    · cases h
  | succ n ih =>
    refine ⟨fun {construct openedAt f r} hf h => ?_, fun {openedAt f r} hf h => ?_⟩
    · unfold nested at h
      dsimp only at h
      split at h
      · cases h
      · next body hbody =>
        obtain ⟨ks, hks, hder⟩ := statements_sound ih hf hbody
        cases h
        exact ⟨ks, hks, fun rest hr => .block (hder rest hr)⟩
    · exact ⟨n, rfl, conditional_sound ih hf h⟩

end Stmt.Parse

open Stmt.Parse in
/-- What `Stmt.parse` returns is a statement that cannot be longer. -/
theorem Stmt.parse_sound {n : Nat} {f : Feed} {r : Parsed Stmt f.size} (hf : f.Scanned)
    (h : Stmt.parse n f = .ok r) : Returned (Derives .statement n) f r :=
  statement_sound (nested_sound n) hf h

/-- The statements that `Stmt.parseAll` returns are derived from all the tokens of the feed. -/
theorem Stmt.parseAll_sound {f : Feed} {ss : List Stmt} (hf : f.Scanned)
    (h : Stmt.parseAll f = .ok ss) :
    ∃ ks line, f.Takes ks (.finish line) ∧ Derives .statements maxNesting ks (.block ss) [] := by
  induction f using Stmt.parseAll.induct generalizing ss with
  | case1 f hc =>
    rw [Stmt.parseAll, hc] at h
    cases h
    obtain ⟨line, rfl⟩ := Feed.exists_finish hc
    exact ⟨[], line, .nil, .nil⟩
  | case2 f k hc e hone =>
    rw [Stmt.parseAll, hc] at h
    simp only [hone] at h
    cases h
  | case3 f k hc first hone e hmore =>
    rw [Stmt.parseAll, hc] at h
    simp only [hone, hmore] at h
    cases h
  | case4 f k hc first hone more hmore ih =>
    rw [Stmt.parseAll, hc] at h
    simp only [hone, hmore] at h
    cases h
    obtain ⟨ks, hks, hfirst⟩ := Stmt.parse_sound hf hone
    obtain ⟨ms, line, hms, hrest⟩ := ih (hks.scanned hf) hmore
    exact ⟨ks ++ ms, line, hks.append hms, .cons (hfirst ms (hms.head?_finish)) hrest⟩

end Naskah
