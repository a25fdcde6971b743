import Naskah.Proofs.Expr.Completeness
import Naskah.Proofs.Stmt.Soundness

/-
  What the grammar of statements derives is parsed. A derived text is given with all the kinds
  behind it, up to the end of the feed, and `Yields` says that a parser returns the tree and leaves
  exactly the kinds that the grammar leaves. The induction is on the derivation, with one statement
  for each part of the grammar (`Complete`).
-/

namespace Naskah

open Naskah.Expr (Reads)

namespace Stmt

/-! ## First tokens -/

/-- The token kinds with which a statement starts. -/
def Begins (k : Token.Kind) : Prop :=
  k ∈ [Token.Kind.keyword .ulangin, .keyword .kalo, .keyword .baca, .keyword .tulis,
    .keyword .selama] ∨ Expr.Starts .logical k

theorem Reads.begins {n : Nat} {ks rest : List Token.Kind} {e : Expr} (h : Reads n ks e rest) :
    ∃ k ms, ks = k :: ms ∧ Expr.Starts .logical k := by
  obtain ⟨ms, rfl, hwhole, -⟩ := h
  obtain ⟨k, ms, rfl, hk⟩ := hwhole.1.head
  exact ⟨k, ms ++ rest, rfl, hk⟩

theorem Target.begins {n : Nat} {ks : List Token.Kind} {x : String} (h : Target n ks x) :
    ∃ k ms, ks = k :: ms ∧ Expr.Starts .logical k :=
  h.whole.1.head

/-- A derived statement has a first token. -/
theorem Derives.begins {n : Nat} {ks rest : List Token.Kind} {s : Stmt}
    (h : Derives .statement n ks s rest) : ∃ k ms, ks = k :: ms ∧ Begins k := by
  cases h with
  | assign target =>
    obtain ⟨k, ms, rfl, hk⟩ := target.begins
    exact ⟨k, _, rfl, .inr hk⟩
  | expr value =>
    obtain ⟨k, ms, rfl, hk⟩ := Reads.begins value
    exact ⟨k, ms, rfl, .inr hk⟩
  | input | print | loop | count | cond => exact ⟨_, _, rfl, .inl (by decide)⟩

/-- The words that end a block. -/
def closers : List Token.Kind :=
  [.keyword .yaudah, .keyword .kalogak, .keyword .lainnya]

theorem Begins.not_itu {k : Token.Kind} (h : Begins k) : k ≠ .keyword .itu := by
  rintro rfl
  rcases h with h | h
  · exact absurd h (by decide)
  · exact h

theorem mem_closers {k : Token.Kind} :
    k ∈ closers ↔ k = .keyword .yaudah ∨ k = .keyword .kalogak ∨ k = .keyword .lainnya := by
  simp only [closers, List.mem_cons, List.not_mem_nil, or_false]

theorem Begins.not_closer {k : Token.Kind} (h : Begins k) : k ∉ closers := by
  rw [mem_closers]
  rintro (rfl | rfl | rfl) <;> rcases h with h | h <;> first | exact absurd h (by decide) | exact h

/-- The kinds go on with a word that ends a block. -/
def Closes (rest : List Token.Kind) : Prop :=
  ∃ k ∈ closers, ∃ ms, rest = k :: ms

theorem Closes.not_itu {rest : List Token.Kind} (h : Closes rest) :
    rest.head? ≠ some (.keyword .itu) := by
  obtain ⟨k, hk, ms, rfl⟩ := h
  intro heq
  rw [Option.some.inj heq] at hk
  exact absurd hk (by decide)

/-- No statement list starts with `itu`, if what follows the list does not. -/
theorem Derives.not_itu {n : Nat} {ks rest : List Token.Kind} {s : Stmt}
    (h : Derives .statements n ks s rest) (hrest : rest.head? ≠ some (.keyword .itu)) :
    ks.head? ≠ some (.keyword .itu) := by
  cases h with
  | nil => exact hrest
  | cons first _ =>
    obtain ⟨k, ms, rfl, hk⟩ := first.begins
    exact fun heq => hk.not_itu (Option.some.inj heq)

namespace Parse

/-! ## Parsers on derived texts -/

/-- A parser has returned `a`, and the kinds `rest` are left up to the end. -/
def Yields {α : Type} {n : Nat} (x : Except Error (Parsed α n)) (a : α) (rest : List Token.Kind)
    (line : Nat) : Prop :=
  ∃ r, x = .ok r ∧ r.value = a ∧ r.rest.Takes rest (.finish line)

theorem Reads.yields {n line : Nat} {ks rest : List Token.Kind} {e : Expr} {f : Feed}
    (h : Reads n ks e rest) (hf : f.Takes ks (.finish line)) :
    Yields (Expr.parse n f) e rest line := by
  obtain ⟨ms, rfl, hwhole, hstop⟩ := h
  obtain ⟨g, hms, hg⟩ := hf.split
  obtain ⟨hlt, hparse⟩ := Expr.parse_complete hwhole hms fun op => hg.head?_finish ▸ hstop op
  exact ⟨_, hparse, rfl, hg⟩

theorem expectKeyword_yields {k : Keyword} {line : Nat} {rest : List Token.Kind} {f : Feed}
    (hf : f.Takes (.keyword k :: rest) (.finish line)) :
    Yields (expectKeyword k f) () rest line := by
  obtain ⟨t, g, ht, rfl, hg⟩ := hf.uncons
  refine ⟨⟨_, g, Nat.lt_succ_self _⟩, ?_, rfl, hg⟩
  simp only [expectKeyword, expect, Feed.take?, ht, if_true]

theorem expectName_yields (wanted : Expectation) {x : String} {line : Nat}
    {rest : List Token.Kind} {f : Feed} (hf : f.Takes (.identifier x :: rest) (.finish line)) :
    Yields (expectName wanted f) x rest line := by
  obtain ⟨t, g, ht, rfl, hg⟩ := hf.uncons
  refine ⟨⟨_, g, Nat.lt_succ_self _⟩, ?_, rfl, hg⟩
  simp only [expectName, expect, Feed.take?, ht]

/-- The parser of the block gives `body` wherever a word that ends a block follows it. -/
def BlockYields (inner : Nested) (ks : List Token.Kind) (s : Stmt) (rest : List Token.Kind)
    (line : Nat) : Prop :=
  ∀ construct openedAt f, f.Takes ks (.finish line) →
    Yields (inner.block construct openedAt f) s rest line

variable {n line openedAt : Nat} {inner : Nested} {ks ms ls rest : List Token.Kind} {e : Expr}
  {yes no body : Stmt} {f : Feed}

theorem conditional_closed (htest : Reads n ks e ms)
    (hyes : BlockYields inner ms yes (.keyword .yaudah :: rest) line)
    (hf : f.Takes ks (.finish line)) :
    Yields (conditional n inner openedAt f) (.cond e yes .empty) rest line := by
  obtain ⟨⟨_, g₁, _⟩, hparse, rfl, hg₁⟩ := Reads.yields htest hf
  obtain ⟨⟨_, g₂, _⟩, hblock, rfl, hg₂⟩ := hyes .cond openedAt g₁ hg₁
  obtain ⟨⟨_, _⟩, g₃, rfl, rfl, hg₃⟩ := hg₂.uncons
  unfold Yields conditional
  simp only [hparse, hblock, Feed.take?]
  exact ⟨_, rfl, rfl, hg₃⟩

theorem conditional_lainnya (htest : Reads n ks e ms)
    (hyes : BlockYields inner ms yes (.keyword .lainnya :: ls) line)
    (hno : BlockYields inner ls no (.keyword .yaudah :: rest) line)
    (hf : f.Takes ks (.finish line)) :
    Yields (conditional n inner openedAt f) (.cond e yes no) rest line := by
  obtain ⟨⟨_, g₁, _⟩, hparse, rfl, hg₁⟩ := Reads.yields htest hf
  obtain ⟨⟨_, g₂, _⟩, hblock, rfl, hg₂⟩ := hyes .cond openedAt g₁ hg₁
  obtain ⟨⟨_, _⟩, g₃, rfl, rfl, hg₃⟩ := hg₂.uncons
  obtain ⟨⟨_, g₄, _⟩, hblock', rfl, hg₄⟩ := hno .cond openedAt g₃ hg₃
  obtain ⟨⟨_, g₅, _⟩, hclose, rfl, hg₅⟩ := expectKeyword_yields hg₄
  unfold Yields conditional
  simp only [hparse, hblock, Feed.take?, hblock', hclose]
  exact ⟨_, rfl, rfl, hg₅⟩

theorem conditional_kalogak (htest : Reads n ks e ms)
    (hyes : BlockYields inner ms yes (.keyword .kalogak :: ls) line)
    (hno : ∀ openedAt f, f.Takes ls (.finish line) → Yields (inner.link openedAt f) no rest line)
    (hf : f.Takes ks (.finish line)) :
    Yields (conditional n inner openedAt f) (.cond e yes no) rest line := by
  obtain ⟨⟨_, g₁, _⟩, hparse, rfl, hg₁⟩ := Reads.yields htest hf
  obtain ⟨⟨_, g₂, _⟩, hblock, rfl, hg₂⟩ := hyes .cond openedAt g₁ hg₁
  obtain ⟨⟨_, _⟩, g₃, rfl, rfl, hg₃⟩ := hg₂.uncons
  obtain ⟨⟨_, g₄, _⟩, hlink, rfl, hg₄⟩ := hno openedAt g₃ hg₃
  unfold Yields conditional
  simp only [hparse, hblock, Feed.take?, hlink]
  exact ⟨_, rfl, rfl, hg₄⟩

theorem counted_yields {x : String} {a b : Expr}
    (hfirst : Reads n ks a (.keyword .sampe :: ms)) (hlast : Reads n ms b ls)
    (hbody : BlockYields inner ls body (.keyword .yaudah :: rest) line)
    (hf : f.Takes (.identifier x :: .keyword .dari :: ks) (.finish line)) :
    Yields (counted n inner openedAt f) (.count x a b body) rest line := by
  obtain ⟨⟨_, g₁, _⟩, hname, rfl, hg₁⟩ := expectName_yields .loopVariable hf
  obtain ⟨⟨_, g₂, _⟩, hdari, rfl, hg₂⟩ := expectKeyword_yields hg₁
  obtain ⟨⟨_, g₃, _⟩, hparse, rfl, hg₃⟩ := Reads.yields hfirst hg₂
  obtain ⟨⟨_, g₄, _⟩, hsampe, rfl, hg₄⟩ := expectKeyword_yields hg₃
  obtain ⟨⟨_, g₅, _⟩, hparse', rfl, hg₅⟩ := Reads.yields hlast hg₄
  obtain ⟨⟨_, g₆, _⟩, hblock, rfl, hg₆⟩ := hbody .count openedAt g₅ hg₅
  obtain ⟨⟨_, g₇, _⟩, hclose, rfl, hg₇⟩ := expectKeyword_yields hg₆
  unfold Yields counted
  simp only [hname, hdari, hparse, hsampe, hparse', hblock, hclose]
  exact ⟨_, rfl, rfl, hg₇⟩

theorem repeated_yields (htest : Reads n ks e ms)
    (hbody : BlockYields inner ms body (.keyword .yaudah :: rest) line)
    (hf : f.Takes ks (.finish line)) :
    Yields (repeated n inner openedAt f) (.loop e body) rest line := by
  obtain ⟨⟨_, g₁, _⟩, hparse, rfl, hg₁⟩ := Reads.yields htest hf
  obtain ⟨⟨_, g₂, _⟩, hblock, rfl, hg₂⟩ := hbody .loop openedAt g₁ hg₁
  obtain ⟨⟨_, g₃, _⟩, hclose, rfl, hg₃⟩ := expectKeyword_yields hg₂
  unfold Yields repeated
  simp only [hparse, hblock, hclose]
  exact ⟨_, rfl, rfl, hg₃⟩

theorem inputTarget_yields {x : String} (hf : f.Takes (.identifier x :: rest) (.finish line)) :
    Yields (inputTarget f) (.input x) rest line := by
  obtain ⟨⟨_, g, _⟩, hname, rfl, hg⟩ := expectName_yields .inputTarget hf
  unfold Yields inputTarget
  simp only [hname]
  exact ⟨_, rfl, rfl, hg⟩

theorem printed_yields (hvalue : Reads n ks e rest) (hf : f.Takes ks (.finish line)) :
    Yields (printed n f) (.print e) rest line := by
  obtain ⟨⟨_, g, _⟩, hparse, rfl, hg⟩ := Reads.yields hvalue hf
  unfold Yields printed
  simp only [hparse]
  exact ⟨_, rfl, rfl, hg⟩

/-- Without `itu` behind it an expression is a statement of its own. -/
theorem assignmentOrExpr_expr (hvalue : Reads n ks e rest)
    (hitu : rest.head? ≠ some (.keyword .itu)) (hf : f.Takes ks (.finish line)) :
    Yields (assignmentOrExpr n f) (.expr e) rest line := by
  obtain ⟨⟨_, g, _⟩, hparse, rfl, hg⟩ := Reads.yields hvalue hf
  rw [hg.head?_finish] at hitu
  unfold Yields assignmentOrExpr
  simp only [hparse]
  split
  · next htake => exact absurd (Feed.take?_kind htake) hitu
  · exact ⟨_, rfl, rfl, hg⟩

theorem assignmentOrExpr_assign {x : String} (htarget : Target n ks x)
    (hvalue : Reads n ms e rest) (hf : f.Takes (ks ++ .keyword .itu :: ms) (.finish line)) :
    Yields (assignmentOrExpr n f) (.assign x e) rest line := by
  have hleft : Reads n (ks ++ .keyword .itu :: ms) (.variable x) (.keyword .itu :: ms) :=
    ⟨ks, rfl, htarget.whole, fun op h => by cases op <;> cases h⟩
  obtain ⟨⟨_, g₁, _⟩, hparse, rfl, hg₁⟩ := Reads.yields hleft hf
  obtain ⟨⟨_, _⟩, g₂, rfl, rfl, hg₂⟩ := hg₁.uncons
  obtain ⟨⟨_, g₃, _⟩, hparse', rfl, hg₃⟩ := Reads.yields hvalue hg₂
  unfold Yields assignmentOrExpr
  simp only [hparse, Feed.take?, hparse']
  exact ⟨_, rfl, rfl, hg₃⟩

/-- A statement that does not start with a word of its own starts with an expression. -/
theorem statement_of_starts {k : Token.Kind} (hk : Expr.Starts .logical k)
    (hf : f.current? = some k) : statement n inner f = assignmentOrExpr n f := by
  unfold statement
  split
  all_goals first
    | rfl
    | next htake =>
      rw [Feed.take?_kind htake] at hf
      cases hf
      exact absurd hk id

theorem behindWord_yields {N : Nat} {p : Parser Stmt} {s : Stmt} {g : { g : Feed // g.size < N }}
    (hp : Yields (p g.1) s rest line) : Yields (behindWord (.ok g) p) s rest line := by
  obtain ⟨⟨_, g', _⟩, hparse, rfl, hg'⟩ := hp
  unfold Yields behindWord
  simp only [hparse]
  exact ⟨_, rfl, rfl, hg'⟩

/-- The loop over the statements of a block leaves the word that ends the block. -/
theorem statements_nil {construct : Construct} (hrest : Closes rest)
    (hf : f.Takes rest (.finish line)) :
    Yields (statements (statement n inner) construct openedAt f) [] rest line := by
  obtain ⟨k, hk, ms, rfl⟩ := hrest
  have hstart : f.current? = some k := hf.head?_finish.symm
  unfold Yields
  rw [statements, hstart]
  rcases mem_closers.1 hk with rfl | rfl | rfl <;> exact ⟨_, rfl, rfl, hf⟩

theorem statements_cons {construct : Construct} {k : Token.Kind} {s : Stmt} {ss : List Stmt}
    (hk : k ∉ closers) (hfirst : Yields (statement n inner f) s ms line)
    (hf : f.Takes (k :: ks) (.finish line))
    (hmore : ∀ g, g.Takes ms (.finish line) →
      Yields (statements (statement n inner) construct openedAt g) ss rest line) :
    Yields (statements (statement n inner) construct openedAt f) (s :: ss) rest line := by
  obtain ⟨⟨_, g, _⟩, hone, rfl, hg⟩ := hfirst
  obtain ⟨⟨_, g', _⟩, hloop, rfl, hg'⟩ := hmore g hg
  have hstart : f.current? = some k := hf.head?_finish.symm
  rw [mem_closers, not_or, not_or] at hk
  obtain ⟨hyaudah, hkalogak, hlainnya⟩ := hk
  unfold Yields
  rw [statements, hstart]
  split
  · next h => cases h
  · next h => exact absurd (Option.some.inj h) hyaudah
  · next h => exact absurd (Option.some.inj h) hkalogak
  · next h => exact absurd (Option.some.inj h) hlainnya
  · simp only [hone, hloop]
    exact ⟨_, rfl, rfl, hg'⟩

end Parse

open Parse

/-- The parser of each part returns the tree and leaves `rest`. Statements and blocks have to be
    followed by what can follow them. -/
def Complete : Part → (n : Nat) → List Token.Kind → Stmt → (rest : List Token.Kind) →
    (line : Nat) → Prop
  | .statement, n, ks, s, rest, line =>
    rest.head? ≠ some (.keyword .itu) →
      ∀ f, f.Takes ks (.finish line) → Yields (Stmt.parse n f) s rest line
  | .conditional, n, ks, s, rest, line =>
    ∀ openedAt f, f.Takes ks (.finish line) →
      Yields (conditional n (nested n) openedAt f) s rest line
  | .block, n, ks, s, rest, line => Closes rest → BlockYields (nested n) ks s rest line
  | .statements, n, ks, s, rest, line =>
    Closes rest → ∃ ss, s = .block ss ∧ ∀ construct openedAt f, f.Takes ks (.finish line) →
      Yields (statements (Stmt.parse n) construct openedAt f) ss rest line

theorem closes_cons {w : Keyword} {ms : List Token.Kind} (h : .keyword w ∈ closers) :
    Closes (.keyword w :: ms) :=
  ⟨_, h, ms, rfl⟩

theorem Derives.complete {p : Part} {n : Nat} {ks rest : List Token.Kind} {s : Stmt}
    (h : Derives p n ks s rest) (line : Nat) : Complete p n ks s rest line := by
  induction h with
  | assign target value =>
    intro _ f hf
    obtain ⟨k, ms, rfl, hk⟩ := target.begins
    have hstart : f.current? = some k := hf.head?_finish.symm
    unfold Stmt.parse
    rw [statement_of_starts hk hstart]
    exact assignmentOrExpr_assign target value hf
  | expr value =>
    intro hitu f hf
    obtain ⟨k, ms, rfl, hk⟩ := Reads.begins value
    have hstart : f.current? = some k := hf.head?_finish.symm
    unfold Stmt.parse
    rw [statement_of_starts hk hstart]
    exact assignmentOrExpr_expr value hitu hf
  | input =>
    intro _ f hf
    obtain ⟨⟨_, _⟩, g, rfl, rfl, hg⟩ := hf.uncons
    exact behindWord_yields (inputTarget_yields hg)
  | print value =>
    intro _ f hf
    obtain ⟨⟨_, _⟩, g, rfl, rfl, hg⟩ := hf.uncons
    exact behindWord_yields (printed_yields value hg)
  | loop test _ ih =>
    intro _ f hf
    obtain ⟨⟨_, _⟩, g, rfl, rfl, hg⟩ := hf.uncons
    exact behindWord_yields (repeated_yields test (ih (closes_cons (by decide))) hg)
  | count first last _ ih =>
    intro _ f hf
    obtain ⟨⟨_, _⟩, g, rfl, rfl, hg⟩ := hf.uncons
    exact behindWord_yields (counted_yields first last (ih (closes_cons (by decide))) hg)
  | cond _ ih =>
    intro _ f hf
    obtain ⟨⟨_, openedAt⟩, g, rfl, rfl, hg⟩ := hf.uncons
    exact behindWord_yields (ih openedAt g hg)
  | closed test _ ih =>
    intro openedAt f hf
    exact conditional_closed test (ih (closes_cons (by decide))) hf
  | lainnya test _ _ ih ih' =>
    intro openedAt f hf
    exact conditional_lainnya test (ih (closes_cons (by decide)))
      (ih' (closes_cons (by decide))) hf
  | kalogak test _ _ ih ih' =>
    intro openedAt f hf
    exact conditional_kalogak test (ih (closes_cons (by decide))) ih' hf
  | block _ ih =>
    intro hrest construct openedAt f hf
    obtain ⟨ss, rfl, hloop⟩ := ih hrest
    obtain ⟨⟨_, g, _⟩, hparse, rfl, hg⟩ := hloop construct openedAt f hf
    unfold Stmt.parse at hparse
    unfold Yields nested
    simp only [hparse]
    exact ⟨_, rfl, rfl, hg⟩
  | nil =>
    intro hrest
    exact ⟨[], rfl, fun _ _ _ hf => statements_nil hrest hf⟩
  | cons first more ih ih' =>
    intro hrest
    obtain ⟨_, hss, hloop⟩ := ih' hrest
    cases hss
    obtain ⟨k, ms, rfl, hk⟩ := first.begins
    refine ⟨_, rfl, fun construct openedAt f hf => ?_⟩
    exact statements_cons hk.not_closer (ih (more.not_itu hrest.not_itu) f hf) hf
      (hloop construct openedAt)

/-- All the tokens of a feed are parsed, if they are derived as a statement list. -/
theorem parseAll_complete {ks : List Token.Kind} {ss : List Stmt} {f : Feed} {line : Nat}
    (h : Derives .statements maxNesting ks (.block ss) []) (hf : f.Takes ks (.finish line)) :
    Stmt.parseAll f = .ok ss := by
  induction ss generalizing ks f with
  | nil =>
    cases h
    cases hf
    rw [Stmt.parseAll]
    rfl
  | cons s ss ih =>
    cases h with
    | cons first more =>
      have hitu := more.not_itu (Option.some_ne_none _).symm
      obtain ⟨⟨_, g, _⟩, hone, rfl, hg⟩ := first.complete line hitu f hf
      have hmore := ih more hg
      obtain ⟨k, ms, rfl, -⟩ := first.begins
      have hstart : f.current? = some k := hf.head?_finish.symm
      rw [Stmt.parseAll, hstart]
      simp only [hone, hmore]

end Stmt

end Naskah
