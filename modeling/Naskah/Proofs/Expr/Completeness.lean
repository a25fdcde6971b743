import Naskah.Proofs.Expr.Soundness

/-
  What the grammar of expressions derives is parsed. `Complete p D l` says that the parser `p`
  takes every text that `D` derives and returns its tree, wherever the feed behind it goes on with
  no operator of the level `l` or a tighter one. The parser of every level is complete for its
  level of the grammar (`atLevel_complete`), and `Expr.parse` for whole expressions
  (`parse_complete`).
-/

namespace Naskah

open Naskah.Expr (Level)

namespace Expr.Parse

theorem StopsAt.mono {l m : Level} {f : Feed} (hm : m.rank ≤ l.rank) (h : StopsAt l f) :
    StopsAt m f :=
  fun op hr => h op (Nat.le_trans hr hm)

/-- In front of an operator every tighter level stops. -/
theorem stopsAt_token {m : Level} {op : BinaryOp} {t : Token} {f : Feed} (ht : t.kind = op.kind)
    (hm : m.rank < op.level.rank) : StopsAt m (.token t f) := by
  intro op' hr hk
  have hkind : t.kind = op'.kind := Option.some.inj hk
  rw [BinaryOp.kind_injective (hkind.symm.trans ht)] at hr
  exact Nat.not_le_of_lt hm hr

theorem StopsAt.table {l : Level} {op? : Token.Kind → Option BinaryOp} {f : Feed}
    (ht : Lists op? l) (h : StopsAt l f) : f.current?.bind op? = none := by
  match hk : f.current? with
  | none => rfl
  | some k =>
    rw [Option.bind_some]
    match hop : op? k with
    | none => rfl
    | some op =>
      obtain ⟨rfl, rfl⟩ := (ht _ _).1 hop
      exact absurd hk (h op (Nat.le_refl _))

/-- The parser returns the tree `e` and leaves the feed `g`. -/
def Returns (p : OperandParser) (f : Feed) (used : Nat) (e : Expr) (used' : Nat) (g : Feed) :
    Prop :=
  ∃ h, p f used = .ok ⟨e, used', g, h⟩

def Complete (p : OperandParser) (D : List Token.Kind → Expr → Prop) (l : Level) : Prop :=
  ∀ (ks : List Token.Kind) (e : Expr) (f g : Feed) (used : Nat), D ks e → f.Takes ks g →
    StopsAt l g → used + e.operators ≤ maxOperators → Returns p f used e (used + e.operators) g

theorem takeOperator_of_lt {n line used : Nat} {g : { rest : Feed // rest.size < n }}
    (h : used < maxOperators) : takeOperator line used (.ok g) = .ok (used + 1, g) :=
  if_neg (Nat.not_le_of_lt h)

/-! ## Joined operands -/

theorem chain_stop {op? : Token.Kind → Option BinaryOp} {operand : OperandParser} {line N : Nat}
    (left : Operand N) (h : left.rest.current?.bind op? = none) :
    chain op? operand line left = .ok left := by
  rw [chain]
  split
  · rfl
  · next t next htake =>
    rw [Feed.take?_kind htake, Option.bind_some] at h
    simp only [h]

theorem chain_token {op? : Token.Kind → Option BinaryOp} {operand : OperandParser}
    {line N used used' : Nat} {op : BinaryOp} {a b : Expr} {t : Token} {f g : Feed}
    {h : (Feed.token t f).size < N} (hop : op? t.kind = some op) (hu : used < maxOperators)
    (hr : Returns operand f (used + 1) b used' g) :
    ∃ h', chain op? operand line ⟨a, used, .token t f, h⟩ =
      chain op? operand line ⟨.binary op a b, used', g, h'⟩ := by
  obtain ⟨hlt, hr⟩ := hr
  refine ⟨Nat.lt_trans hlt (Nat.lt_trans (Nat.lt_succ_self _) h), ?_⟩
  rw [chain]
  simp only [Feed.take?, hop, takeOperator_of_lt hu, hr]

/-- The loop reaches the end of every text that is derived at its level, whatever follows. The
    induction is on the derivation, whose left operand lies at the same level. -/
theorem joined_reaches {op? : Token.Kind → Option BinaryOp} {operand : OperandParser} {line : Nat}
    {l m : Level} {n : Nat} {ks : List Token.Kind} {e : Expr} (hl : l.tighter? = some m)
    (ht : Lists op? l) (hne : l ≠ .comparison) (hmark : ∀ op : UnaryOp, op.level ≠ l)
    (hc : Complete operand (Derives m n) m)
    (h : Derives l n ks e) {f g : Feed} {used : Nat} (hf : f.Takes ks g) (hst : StopsAt m g)
    (hu : used + e.operators ≤ maxOperators) :
    ∃ hlt, joined op? operand line f used =
      chain op? operand line ⟨e, used + e.operators, g, hlt⟩ := by
  induction h generalizing f g used with
  | number | text | benar | salah | name | paren => cases hl
  | unary op hlevel => exact absurd hlevel (hmark op)
  | @binary l n ks ms a b op hlevel ha hb iha ihb =>
    rw [BinaryOp.left_of_level hlevel hne] at iha
    rw [BinaryOp.right_of_level hlevel hl] at hb
    obtain ⟨g₁, hks, hg₁⟩ := hf.split
    obtain ⟨t, g₂, htok, rfl, hms⟩ := hg₁.uncons
    simp only [Expr.operators] at hu ⊢
    have hstop : StopsAt m (.token t g₂) :=
      stopsAt_token htok (by rw [hlevel, Level.rank_tighter hl]; exact Nat.lt_succ_self _)
    have hlt₁ : used + a.operators < maxOperators := by omega
    obtain ⟨hlt, hreach⟩ := iha hl ht hne hmark hc hks hstop (Nat.le_of_lt hlt₁)
    have hret := hc ms b g₂ g (used + a.operators + 1) hb hms hst (by omega)
    obtain ⟨hlt', hstep⟩ := chain_token ((ht _ _).2 ⟨htok.symm, hlevel⟩) hlt₁ hret
    have hcount : used + a.operators + 1 + b.operators =
        used + (a.operators + b.operators + 1) := by omega
    refine ⟨hlt', ?_⟩
    rw [hreach, hstep]
    simp only [hcount]
  | tighter hl' h =>
    rw [hl] at hl'
    cases hl'
    obtain ⟨hlt, hret⟩ := hc _ _ f g used h hf hst hu
    refine ⟨hlt, ?_⟩
    unfold joined
    rw [hret]

theorem joined_complete {op? : Token.Kind → Option BinaryOp} {operand : OperandParser}
    {line n : Nat} {l m : Level} (hl : l.tighter? = some m) (ht : Lists op? l)
    (hne : l ≠ .comparison) (hmark : ∀ op : UnaryOp, op.level ≠ l)
    (hc : Complete operand (Derives m n) m) :
    Complete (joined op? operand line) (Derives l n) l := by
  intro ks e f g used h hf hst hu
  have hm := Level.rank_le_of_tighter hl
  obtain ⟨hlt, hreach⟩ := joined_reaches hl ht hne hmark hc h hf (hst.mono hm) hu
  exact ⟨hlt, hreach.trans (chain_stop _ (hst.table ht))⟩

/-! ## Comparisons, marks and literals -/

theorem compared_complete {operand : OperandParser} {line n : Nat}
    (hc : Complete operand (Derives .sum n) .sum) :
    Complete (compared operand line) (Derives .comparison n) .comparison := by
  intro ks e f g used h hf hst hu
  have htable := hst.table lists_relational
  cases h with
  | unary op hlevel => cases op <;> cases hlevel
  | @binary _ _ ks ms a b op hlevel ha hb =>
    have hside := BinaryOp.sides_of_comparison hlevel
    rw [hside.1] at ha
    rw [hside.2] at hb
    obtain ⟨g₁, hks, hg₁⟩ := hf.split
    obtain ⟨t, g₂, htok, rfl, hms⟩ := hg₁.uncons
    simp only [Expr.operators] at hu ⊢
    have hstop : StopsAt .sum (.token t g₂) := stopsAt_token htok (by rw [hlevel]; decide)
    obtain ⟨hlt, hleft⟩ := hc ks a f _ used ha hks hstop (by omega)
    obtain ⟨hlt', hright⟩ :=
      hc ms b g₂ g (used + a.operators + 1) hb hms (hst.mono (by decide)) (by omega)
    have hrel : relational? t.kind = some op := (lists_relational _ _).2 ⟨htok.symm, hlevel⟩
    have hlt'' : used + a.operators < maxOperators := by omega
    have hcount : used + a.operators + 1 + b.operators =
        used + (a.operators + b.operators + 1) := by omega
    refine ⟨Nat.lt_trans hlt' (Nat.lt_trans (Nat.lt_succ_self _) hlt), ?_⟩
    unfold compared
    simp only [hleft, Feed.take?, hrel, takeOperator_of_lt hlt'', hright, htable, hcount]
    rfl
  | tighter hl h =>
    cases hl
    obtain ⟨hlt, hret⟩ := hc ks e f g used h hf (hst.mono (by decide)) hu
    refine ⟨hlt, ?_⟩
    unfold compared
    simp only [hret]
    split
    · rfl
    · next t next htake =>
      rw [Feed.take?_kind htake, Option.bind_some] at htable
      simp only [htable]

theorem not_starts_mark {op : UnaryOp} {m : Level} (hl : op.level.tighter? = some m) :
    ¬ Starts m op.kind := by
  cases op <;> cases hl <;> exact fun h => Nat.not_succ_le_self _ h

theorem marked_complete (op : UnaryOp) {operand otherwise : OperandParser} {line n : Nat}
    {m : Level} (hl : op.level.tighter? = some m)
    (hc : Complete operand (Below op.level n) op.level) (ho : Complete otherwise (Derives m n) m) :
    Complete (marked op op.kind operand otherwise line) (Derives op.level n) op.level := by
  intro ks e f g used h hf hst hu
  generalize hlevel : op.level = l at h
  cases h with
  | number | text | benar | salah | name | paren => cases op <;> cases hlevel
  | binary op' hlevel' => cases op <;> cases op' <;> cases hlevel' <;> cases hlevel
  | @unary _ n ks e op' hlevel' h =>
    have hop : op' = op := by
      cases op <;> cases op' <;> first | rfl | (cases hlevel'; cases hlevel)
    subst hop
    obtain ⟨t, g₁, htok, rfl, hks⟩ := hf.uncons
    simp only [Expr.operators] at hu ⊢
    obtain ⟨hlt, hret⟩ := hc ks e g₁ g (used + 1) ⟨n, rfl, hlevel ▸ h⟩ hks hst (by omega)
    have hcount : used + 1 + e.operators = used + (e.operators + 1) := by omega
    have hu' : used < maxOperators := by omega
    refine ⟨Nat.lt_trans hlt (Nat.lt_succ_self _), ?_⟩
    unfold marked
    simp only [Feed.take?, htok, takeOperator_of_lt hu', hret, hcount, if_true]
  | tighter hl' h =>
    rw [← hlevel, hl] at hl'
    cases hl'
    obtain ⟨k, ks, rfl, hk⟩ := h.head
    obtain ⟨t, g₁, rfl, rfl, _⟩ := hf.uncons
    have hne : t.kind ≠ op.kind := fun he => not_starts_mark hl (he ▸ hk)
    have hm := Level.rank_le_of_tighter hl
    obtain ⟨hlt, hret⟩ := ho _ e _ g used h hf (hst.mono hm) hu
    refine ⟨hlt, ?_⟩
    unfold marked
    simp only [Feed.take?, hne, if_false, hret]

theorem literal_complete {nested : Level → OperandParser} {n : Nat}
    (hc : ∀ l, Complete (nested l) (Below l n) l) :
    Complete (literal nested) (Derives .literal n) .literal := by
  intro ks e f g used h hf hst hu
  have hpos (t : Token) : g.size < (Feed.token t g).size := Nat.lt_succ_self _
  cases h with
  | unary op hlevel => cases op <;> cases hlevel
  | binary op hlevel => cases op <;> cases hlevel
  | tighter hl => cases hl
  | @number _ text h =>
    obtain ⟨⟨_, line⟩, _, rfl, rfl, hg⟩ := hf.uncons
    cases hg
    have hread := (Numeral.read?_eq_some_iff h.chars _).2 ⟨h, rfl⟩
    refine ⟨hpos _, ?_⟩
    simp only [literal, Feed.take?, hread]
    rfl
  | text | benar | salah | name =>
    obtain ⟨⟨_, line⟩, _, rfl, rfl, hg⟩ := hf.uncons
    cases hg
    exact ⟨hpos _, rfl⟩
  | @paren n ks _ h =>
    obtain ⟨⟨_, line⟩, g₁, rfl, rfl, hg₁⟩ := hf.uncons
    obtain ⟨g₂, hks, hg₂⟩ := hg₁.split
    obtain ⟨⟨_, line'⟩, g₃, rfl, rfl, hg₃⟩ := hg₂.uncons
    cases hg₃
    have hstop : StopsAt .logical (.token ⟨.symbol .parenClose, line'⟩ g) := by
      intro op _ hk
      cases op <;> cases hk
    obtain ⟨hlt, hret⟩ := hc .logical ks e g₁ _ used ⟨n, rfl, h⟩ hks hstop hu
    refine ⟨Nat.lt_trans (hpos _) (Nat.lt_trans hlt (Nat.lt_succ_self _)), ?_⟩
    simp only [literal, Feed.take?, hret]
    rfl

/-! ## Levels -/

/-- The parser of every level is complete, if those of the operands one nesting level deeper
    are. -/
theorem atLevel_complete {nested : Level → OperandParser} {line n : Nat}
    (hc : ∀ l, Complete (nested l) (Below l n) l) (l : Level) :
    Complete (atLevel nested line l) (Derives l n) l := by
  have hliteral := literal_complete hc
  have hsign : Complete (sign nested line) (Derives .sign n) .sign :=
    marked_complete .negate rfl (hc .sign) hliteral
  have hproduct : Complete (product nested line) (Derives .product n) .product :=
    joined_complete rfl lists_multiplicative (by decide)
      (fun op => by cases op <;> decide) hsign
  have hsum : Complete (sum nested line) (Derives .sum n) .sum :=
    joined_complete rfl lists_additive (by decide)
      (fun op => by cases op <;> decide) hproduct
  have hcomparison : Complete (comparison nested line) (Derives .comparison n) .comparison :=
    compared_complete hsum
  have hnegation : Complete (negation nested line) (Derives .negation n) .negation :=
    marked_complete .not rfl (hc .negation) hcomparison
  have hlogical : Complete (logical nested line) (Derives .logical n) .logical :=
    joined_complete rfl lists_logical (by decide)
      (fun op => by cases op <;> decide) hnegation
  cases l with
  | logical => exact hlogical
  | negation => exact hnegation
  | comparison => exact hcomparison
  | sum => exact hsum
  | product => exact hproduct
  | sign => exact hsign
  | literal => exact hliteral

theorem nested_complete (line n : Nat) (l : Level) :
    Complete (nested line n l) (Below l n) l := by
  induction n generalizing l with
  | zero =>
    rintro ks e f g used ⟨m, hm, -⟩
    cases hm
  | succ n ih =>
    rintro ks e f g used ⟨m, hm, h⟩ hf hst hu
    cases hm
    exact atLevel_complete ih l ks e f g used h hf hst hu

end Expr.Parse

open Expr.Parse in
/-- A whole expression is parsed, if the rest could not continue it. -/
theorem Expr.parse_complete {n : Nat} {ks : List Token.Kind} {e : Expr} {f g : Feed}
    (h : Whole n ks e) (hf : f.Takes ks g) (hg : ∀ op : BinaryOp, g.current? ≠ some op.kind) :
    ∃ hlt, Expr.parse n f = .ok ⟨e, g, hlt⟩ := by
  obtain ⟨hlt, hret⟩ := atLevel_complete (nested_complete f.line n) .logical ks e f g 0 h.1 hf
    (fun op _ => hg op) (by rw [Nat.zero_add]; exact h.2)
  refine ⟨hlt, ?_⟩
  unfold Expr.parse
  rw [hret]

end Naskah
