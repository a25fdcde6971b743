import Naskah.Proofs.Reading.Blocks
import Naskah.Proofs.Stmt.Reading

/-
  The blocks of statements. The parser of statements keeps the account of `openBlocks`
  (`Stmt.parse_encloses`), so what it says of a text whose blocks are not closed can be read off the
  tokens: `parseAll_account`, `parseAll_unclosed`, `parseAll_resume` and `parseAll_surplus`.
-/

namespace Naskah

open Reading

/-! ## Expressions -/

variable {closedAt last : Nat} {left : Feed} {before behind : Blocks}

theorem UnaryOp.neutral_kind (op : UnaryOp) : op.kind.Neutral := by
  cases op <;> exact fun _ _ => rfl

theorem BinaryOp.neutral_kind (op : BinaryOp) : op.kind.Neutral := by
  cases op <;> exact fun _ _ => rfl

/-- No block is opened or closed within an expression. -/
theorem Expr.Derives.neutral {l : Expr.Level} {n : Nat} {ks : List Token.Kind} {e : Expr}
    (h : Expr.Derives l n ks e) : ∀ k ∈ ks, k.Neutral := by
  induction h with
  | number | text | benar | salah | name => exact List.forall_mem_singleton.2 fun _ _ => rfl
  | paren _ ih =>
    refine List.forall_mem_cons.2 ⟨fun _ _ => rfl, List.forall_mem_append.2 ⟨ih, ?_⟩⟩
    exact List.forall_mem_singleton.2 fun _ _ => rfl
  | unary op _ _ ih => exact List.forall_mem_cons.2 ⟨op.neutral_kind, ih⟩
  | binary op _ _ _ iha ihb =>
    exact List.forall_mem_append.2 ⟨iha, List.forall_mem_cons.2 ⟨op.neutral_kind, ihb⟩⟩
  | tighter _ _ ih => exact ih

theorem parse_untroubled (room : Nat) : Untroubled (reading (Expr.parse room)) :=
  .of_parallel (Expr.parse_parallel (φ := id) (fun _ h => h) room)

/-- In front of `yaudah` an expression ends as at the end of the text. -/
theorem parse_encloses (room : Nat) :
    Encloses closedAt last left before before (reading (Expr.parse room)) := by
  intro f hf
  constructor
  · intro g a h
    obtain ⟨hlt, hparse⟩ := Parsed.view_eq_ok h
    obtain ⟨ks, hks, hwhole, -⟩ := Expr.parse_sound hf hparse
    obtain ⟨ts, rfl, hts⟩ := hks.exists_foldr
    exact ⟨ts, hts, openBehind_of_neutral hwhole.1.neutral before⟩
  · intro g h a hp hh
    obtain ⟨hlt, hparse⟩ := Parsed.view_eq_ok hp
    obtain ⟨ks, hks, hwhole, hstop⟩ := Expr.parse_sound hf hparse
    have hstop' : ∀ op : BinaryOp, (g.followedBy h).current? ≠ some op.kind := by
      intro op
      cases g with
      | finish line =>
        rw [Feed.followedBy, hh]
        cases op <;> decide
      | token t g => exact hstop op
      | faulty t e => exact hstop op
    obtain ⟨hlt', hparse'⟩ := Expr.parse_complete hwhole (hks.followedBy h) hstop'
    unfold reading
    rw [hparse']
    rfl
  · intro c l h
    exact absurd h (parse_untroubled room f c l)
  · intro c l h
    exact absurd h (parse_untroubled room f c l)

namespace Stmt.Parse

variable {room openedAt : Nat} {inner : Nested} {blocks : Blocks} {c : Construct} {t : Token}
  {f : Feed}

theorem expectName_encloses (wanted : Expectation) :
    Encloses closedAt last left before before (reading (expectName wanted)) := by
  refine expect_encloses fun t h => ?_
  obtain ⟨kind, line⟩ := t
  cases kind with
  | identifier name => rfl
  | _ => cases h

theorem expectKeyword_encloses {k : Keyword} (h : (Token.Kind.keyword k).Neutral) :
    Encloses closedAt last left before before (reading (expectKeyword k)) := by
  refine expect_encloses fun t ht => ?_
  obtain ⟨kind, line⟩ := t
  dsimp only at ht
  split at ht
  · next heq =>
    subst heq
    exact h before line
  · cases ht

/-- The word `yaudah` closes the block opened last. -/
theorem close_encloses :
    Encloses closedAt last left ((c, openedAt) :: blocks) blocks
      (reading (expectKeyword .yaudah)) := by
  refine expect_encloses fun t ht => ?_
  obtain ⟨kind, line⟩ := t
  dsimp only at ht
  split at ht
  · next heq =>
    subst heq
    rfl
  · cases ht

theorem closed_encloses (s : Stmt) :
    Encloses closedAt last left ((c, openedAt) :: blocks) blocks
      ((reading (expectKeyword .yaudah)).andThen fun _ => done s) :=
  .untroubled_andThen close_encloses (expect_untroubled _ _) fun _ => .done s

/-! ## Statements -/

/-- The parsers one nesting level deeper keep account of open blocks. -/
structure Nested.Encloses (closedAt last : Nat) (inner : Nested) : Prop where
  block (c : Construct) (openedAt : Nat) (blocks : Blocks) :
    Naskah.Encloses closedAt last (.closing closedAt last)
      ((c, openedAt) :: blocks) ((c, openedAt) :: blocks) (reading (inner.block c openedAt))
  link (openedAt : Nat) (blocks : Blocks) :
    Naskah.Encloses closedAt last (.finish last)
      ((.cond, openedAt) :: blocks) blocks (reading (inner.link openedAt))

theorem conditionalBehind_encloses (hi : inner.Encloses closedAt last) (test : Expr) (yes : Stmt)
    (hstart : f.StartsWith t) (hf : f.Scanned) :
    EnclosesAt closedAt last (.finish last) ((.cond, openedAt) :: blocks) blocks
      (conditionalBehind inner openedAt test yes t.kind) f := by
  obtain ⟨kind, line⟩ := t
  cases kind with
  | keyword k =>
    cases k with
    | kalogak =>
      exact .pass_andThen hf hstart (.andThen_resumed (hi.link openedAt blocks) (fun _ => .done _)
        fun _ => .inl ⟨_, rfl⟩)
    | lainnya =>
      exact .pass_andThen hf hstart (.andThen_resumed (hi.block .cond openedAt blocks)
        (fun _ => closed_encloses _) fun _ => .inl ⟨_, rfl⟩)
    | yaudah => exact .pass_andThen hf hstart (.done _)
    | _ => exact .refuse (fun _ => id) f
  | _ => exact .refuse (fun _ => id) f

theorem conditional_encloses (hi : inner.Encloses closedAt last) :
    Encloses closedAt last (.finish last) ((.cond, openedAt) :: blocks) blocks
      (reading (conditional room inner openedAt)) := by
  rw [conditional_reading]
  refine .untroubled_andThen (parse_encloses room) (parse_untroubled room) fun test => ?_
  refine .andThen_resumed (hi.block .cond openedAt blocks) (fun yes => ?_) fun _ => .inl ⟨_, rfl⟩
  exact .look (fun _ => .of_error rfl fun _ _ h => nomatch h)
    fun _ _ hstart hf => conditionalBehind_encloses hi test yes hstart hf

theorem counted_encloses (hi : inner.Encloses closedAt last) :
    Encloses closedAt last (.finish last) ((.count, openedAt) :: blocks) blocks
      (reading (counted room inner openedAt)) := by
  rw [counted_reading]
  refine .untroubled_andThen (expectName_encloses _) (expect_untroubled _ _) fun counter => ?_
  refine .untroubled_andThen (expectKeyword_encloses fun _ _ => rfl) (expect_untroubled _ _)
    fun _ => ?_
  refine .untroubled_andThen (parse_encloses room) (parse_untroubled room) fun first => ?_
  refine .untroubled_andThen (expectKeyword_encloses fun _ _ => rfl) (expect_untroubled _ _)
    fun _ => ?_
  refine .untroubled_andThen (parse_encloses room) (parse_untroubled room) fun last => ?_
  exact .andThen_resumed (hi.block .count openedAt blocks) (fun _ => closed_encloses _)
    fun _ => .inl ⟨_, rfl⟩

theorem repeated_encloses (hi : inner.Encloses closedAt last) :
    Encloses closedAt last (.finish last) ((.loop, openedAt) :: blocks) blocks
      (reading (repeated room inner openedAt)) := by
  rw [repeated_reading]
  refine .untroubled_andThen (parse_encloses room) (parse_untroubled room) fun test => ?_
  exact .andThen_resumed (hi.block .loop openedAt blocks) (fun _ => closed_encloses _)
    fun _ => .inl ⟨_, rfl⟩

theorem exprBehind_encloses (left : Expr) (hstart : f.StartsWith t) (hf : f.Scanned) :
    EnclosesAt closedAt last (.finish last) blocks blocks (exprBehind room left t.kind) f := by
  obtain ⟨kind, line⟩ := t
  cases kind with
  | keyword k =>
    cases k with
    | itu =>
      cases left with
      | «variable» target =>
        exact .pass_andThen hf hstart (.untroubled_andThen (parse_encloses room)
          (parse_untroubled room) fun _ => .done _)
      | _ => exact .refuse (fun _ => id) f
    | _ => exact .done _ f
  | _ => exact .done _ f

theorem assignmentOrExpr_encloses :
    Encloses closedAt last (.finish last) blocks blocks (reading (assignmentOrExpr room)) := by
  rw [assignmentOrExpr_reading]
  refine .untroubled_andThen (parse_encloses room) (parse_untroubled room) fun left => ?_
  refine .look (fun _ => .of_stays rfl fun f hf => ?_)
    fun _ _ hstart hf => exprBehind_encloses left hstart hf
  unfold look
  rw [hf]
  rfl

theorem inputTarget_encloses :
    Encloses closedAt last (.finish last) blocks blocks (reading inputTarget) := by
  rw [inputTarget_reading]
  exact .untroubled_andThen (expectName_encloses _) (expect_untroubled _ _) fun _ => .done _

theorem printed_encloses :
    Encloses closedAt last (.finish last) blocks blocks (reading (printed room)) := by
  rw [printed_reading]
  exact .untroubled_andThen (parse_encloses room) (parse_untroubled room) fun _ => .done _

theorem statementFrom_encloses (hi : inner.Encloses closedAt last) (hstart : f.StartsWith t)
    (hf : f.Scanned) : EnclosesAt closedAt last (.finish last) blocks blocks
      (statementFrom room inner t.line t.kind) f := by
  obtain ⟨kind, line⟩ := t
  cases kind with
  | keyword k =>
    cases k with
    | ulangin => exact .pass_andThen hf hstart (counted_encloses hi)
    | kalo => exact .pass_andThen hf hstart (conditional_encloses hi)
    | selama => exact .pass_andThen hf hstart (repeated_encloses hi)
    | baca => exact .pass_andThen hf hstart inputTarget_encloses
    | tulis => exact .pass_andThen hf hstart printed_encloses
    | _ => exact assignmentOrExpr_encloses f hf
  | _ => exact assignmentOrExpr_encloses f hf

theorem statement_encloses (hi : inner.Encloses closedAt last) :
    Encloses closedAt last (.finish last) blocks blocks (reading (statement room inner)) := by
  rw [statement_reading]
  intro f hf
  refine .split (fun _ => .of_error rfl fun _ _ h => nomatch h) fun t hstart => ?_
  have hfrom : EnclosesAt closedAt last (.finish last) blocks blocks
      (statementFrom room inner t.line t.kind) f := statementFrom_encloses hi hstart hf
  refine .of_eq hstart (fun f hf => ?_) hfrom
  dsimp only [here, look]
  rw [hf.current?, hf.line]

/-! ## Blocks and whole texts -/

theorem statements_finish (one : Parser Stmt) (c : Construct) (line : Nat) :
    reading (statements one c openedAt) (.finish line) =
      .error (.structural (.missingTerminator c openedAt)) := by
  unfold reading
  rw [statements]
  rfl

theorem statements_step (one : Parser Stmt) (c : Construct) :
    reading (statements one c openedAt) =
      look (refuse fun _ => .missingTerminator c openedAt) fun kind =>
        if kind ∈ closers then done []
        else
          (reading one).andThen fun first =>
            (reading (statements one c openedAt)).andThen fun more => done (first :: more) := by
  funext f
  rw [statements_view (Nat.le_succ f.size)]
  unfold statementsWithin look
  cases f.current? with
  | none => rfl
  | some kind =>
    dsimp only
    split
    · rfl
    · dsimp only [andThen]
      cases hone : reading one f with
      | error e => rfl
      | ok r =>
        obtain ⟨hlt, -⟩ := Parsed.view_eq_ok (hone : Parsed.view (one f) = .ok (r.1, r.2))
        dsimp only
        rw [statements_view (Nat.le_of_lt hlt)]

theorem statements_encloses {one : Parser Stmt}
    (hone : Encloses closedAt last (.finish last) ((c, openedAt) :: blocks)
      ((c, openedAt) :: blocks) (reading one)) :
    Encloses closedAt last (.closing closedAt last) ((c, openedAt) :: blocks)
      ((c, openedAt) :: blocks) (reading (statements one c openedAt)) := by
  -- The induction is on the number of tokens that are left.
  have hsized (n : Nat) (f : Feed) (hn : f.size < n) (hf : f.Scanned) :
      EnclosesAt closedAt last (.closing closedAt last) ((c, openedAt) :: blocks)
        ((c, openedAt) :: blocks) (reading (statements one c openedAt)) f := by
    induction n generalizing f with
    | zero => exact absurd hn (Nat.not_lt_zero _)
    | succ n ih =>
      rw [statements_step]
      refine .look (fun _ => .of_unclosed rfl rfl) fun t _ => ?_
      split
      · exact .done _ f
      · refine (hone f hf).andThen hf (fun first g h hg => ?_) (.inr fun first => ?_)
        · obtain ⟨hlt, -⟩ := Parsed.view_eq_ok h
          have hmore := ih g (by omega) hg
          exact hmore.andThen hg (fun more g _ _ => .done _ g) (.inr fun _ => .inl ⟨_, rfl⟩)
        · exact .inr ⟨c, openedAt, andThen_of_error (statements_finish one c last)⟩
  exact fun f => hsized (f.size + 1) f (Nat.lt_succ_self _)

theorem nested_encloses (room : Nat) : (nested room).Encloses closedAt last := by
  induction room with
  | zero => exact ⟨fun _ _ _ => .refuse fun _ => id, fun _ _ => .refuse fun _ => id⟩
  | succ room ih =>
    refine ⟨fun c openedAt blocks => ?_, fun openedAt blocks => conditional_encloses ih⟩
    rw [block_reading]
    exact .andThen_resumed (statements_encloses (statement_encloses ih)) (fun _ => .done _)
      fun _ => .inl ⟨_, rfl⟩

end Stmt.Parse

namespace Stmt

open Stmt.Parse

theorem parse_encloses (closedAt last : Nat) :
    Encloses closedAt last (.finish last) [] []
      (reading (Stmt.parse maxNesting)) :=
  statement_encloses (nested_encloses maxNesting)

theorem reading_of_ok {f : Feed} {s : Parsed Stmt f.size} (h : Stmt.parse maxNesting f = .ok s) :
    reading (Stmt.parse maxNesting) f = .ok (s.value, s.rest) := by
  unfold reading
  rw [h]
  rfl

theorem reading_of_error {f : Feed} {e : Error} (h : Stmt.parse maxNesting f = .error e) :
    reading (Stmt.parse maxNesting) f = .error e := by
  unfold reading
  rw [h]
  rfl

/-- Statements are parsed one at a time. -/
theorem parseAll_step {f g : Feed} {k : Token.Kind} {s : Stmt} (hf : f.current? = some k)
    (h : reading (Stmt.parse maxNesting) f = .ok (s, g)) :
    Stmt.parseAll f = (Stmt.parseAll g).map (s :: ·) := by
  obtain ⟨hlt, hparse⟩ := Parsed.view_eq_ok h
  rw [Stmt.parseAll, hf]
  simp only [hparse]
  cases Stmt.parseAll g <;> rfl

theorem parseAll_stop {f : Feed} {k : Token.Kind} {e : Error} (hf : f.current? = some k)
    (h : reading (Stmt.parse maxNesting) f = .error e) : Stmt.parseAll f = .error e := by
  unfold reading at h
  rw [Stmt.parseAll, hf]
  cases hparse : Stmt.parse maxNesting f with
  | error e' =>
    rw [hparse] at h
    cases h
    rfl
  | ok s =>
    rw [hparse] at h
    cases h

theorem parse_account {f : Feed} {s : Parsed Stmt f.size} (hf : f.Scanned)
    (h : Stmt.parse maxNesting f = .ok s) :
    ∃ ts, f = ts.foldr .token s.rest ∧ openBlocks ts = [] ∧ s.rest.Scanned := by
  obtain ⟨ts, hts, hopen⟩ := (parse_encloses 1 1 f hf).account (reading_of_ok h)
  have htakes := Feed.takes_foldr ts s.rest
  rw [← hts] at htakes
  exact ⟨ts, hts, hopen, htakes.scanned hf⟩

/-- No block is open behind a text that is accepted. -/
theorem parseAll_account {f : Feed} {ss : List Stmt} (hf : f.Scanned)
    (h : Stmt.parseAll f = .ok ss) :
    ∃ ts line, f = ts.foldr .token (.finish line) ∧ openBlocks ts = [] := by
  induction f using Stmt.parseAll.induct generalizing ss with
  | case1 f hc =>
    obtain ⟨line, rfl⟩ := Feed.exists_finish hc
    exact ⟨[], line, rfl, rfl⟩
  | case2 f k hc e hone =>
    rw [parseAll_stop hc (reading_of_error hone)] at h
    cases h
  | case3 f k hc first hone e hmore =>
    rw [parseAll_step hc (reading_of_ok hone), hmore] at h
    cases h
  | case4 f k hc first hone more hmore ih =>
    obtain ⟨ts, hts, hopen, hrest⟩ := parse_account hf hone
    obtain ⟨us, line, hus, hopen'⟩ := ih hrest hmore
    refine ⟨ts ++ us, line, by rw [List.foldr_append, ← hus, ← hts], ?_⟩
    rw [openBlocks, openBehind_append, ← openBlocks, hopen]
    exact hopen'

/-- The block that is complained about is the one opened last. -/
theorem parseAll_unclosed {f : Feed} {c : Construct} {l : Nat} (hf : f.Scanned)
    (h : Stmt.parseAll f = .error (.structural (.missingTerminator c l))) :
    ∃ ts line blocks, f = ts.foldr .token (.finish line) ∧ openBlocks ts = (c, l) :: blocks := by
  induction f using Stmt.parseAll.induct with
  | case1 f hc =>
    obtain ⟨line, rfl⟩ := Feed.exists_finish hc
    rw [Stmt.parseAll] at h
    cases h
  | case2 f k hc e hone =>
    rw [parseAll_stop hc (reading_of_error hone), Except.error.injEq] at h
    exact (parse_encloses 1 1 f hf).unclosed (h ▸ reading_of_error hone)
  | case3 f k hc first hone e hmore ih =>
    rw [parseAll_step hc (reading_of_ok hone), hmore, Except.map, Except.error.injEq] at h
    obtain ⟨ts, hts, hopen, hrest⟩ := parse_account hf hone
    obtain ⟨us, line, blocks, hus, hopen'⟩ := ih hrest (h ▸ hmore)
    refine ⟨ts ++ us, line, blocks, by rw [List.foldr_append, ← hus, ← hts], ?_⟩
    rw [openBlocks, openBehind_append, ← openBlocks, hopen]
    exact hopen'
  | case4 f k hc first hone more hmore =>
    rw [parseAll_step hc (reading_of_ok hone), hmore] at h
    cases h

/-- Where a block is not closed, `yaudah` closes the last one; the others stay open. -/
theorem parseAll_resume {f : Feed} {c : Construct} {l : Nat} (hf : f.Scanned)
    (h : Stmt.parseAll f = .error (.structural (.missingTerminator c l))) (closedAt last : Nat) :
    (∃ ss, Stmt.parseAll (f.followedBy (.closing closedAt last)) = .ok ss) ∨
      ∃ c l, Stmt.parseAll (f.followedBy (.closing closedAt last)) =
        .error (.structural (.missingTerminator c l)) := by
  induction f using Stmt.parseAll.induct with
  | case1 f hc =>
    obtain ⟨line, rfl⟩ := Feed.exists_finish hc
    rw [Stmt.parseAll] at h
    cases h
  | case2 f k hc e hone =>
    rw [parseAll_stop hc (reading_of_error hone), Except.error.injEq] at h
    have hcurrent := Feed.current?_followedBy (h := .closing closedAt last) hc
    have hparse := parse_encloses closedAt last f hf
    rcases hparse.resume (h ▸ reading_of_error hone) with ⟨s, hs⟩ | ⟨c, l, hopen⟩
    · refine .inl ⟨[s], ?_⟩
      rw [parseAll_step hcurrent hs, Stmt.parseAll]
      rfl
    · exact .inr ⟨c, l, parseAll_stop hcurrent hopen⟩
  | case3 f k hc first hone e hmore ih =>
    rw [parseAll_step hc (reading_of_ok hone), hmore, Except.map, Except.error.injEq] at h
    have hcurrent := Feed.current?_followedBy (h := .closing closedAt last) hc
    obtain ⟨-, -, -, hrest⟩ := parse_account hf hone
    have hparse := parse_encloses closedAt last f hf
    have hextend := hparse.extend (reading_of_ok hone) (h := .closing closedAt last) rfl
    rcases ih hrest (h ▸ hmore) with ⟨ss, hss⟩ | ⟨c, l, hopen⟩
    · refine .inl ⟨first.value :: ss, ?_⟩
      rw [parseAll_step hcurrent hextend, hss]
      rfl
    · refine .inr ⟨c, l, ?_⟩
      rw [parseAll_step hcurrent hextend, hopen]
      rfl
  | case4 f k hc first hone more hmore =>
    rw [parseAll_step hc (reading_of_ok hone), hmore] at h
    cases h

/-- No statement starts with `yaudah`, and behind an accepted text there is nothing to close. -/
theorem parseAll_surplus {f : Feed} {ss : List Stmt} (hf : f.Scanned)
    (h : Stmt.parseAll f = .ok ss) (closedAt : Nat) (g : Feed) :
    Stmt.parseAll (f.followedBy (.token ⟨.keyword .yaudah, closedAt⟩ g)) =
      .error (.structural (.unexpected .expression (.token (.keyword .yaudah)) closedAt)) := by
  induction f using Stmt.parseAll.induct generalizing ss with
  | case1 f hc =>
    obtain ⟨line, rfl⟩ := Feed.exists_finish hc
    exact parseAll_stop rfl rfl
  | case2 f k hc e hone =>
    rw [parseAll_stop hc (reading_of_error hone)] at h
    cases h
  | case3 f k hc first hone e hmore =>
    rw [parseAll_step hc (reading_of_ok hone), hmore] at h
    cases h
  | case4 f k hc first hone more hmore ih =>
    obtain ⟨-, -, -, hrest⟩ := parse_account hf hone
    have hparse := parse_encloses 1 1 f hf
    have hextend := hparse.extend (reading_of_ok hone)
      (h := .token ⟨.keyword .yaudah, closedAt⟩ g) rfl
    rw [parseAll_step (Feed.current?_followedBy hc) hextend, ih hrest hmore]
    rfl

end Stmt

end Naskah
