import Naskah.Proofs.Program.Lazy
import Naskah.Proofs.Stmt.Blocks
import Naskah.Proofs.Token.Extension

/-
  A text that is refused for a block that is not closed names the block opened last, and is made
  good by one `yaudah` for each open block, no fewer and no more (`compile_missingTerminator`).
-/

namespace Naskah

/-- The text with `yaudah` put behind it a number of times. -/
def closedBy (a : String) : Nat → String
  | 0 => a
  | j + 1 => closedBy a j ++ " yaudah"

/-- What becomes of a text in which the blocks are open if `yaudah` is put behind it. As long as a
    block is left open it is complained about; then the text is accepted; and more is too much. -/
structure ClosesBlocks (a : String) (blocks : Blocks) : Prop where
  fewer (j : Nat) (h : j < blocks.length) : ∃ c l, blocks[j]? = some (c, l) ∧
    compile (closedBy a j) = .error (.structural (.missingTerminator c l))
  enough : ∃ p, compile (closedBy a blocks.length) = .ok p
  more (j : Nat) (h : blocks.length < j) : ∃ l, compile (closedBy a j) =
    .error (.structural (.unexpected .expression (.token (.keyword .yaudah)) l))

theorem closedBy_succ (a : String) (j : Nat) :
    closedBy a (j + 1) = closedBy (a ++ " yaudah") j := by
  induction j with
  | zero => rfl
  | succ j ih => exact congrArg (· ++ " yaudah") ih

/-! ## Tokens -/

theorem tokenize_yaudah : tokenize "yaudah" = .ok ([⟨.keyword .yaudah, 1⟩], 1) := by
  decide +kernel

theorem tokenize_closed {a : String} {ts : List Token} {line : Nat}
    (h : tokenize a = .ok (ts, line)) :
    ∃ closedAt last,
      tokenize (a ++ " yaudah") = .ok (ts ++ [⟨.keyword .yaudah, closedAt⟩], last) := by
  obtain ⟨vs, last, htokens, hkinds⟩ := tokenize_append (by decide) isGap_space h tokenize_yaudah
  obtain ⟨⟨kind, closedAt⟩, rfl, hkind⟩ := List.map_eq_singleton_iff.1 hkinds
  cases hkind
  refine ⟨closedAt, last, ?_⟩
  rw [← htokens, String.append_assoc]
  rfl

theorem tokenize_closedBy {a : String} {ts : List Token} {line : Nat}
    (h : tokenize a = .ok (ts, line)) (j : Nat) :
    ∃ us last, tokenize (closedBy a j) = .ok (ts ++ us, last) := by
  induction j with
  | zero => exact ⟨[], line, by rw [List.append_nil]; exact h⟩
  | succ j ih =>
    obtain ⟨us, last, hus⟩ := ih
    obtain ⟨closedAt, last', hclosed⟩ := tokenize_closed hus
    exact ⟨us ++ [⟨.keyword .yaudah, closedAt⟩], last', by rw [← List.append_assoc]; exact hclosed⟩

/-! ## One closing word -/

theorem followedBy_ofTokens (ts us : List Token) (line last : Nat) :
    (Feed.ofTokens ts line).followedBy (Feed.ofTokens us last) = Feed.ofTokens (ts ++ us) last := by
  unfold Feed.ofTokens
  rw [Feed.followedBy_foldr, List.foldr_append]
  rfl

theorem compile_of_tokens {a : String} {ts : List Token} {line : Nat}
    (h : tokenize a = .ok (ts, line)) :
    compile a = (Stmt.parseAll (Feed.ofTokens ts line)).map Program.mk :=
  compile_eq_parseAll (ofSource_eq_ofTokens h)

theorem scanned_of_tokens {a : String} {ts : List Token} {line : Nat}
    (h : tokenize a = .ok (ts, line)) : (Feed.ofTokens ts line).Scanned :=
  Feed.ofCursor_scanned _ (ofSource_eq_ofTokens h)

/-- No block is open at the end of a text that is accepted. -/
theorem compile_account {a : String} {p : Program} (h : compile a = .ok p) :
    ∃ ts line, tokenize a = .ok (ts, line) ∧ openBlocks ts = [] ∧
      Stmt.parseAll (Feed.ofTokens ts line) = .ok p.statements := by
  obtain ⟨f, hf, hparse⟩ := compile_eq_ok h
  obtain ⟨ts, line, rfl, hopen⟩ := Stmt.parseAll_account (Feed.ofCursor_scanned _ hf) hparse
  exact ⟨ts, line, (tokenize_eq_tokens hf).trans (Feed.tokens_ofTokens ts line), hopen, hparse⟩

/-- The block that is complained about is the one opened last. -/
theorem compile_unclosed {a : String} {c : Construct} {l : Nat}
    (h : compile a = .error (.structural (.missingTerminator c l))) :
    ∃ ts line blocks, tokenize a = .ok (ts, line) ∧ openBlocks ts = (c, l) :: blocks ∧
      Stmt.parseAll (Feed.ofTokens ts line) = .error (.structural (.missingTerminator c l)) := by
  rcases compile_eq_error h with ⟨e, -, he⟩ | ⟨f, hf, hparse⟩
  · cases he
  · obtain ⟨ts, line, blocks, rfl, hopen⟩ :=
      Stmt.parseAll_unclosed (Feed.ofCursor_scanned _ hf) hparse
    exact ⟨ts, line, blocks, (tokenize_eq_tokens hf).trans (Feed.tokens_ofTokens ts line), hopen,
      hparse⟩

/-- One `yaudah` closes the block opened last. -/
theorem compile_closed {a : String} {c : Construct} {l line : Nat} {ts : List Token}
    {blocks : Blocks} (h : compile a = .error (.structural (.missingTerminator c l)))
    (htokens : tokenize a = .ok (ts, line)) (hopen : openBlocks ts = (c, l) :: blocks) :
    ∃ us last, tokenize (a ++ " yaudah") = .ok (us, last) ∧ openBlocks us = blocks ∧
      ((∃ p, compile (a ++ " yaudah") = .ok p) ∨
        ∃ c l, compile (a ++ " yaudah") = .error (.structural (.missingTerminator c l))) := by
  obtain ⟨closedAt, last, hclosed⟩ := tokenize_closed htokens
  refine ⟨_, last, hclosed, ?_, ?_⟩
  · rw [openBlocks, openBehind_append, ← openBlocks, hopen]
    rfl
  · obtain ⟨ts', line', -, htokens', -, hparse⟩ := compile_unclosed h
    rw [htokens, Except.ok.injEq, Prod.mk.injEq] at htokens'
    obtain ⟨rfl, rfl⟩ := htokens'
    have hresume := Stmt.parseAll_resume (scanned_of_tokens htokens) hparse closedAt last
    have hfeed : (Feed.ofTokens ts line).followedBy (.closing closedAt last) =
        Feed.ofTokens (ts ++ [⟨.keyword .yaudah, closedAt⟩]) last :=
      followedBy_ofTokens ts [⟨.keyword .yaudah, closedAt⟩] line last
    rw [hfeed] at hresume
    rw [compile_of_tokens hclosed]
    rcases hresume with ⟨ss, hss⟩ | ⟨c', l', hmissing⟩
    · exact .inl ⟨⟨ss⟩, by rw [hss]; rfl⟩
    · exact .inr ⟨c', l', by rw [hmissing]; rfl⟩

/-! ## All closing words -/

theorem ClosesBlocks.nil {a : String} {p : Program} (h : compile a = .ok p) :
    ClosesBlocks a [] := by
  refine ⟨fun j hj => absurd hj (Nat.not_lt_zero j), ⟨p, h⟩, fun j hj => ?_⟩
  obtain ⟨i, rfl⟩ : ∃ i, j = i + 1 := Nat.exists_eq_succ_of_ne_zero (Nat.ne_of_gt hj)
  obtain ⟨ts, line, htokens, -, hparse⟩ := compile_account h
  obtain ⟨closedAt, last, hclosed⟩ := tokenize_closed htokens
  obtain ⟨us, last', hall⟩ := tokenize_closedBy hclosed i
  have hsurplus := Stmt.parseAll_surplus (scanned_of_tokens htokens) hparse closedAt
    (Feed.ofTokens us last')
  have hfeed : (Feed.ofTokens ts line).followedBy
      (.token ⟨.keyword .yaudah, closedAt⟩ (Feed.ofTokens us last')) =
        Feed.ofTokens (ts ++ [⟨.keyword .yaudah, closedAt⟩] ++ us) last' := by
    rw [List.append_assoc]
    exact followedBy_ofTokens ts (⟨.keyword .yaudah, closedAt⟩ :: us) line last'
  refine ⟨closedAt, ?_⟩
  rw [closedBy_succ, compile_of_tokens hall, ← hfeed, hsurplus]
  rfl

theorem ClosesBlocks.cons {a : String} {c : Construct} {l : Nat} {blocks : Blocks}
    (h : compile a = .error (.structural (.missingTerminator c l)))
    (hmore : ClosesBlocks (a ++ " yaudah") blocks) : ClosesBlocks a ((c, l) :: blocks) := by
  refine ⟨fun j hj => ?_, ?_, fun j hj => ?_⟩
  · cases j with
    | zero => exact ⟨c, l, rfl, h⟩
    | succ j =>
      rw [closedBy_succ]
      exact hmore.fewer j (Nat.lt_of_succ_lt_succ hj)
  · rw [List.length_cons, closedBy_succ]
    exact hmore.enough
  · rw [List.length_cons] at hj
    obtain ⟨i, rfl⟩ : ∃ i, j = i + 1 := Nat.exists_eq_succ_of_ne_zero (by omega)
    rw [closedBy_succ]
    exact hmore.more i (Nat.lt_of_succ_lt_succ hj)

/-- The induction is on the blocks that are open below the one complained about. -/
theorem closesBlocks_of_open {a : String} {c : Construct} {l line : Nat} {ts : List Token}
    {blocks : Blocks} (h : compile a = .error (.structural (.missingTerminator c l)))
    (htokens : tokenize a = .ok (ts, line)) (hopen : openBlocks ts = (c, l) :: blocks) :
    ClosesBlocks a ((c, l) :: blocks) := by
  induction blocks generalizing a c l line ts with
  | nil =>
    obtain ⟨us, last, hus, hblocks, ⟨p, hp⟩ | ⟨c', l', hmissing⟩⟩ := compile_closed h htokens hopen
    · exact .cons h (.nil hp)
    · obtain ⟨us', last', blocks', hus', hblocks', -⟩ := compile_unclosed hmissing
      rw [hus, Except.ok.injEq, Prod.mk.injEq] at hus'
      rw [← hus'.1, hblocks] at hblocks'
      cases hblocks'
  | cons block blocks ih =>
    obtain ⟨us, last, hus, hblocks, ⟨p, hp⟩ | ⟨c', l', hmissing⟩⟩ := compile_closed h htokens hopen
    · obtain ⟨us', last', hus', hblocks', -⟩ := compile_account hp
      rw [hus, Except.ok.injEq, Prod.mk.injEq] at hus'
      rw [← hus'.1, hblocks] at hblocks'
      cases hblocks'
    · obtain ⟨us', last', blocks', hus', hblocks', -⟩ := compile_unclosed hmissing
      rw [hus, Except.ok.injEq, Prod.mk.injEq] at hus'
      rw [← hus'.1, hblocks] at hblocks'
      obtain ⟨rfl, rfl⟩ := List.cons.inj hblocks'
      exact .cons h (ih hmissing hus hblocks)

/-- Where a text is refused for a block that is not closed, the block is the one opened last of
    those that are open at its end, and `yaudah` put behind it once for each of these makes the
    text acceptable, and not less often nor more often. -/
theorem compile_missingTerminator {a : String} {c : Construct} {l : Nat}
    (h : compile a = .error (.structural (.missingTerminator c l))) :
    ∃ ts line, tokenize a = .ok (ts, line) ∧ (openBlocks ts).head? = some (c, l) ∧
      ClosesBlocks a (openBlocks ts) := by
  obtain ⟨ts, line, blocks, htokens, hopen, -⟩ := compile_unclosed h
  refine ⟨ts, line, htokens, ?_, ?_⟩
  · rw [hopen]
    rfl
  · rw [hopen]
    exact closesBlocks_of_open h htokens hopen

/-- A conditional in a loop, both open. -/
theorem compile_missingTerminator_loop :
    compile "selama x\nkalo y" = .error (.structural (.missingTerminator .cond 2)) ∧
      ∃ ts line, tokenize "selama x\nkalo y" = .ok (ts, line) ∧
        (openBlocks ts).head? = some (.cond, 2) ∧
        ClosesBlocks "selama x\nkalo y" (openBlocks ts) := by
  have hopen : compile "selama x\nkalo y" = .error (.structural (.missingTerminator .cond 2)) := by
    decide +kernel
  exact ⟨hopen, compile_missingTerminator hopen⟩

end Naskah
