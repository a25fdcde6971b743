import Naskah.Proofs.Stmt.Completeness

/-
  Fragments of texts. What the grammar derives is derived with more nesting levels, too
  (`Stmt.Derives.deeper`), and in front of whatever does not continue its last expression
  (`Stmt.Derives.cut`); the tokens of a statement are those of no other statements
  (`Stmt.Derives.unique`). So a part of a text that is derived on its own has its tree wherever it
  stands.
-/

namespace Naskah

/-! ## Nesting levels -/

theorem Expr.Derives.deeper {l : Expr.Level} {n N : Nat} {ks : List Token.Kind} {e : Expr}
    (h : Expr.Derives l n ks e) (hle : n ≤ N) : Expr.Derives l N ks e := by
  induction h generalizing N with
  | number h => exact .number h
  | text => exact .text
  | benar => exact .benar
  | salah => exact .salah
  | name => exact .name
  | paren _ ih =>
    obtain ⟨N, rfl⟩ := Nat.exists_eq_add_one_of_ne_zero (Nat.ne_zero_of_lt hle)
    exact .paren (ih (Nat.le_of_succ_le_succ hle))
  | unary op hl _ ih =>
    obtain ⟨N, rfl⟩ := Nat.exists_eq_add_one_of_ne_zero (Nat.ne_zero_of_lt hle)
    exact .unary op hl (ih (Nat.le_of_succ_le_succ hle))
  | binary op hl _ _ iha ihb => exact .binary op hl (iha hle) (ihb hle)
  | tighter hl _ ih => exact .tighter hl (ih hle)

theorem Expr.Whole.deeper {n N : Nat} {ks : List Token.Kind} {e : Expr} (h : Expr.Whole n ks e)
    (hle : n ≤ N) : Expr.Whole N ks e :=
  ⟨h.1.deeper hle, h.2⟩

theorem Expr.Reads.deeper {n N : Nat} {ks rest : List Token.Kind} {e : Expr}
    (h : Expr.Reads n ks e rest) (hle : n ≤ N) : Expr.Reads N ks e rest := by
  obtain ⟨ms, hks, hwhole, hstop⟩ := h
  exact ⟨ms, hks, hwhole.deeper hle, hstop⟩

namespace Stmt

theorem Target.deeper {n N : Nat} {ks : List Token.Kind} {x : String} (h : Target n ks x)
    (hle : n ≤ N) : Target N ks x := by
  induction h generalizing N with
  | name => exact .name
  | paren _ ih =>
    obtain ⟨N, rfl⟩ := Nat.exists_eq_add_one_of_ne_zero (Nat.ne_zero_of_lt hle)
    exact .paren (ih (Nat.le_of_succ_le_succ hle))

theorem Derives.deeper {part : Part} {n N : Nat} {ks rest : List Token.Kind} {s : Stmt}
    (h : Derives part n ks s rest) (hle : n ≤ N) : Derives part N ks s rest := by
  induction h generalizing N with
  | assign target value => exact .assign (target.deeper hle) (value.deeper hle)
  | expr value => exact .expr (value.deeper hle)
  | input => exact .input
  | print value => exact .print (value.deeper hle)
  | loop test _ ih => exact .loop (test.deeper hle) (ih hle)
  | count first last _ ih => exact .count (first.deeper hle) (last.deeper hle) (ih hle)
  | cond _ ih => exact .cond (ih hle)
  | closed test _ ih => exact .closed (test.deeper hle) (ih hle)
  | lainnya test _ _ ih ih' => exact .lainnya (test.deeper hle) (ih hle) (ih' hle)
  | kalogak test _ _ ih ih' =>
    obtain ⟨N, rfl⟩ := Nat.exists_eq_add_one_of_ne_zero (Nat.ne_zero_of_lt hle)
    exact .kalogak (test.deeper hle) (ih hle) (ih' (Nat.le_of_succ_le_succ hle))
  | block _ ih =>
    obtain ⟨N, rfl⟩ := Nat.exists_eq_add_one_of_ne_zero (Nat.ne_zero_of_lt hle)
    exact .block (ih (Nat.le_of_succ_le_succ hle))
  | nil => exact .nil
  | cons _ _ ih ih' => exact .cons (ih hle) (ih' hle)

end Stmt

/-! ## What follows -/

/-- The kinds do not go on with an operator that joins operands. -/
def Joinless (ks : List Token.Kind) : Prop :=
  ∀ op : BinaryOp, ks.head? ≠ some op.kind

theorem Joinless.append {ks ms : List Token.Kind} (h : Joinless ks) (h' : Joinless ms) :
    Joinless (ks ++ ms) := by
  cases ks with
  | nil => exact h'
  | cons k ks => exact h

namespace Stmt

/-- If `more` goes on with an operator that joins operands, then so does `rest`. -/
def Milder (more rest : List Token.Kind) : Prop :=
  ∀ op : BinaryOp, rest.head? ≠ some op.kind → more.head? ≠ some op.kind

theorem milder_cons (k : Token.Kind) (ks ms : List Token.Kind) : Milder (k :: ks) (k :: ms) :=
  fun _ h => h

theorem milder_nil (rest : List Token.Kind) : Milder [] rest :=
  fun _ _ => (Option.some_ne_none _).symm

theorem Milder.append {more rest : List Token.Kind} (h : Milder more rest)
    (front : List Token.Kind) : Milder (front ++ more) (front ++ rest) := by
  cases front with
  | nil => exact h
  | cons k front => exact milder_cons k _ _

theorem Reads.cut {n : Nat} {ks rest : List Token.Kind} {e : Expr} (h : Expr.Reads n ks e rest) :
    ∃ front, ks = front ++ rest ∧
      ∀ more, Milder more rest → Expr.Reads n (front ++ more) e more := by
  obtain ⟨front, rfl, hwhole, hstop⟩ := h
  exact ⟨front, rfl, fun more hmore => ⟨front, rfl, hwhole, fun op => hmore op (hstop op)⟩⟩

/-- What is derived is derived in front of anything else, if its last expression does not go on. -/
theorem Derives.cut {part : Part} {n : Nat} {ks rest : List Token.Kind} {s : Stmt}
    (h : Derives part n ks s rest) : ∃ front, ks = front ++ rest ∧
      ∀ more, Milder more rest → Derives part n (front ++ more) s more := by
  induction h with
  | @assign n ks ms rest x e target value =>
    obtain ⟨front, rfl, hfront⟩ := Reads.cut value
    refine ⟨ks ++ .keyword .itu :: front, by simp, fun more hmore => ?_⟩
    rw [List.append_assoc]
    exact .assign target (hfront more hmore)
  | expr value =>
    obtain ⟨front, rfl, hfront⟩ := Reads.cut value
    exact ⟨front, rfl, fun more hmore => .expr (hfront more hmore)⟩
  | input => exact ⟨[_, _], rfl, fun _ _ => .input⟩
  | print value =>
    obtain ⟨front, rfl, hfront⟩ := Reads.cut value
    exact ⟨.keyword .tulis :: front, rfl, fun more hmore => .print (hfront more hmore)⟩
  | @loop n ks ms rest e body test _ ih =>
    obtain ⟨front, rfl, hfront⟩ := Reads.cut test
    obtain ⟨inside, rfl, hinside⟩ := ih
    refine ⟨.keyword .selama :: (front ++ (inside ++ [.keyword .yaudah])), by simp,
      fun more hmore => ?_⟩
    have hclose := milder_cons (.keyword .yaudah) more rest
    have hrun := Derives.loop (hfront _ (hclose.append inside)) (hinside _ hclose)
    simpa using hrun
  | @count n ks ms ls rest x a b body first last _ ih =>
    obtain ⟨front, rfl, hfront⟩ := Reads.cut first
    obtain ⟨behind, rfl, hbehind⟩ := Reads.cut last
    obtain ⟨inside, rfl, hinside⟩ := ih
    refine ⟨.keyword .ulangin :: .identifier x :: .keyword .dari :: (front ++ .keyword .sampe ::
      (behind ++ (inside ++ [.keyword .yaudah]))), by simp, fun more hmore => ?_⟩
    have hclose := milder_cons (.keyword .yaudah) more rest
    have hrun := Derives.count (x := x) (hfront _ (milder_cons (.keyword .sampe) _ _))
      (hbehind _ (hclose.append inside)) (hinside _ hclose)
    simpa using hrun
  | cond _ ih =>
    obtain ⟨front, rfl, hfront⟩ := ih
    exact ⟨.keyword .kalo :: front, rfl, fun more hmore => .cond (hfront more hmore)⟩
  | @closed n ks ms rest e yes test _ ih =>
    obtain ⟨front, rfl, hfront⟩ := Reads.cut test
    obtain ⟨inside, rfl, hinside⟩ := ih
    refine ⟨front ++ (inside ++ [.keyword .yaudah]), by simp, fun more hmore => ?_⟩
    have hclose := milder_cons (.keyword .yaudah) more rest
    have hrun := Derives.closed (hfront _ (hclose.append inside)) (hinside _ hclose)
    simpa using hrun
  | @lainnya n ks ms ls rest e yes no test _ _ ih ih' =>
    obtain ⟨front, rfl, hfront⟩ := Reads.cut test
    obtain ⟨inside, rfl, hinside⟩ := ih
    obtain ⟨behind, rfl, hbehind⟩ := ih'
    refine ⟨front ++ (inside ++ .keyword .lainnya :: (behind ++ [.keyword .yaudah])), by simp,
      fun more hmore => ?_⟩
    have hclose := milder_cons (.keyword .yaudah) more rest
    have hmiddle := milder_cons (.keyword .lainnya) (behind ++ .keyword .yaudah :: more)
      (behind ++ .keyword .yaudah :: rest)
    have hrun := Derives.lainnya (hfront _ (hmiddle.append inside)) (hinside _ hmiddle)
      (hbehind _ hclose)
    simpa using hrun
  | @kalogak n ks ms ls rest e yes no test _ _ ih ih' =>
    obtain ⟨front, rfl, hfront⟩ := Reads.cut test
    obtain ⟨inside, rfl, hinside⟩ := ih
    obtain ⟨behind, rfl, hbehind⟩ := ih'
    refine ⟨front ++ (inside ++ .keyword .kalogak :: behind), by simp, fun more hmore => ?_⟩
    have hmiddle := milder_cons (.keyword .kalogak) (behind ++ more) (behind ++ rest)
    have hrun := Derives.kalogak (hfront _ (hmiddle.append inside)) (hinside _ hmiddle)
      (hbehind more hmore)
    simpa using hrun
  | block _ ih =>
    obtain ⟨front, rfl, hfront⟩ := ih
    exact ⟨front, rfl, fun more hmore => .block (hfront more hmore)⟩
  | nil => exact ⟨[], rfl, fun _ _ => .nil⟩
  | cons _ _ ih ih' =>
    obtain ⟨front, rfl, hfront⟩ := ih
    obtain ⟨behind, rfl, hbehind⟩ := ih'
    refine ⟨front ++ behind, (List.append_assoc _ _ _).symm, fun more hmore => ?_⟩
    rw [List.append_assoc]
    exact .cons (hfront _ (hmore.append behind)) (hbehind more hmore)

/-- What is derived is derived in front of more tokens, too. -/
theorem Derives.append {part : Part} {n : Nat} {ks rest more : List Token.Kind} {s : Stmt}
    (h : Derives part n ks s rest) (hmore : Joinless more) :
    Derives part n (ks ++ more) s (rest ++ more) := by
  obtain ⟨front, rfl, hfront⟩ := h.cut
  rw [List.append_assoc]
  refine hfront _ fun op hop => ?_
  cases rest with
  | nil => exact hmore op
  | cons k rest => exact hop

/-! ## Statement lists -/

/-- Statements behind statements. -/
theorem Derives.followed {n : Nat} {ks ms rest : List Token.Kind} {ss ts : List Stmt}
    (h : Derives .statements n ks (.block ss) ms)
    (h' : Derives .statements n ms (.block ts) rest) :
    Derives .statements n ks (.block (ss ++ ts)) rest := by
  induction ss generalizing ks with
  | nil =>
    cases h with
    | nil => exact h'
  | cons s ss ih =>
    cases h with
    | cons first more => exact .cons first (ih more)

/-- No statement is derived from nothing. -/
theorem Derives.eq_nil {n : Nat} {ss : List Stmt} {rest : List Token.Kind}
    (h : Derives .statements n [] (.block ss) rest) : ss = [] := by
  cases h with
  | nil => rfl
  | cons first _ =>
    obtain ⟨k, ms, hks, -⟩ := first.begins
    cases hks

/-- A token that starts a statement joins no operands, unless it is `-`. -/
theorem Begins.ne_kind {k : Token.Kind} (h : Begins k) (hminus : k ≠ .symbol .minus)
    (op : BinaryOp) : k ≠ op.kind := by
  rintro rfl
  rcases h with h | h
  · cases op <;> exact absurd h (by decide)
  · cases op <;> first | exact hminus rfl | exact h

/-- The tokens of statements join no operands, unless the first one is `-`. -/
theorem Derives.joinless {n : Nat} {ks : List Token.Kind} {ss : List Stmt}
    (h : Derives .statements n ks (.block ss) []) (hminus : ks.head? ≠ some (.symbol .minus)) :
    Joinless ks := by
  intro op
  cases h with
  | nil => exact (Option.some_ne_none _).symm
  | cons first _ =>
    obtain ⟨k, ms, rfl, hk⟩ := first.begins
    exact fun heq => hk.ne_kind (fun h => hminus (congrArg some h)) op (Option.some.inj heq)

theorem Derives.exists_block {n : Nat} {ks rest : List Token.Kind} {s : Stmt}
    (h : Derives .statements n ks s rest) : ∃ ss, s = .block ss := by
  cases h with
  | nil => exact ⟨[], rfl⟩
  | cons => exact ⟨_, rfl⟩

/-! ## One tree only -/

/-- Tokens that are derived as one statement are derived as no other statements: the parser finds
    the statement that is derived with the most nesting levels. -/
theorem Derives.unique {n N : Nat} {ks : List Token.Kind} {ss : List Stmt} {s : Stmt}
    (h : Derives .statements n ks (.block ss) []) (hle : n ≤ N)
    (h' : Derives .statement N ks s []) {f : Feed} {line : Nat}
    (hf : f.Takes ks (.finish line)) : ss = [s] := by
  cases h with
  | nil =>
    obtain ⟨k, ms, hks, -⟩ := h'.begins
    cases hks
  | cons first more =>
    have hitu := more.not_itu (Option.some_ne_none _).symm
    obtain ⟨r, hparse, rfl, hr⟩ := (first.deeper hle).complete line hitu f hf
    obtain ⟨r', hparse', rfl, hr'⟩ := h'.complete line (Option.some_ne_none _).symm f hf
    cases hparse.symm.trans hparse'
    have hnone := hr.head?_finish.trans hr'.head?_finish.symm
    rw [List.head?_eq_none_iff.1 hnone] at more
    rw [more.eq_nil]

end Stmt

end Naskah
