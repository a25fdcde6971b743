import Naskah.Proofs.Descent.Steps
import Naskah.Proofs.Expr.Soundness

/-
  A descent through an expression ends as the parser of expressions does. `Does act line room p` is
  what is carried along the levels: in every state with so many levels of nesting left, the action
  ends as `p` does with the feed ahead, the depth is what it was, and exactly the operators of the
  expression have been counted. Each way to build a parser keeps it, so the actions of every level
  have it (`expr_does`), by induction on the nesting levels that are left.
-/

namespace Naskah

namespace Descent

open Naskah.Expr (Level)
open Naskah.Expr.Parse

/-- What an operand leaves behind, of which `before` operators had been counted at `s`. -/
structure Read (s : State) (before : Nat) {n : Nat} (r : Operand n) (e : Expr) (s' : State) :
    Prop where
  expr : e = r.expr
  moved : Moved s r.rest r.used s'
  counted : r.used + before = s.operators + r.expr.operators

/-- The action ends as the parser does with the feed ahead. -/
def Does (act : Action Expr) (line room : Nat) (p : OperandParser) : Prop :=
  ∀ (s : State) (f : Feed) (used : Nat), Stands s f used line room →
    Ends act s (Read s 0) (p f used)

/-! ## Joined operands -/

/-- Every round of the loop passes an operator, so what is ahead gets shorter and the loop comes to
    an end. -/
theorem joined_ends (op? : Token.Kind → Option BinaryOp) {operand : Level} {p : OperandParser}
    {line room N : Nat} (hp : Does (call (.expr operand)) line room p) (left : Operand N) (s : State)
    (hs : Stands s left.rest left.used line room) :
    Ends (call (.joined op? operand left.expr)) s (Read s left.expr.operators)
      (chain op? p line left) := by
  have hstay : Read s left.expr.operators left left.expr s :=
    ⟨rfl, ⟨hs.feed, hs.operators, rfl, rfl⟩, by rw [hs.operators]⟩
  refine .call ?_
  rw [chain]
  refine .kind ?_
  rw [hs.feed]
  rcases htake : left.rest.take? with _ | ⟨t, next⟩
  · rw [Feed.take?_none htake]
    exact ends_return hstay
  · rw [Feed.take?_kind htake, Option.bind_some]
    dsimp only
    cases hop : op? t.kind with
    | none => exact ends_return hstay
    | some op =>
      refine (operator_ends hs htake).seq fun r he _ s₁ hs₁ => ?_
      obtain ⟨used, behind⟩ := r
      obtain ⟨hs₁, hcounted₁⟩ := hs₁
      simp only [he]
      refine (hp s₁ behind.1 used (hs.moved hs₁)).seq fun right he e s₂ hs₂ => ?_
      simp only [he]
      obtain rfl := hs₂.expr
      have hmoved := hs₁.trans hs₂.moved
      have hshorter : right.rest.size < left.rest.size := Nat.lt_trans right.shorter behind.2
      -- The operators of the right operand are counted by now, with the one before it.
      have hmore := joined_ends op? hp
        ⟨.binary op left.expr right.expr, right.used, right.rest,
          Nat.lt_trans right.shorter (Nat.lt_trans behind.2 left.shorter)⟩
        s₂ (hs.moved hmoved)
      refine hmore.mono fun r e s' hr => ⟨hr.expr, hmoved.trans hr.moved, ?_⟩
      have hcounted := hr.counted
      have hcounted₂ := hs₂.counted
      rw [hmoved.operators] at hcounted
      rw [hs₁.operators] at hcounted₂
      simp only [Expr.operators] at hcounted
      omega
termination_by left.rest.size
decreasing_by exact hshorter

theorem joined_does {op? : Token.Kind → Option BinaryOp} {operand l : Level} {p : OperandParser}
    {line room : Nat} (hp : Does (call (.expr operand)) line room p)
    (hl : expr l = call (.expr operand) >>= fun left => call (.joined op? operand left)) :
    Does (call (.expr l)) line room (Expr.Parse.joined op? p line) := by
  intro s f used hs
  refine .call ?_
  rw [Call.body, hl]
  unfold Expr.Parse.joined
  refine (hp s f used hs).seq fun left he e s₁ hs₁ => ?_
  simp only [he]
  obtain rfl := hs₁.expr
  refine (joined_ends op? hp left s₁ (hs.moved hs₁.moved)).mono fun r e s' hr =>
    ⟨hr.expr, hs₁.moved.trans hr.moved, ?_⟩
  have hcounted := hr.counted
  have hcounted₁ := hs₁.counted
  rw [hs₁.moved.operators] at hcounted
  omega

/-! ## Comparisons, marks and literals -/

theorem comparison_does {p : OperandParser} {line room : Nat}
    (hp : Does (call (.expr .sum)) line room p) :
    Does (call (.expr .comparison)) line room (compared p line) := by
  intro s f used hs
  refine .call ?_
  unfold compared
  refine (hp s f used hs).seq fun left he e s₁ hs₁ => .kind ?_
  simp only [he]
  obtain rfl := hs₁.expr
  rw [hs₁.moved.feed]
  rcases htake : left.rest.take? with _ | ⟨t, next⟩
  · rw [Feed.take?_none htake]
    exact ends_return hs₁
  · rw [Feed.take?_kind htake, Option.bind_some]
    dsimp only
    cases hop : relational? t.kind with
    | none => exact ends_return hs₁
    | some op =>
      refine (operator_ends (hs.moved hs₁.moved) htake).seq fun r he _ s₂ hs₂ => ?_
      obtain ⟨used, behind⟩ := r
      obtain ⟨hs₂, hcounted₂⟩ := hs₂
      simp only [he]
      have hmoved₂ := hs₁.moved.trans hs₂
      refine (hp s₂ behind.1 used (hs.moved hmoved₂)).seq fun right he e s₃ hs₃ => .kind ?_
      simp only [he]
      obtain rfl := hs₃.expr
      rw [hs₃.moved.feed]
      cases hchained : right.rest.current?.bind relational? with
      | some op' =>
        refine .line ?_
        rw [hs₃.moved.feed]
        exact .error (fails_refuse _)
      | none =>
        refine ends_return ⟨rfl, hmoved₂.trans hs₃.moved, ?_⟩
        have hcounted₁ := hs₁.counted
        have hcounted₃ := hs₃.counted
        rw [hs₁.moved.operators] at hcounted₂
        rw [hs₂.operators] at hcounted₃
        simp only [Expr.operators]
        omega

theorem marked_does (op : UnaryOp) {operand otherwise : Level} {p : OperandParser}
    {line room : Nat}
    (hdeeper : ∀ r, room = r + 1 → Does (call (.expr operand)) line r (nested line room operand))
    (hotherwise : Does (call (.expr otherwise)) line room p) :
    Does (marked op operand otherwise) line room
      (Expr.Parse.marked op op.kind (nested line room operand) p line) := by
  intro s f used hs
  unfold Expr.Parse.marked
  refine .kind ?_
  rw [hs.feed]
  rcases htake : f.take? with _ | ⟨t, next⟩
  · rw [Feed.take?_none htake, if_neg (Option.some_ne_none _).symm]
    exact hotherwise s f used hs
  · rw [Feed.take?_kind htake]
    by_cases hmark : t.kind = op.kind
    · rw [if_pos (congrArg some hmark)]
      dsimp only
      rw [if_pos hmark]
      refine (operator_ends hs htake).seq fun r he _ s₁ hs₁ => ?_
      obtain ⟨used, behind⟩ := r
      obtain ⟨hs₁, hcounted₁⟩ := hs₁
      simp only [he]
      refine .enter (hs.moved hs₁).room (fun hfull => ?_) fun r hr hroom₁ => ?_
      · subst hfull
        rw [hs₁.feed]
        rfl
      · have hinner := hdeeper r hr { s₁ with depth := s₁.depth + 1 } behind.1 used
          ⟨hs₁.feed, hs₁.operators, hs₁.startLine.trans hs.startLine, hroom₁⟩
        refine hinner.seq fun inner he e s₂ hs₂ => .leave hs₂.moved.depth ?_
        simp only [he]
        obtain rfl := hs₂.expr
        refine ends_return ⟨rfl, hs₁.trans ⟨hs₂.moved.feed, hs₂.moved.operators, rfl,
          hs₂.moved.startLine⟩, ?_⟩
        have hcounted₂ := hs₂.counted
        simp only [hs₁.operators] at hcounted₂
        simp only [Expr.operators]
        omega
    · rw [if_neg fun h => hmark (Option.some.inj h)]
      dsimp only
      rw [if_neg hmark]
      exact hotherwise s f used hs

theorem literal_does {line room : Nat}
    (hdeeper : ∀ r, room = r + 1 → Does (call (.expr .logical)) line r (nested line room .logical)) :
    Does (call (.expr .literal)) line room (Expr.Parse.literal (nested line room)) := by
  intro s f used hs
  refine .call ?_
  unfold Expr.Parse.literal
  refine .current ?_
  rcases htake : f.take? with _ | ⟨⟨kind, tokenLine⟩, e | rest⟩
  · rw [Lookahead.current_of_take?_none hs.feed htake]
    exact .error (fails_refuse _)
  · rw [Lookahead.current_of_take? hs.feed htake]
    exact .error (pass_error hs.feed htake).bind
  · rw [Lookahead.current_of_take? hs.feed htake]
    refine (pass_ok hs.feed htake).next fun _ s₁ hs₁ => ?_
    have hleaf : Stands s₁ rest.1 used line room := hs.operators ▸ hs.moved hs₁
    -- A literal of one token has no operators.
    have hatom (e : Expr) (he : e.operators = 0) :
        Read s 0 (⟨e, used, rest.1, rest.2⟩ : Operand f.size) e s₁ :=
      ⟨rfl, hs.operators ▸ hs₁, by rw [he, hs.operators]⟩
    cases kind with
    | number digits =>
      dsimp only
      cases hread : Numeral.read? digits.toList with
      | none => exact .error (fails_refuse _)
      | some x => exact ends_return (hatom _ rfl)
    | string content => exact ends_return (hatom _ rfl)
    | identifier name => exact ends_return (hatom _ rfl)
    | keyword w =>
      cases w with
      | benar | salah => exact ends_return (hatom _ rfl)
      | _ => exact .error (fails_refuse _)
    | symbol w =>
      cases w with
      | parenOpen =>
        refine .enter hleaf.room (fun hfull => ?_) fun r hr hroom₁ => ?_
        · subst hfull
          rw [hs₁.feed]
          rfl
        · have hinner := hdeeper r hr { s₁ with depth := s₁.depth + 1 } rest.1 used
            ⟨hleaf.feed, hleaf.operators, hleaf.startLine, hroom₁⟩
          refine hinner.seq fun inner he e s₂ hs₂ => ?_
          simp only [he]
          obtain rfl := hs₂.expr
          refine (takeSymbol_ends .parenClose hs₂.moved.feed).seq fun close he _ s₃ hs₃ =>
            .leave (hs₃.moved.depth.trans hs₂.moved.depth) ?_
          simp only [he]
          refine ends_return ⟨rfl, ⟨hs₃.moved.feed, hs₃.moved.operators.trans hs₂.moved.operators,
            hs₁.depth, hs₃.moved.startLine.trans (hs₂.moved.startLine.trans hs₁.startLine)⟩, ?_⟩
          have hcounted₂ := hs₂.counted
          simpa only [hs₁.operators] using hcounted₂
      | _ => exact .error (fails_refuse _)

/-! ## Levels -/

/-- From the literals up, if the operands one nesting level deeper do. -/
theorem levels_do {line room : Nat}
    (hdeeper : ∀ l r, room = r + 1 → Does (call (.expr l)) line r (nested line room l)) (l : Level) :
    Does (call (.expr l)) line room (atLevel (nested line room) line l) := by
  have hliteral := literal_does (hdeeper .logical)
  have hsign : Does (call (.expr .sign)) line room (sign (nested line room) line) := by
    intro s f used hs
    exact .call (marked_does .negate (hdeeper .sign) hliteral s f used hs)
  have hproduct : Does (call (.expr .product)) line room (product (nested line room) line) :=
    joined_does hsign rfl
  have hsum : Does (call (.expr .sum)) line room (sum (nested line room) line) :=
    joined_does hproduct rfl
  have hcomparison := comparison_does hsum
  have hnegation : Does (call (.expr .negation)) line room (negation (nested line room) line) := by
    intro s f used hs
    exact .call (marked_does .not (hdeeper .negation) hcomparison s f used hs)
  have hlogical : Does (call (.expr .logical)) line room (logical (nested line room) line) :=
    joined_does hnegation rfl
  cases l <;> assumption

/-- A descent through a level ends as the parser of the level does. -/
theorem expr_does (line room : Nat) (l : Level) :
    Does (call (.expr l)) line room (atLevel (nested line room) line l) := by
  induction room generalizing l with
  | zero => exact levels_do (fun _ _ h => by cases h) l
  | succ room ih =>
    refine levels_do (fun l r h => ?_) l
    cases h
    exact ih l

/-! ## Whole expressions -/

/-- What a whole expression leaves behind: exactly its own operators are counted. -/
structure Whole {n : Nat} (s : State) (r : Parsed Expr n) (e : Expr) (s' : State) : Prop
    extends Done s r e s' where
  counted : s'.operators = e.operators

theorem expression_ends {s : State} {f : Feed} {room : Nat} (hf : s.ahead.feed = f)
    (hroom : maxNesting - s.depth = room) :
    Ends (call .expression) s (Whole s) (Expr.parse room f) := by
  have hwhole := expr_does f.line room .logical
    { s with operators := 0, startLine := s.ahead.current.line } f 0
    ⟨hf, rfl, by rw [← hf, Lookahead.line_feed], hroom⟩
  refine .call (.step rfl rfl ?_)
  unfold Expr.parse
  split
  · next e he =>
    rw [he] at hwhole
    exact .error hwhole.fails
  · next whole he =>
    rw [he] at hwhole
    refine hwhole.imp fun e s' h => ⟨⟨h.expr, h.moved.feed, h.moved.depth⟩, ?_⟩
    rw [h.moved.operators, h.expr]
    exact h.counted.trans (Nat.zero_add _)

end Descent

end Naskah
