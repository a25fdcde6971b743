import Naskah.Proofs.Descent.Expr
import Naskah.Stmt.Parse

/-
  A descent through a statement ends as the parser of statements does. `Parses act room p` is what is
  shown of every kind of statement: where so many nesting levels are left, the action ends as `p`
  does with the feed ahead, and the depth is what it was. Blocks and links lie one level deeper, so
  the induction is on the levels that are left (`statement_parses`); the loops over the statements of
  a block and of the program come to an end because every statement makes what is ahead shorter.
-/

namespace Naskah

namespace Descent

open Stmt.Parse (behindWord nested)

/-- The action ends as the parser does with the feed ahead. -/
def Parses {α : Type} {n : Feed → Nat} (act : Action α) (room : Nat)
    (p : (f : Feed) → Except Error (Parsed α (n f))) : Prop :=
  ∀ (s : State) (f : Feed), s.ahead.feed = f → maxNesting - s.depth = room →
    Ends act s (Done s) (p f)

theorem Done.room {α : Type} {n room : Nat} {s s' : State} {r : Parsed α n} {a : α}
    (h : Done s r a s') (hroom : maxNesting - s.depth = room) : maxNesting - s'.depth = room := by
  rw [h.depth, hroom]

/-! ## Words -/

/-- Parses a word and what stands behind it. -/
def keyed (k : Keyword) (p : Parser Stmt) : Parser Stmt := fun f =>
  match expectKeyword k f with
  | .error e => .error e
  | .ok word =>
    match p word.rest with
    | .error e => .error e
    | .ok s => .ok ⟨s.value, s.rest, Nat.lt_trans s.shorter word.shorter⟩

theorem keyed_eq_behindWord {k : Keyword} {p : Parser Stmt} {f : Feed} {line : Nat}
    {next : Except LexError { rest : Feed // rest.size < f.size }}
    (htake : f.take? = some (⟨.keyword k, line⟩, next)) : keyed k p f = behindWord next p := by
  cases next with
  | error e =>
    have hword : expectKeyword k f = .error (.lexical e) := by
      simp only [expectKeyword, expect, htake, if_true]
    rw [keyed, hword]
    rfl
  | ok behind =>
    have hword : expectKeyword k f = .ok ⟨(), behind.1, behind.2⟩ := by
      simp only [expectKeyword, expect, htake, if_true]
    rw [keyed, hword, behindWord]
    dsimp only
    cases p behind.1 <;> rfl

theorem keyed_parses {act : Action Stmt} {room : Nat} {p : Parser Stmt} (k : Keyword)
    (hact : Parses act room p) : Parses (takeKeyword k >>= fun _ => act) room (keyed k p) := by
  intro s f hf hroom
  unfold keyed
  refine (takeKeyword_ends k hf).seq fun word he _ s₁ hs₁ => ?_
  have hbehind := hact s₁ word.rest hs₁.done.feed (hs₁.done.room hroom)
  simp only [he]
  cases hp : p word.rest with
  | error e =>
    rw [hp] at hbehind
    exact .error hbehind.fails
  | ok r =>
    rw [hp] at hbehind
    exact hbehind.imp fun _ _ hr => ⟨hr.value, hr.feed, hr.depth.trans hs₁.done.depth⟩

/-! ## Simple statements -/

theorem input_parses {room : Nat} :
    Parses (call .input) room (keyed .baca Stmt.Parse.inputTarget) := by
  have htarget : Parses (do return .input (← takeName .inputTarget)) room
      Stmt.Parse.inputTarget := by
    intro s f hf _
    unfold Stmt.Parse.inputTarget
    refine (takeName_ends .inputTarget hf).seq fun target he _ s₁ hs₁ => ?_
    simp only [he]
    exact ends_return ⟨congrArg Stmt.input hs₁.value, hs₁.done.feed, hs₁.done.depth⟩
  intro s f hf hroom
  exact .call (keyed_parses .baca htarget s f hf hroom)

theorem print_parses {room : Nat} :
    Parses (call .print) room (keyed .tulis (Stmt.Parse.printed room)) := by
  have hvalue : Parses (do return .print (← call .expression)) room (Stmt.Parse.printed room) := by
    intro s f hf hroom
    unfold Stmt.Parse.printed
    refine (expression_ends hf hroom).seq fun value he _ s₁ hs₁ => ?_
    simp only [he]
    exact ends_return ⟨congrArg Stmt.print hs₁.value, hs₁.feed, hs₁.depth⟩
  intro s f hf hroom
  exact .call (keyed_parses .tulis hvalue s f hf hroom)

theorem assignmentOrExpr_parses {room : Nat} :
    Parses (call .assignmentOrExpr) room (Stmt.Parse.assignmentOrExpr room) := by
  intro s f hf hroom
  refine .call ?_
  unfold Stmt.Parse.assignmentOrExpr
  refine (expression_ends hf hroom).seq fun left he _ s₁ hs₁ => .current ?_
  simp only [he]
  obtain rfl := hs₁.value
  have hexpr : Ends (return .expr left.value) s₁ (Done s)
      (.ok (⟨.expr left.value, left.rest, left.shorter⟩ : Parsed Stmt f.size)) :=
    ends_return ⟨rfl, hs₁.feed, hs₁.depth⟩
  rcases htake : left.rest.take? with _ | ⟨⟨kind, tokenLine⟩, next⟩
  · rw [Lookahead.current_of_take?_none hs₁.feed htake]
    exact hexpr
  · rw [Lookahead.current_of_take? hs₁.feed htake]
    by_cases hitu : kind = .keyword .itu
    · subst hitu
      cases hleft : left.value with
      | «variable» target =>
        cases next with
        | error e => exact .error (pass_error hs₁.feed htake).bind
        | ok behind =>
          refine (pass_ok hs₁.feed htake).next fun _ s₂ hs₂ => ?_
          have hdepth := hs₂.depth.trans hs₁.depth
          refine (expression_ends hs₂.feed (by rw [hdepth, hroom])).seq fun value he _ s₃ hs₃ => ?_
          simp only [he]
          exact ends_return
            ⟨congrArg (Stmt.assign target) hs₃.value, hs₃.feed, hs₃.depth.trans hdepth⟩
      | _ => exact .error (fails_refuse _)
    · split
      · next h =>
        cases h
        exact (hitu rfl).elim
      · split
        · next h =>
          cases h
          exact (hitu rfl).elim
        · exact hexpr

/-! ## Blocks -/

/-- Each statement of a block makes what is ahead shorter, so the block comes to an end. -/
theorem statements_ends {room : Nat} {p : Parser Stmt} (hp : Parses (call .statement) room p)
    (construct : Construct) (openedAt : Nat) (s : State) (f : Feed) (hf : s.ahead.feed = f)
    (hroom : maxNesting - s.depth = room) :
    Ends (call (.statements construct openedAt)) s (Done s)
      (Stmt.Parse.statements p construct openedAt f) := by
  have hnothing : Ends (return []) s (Done s)
      (.ok (⟨[], f, Nat.lt_succ_self _⟩ : Parsed (List Stmt) (f.size + 1))) :=
    ends_return ⟨rfl, hf, rfl⟩
  refine .call ?_
  rw [Stmt.Parse.statements]
  refine .kind ?_
  rw [hf]
  rcases f.current? with _ | kind
  · exact .error (fails_refuse _)
  · by_cases hcloses : kind ∈ [.keyword .yaudah, .keyword .kalogak, .keyword .lainnya]
    · dsimp only
      rw [if_pos hcloses]
      simp only [List.mem_cons, List.not_mem_nil, or_false] at hcloses
      rcases hcloses with rfl | rfl | rfl <;> exact hnothing
    · dsimp only
      rw [if_neg hcloses]
      split
      · next h => cases h
      · next h =>
        cases h
        exact absurd (by decide) hcloses
      · next h =>
        cases h
        exact absurd (by decide) hcloses
      · next h =>
        cases h
        exact absurd (by decide) hcloses
      · refine (hp s f hf hroom).seq fun first he _ s₁ hs₁ => ?_
        simp only [he]
        have hshorter : first.rest.size < f.size := first.shorter
        refine (statements_ends hp construct openedAt s₁ first.rest hs₁.feed
          (hs₁.room hroom)).seq fun more he _ s₂ hs₂ => ?_
        simp only [he]
        exact ends_return ⟨congrArg₂ List.cons hs₁.value hs₂.value, hs₂.feed,
          hs₂.depth.trans hs₁.depth⟩
termination_by f.size
decreasing_by exact hshorter

/-- What lies one nesting level deeper is parsed as it should be. -/
structure Deeper (room : Nat) : Prop where
  statement : ∀ r, room = r + 1 → Parses (call .statement) r (Stmt.Parse.statement r (nested r))
  conditional : ∀ r, room = r + 1 → ∀ openedAt,
    Parses (call (.conditional openedAt)) r (Stmt.Parse.conditional r (nested r) openedAt)

section

variable {room : Nat} (hdeeper : Deeper room)
include hdeeper

theorem block_parses (construct : Construct) (openedAt : Nat) :
    Parses (call (.block construct openedAt)) room ((nested room).block construct openedAt) := by
  intro s f hf hroom
  refine .call ?_
  refine .enter hroom (fun hfull => ?_) fun r hr hroom₁ => ?_
  · subst hfull
    rw [hf]
    rfl
  · have hbody := statements_ends (hdeeper.statement r hr) construct openedAt
      { s with depth := s.depth + 1 } f hf hroom₁
    subst hr
    dsimp only [nested]
    refine hbody.seq fun body he _ s₁ hs₁ => .leave hs₁.depth ?_
    simp only [he]
    exact ends_return ⟨congrArg Stmt.block hs₁.value, hs₁.feed, rfl⟩

/-- A link lies one nesting level deeper, and the conditional within closes the chain. -/
theorem conditional_parses (openedAt : Nat) :
    Parses (call (.conditional openedAt)) room
      (Stmt.Parse.conditional room (nested room) openedAt) := by
  intro s f hf hroom
  refine .call ?_
  unfold Stmt.Parse.conditional
  refine (expression_ends hf hroom).seq fun test he _ s₁ hs₁ => ?_
  simp only [he]
  obtain rfl := hs₁.value
  refine (block_parses hdeeper .cond openedAt s₁ test.rest hs₁.feed (hs₁.room hroom)).seq
    fun yes he _ s₂ hs₂ => .kind ?_
  simp only [he]
  obtain rfl := hs₂.value
  have hdepth₂ := hs₂.depth.trans hs₁.depth
  rw [hs₂.feed]
  rcases htake : yes.rest.take? with _ | ⟨⟨kind, tokenLine⟩, next⟩
  · rw [Feed.take?_none htake]
    exact unexpected_finish hs₂.feed htake
  · rw [Feed.take?_kind htake]
    split
    · next h =>
      cases h
      cases next with
      | error e => exact .error (pass_error hs₂.feed htake).bind
      | ok behind =>
        refine (pass_ok hs₂.feed htake).next fun _ s₃ hs₃ => ?_
        have hdepth₃ := hs₃.depth.trans hdepth₂
        refine .enter (by rw [hdepth₃, hroom]) (fun hfull => ?_) fun r hr hroom₃ => ?_
        · subst hfull
          rw [hs₃.feed]
          rfl
        · have hlink := hdeeper.conditional r hr openedAt { s₃ with depth := s₃.depth + 1 }
            behind.1 hs₃.feed hroom₃
          subst hr
          dsimp only [nested]
          refine hlink.seq fun no he _ s₄ hs₄ => .leave hs₄.depth ?_
          simp only [he]
          exact ends_return ⟨congrArg (Stmt.cond _ _) hs₄.value, hs₄.feed, hdepth₃⟩
    · next h =>
      cases h
      cases next with
      | error e => exact .error (pass_error hs₂.feed htake).bind
      | ok behind =>
        refine (pass_ok hs₂.feed htake).next fun _ s₃ hs₃ => ?_
        have hdepth₃ := hs₃.depth.trans hdepth₂
        refine (block_parses hdeeper .cond openedAt s₃ behind.1 hs₃.feed
          (by rw [hdepth₃, hroom])).seq fun no he _ s₄ hs₄ => ?_
        simp only [he]
        refine (takeKeyword_ends .yaudah hs₄.feed).seq fun close he _ s₅ hs₅ => ?_
        simp only [he]
        exact ends_return ⟨congrArg (Stmt.cond _ _) hs₄.value, hs₅.done.feed,
          hs₅.done.depth.trans (hs₄.depth.trans hdepth₃)⟩
    · next h =>
      cases h
      cases next with
      | error e => exact .error (pass_error hs₂.feed htake).bind
      | ok behind =>
        exact (pass_ok hs₂.feed htake).next fun _ s₃ hs₃ =>
          ends_return ⟨rfl, hs₃.feed, hs₃.depth.trans hdepth₂⟩
    · next hkalogak hlainnya hyaudah =>
      have htoken := Lookahead.current_of_take? hs₂.feed htake
      dsimp only
      split
      · exact (hkalogak rfl).elim
      · exact (hlainnya rfl).elim
      · exact (hyaudah rfl).elim
      · exact (hkalogak rfl).elim
      · exact (hlainnya rfl).elim
      · exact (hyaudah rfl).elim
      · exact unexpected_token htoken

theorem counted_parses (openedAt : Nat) :
    Parses (do
      let counter ← takeName .loopVariable
      takeKeyword .dari
      let first ← call .expression
      takeKeyword .sampe
      let last ← call .expression
      let body ← call (.block .count openedAt)
      takeKeyword .yaudah
      return .count counter first last body) room
      (Stmt.Parse.counted room (nested room) openedAt) := by
  intro s f hf hroom
  unfold Stmt.Parse.counted
  refine (takeName_ends .loopVariable hf).seq fun counter he _ s₁ hs₁ => ?_
  simp only [he]
  obtain rfl := hs₁.value
  refine (takeKeyword_ends .dari hs₁.done.feed).seq fun start he _ s₂ hs₂ => ?_
  simp only [he]
  have hdepth₂ := hs₂.done.depth.trans hs₁.done.depth
  refine (expression_ends hs₂.done.feed (by rw [hdepth₂, hroom])).seq fun first he _ s₃ hs₃ => ?_
  simp only [he]
  obtain rfl := hs₃.value
  refine (takeKeyword_ends .sampe hs₃.feed).seq fun stop he _ s₄ hs₄ => ?_
  simp only [he]
  have hdepth₄ := hs₄.done.depth.trans (hs₃.depth.trans hdepth₂)
  refine (expression_ends hs₄.done.feed (by rw [hdepth₄, hroom])).seq fun last he _ s₅ hs₅ => ?_
  simp only [he]
  obtain rfl := hs₅.value
  have hdepth₅ := hs₅.depth.trans hdepth₄
  refine (block_parses hdeeper .count openedAt s₅ last.rest hs₅.feed
    (by rw [hdepth₅, hroom])).seq fun body he _ s₆ hs₆ => ?_
  simp only [he]
  obtain rfl := hs₆.value
  refine (takeKeyword_ends .yaudah hs₆.feed).seq fun close he _ s₇ hs₇ => ?_
  simp only [he]
  exact ends_return ⟨rfl, hs₇.done.feed, hs₇.done.depth.trans (hs₆.depth.trans hdepth₅)⟩

theorem repeated_parses (openedAt : Nat) :
    Parses (do
      let test ← call .expression
      let body ← call (.block .loop openedAt)
      takeKeyword .yaudah
      return .loop test body) room (Stmt.Parse.repeated room (nested room) openedAt) := by
  intro s f hf hroom
  unfold Stmt.Parse.repeated
  refine (expression_ends hf hroom).seq fun test he _ s₁ hs₁ => ?_
  simp only [he]
  obtain rfl := hs₁.value
  refine (block_parses hdeeper .loop openedAt s₁ test.rest hs₁.feed (hs₁.room hroom)).seq
    fun body he _ s₂ hs₂ => ?_
  simp only [he]
  obtain rfl := hs₂.value
  refine (takeKeyword_ends .yaudah hs₂.feed).seq fun close he _ s₃ hs₃ => ?_
  simp only [he]
  exact ends_return
    ⟨rfl, hs₃.done.feed, hs₃.done.depth.trans (hs₂.depth.trans hs₁.depth)⟩

/-! ## Statements -/

theorem count_parses : Parses (call .count) room fun f =>
    keyed .ulangin (Stmt.Parse.counted room (nested room) f.line) f := by
  intro s f hf hroom
  refine .call (.line ?_)
  rw [hf]
  exact keyed_parses .ulangin (counted_parses hdeeper f.line) s f hf hroom

theorem cond_parses : Parses (call .cond) room fun f =>
    keyed .kalo (Stmt.Parse.conditional room (nested room) f.line) f := by
  intro s f hf hroom
  refine .call (.line ?_)
  rw [hf]
  exact keyed_parses .kalo (conditional_parses hdeeper f.line) s f hf hroom

theorem loop_parses : Parses (call .loop) room fun f =>
    keyed .selama (Stmt.Parse.repeated room (nested room) f.line) f := by
  intro s f hf hroom
  refine .call (.line ?_)
  rw [hf]
  exact keyed_parses .selama (repeated_parses hdeeper f.line) s f hf hroom

/-- The current token decides on the kind of the statement. -/
theorem statement_parses_of_deeper : Parses (call .statement) room (Stmt.Parse.statement room (nested room)) := by
  intro s f hf hroom
  refine .call (.kind ?_)
  unfold Stmt.Parse.statement
  rw [hf]
  have hother := assignmentOrExpr_parses s f hf hroom
  rcases htake : f.take? with _ | ⟨⟨kind, openedAt⟩, next⟩
  · rw [Feed.take?_none htake]
    exact hother
  · have hline : f.line = openedAt := Feed.take?_line htake
    rw [Feed.take?_kind htake]
    split
    · next h =>
      cases h
      have hcount := count_parses hdeeper s f hf hroom
      dsimp only at hcount
      rwa [keyed_eq_behindWord htake, hline] at hcount
    · next h =>
      cases h
      have hcond := cond_parses hdeeper s f hf hroom
      dsimp only at hcond
      rwa [keyed_eq_behindWord htake, hline] at hcond
    · next h =>
      cases h
      have hinput := input_parses s f hf hroom
      rwa [keyed_eq_behindWord htake] at hinput
    · next h =>
      cases h
      have hprint := print_parses s f hf hroom
      rwa [keyed_eq_behindWord htake] at hprint
    · next h =>
      cases h
      have hloop := loop_parses hdeeper s f hf hroom
      dsimp only at hloop
      rwa [keyed_eq_behindWord htake, hline] at hloop
    · next hcount hcond hinput hprint hloop =>
      split
      · next h =>
        cases h
        exact (hcount rfl).elim
      · next h =>
        cases h
        exact (hcond rfl).elim
      · next h =>
        cases h
        exact (hinput rfl).elim
      · next h =>
        cases h
        exact (hprint rfl).elim
      · next h =>
        cases h
        exact (hloop rfl).elim
      · exact hother

end

theorem deeper (room : Nat) : Deeper room := by
  induction room with
  | zero =>
    constructor
    · intro r h
      cases h
    · intro r h
      cases h
  | succ room ih =>
    constructor
    · intro r h
      cases h
      exact statement_parses_of_deeper ih
    · intro r h
      cases h
      exact conditional_parses ih

/-- A descent through a statement ends as the parser does. -/
theorem statement_parses (room : Nat) : Parses (call .statement) room (Stmt.parse room) :=
  statement_parses_of_deeper (deeper room)

/-! ## Programs -/

/-- Behind all statements of a program only the end of the text is ahead. -/
structure AllDone (s : State) (p a : List Stmt) (s' : State) : Prop where
  value : a = p
  finished : s'.ahead.current.kind? = none
  depth : s'.depth = s.depth

/-- Each statement makes what is ahead shorter, so the program comes to an end, however many nesting
    levels are left; with all of them it ends as the parser of programs does. -/
theorem program_ends (room : Nat) (f : Feed) :
    ∃ x, (room = maxNesting → x = Stmt.parseAll f) ∧
      ∀ s : State, s.ahead.feed = f → maxNesting - s.depth = room →
        Ends (call .program) s (AllDone s) x := by
  rw [Stmt.parseAll]
  cases hkind : f.current? with
  | none =>
    refine ⟨.ok [], fun _ => rfl, fun s hf _ => ?_⟩
    refine .call (.kind ?_)
    rw [hf, hkind]
    refine ends_return ⟨rfl, ?_, rfl⟩
    rw [← Lookahead.current?_feed, hf, hkind]
  | some kind =>
    have hfirst (s : State) (hf : s.ahead.feed = f) (hroom : maxNesting - s.depth = room) :=
      statement_parses room s f hf hroom
    have hstart {x : Except Error (List Stmt)} {s : State} (hf : s.ahead.feed = f)
        (h : Ends (do
          let first ← call .statement
          let more ← call .program
          return first :: more) s (AllDone s) x) : Ends (call .program) s (AllDone s) x := by
      refine .call (.kind ?_)
      rwa [hf, hkind]
    cases he : Stmt.parse room f with
    | error e =>
      refine ⟨.error e, ?_, fun s hf hroom => hstart hf ?_⟩
      · rintro rfl
        rw [he]
      · have hfails := hfirst s hf hroom
        rw [he] at hfails
        exact .error hfails.fails.bind
    | ok first =>
      have hshorter : first.rest.size < f.size := first.shorter
      obtain ⟨x, hx, hmore⟩ := program_ends room first.rest
      refine ⟨x.map (first.value :: ·), ?_, fun s hf hroom => hstart hf ?_⟩
      · rintro rfl
        rw [he, hx rfl]
        dsimp only
        cases Stmt.parseAll first.rest <;> rfl
      · have hone := hfirst s hf hroom
        rw [he] at hone
        refine hone.next fun _ s₁ hs₁ => ?_
        refine (hmore s₁ hs₁.feed (hs₁.room hroom)).seq
          (fun more he _ s₂ hs₂ => ?_) fun e he => by rw [he]; rfl
        rw [he]
        exact ends_return ⟨congrArg₂ List.cons hs₁.value hs₂.value, hs₂.finished,
          hs₂.depth.trans hs₁.depth⟩
termination_by f.size
decreasing_by exact hshorter

end Descent

end Naskah
