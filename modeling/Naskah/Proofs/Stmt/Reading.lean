import Naskah.Proofs.Expr.Reading
import Naskah.Proofs.Stmt.Completeness

/-
  The parsers of statements are readings, like those of expressions, and parallel to themselves
  (`parseAll_parallel`). The line on which a block was opened is handed on to the complaint that it
  is not closed, so where lines are renumbered it is renumbered with them.
-/

namespace Naskah

open Reading

namespace Stmt.Parse

variable {room line openedAt : Nat} {inner : Nested}

/-! ## Statements as readings -/

/-- What is read behind the first branch of a conditional, where a token of the given kind is the
    current one. -/
def conditionalBehind (inner : Nested) (openedAt : Nat) (test : Expr) (yes : Stmt) :
    Token.Kind → Reading Stmt
  | .keyword .kalogak =>
    pass.andThen fun _ =>
      (reading (inner.link openedAt)).andThen fun no => done (.cond test yes no)
  | .keyword .lainnya =>
    pass.andThen fun _ =>
      (reading (inner.block .cond openedAt)).andThen fun no =>
        (reading (expectKeyword .yaudah)).andThen fun _ => done (.cond test yes no)
  | .keyword .yaudah => pass.andThen fun _ => done (.cond test yes .empty)
  | kind => refuse (.unexpected (.keyword .yaudah) (.token kind))

theorem conditional_reading :
    reading (conditional room inner openedAt) =
      (reading (Expr.parse room)).andThen fun test =>
        (reading (inner.block .cond openedAt)).andThen fun yes =>
          look (refuse (.unexpectedEnd (.keyword .yaudah)))
            (conditionalBehind inner openedAt test yes) := by
  funext f
  dsimp only [reading, conditional, andThen]
  cases Expr.parse room f with
  | error e => rfl
  | ok test =>
    dsimp only [Parsed.view]
    cases inner.block .cond openedAt test.rest with
    | error e => rfl
    | ok yes =>
      obtain ⟨yes, rest, shorter⟩ := yes
      dsimp only [look]
      cases rest with
      | finish line => rfl
      | faulty t e =>
        obtain ⟨kind, line⟩ := t
        dsimp only [Feed.take?, Feed.current?]
        cases kind with
        | keyword k => cases k <;> rfl
        | _ => rfl
      | token t rest =>
        obtain ⟨kind, line⟩ := t
        dsimp only [Feed.take?, Feed.current?]
        cases kind with
        | keyword k =>
          cases k with
          | kalogak =>
            dsimp only [conditionalBehind, Reading.pass, andThen, reading]
            cases inner.link openedAt rest <;> rfl
          | lainnya =>
            dsimp only [conditionalBehind, Reading.pass, andThen, reading]
            cases inner.block .cond openedAt rest with
            | error e => rfl
            | ok no =>
              dsimp only [Parsed.view]
              cases expectKeyword .yaudah no.rest <;> rfl
          | _ => rfl
        | _ => rfl

theorem counted_reading :
    reading (counted room inner openedAt) =
      (reading (expectName .loopVariable)).andThen fun counter =>
        (reading (expectKeyword .dari)).andThen fun _ =>
          (reading (Expr.parse room)).andThen fun first =>
            (reading (expectKeyword .sampe)).andThen fun _ =>
              (reading (Expr.parse room)).andThen fun last =>
                (reading (inner.block .count openedAt)).andThen fun body =>
                  (reading (expectKeyword .yaudah)).andThen fun _ =>
                    done (.count counter first last body) := by
  funext f
  dsimp only [reading, counted, andThen]
  cases expectName .loopVariable f with
  | error e => rfl
  | ok counter =>
  dsimp only [Parsed.view]
  cases expectKeyword .dari counter.rest with
  | error e => rfl
  | ok start =>
  dsimp only
  cases Expr.parse room start.rest with
  | error e => rfl
  | ok first =>
  dsimp only
  cases expectKeyword .sampe first.rest with
  | error e => rfl
  | ok stop =>
  dsimp only
  cases Expr.parse room stop.rest with
  | error e => rfl
  | ok last =>
  dsimp only
  cases inner.block .count openedAt last.rest with
  | error e => rfl
  | ok body =>
  dsimp only
  cases expectKeyword .yaudah body.rest <;> rfl

theorem repeated_reading :
    reading (repeated room inner openedAt) =
      (reading (Expr.parse room)).andThen fun test =>
        (reading (inner.block .loop openedAt)).andThen fun body =>
          (reading (expectKeyword .yaudah)).andThen fun _ => done (.loop test body) := by
  funext f
  dsimp only [reading, repeated, andThen]
  cases Expr.parse room f with
  | error e => rfl
  | ok test =>
  dsimp only [Parsed.view]
  cases inner.block .loop openedAt test.rest with
  | error e => rfl
  | ok body =>
  dsimp only
  cases expectKeyword .yaudah body.rest <;> rfl

/-- What is read behind an expression that starts a statement, where a token of the given kind is
    the current one. -/
def exprBehind (room : Nat) (left : Expr) : Token.Kind → Reading Stmt
  | .keyword .itu =>
    match left with
    | .variable target =>
      pass.andThen fun _ =>
        (reading (Expr.parse room)).andThen fun value => done (.assign target value)
    | _ => refuse (.unexpected .assignmentTarget .expression)
  | _ => done (.expr left)

theorem assignmentOrExpr_reading :
    reading (assignmentOrExpr room) =
      (reading (Expr.parse room)).andThen fun left =>
        look (done (.expr left)) (exprBehind room left) := by
  funext f
  dsimp only [reading, assignmentOrExpr, andThen]
  cases Expr.parse room f with
  | error e => rfl
  | ok left =>
  obtain ⟨left, rest, shorter⟩ := left
  dsimp only [Parsed.view, look]
  cases rest with
  | finish line => rfl
  | faulty t e =>
    obtain ⟨kind, line⟩ := t
    cases kind with
    | keyword k =>
      cases k with
      | itu => cases left <;> rfl
      | _ => rfl
    | _ => rfl
  | token t rest =>
    obtain ⟨kind, line⟩ := t
    dsimp only [Feed.take?, Feed.current?]
    cases kind with
    | keyword k =>
      cases k with
      | itu =>
        cases left with
        | «variable» target =>
          dsimp only [exprBehind, Reading.pass, andThen, reading]
          cases Expr.parse room rest <;> rfl
        | _ => rfl
      | _ => rfl
    | _ => rfl

theorem inputTarget_reading :
    reading inputTarget =
      (reading (expectName .inputTarget)).andThen fun target => done (.input target) := by
  funext f
  dsimp only [reading, inputTarget, andThen]
  cases expectName .inputTarget f <;> rfl

theorem printed_reading :
    reading (printed room) =
      (reading (Expr.parse room)).andThen fun value => done (.print value) := by
  funext f
  dsimp only [reading, printed, andThen]
  cases Expr.parse room f <;> rfl

/-- What is read of a statement, where its first token is of the given kind and on the given
    line. -/
def statementFrom (room : Nat) (inner : Nested) (line : Nat) : Token.Kind → Reading Stmt
  | .keyword .ulangin => pass.andThen fun _ => reading (counted room inner line)
  | .keyword .kalo => pass.andThen fun _ => reading (conditional room inner line)
  | .keyword .baca => pass.andThen fun _ => reading inputTarget
  | .keyword .tulis => pass.andThen fun _ => reading (printed room)
  | .keyword .selama => pass.andThen fun _ => reading (repeated room inner line)
  | _ => reading (assignmentOrExpr room)

theorem behindWord_view {n : Nat} {rest : Feed} (h : rest.size < n) (p : Parser Stmt) :
    Parsed.view (behindWord (.ok ⟨rest, h⟩) p) = reading p rest := by
  dsimp only [behindWord, reading]
  cases p rest <;> rfl

theorem statement_reading :
    reading (statement room inner) =
      here fun line => look (reading (assignmentOrExpr room)) (statementFrom room inner line) := by
  funext f
  dsimp only [reading, statement, here, look]
  cases f with
  | finish line => rfl
  | faulty t e =>
    obtain ⟨kind, line⟩ := t
    cases kind with
    | keyword k => cases k <;> rfl
    | _ => rfl
  | token t rest =>
    obtain ⟨kind, line⟩ := t
    dsimp only [Feed.take?, Feed.current?, Feed.line]
    cases kind with
    | keyword k =>
      cases k with
      | ulangin | kalo | baca | tulis | selama => exact behindWord_view _ _
      | _ => rfl
    | _ => rfl

/-! ## Blocks as readings -/

/-- Up to `n` statements, up to a word that ends a block. -/
def statementsWithin (one : Parser Stmt) (construct : Construct) (openedAt : Nat) :
    Nat → Reading (List Stmt)
  | 0 => look (refuse fun _ => .missingTerminator construct openedAt) fun _ => done []
  | n + 1 =>
    look (refuse fun _ => .missingTerminator construct openedAt) fun kind =>
      if kind ∈ closers then done []
      else
        (reading one).andThen fun first =>
          (statementsWithin one construct openedAt n).andThen fun more => done (first :: more)

theorem statements_view {one : Parser Stmt} {construct : Construct} {n : Nat} {f : Feed}
    (h : f.size ≤ n) :
    reading (statements one construct openedAt) f =
      statementsWithin one construct openedAt n f := by
  induction n generalizing f with
  | zero =>
    cases f with
    | finish line =>
      dsimp only [reading]
      rw [statements]
      rfl
    | token t f | faulty t e => cases h
  | succ n ih =>
    dsimp only [reading]
    rw [statements]
    unfold statementsWithin look
    cases f.current? with
    | none => rfl
    | some kind =>
      dsimp only
      by_cases hk : kind ∈ closers
      · rw [if_pos hk]
        rcases mem_closers.1 hk with rfl | rfl | rfl <;> rfl
      · rw [if_neg hk]
        rw [mem_closers, not_or, not_or] at hk
        obtain ⟨hyaudah, hkalogak, hlainnya⟩ := hk
        split
        · next heq => cases heq
        · next heq => exact absurd (Option.some.inj heq) hyaudah
        · next heq => exact absurd (Option.some.inj heq) hkalogak
        · next heq => exact absurd (Option.some.inj heq) hlainnya
        · dsimp only [andThen, reading]
          cases one f with
          | error e => rfl
          | ok first =>
            have hshorter := first.shorter
            dsimp only [Parsed.view]
            rw [← ih (by omega)]
            dsimp only [reading]
            cases statements one construct openedAt first.rest <;> rfl

/-- The parsers one nesting level deeper are readings of blocks and conditionals. -/
theorem block_reading {construct : Construct} :
    reading ((nested (room + 1)).block construct openedAt) =
      (reading (statements (statement room (nested room)) construct openedAt)).andThen fun body =>
        done (.block body) := by
  funext f
  dsimp only [reading, nested, andThen]
  cases statements (statement room (nested room)) construct openedAt f <;> rfl

/-- Up to `n` statements. -/
def allWithin : Nat → Reading (List Stmt)
  | 0 => done []
  | n + 1 =>
    look (done []) fun _ =>
      (reading (Stmt.parse maxNesting)).andThen fun first =>
        (allWithin n).andThen fun more => done (first :: more)

/-- All the statements up to the end of the text. -/
def all : Reading (List Stmt) := fun f => allWithin f.size f

theorem allWithin_eq {n m : Nat} {f : Feed} (hn : f.size ≤ n) (hm : f.size ≤ m) :
    allWithin n f = allWithin m f := by
  induction n generalizing m f with
  | zero =>
    cases f with
    | finish line => cases m <;> rfl
    | token t f | faulty t e => cases hn
  | succ n ih =>
    cases m with
    | zero =>
      cases f with
      | finish line => rfl
      | token t f | faulty t e => cases hm
    | succ m =>
      unfold allWithin look
      cases f.current? with
      | none => rfl
      | some kind =>
        dsimp only [andThen, reading]
        cases Stmt.parse maxNesting f with
        | error e => rfl
        | ok first =>
          have hshorter := first.shorter
          dsimp only [Parsed.view]
          rw [ih (m := m) (by omega) (by omega)]

theorem all_eq {n : Nat} {f : Feed} (h : f.size ≤ n) : all f = allWithin n f :=
  allWithin_eq (Nat.le_refl _) h

theorem all_of_token {kind : Token.Kind} {f : Feed} (h : f.current? = some kind) :
    all f = ((reading (Stmt.parse maxNesting)).andThen fun first =>
      all.andThen fun more => done (first :: more)) f := by
  rw [all_eq (Nat.le_succ f.size)]
  unfold allWithin look
  rw [h]
  dsimp only [andThen, reading]
  cases Stmt.parse maxNesting f with
  | error e => rfl
  | ok first =>
    dsimp only [Parsed.view]
    rw [all_eq (Nat.le_of_lt first.shorter)]

theorem parseAll_eq (f : Feed) : Stmt.parseAll f = (all f).map Prod.fst := by
  induction f using Stmt.parseAll.induct with
  | case1 f hc =>
    obtain ⟨line, rfl⟩ := Feed.exists_finish hc
    rw [Stmt.parseAll]
    rfl
  | case2 f k hc e hone =>
    rw [Stmt.parseAll, hc, all_of_token hc]
    simp only [hone, andThen, reading, Parsed.view, Except.map]
  | case3 f k hc first hone e hmore ih | case4 f k hc first hone e hmore ih =>
    rw [Stmt.parseAll, hc, all_of_token hc]
    simp only [hone, andThen, reading, Parsed.view]
    rw [ih]
    cases all first.rest <;> rfl

/-! ## Parallel parsers -/

variable {φ : Nat → Nat}

theorem parse_parallel :
    Parallel φ (fun _ => True) false (reading (Expr.parse room)) (reading (Expr.parse room)) :=
  Expr.parse_parallel (fun _ _ => trivial) room

theorem expectKeyword_parallel (k : Keyword) :
    Parallel φ (fun _ => True) false (reading (expectKeyword k)) (reading (expectKeyword k)) :=
  expect_parallel (fun _ _ => trivial) _ _

theorem expectName_parallel (wanted : Expectation) :
    Parallel φ (fun _ => True) false (reading (expectName wanted)) (reading (expectName wanted)) :=
  expect_parallel (fun _ _ => trivial) _ _

/-- The parsers one nesting level deeper read in parallel to themselves. -/
structure Nested.Alike (φ : Nat → Nat) (inner : Nested) : Prop where
  block (construct : Construct) (openedAt : Nat) :
    ∃ d, Parallel φ (fun _ => True) d (reading (inner.block construct openedAt))
      (reading (inner.block construct (φ openedAt)))
  link (openedAt : Nat) :
    ∃ d, Parallel φ (fun _ => True) d (reading (inner.link openedAt))
      (reading (inner.link (φ openedAt)))

theorem conditional_parallel (hi : inner.Alike φ) :
    ∃ d, Parallel φ (fun _ => True) d (reading (conditional room inner openedAt))
      (reading (conditional room inner (φ openedAt))) := by
  rw [conditional_reading, conditional_reading]
  obtain ⟨_, hblock⟩ := hi.block .cond openedAt
  obtain ⟨_, hlink⟩ := hi.link openedAt
  refine ⟨_, .andThen parse_parallel fun test => .andThen hblock fun yes =>
    .need' (fun _ => rfl) (fun _ => trivial) (fun _ => trivial) fun kind => ?_⟩
  have hother : Parallel φ (fun _ => True) true
      (refuse (.unexpected (.keyword .yaudah) (.token kind)) : Reading Stmt)
      (refuse (.unexpected (.keyword .yaudah) (.token kind))) :=
    .refuse (fun _ => rfl) (fun _ => id) fun _ => trivial
  cases kind with
  | keyword k =>
    cases k with
    | kalogak => exact ⟨_, .andThen .pass fun _ => .andThen hlink fun _ => .done _⟩
    | lainnya =>
      exact ⟨_, .andThen .pass fun _ => .andThen hblock fun _ =>
        .andThen (expectKeyword_parallel .yaudah) fun _ => .done _⟩
    | yaudah => exact ⟨_, .andThen .pass fun _ => .done _⟩
    | _ => exact ⟨_, hother⟩
  | _ => exact ⟨_, hother⟩

theorem counted_parallel (hi : inner.Alike φ) :
    ∃ d, Parallel φ (fun _ => True) d (reading (counted room inner openedAt))
      (reading (counted room inner (φ openedAt))) := by
  rw [counted_reading, counted_reading]
  obtain ⟨_, hblock⟩ := hi.block .count openedAt
  exact ⟨_, .andThen (expectName_parallel _) fun _ => .andThen (expectKeyword_parallel _) fun _ =>
    .andThen parse_parallel fun _ => .andThen (expectKeyword_parallel _) fun _ =>
      .andThen parse_parallel fun _ => .andThen hblock fun _ =>
        .andThen (expectKeyword_parallel _) fun _ => .done _⟩

theorem repeated_parallel (hi : inner.Alike φ) :
    ∃ d, Parallel φ (fun _ => True) d (reading (repeated room inner openedAt))
      (reading (repeated room inner (φ openedAt))) := by
  rw [repeated_reading, repeated_reading]
  obtain ⟨_, hblock⟩ := hi.block .loop openedAt
  exact ⟨_, .andThen parse_parallel fun _ => .andThen hblock fun _ =>
    .andThen (expectKeyword_parallel _) fun _ => .done _⟩

theorem assignmentOrExpr_parallel :
    Parallel φ (fun _ => True) false (reading (assignmentOrExpr room))
      (reading (assignmentOrExpr room)) := by
  rw [assignmentOrExpr_reading]
  refine .andThen parse_parallel fun left => .look' (.done _) fun kind => ?_
  cases kind with
  | keyword k =>
    cases k with
    | itu =>
      cases left with
      | «variable» target =>
        exact ⟨_, .andThen .pass fun _ => .andThen parse_parallel fun _ => .done _⟩
      | _ => exact ⟨_, .refuse (fun _ => rfl) (fun _ => id) fun _ => trivial⟩
    | _ => exact ⟨_, .done _⟩
  | _ => exact ⟨_, .done _⟩

theorem inputTarget_parallel :
    Parallel φ (fun _ => True) false (reading inputTarget) (reading inputTarget) := by
  rw [inputTarget_reading]
  exact .andThen (expectName_parallel _) fun _ => .done _

theorem printed_parallel :
    Parallel φ (fun _ => True) false (reading (printed room)) (reading (printed room)) := by
  rw [printed_reading]
  exact .andThen parse_parallel fun _ => .done _

theorem statement_parallel (hi : inner.Alike φ) :
    Parallel φ (fun _ => True) false (reading (statement room inner))
      (reading (statement room inner)) := by
  rw [statement_reading]
  refine .here fun line => .look' assignmentOrExpr_parallel fun kind => ?_
  cases kind with
  | keyword k =>
    cases k with
    | ulangin =>
      obtain ⟨_, h⟩ := counted_parallel hi
      exact ⟨_, .andThen .pass fun _ => h⟩
    | kalo =>
      obtain ⟨_, h⟩ := conditional_parallel hi
      exact ⟨_, .andThen .pass fun _ => h⟩
    | selama =>
      obtain ⟨_, h⟩ := repeated_parallel hi
      exact ⟨_, .andThen .pass fun _ => h⟩
    | baca => exact ⟨_, .andThen .pass fun _ => inputTarget_parallel⟩
    | tulis => exact ⟨_, .andThen .pass fun _ => printed_parallel⟩
    | _ => exact ⟨_, assignmentOrExpr_parallel⟩
  | _ => exact ⟨_, assignmentOrExpr_parallel⟩

theorem statements_parallel {one : Parser Stmt} {construct : Construct}
    (hone : Parallel φ (fun _ => True) false (reading one) (reading one)) :
    Parallel φ (fun _ => True) false (reading (statements one construct openedAt))
      (reading (statements one construct (φ openedAt))) := by
  refine .rounds (fun n => ?_) (fun _ _ => statements_view) fun _ _ => statements_view
  induction n with
  | zero =>
    exact .need' (fun _ => rfl) (fun _ => trivial) (fun _ => trivial) fun _ => ⟨_, .done _⟩
  | succ n ih =>
    refine .need' (fun _ => rfl) (fun _ => trivial) (fun _ => trivial) fun kind => ?_
    split
    · exact ⟨_, .done _⟩
    · exact ⟨_, .andThen hone fun _ => .andThen ih fun _ => .done _⟩

/-- The induction is on the nesting levels that are left. Where there is none, what lies deeper is
    refused whatever it is. -/
theorem nested_alike (room : Nat) : (nested room).Alike φ := by
  induction room with
  | zero =>
    exact ⟨fun _ _ => ⟨_, .refuse (fun _ => rfl) (fun _ => id) fun _ => trivial⟩,
      fun _ => ⟨_, .refuse (fun _ => rfl) (fun _ => id) fun _ => trivial⟩⟩
  | succ room ih =>
    refine ⟨fun construct openedAt => ?_, fun openedAt => conditional_parallel ih⟩
    rw [block_reading, block_reading]
    exact ⟨_, .andThen (statements_parallel (statement_parallel ih)) fun _ => .done _⟩

theorem all_parallel : Parallel φ (fun _ => True) false all all := by
  refine .rounds (fun n => ?_) (fun _ _ => all_eq) fun _ _ => all_eq
  induction n with
  | zero => exact .done []
  | succ n ih =>
    exact .look' (.done []) fun _ =>
      ⟨_, .andThen (statement_parallel (nested_alike maxNesting)) fun _ =>
        .andThen ih fun _ => .done _⟩

end Stmt.Parse

open Stmt.Parse

theorem Stmt.all_of_parseAll {f : Feed} {e : Error} (h : Stmt.parseAll f = .error e) :
    all f = .error e := by
  rw [parseAll_eq] at h
  cases hall : all f with
  | error e' =>
    rw [hall] at h
    cases h
    rfl
  | ok r =>
    rw [hall] at h
    cases h

theorem Stmt.parseAll_of_all {f : Feed} {e : Error} (h : all f = .error e) :
    Stmt.parseAll f = .error e := by
  rw [parseAll_eq, h]
  rfl

/-- The error that a text is refused with is one of the text. -/
theorem Stmt.parseAll_truthful {f : Feed} {e : Error} (h : Stmt.parseAll f = .error e) :
    Truthful (fun _ => True) f e := by
  have hall : Parallel id (fun _ => True) false all all := all_parallel
  exact hall.truthful (Stmt.all_of_parseAll h)

end Naskah
