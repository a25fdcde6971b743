import Naskah.Proofs.Expr.Completeness
import Naskah.Proofs.Reading.Basic

/-
  The parsers of expressions are readings. Each is put together from the actions of readings
  (`joined_reading`, `marked_reading` and so on), so it is parallel to itself, whichever way the
  lines are renumbered (`parse_parallel`).
-/

namespace Naskah

open Reading

namespace Expr.Parse

/-- What a parser of operands returns, without the bound on what is left. -/
def Operand.view {n : Nat} : Except Error (Operand n) → Except Error ((Expr × Nat) × Feed)
  | .error e => .error e
  | .ok r => .ok ((r.expr, r.used), r.rest)

/-- What a parser of operands does behind `used` operators, as a reading. -/
def readingFrom (p : OperandParser) (used : Nat) : Reading (Expr × Nat) := fun f =>
  Operand.view (p f used)

/-- Counts an operator and passes it. -/
def operator (line used : Nat) : Reading Nat :=
  if maxOperators ≤ used then refuse fun _ => .expressionTooLarge maxOperators line
  else pass.andThen fun _ => done (used + 1)

theorem operator_eq {f : Feed} {line used : Nat} {t : Token}
    {next : Except LexError { rest : Feed // rest.size < f.size }} (h : f.take? = some (t, next)) :
    operator line used f = (takeOperator line used next).map fun r => (r.1, r.2.1) := by
  unfold operator takeOperator
  cases f with
  | finish line => cases h
  | token t rest | faulty t e =>
    cases h
    split <;> rfl

/-! ## Joined operands -/

/-- No more than `n` operands joined to the left one. -/
def chainWithin (op? : Token.Kind → Option BinaryOp) (operand : OperandParser) (line : Nat) :
    Nat → Expr × Nat → Reading (Expr × Nat)
  | 0, left => done left
  | n + 1, left =>
    look (done left) fun kind =>
      match op? kind with
      | none => done left
      | some op =>
        (operator line left.2).andThen fun used =>
          (readingFrom operand used).andThen fun right =>
            chainWithin op? operand line n (.binary op left.1 right.1, right.2)

theorem chain_view {op? : Token.Kind → Option BinaryOp} {operand : OperandParser} {line n N : Nat}
    (left : Operand N) (h : left.rest.size ≤ n) :
    Operand.view (chain op? operand line left) =
      chainWithin op? operand line n (left.expr, left.used) left.rest := by
  induction n generalizing N left with
  | zero =>
    have hnone : left.rest.current? = none := by
      cases hr : left.rest with
      | finish line => rfl
      | token t f | faulty t e =>
        rw [hr] at h
        cases h
    rw [chain_stop left (by rw [hnone]; rfl)]
    rfl
  | succ n ih =>
    rw [chain]
    unfold chainWithin look
    rw [Feed.current?_eq]
    split
    · next htake =>
      rw [htake]
      rfl
    · next t next htake =>
      rw [htake]
      dsimp only [Option.map_some]
      cases op? t.kind with
      | none => rfl
      | some op =>
        dsimp only
        unfold andThen
        rw [operator_eq htake]
        cases takeOperator line left.used next with
        | error e => rfl
        | ok r =>
          obtain ⟨used, behind, hbehind⟩ := r
          dsimp only [Except.map]
          unfold readingFrom
          cases operand behind used with
          | error e => rfl
          | ok right =>
            refine ih _ ?_
            have := right.shorter
            show right.rest.size ≤ n
            omega

/-- What is joined to the left operand. -/
def chained (op? : Token.Kind → Option BinaryOp) (operand : OperandParser) (line : Nat)
    (left : Expr × Nat) : Reading (Expr × Nat) := fun f =>
  chainWithin op? operand line f.size left f

theorem chained_eq {op? : Token.Kind → Option BinaryOp} {operand : OperandParser} {line n : Nat}
    {left : Expr × Nat} {f : Feed} (h : f.size ≤ n) :
    chained op? operand line left f = chainWithin op? operand line n left f := by
  have hview (n : Nat) (h : f.size ≤ n) :
      Operand.view (chain op? operand line ⟨left.1, left.2, f, Nat.lt_succ_self _⟩) =
        chainWithin op? operand line n left f := chain_view _ h
  rw [← hview n h]
  exact (hview f.size (Nat.le_refl _)).symm

theorem joined_reading {op? : Token.Kind → Option BinaryOp} {operand : OperandParser}
    {line used : Nat} :
    readingFrom (joined op? operand line) used =
      (readingFrom operand used).andThen (chained op? operand line) := by
  funext f
  dsimp only [readingFrom, joined, andThen]
  cases operand f used with
  | error e => rfl
  | ok left => exact chain_view left (Nat.le_refl _)

/-! ## Comparisons, marks and literals -/

theorem marked_reading {op : UnaryOp} {mark : Token.Kind} {operand otherwise : OperandParser}
    {line used : Nat} :
    readingFrom (marked op mark operand otherwise line) used =
      look (readingFrom otherwise used) fun kind =>
        if kind = mark then
          (operator line used).andThen fun used =>
            (readingFrom operand used).andThen fun inner => done (.unary op inner.1, inner.2)
        else readingFrom otherwise used := by
  funext f
  unfold readingFrom marked look
  rw [Feed.current?_eq]
  split
  · next htake =>
    rw [htake]
    rfl
  · next t next htake =>
    rw [htake]
    dsimp only [Option.map_some]
    split
    · unfold andThen
      rw [operator_eq htake]
      cases takeOperator line used next with
      | error e => rfl
      | ok r =>
        obtain ⟨used, behind, hbehind⟩ := r
        dsimp only [Except.map]
        cases operand behind used <;> rfl
    · rfl

theorem compared_reading {operand : OperandParser} {line used : Nat} :
    readingFrom (compared operand line) used =
      (readingFrom operand used).andThen fun left =>
        look (done left) fun kind =>
          match relational? kind with
          | none => done left
          | some op =>
            (operator line left.2).andThen fun used =>
              (readingFrom operand used).andThen fun right =>
                look (done (.binary op left.1 right.1, right.2)) fun kind =>
                  if (relational? kind).isSome then refuse .chainedComparison
                  else done (.binary op left.1 right.1, right.2) := by
  funext f
  dsimp only [readingFrom, compared, andThen, look]
  cases operand f used with
  | error e => rfl
  | ok left =>
    dsimp only [Operand.view]
    rw [Feed.current?_eq]
    cases htake : left.rest.take? with
    | none => rfl
    | some r =>
      obtain ⟨t, next⟩ := r
      dsimp only [Option.map_some]
      cases relational? t.kind with
      | none => rfl
      | some op =>
        dsimp only
        unfold andThen
        rw [operator_eq htake]
        cases takeOperator line left.used next with
        | error e => rfl
        | ok r =>
          obtain ⟨used, behind, hbehind⟩ := r
          dsimp only [Except.map, readingFrom]
          cases operand behind used with
          | error e => rfl
          | ok right =>
            dsimp only [Operand.view, look]
            cases right.rest.current? with
            | none => rfl
            | some kind =>
              dsimp only [Option.bind_some]
              by_cases hk : (relational? kind).isSome
              · rw [if_pos hk, if_pos hk]
                rfl
              · rw [if_neg hk, if_neg hk]
                rfl

/-- What is read of a literal behind its first token, which is of the given kind and stands on the
    given line. -/
def literalBehind (nested : Level → OperandParser) (used line : Nat) :
    Token.Kind → Reading (Expr × Nat)
  | .symbol .parenOpen =>
    (readingFrom (nested .logical) used).andThen fun inner =>
      (reading (expectSymbol .parenClose)).andThen fun _ => done inner
  | .keyword .benar => done (.boolean true, used)
  | .keyword .salah => done (.boolean false, used)
  | .number digits =>
    match Numeral.read? digits.toList with
    | none => refuse fun _ => .invalidNumber digits line
    | some x => done (.number x, used)
  | .string content => done (.text content, used)
  | .identifier name => done (.variable name, used)
  | kind => refuse fun _ => .unexpected .expression (.token kind) line

theorem literal_reading {nested : Level → OperandParser} {used : Nat} :
    readingFrom (literal nested) used =
      here fun line => look (refuse (.unexpectedEnd .expression)) fun kind =>
        pass.andThen fun _ => literalBehind nested used line kind := by
  funext f
  unfold readingFrom literal here look
  cases f with
  | finish line | faulty t e => rfl
  | token t rest =>
    obtain ⟨kind, line⟩ := t
    dsimp only [Feed.take?, Feed.current?, Feed.line, Reading.pass, andThen]
    cases kind with
    | string content | identifier name => rfl
    | number digits =>
      unfold literalBehind
      dsimp only
      cases Numeral.read? digits.toList <;> rfl
    | keyword k => cases k <;> rfl
    | symbol s =>
      cases s with
      | parenOpen =>
        dsimp only [literalBehind, readingFrom, reading, andThen]
        cases nested .logical rest used with
        | error e => rfl
        | ok inner =>
          dsimp only [Operand.view]
          cases expectSymbol .parenClose inner.rest <;> rfl
      | _ => rfl

/-! ## Parallel parsers -/

variable {φ : Nat → Nat} {C : ParseError → Prop}

/-- Two parsers of operands read in parallel. -/
def Alike (φ : Nat → Nat) (C : ParseError → Prop) (doomed : Bool) (p p' : OperandParser) : Prop :=
  ∀ used, Parallel φ C doomed (readingFrom p used) (readingFrom p' used)

section

variable (hC : ∀ e : ParseError, ¬ e.Unclosed → C e)

include hC

theorem operator_parallel (line used : Nat) :
    ∃ d, Parallel φ C d (operator line used) (operator (φ line) used) := by
  unfold operator
  split
  · exact ⟨_, .refuse (fun _ => rfl) (fun _ => id) fun _ => hC _ id⟩
  · exact ⟨_, .andThen .pass fun _ => .done _⟩

theorem chainWithin_parallel {op? : Token.Kind → Option BinaryOp} {p p' : OperandParser}
    {line : Nat} (hp : Alike φ C false p p') (n : Nat) (left : Expr × Nat) :
    Parallel φ C false (chainWithin op? p line n left) (chainWithin op? p' (φ line) n left) := by
  induction n generalizing left with
  | zero => exact .done left
  | succ n ih =>
    refine .look' (.done left) fun kind => ?_
    cases op? kind with
    | none => exact ⟨_, .done left⟩
    | some op =>
      obtain ⟨d, hop⟩ := operator_parallel hC line left.2
      exact ⟨_, .andThen hop fun used => .andThen (hp used) fun right => ih _⟩

theorem chained_parallel {op? : Token.Kind → Option BinaryOp} {p p' : OperandParser}
    {line : Nat} (hp : Alike φ C false p p') (left : Expr × Nat) :
    Parallel φ C false (chained op? p line left) (chained op? p' (φ line) left) :=
  .rounds (chainWithin_parallel hC hp · left) (fun _ _ => chained_eq) fun _ _ => chained_eq

theorem joined_parallel {op? : Token.Kind → Option BinaryOp} {p p' : OperandParser} {line : Nat}
    (hp : Alike φ C false p p') :
    Alike φ C false (joined op? p line) (joined op? p' (φ line)) := by
  intro used
  rw [joined_reading, joined_reading]
  exact .andThen (hp used) (chained_parallel hC hp)

theorem marked_parallel {op : UnaryOp} {mark : Token.Kind} {p p' q q' : OperandParser}
    {line : Nat} {d : Bool} (hp : Alike φ C d p p') (hq : Alike φ C false q q') :
    Alike φ C false (marked op mark p q line) (marked op mark p' q' (φ line)) := by
  intro used
  rw [marked_reading, marked_reading]
  refine .look' (hq used) fun kind => ?_
  split
  · obtain ⟨d, hop⟩ := operator_parallel hC line used
    exact ⟨_, .andThen hop fun used => .andThen (hp used) fun _ => .done _⟩
  · exact ⟨_, hq used⟩

theorem compared_parallel {p p' : OperandParser} {line : Nat} (hp : Alike φ C false p p') :
    Alike φ C false (compared p line) (compared p' (φ line)) := by
  intro used
  rw [compared_reading, compared_reading]
  refine .andThen (hp used) fun left => .look' (.done left) fun kind => ?_
  cases relational? kind with
  | none => exact ⟨_, .done left⟩
  | some op =>
    obtain ⟨d, hop⟩ := operator_parallel hC line left.2
    refine ⟨_, .andThen hop fun used => .andThen (hp used) fun right =>
      .look' (.done _) fun kind => ?_⟩
    split
    · exact ⟨_, .refuse (fun _ => rfl) (fun _ => id) fun _ => hC _ id⟩
    · exact ⟨_, .done _⟩

theorem literal_parallel {nested nested' : Level → OperandParser} {d : Bool}
    (hn : Alike φ C d (nested .logical) (nested' .logical)) :
    Alike φ C false (literal nested) (literal nested') := by
  intro used
  rw [literal_reading, literal_reading]
  refine .here fun line => .need' (fun _ => rfl) (fun _ => trivial) (fun _ => hC _ id)
    fun kind => ?_
  have hother : Parallel φ C true
      (refuse fun _ => .unexpected .expression (.token kind) line : Reading (Expr × Nat))
      (refuse fun _ => .unexpected .expression (.token kind) (φ line)) :=
    .refuse (fun _ => rfl) (fun _ => id) fun _ => hC _ id
  suffices ∃ d, Parallel φ C d (literalBehind nested used line kind)
      (literalBehind nested' used (φ line) kind) by
    obtain ⟨d, h⟩ := this
    exact ⟨_, .andThen .pass fun _ => h⟩
  cases kind with
  | string content | identifier name => exact ⟨_, .done _⟩
  | number digits =>
    dsimp only [literalBehind]
    cases Numeral.read? digits.toList with
    | none => exact ⟨_, .refuse (fun _ => rfl) (fun _ => id) fun _ => hC _ id⟩
    | some x => exact ⟨_, .done _⟩
  | keyword k =>
    cases k with
    | benar | salah => exact ⟨_, .done _⟩
    | _ => exact ⟨_, hother⟩
  | symbol s =>
    cases s with
    | parenOpen =>
      exact ⟨_, .andThen (hn used) fun _ => .andThen (expect_parallel hC _ _) fun _ => .done _⟩
    | _ => exact ⟨_, hother⟩

/-- The parsers of every level read in parallel, if those of the operands one nesting level deeper
    do. -/
theorem atLevel_parallel {nested nested' : Level → OperandParser} {line : Nat} {d : Bool}
    (hn : ∀ l, Alike φ C d (nested l) (nested' l)) (l : Level) :
    Alike φ C false (atLevel nested line l) (atLevel nested' (φ line) l) := by
  have hliteral := literal_parallel hC (hn .logical)
  have hsign : Alike φ C false (sign nested line) (sign nested' (φ line)) :=
    marked_parallel hC (hn .sign) hliteral
  have hproduct : Alike φ C false (product nested line) (product nested' (φ line)) :=
    joined_parallel hC hsign
  have hsum : Alike φ C false (sum nested line) (sum nested' (φ line)) :=
    joined_parallel hC hproduct
  have hcomparison : Alike φ C false (comparison nested line) (comparison nested' (φ line)) :=
    compared_parallel hC hsum
  have hnegation : Alike φ C false (negation nested line) (negation nested' (φ line)) :=
    marked_parallel hC (hn .negation) hcomparison
  have hlogical : Alike φ C false (logical nested line) (logical nested' (φ line)) :=
    joined_parallel hC hnegation
  cases l with
  | logical => exact hlogical
  | negation => exact hnegation
  | comparison => exact hcomparison
  | sum => exact hsum
  | product => exact hproduct
  | sign => exact hsign
  | literal => exact hliteral

/-- Where no nesting level is left, what lies deeper is refused whatever it is. -/
theorem nested_parallel (line room : Nat) :
    ∃ d, ∀ l, Alike φ C d (nested line room l) (nested (φ line) room l) := by
  induction room with
  | zero => exact ⟨true, fun _ _ => .refuse (fun _ => rfl) (fun _ => id) fun _ => hC _ id⟩
  | succ room ih =>
    obtain ⟨d, ih⟩ := ih
    exact ⟨false, fun l => atLevel_parallel hC ih l⟩

end

end Expr.Parse

open Expr.Parse

theorem Expr.parse_reading (room : Nat) :
    reading (Expr.parse room) = here fun line =>
      (readingFrom (atLevel (nested line room) line .logical) 0).andThen fun whole =>
        done whole.1 := by
  funext f
  dsimp only [reading, Expr.parse, here, readingFrom, andThen]
  cases atLevel (nested f.line room) f.line .logical f 0 <;> rfl

theorem Expr.parse_parallel {φ : Nat → Nat} {C : ParseError → Prop}
    (hC : ∀ e : ParseError, ¬ e.Unclosed → C e) (room : Nat) :
    Parallel φ C false (reading (Expr.parse room)) (reading (Expr.parse room)) := by
  rw [Expr.parse_reading]
  refine .here fun line => ?_
  obtain ⟨d, hn⟩ := nested_parallel hC line room
  exact .andThen (atLevel_parallel hC hn .logical 0) fun _ => .done _

end Naskah
