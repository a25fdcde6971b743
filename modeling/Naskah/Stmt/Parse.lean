import Naskah.Expr.Parse
import Naskah.Stmt.Basic

/-
  Parsing of statements. Statements follow one another without separators, each as long as it can
  be. A block and a `kalogak` link use up one nesting level each. A chain of `kalogak` links is
  parsed as conditionals within the second branches, and one `yaudah` closes all of it.
-/

namespace Naskah

namespace Stmt.Parse

/-- The parsers of what lies one nesting level deeper. -/
structure Nested where
  /-- A block, which may be empty, up to the word that ends it. -/
  block : Construct → (openedAt : Nat) → (f : Feed) → Except Error (Parsed Stmt (f.size + 1))
  /-- A conditional behind `kalogak`. -/
  link : (openedAt : Nat) → Parser Stmt

/-- Statements up to `yaudah`, `kalogak` or `lainnya`, which is left to the caller. -/
def statements (one : Parser Stmt) (construct : Construct) (openedAt : Nat) (f : Feed) :
    Except Error (Parsed (List Stmt) (f.size + 1)) :=
  match f.current? with
  | none => .error (.structural (.missingTerminator construct openedAt))
  | some (.keyword .yaudah) => .ok ⟨[], f, Nat.lt_succ_self _⟩
  | some (.keyword .kalogak) => .ok ⟨[], f, Nat.lt_succ_self _⟩
  | some (.keyword .lainnya) => .ok ⟨[], f, Nat.lt_succ_self _⟩
  | some _ =>
    match one f with
    | .error e => .error e
    | .ok first =>
      match statements one construct openedAt first.rest with
      | .error e => .error e
      | .ok more =>
        .ok ⟨first.value :: more.value, more.rest,
          Nat.lt_of_lt_of_le more.shorter (Nat.le_succ_of_le first.shorter)⟩
termination_by f.size
decreasing_by exact first.shorter

/-- The test, the first branch and what follows it, up to the closing `yaudah`. -/
def conditional (room : Nat) (inner : Nested) (openedAt : Nat) : Parser Stmt := fun f =>
  match Expr.parse room f with
  | .error e => .error e
  | .ok test =>
    match inner.block .cond openedAt test.rest with
    | .error e => .error e
    | .ok yes =>
      have le : yes.rest.size ≤ test.rest.size := Nat.le_of_lt_succ yes.shorter
      match yes.rest.take? with
      | none => .error (.structural (.unexpectedEnd (.keyword .yaudah) yes.rest.line))
      | some (t, next) =>
        match t.kind, next with
        | .keyword .kalogak, .error e => .error (.lexical e)
        | .keyword .lainnya, .error e => .error (.lexical e)
        | .keyword .yaudah, .error e => .error (.lexical e)
        | .keyword .kalogak, .ok behind =>
          match inner.link openedAt behind.1 with
          | .error e => .error e
          | .ok no =>
            .ok ⟨.cond test.value yes.value no.value, no.rest, by
              have := no.shorter; have := behind.2; have := test.shorter; omega⟩
        | .keyword .lainnya, .ok behind =>
          match inner.block .cond openedAt behind.1 with
          | .error e => .error e
          | .ok no =>
            match expectKeyword .yaudah no.rest with
            | .error e => .error e
            | .ok close =>
              .ok ⟨.cond test.value yes.value no.value, close.rest, by
                have := close.shorter; have := no.shorter; have := behind.2
                have := test.shorter; omega⟩
        | .keyword .yaudah, .ok behind =>
          .ok ⟨.cond test.value yes.value .empty, behind.1, by
            have := behind.2; have := test.shorter; omega⟩
        | kind, _ =>
          .error (.structural (.unexpected (.keyword .yaudah) (.token kind) t.line))

/-- A counted loop, from the variable on. -/
def counted (room : Nat) (inner : Nested) (openedAt : Nat) : Parser Stmt := fun f =>
  match expectName .loopVariable f with
  | .error e => .error e
  | .ok counter =>
    match expectKeyword .dari counter.rest with
    | .error e => .error e
    | .ok start =>
      match Expr.parse room start.rest with
      | .error e => .error e
      | .ok first =>
        match expectKeyword .sampe first.rest with
        | .error e => .error e
        | .ok stop =>
          match Expr.parse room stop.rest with
          | .error e => .error e
          | .ok last =>
            match inner.block .count openedAt last.rest with
            | .error e => .error e
            | .ok body =>
              match expectKeyword .yaudah body.rest with
              | .error e => .error e
              | .ok close =>
                .ok ⟨.count counter.value first.value last.value body.value, close.rest, by
                  have := close.shorter; have := body.shorter; have := last.shorter
                  have := stop.shorter; have := first.shorter; have := start.shorter
                  have := counter.shorter; omega⟩

/-- A loop, from its test on. -/
def repeated (room : Nat) (inner : Nested) (openedAt : Nat) : Parser Stmt := fun f =>
  match Expr.parse room f with
  | .error e => .error e
  | .ok test =>
    match inner.block .loop openedAt test.rest with
    | .error e => .error e
    | .ok body =>
      match expectKeyword .yaudah body.rest with
      | .error e => .error e
      | .ok close =>
        .ok ⟨.loop test.value body.value, close.rest, by
          have := close.shorter; have := body.shorter; have := test.shorter; omega⟩

/-- An expression, or an assignment when `itu` follows it. Parentheses around the target are
    dropped. -/
def assignmentOrExpr (room : Nat) : Parser Stmt := fun f =>
  match Expr.parse room f with
  | .error e => .error e
  | .ok left =>
    match left.rest.take? with
    | some (⟨.keyword .itu, line⟩, next) =>
      match left.value, next with
      | .variable _, .error e => .error (.lexical e)
      | .variable target, .ok behind =>
        match Expr.parse room behind.1 with
        | .error e => .error e
        | .ok value =>
          .ok ⟨.assign target value.value, value.rest,
            Nat.lt_trans value.shorter (Nat.lt_trans behind.2 left.shorter)⟩
      | _, _ => .error (.structural (.unexpected .assignmentTarget .expression line))
    | _ => .ok ⟨.expr left.value, left.rest, left.shorter⟩

/-- What a statement starts with decides how it goes on; `p` parses what follows the first
    word. -/
def behindWord {n : Nat} (next : Except LexError { rest : Feed // rest.size < n })
    (p : Parser Stmt) : Except Error (Parsed Stmt n) :=
  match next with
  | .error e => .error (.lexical e)
  | .ok behind =>
    match p behind.1 with
    | .error e => .error e
    | .ok s => .ok ⟨s.value, s.rest, Nat.lt_trans s.shorter behind.2⟩

/-- The rest of an input statement: the name that is bound. -/
def inputTarget : Parser Stmt := fun f =>
  match expectName .inputTarget f with
  | .error e => .error e
  | .ok target => .ok ⟨.input target.value, target.rest, target.shorter⟩

/-- The rest of a print statement: the value. -/
def printed (room : Nat) : Parser Stmt := fun f =>
  match Expr.parse room f with
  | .error e => .error e
  | .ok value => .ok ⟨.print value.value, value.rest, value.shorter⟩

/-- One statement, where `room` nesting levels are left. -/
def statement (room : Nat) (inner : Nested) : Parser Stmt := fun f =>
  match f.take? with
  | some (⟨.keyword .ulangin, line⟩, next) => behindWord next (counted room inner line)
  | some (⟨.keyword .kalo, line⟩, next) => behindWord next (conditional room inner line)
  | some (⟨.keyword .baca, _⟩, next) => behindWord next inputTarget
  | some (⟨.keyword .tulis, _⟩, next) => behindWord next (printed room)
  | some (⟨.keyword .selama, line⟩, next) => behindWord next (repeated room inner line)
  | _ => assignmentOrExpr room f

/-- The parsers one nesting level deeper, of which there are `room` left. -/
def nested : Nat → Nested
  | 0 =>
    { block := fun _ _ f => .error (.structural (.nestingTooDeep maxNesting f.line))
      link := fun _ f => .error (.structural (.nestingTooDeep maxNesting f.line)) }
  | room + 1 =>
    { block := fun construct openedAt f =>
        match statements (statement room (nested room)) construct openedAt f with
        | .error e => .error e
        | .ok body => .ok ⟨.block body.value, body.rest, body.shorter⟩
      link := fun openedAt f => conditional room (nested room) openedAt f }

end Stmt.Parse

open Stmt.Parse in
/-- Parses one statement where `room` nesting levels are left. -/
def Stmt.parse (room : Nat) : Parser Stmt :=
  statement room (nested room)

/-- Parses statements up to the end of the text. -/
def Stmt.parseAll (f : Feed) : Except Error (List Stmt) :=
  match f.current? with
  | none => .ok []
  | some _ =>
    match Stmt.parse maxNesting f with
    | .error e => .error e
    | .ok first =>
      match parseAll first.rest with
      | .error e => .error e
      | .ok more => .ok (first.value :: more)
termination_by f.size
decreasing_by exact first.shorter

end Naskah
