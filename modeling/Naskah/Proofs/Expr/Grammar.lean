import Naskah.Expr.Parse
import Naskah.Proofs.Number.Plain

/-
  The grammar of expressions. `Expr.Derives l n ks e` says that the token kinds `ks` are derived at
  the level `l` with the tree `e`, no deeper nested than `n`. A rule of the grammar is a
  constructor; the levels and marks of the operators are tables.
-/

namespace Naskah

namespace Expr.Level

/-- The next tighter level. -/
def tighter? : Level → Option Level
  | logical => some negation
  | negation => some comparison
  | comparison => some sum
  | sum => some product
  | product => some sign
  | sign => some literal
  | literal => none

/-- The place of the level, the tightest being 0. -/
def rank : Level → Nat
  | literal => 0
  | sign => 1
  | product => 2
  | sum => 3
  | comparison => 4
  | negation => 5
  | logical => 6

theorem rank_tighter {l m : Level} (h : l.tighter? = some m) : l.rank = m.rank + 1 := by
  cases l <;> cases h <;> rfl

theorem rank_le_of_tighter {l m : Level} (h : l.tighter? = some m) : m.rank ≤ l.rank := by
  rw [rank_tighter h]
  exact Nat.le_succ _

end Expr.Level

open Naskah.Expr (Level)

/-- The level at which a unary operator stands, and at which its operand does. -/
def UnaryOp.level : UnaryOp → Level
  | negate => .sign
  | not => .negation

/-- The token of a unary operator. -/
def UnaryOp.kind : UnaryOp → Token.Kind
  | negate => .symbol .minus
  | not => .keyword .bukan

namespace BinaryOp

/-- The level at which an operator joins its operands. -/
def level : BinaryOp → Level
  | and | or => .logical
  | greater | greaterEqual | less | lessEqual | equal | notEqual => .comparison
  | add | subtract => .sum
  | multiply | divide | modulo => .product

/-- The level of the left operand. All operators but the comparisons join from the left. -/
def left (op : BinaryOp) : Level :=
  match op.level with
  | .comparison => .sum
  | l => l

/-- The level of the right operand. -/
def right (op : BinaryOp) : Level :=
  match op.level with
  | .logical => .negation
  | .sum => .product
  | .product => .sign
  | _ => .sum

/-- The token of an operator. -/
def kind : BinaryOp → Token.Kind
  | add => .symbol .plus
  | subtract => .symbol .minus
  | multiply => .symbol .star
  | divide => .symbol .slash
  | modulo => .symbol .percent
  | and => .keyword .dan
  | or => .keyword .atau
  | greater => .symbol .greater
  | greaterEqual => .symbol .greaterEquals
  | less => .symbol .less
  | lessEqual => .symbol .lessEquals
  | equal => .symbol .doubleEquals
  | notEqual => .symbol .notEquals

theorem kind_injective {op op' : BinaryOp} (h : op.kind = op'.kind) : op = op' := by
  cases op <;> cases op' <;> first | rfl | cases h

theorem mem_all (op : BinaryOp) : op ∈ all := by
  cases op <;> decide

theorem tighter?_level (op : BinaryOp) : op.level.tighter? = some op.right := by
  cases op <;> rfl

/-- The left operand stands at the level of the operator or, for a comparison, one below. -/
theorem left_cases (op : BinaryOp) : op.left = op.level ∨ op.left = op.right := by
  cases op <;> first | exact .inl rfl | exact .inr rfl

/-- All operators but the comparisons have their own level on the left. -/
theorem left_of_level {op : BinaryOp} {l : Level} (h : op.level = l) (hl : l ≠ .comparison) :
    op.left = l := by
  subst h
  unfold left
  split
  · next hc => exact absurd hc hl
  · rfl

theorem right_of_level {op : BinaryOp} {l m : Level} (h : op.level = l)
    (hl : l.tighter? = some m) : op.right = m := by
  have hright := op.tighter?_level
  rw [h, hl] at hright
  exact (Option.some.inj hright).symm

/-- Both operands of a comparison are sums. -/
theorem sides_of_comparison {op : BinaryOp} (h : op.level = .comparison) :
    op.left = .sum ∧ op.right = .sum := by
  simp only [left, right, h, and_self]

theorem rank_right (op : BinaryOp) : op.right.rank + 1 = op.level.rank :=
  (Level.rank_tighter op.tighter?_level).symm

theorem rank_left (op : BinaryOp) : op.left.rank ≤ op.level.rank := by
  have hright := op.rank_right
  rcases op.left_cases with h | h
  · exact Nat.le_of_eq (congrArg Level.rank h)
  · rw [h]
    omega

end BinaryOp

namespace Expr

/-- The token kinds `ks` are derived at the level `l` with the tree `e`. Parentheses and unary
    operators nest, and no more than `n` of them lie within one another. -/
inductive Derives : Level → (n : Nat) → List Token.Kind → Expr → Prop
  | number {n : Nat} {text : String} (h : Numeral.IsPlain text.toList) :
      Derives .literal n [.number text] (.number (Numeral.plain text.toList))
  | text {n : Nat} {content : String} : Derives .literal n [.string content] (.text content)
  | benar {n : Nat} : Derives .literal n [.keyword .benar] (.boolean true)
  | salah {n : Nat} : Derives .literal n [.keyword .salah] (.boolean false)
  | name {n : Nat} {x : String} : Derives .literal n [.identifier x] (.variable x)
  | paren {n : Nat} {ks : List Token.Kind} {e : Expr} (h : Derives .logical n ks e) :
      Derives .literal (n + 1) (.symbol .parenOpen :: (ks ++ [.symbol .parenClose])) e
  | unary {l : Level} {n : Nat} {ks : List Token.Kind} {e : Expr} (op : UnaryOp) (hl : op.level = l)
      (h : Derives l n ks e) : Derives l (n + 1) (op.kind :: ks) (.unary op e)
  | binary {l : Level} {n : Nat} {ks ms : List Token.Kind} {a b : Expr} (op : BinaryOp)
      (hl : op.level = l) (ha : Derives op.left n ks a) (hb : Derives op.right n ms b) :
      Derives l n (ks ++ op.kind :: ms) (.binary op a b)
  | tighter {l m : Level} {n : Nat} {ks : List Token.Kind} {e : Expr} (hl : l.tighter? = some m)
      (h : Derives m n ks e) : Derives l n ks e

/-- A whole expression: one that stands at the loosest level and holds no more operators than are
    allowed. -/
def Whole (n : Nat) (ks : List Token.Kind) (e : Expr) : Prop :=
  Derives .logical n ks e ∧ e.operators ≤ maxOperators

/-- The kinds `ks` begin with a whole expression and go on with `rest`, which could not continue
    it. -/
def Reads (n : Nat) (ks : List Token.Kind) (e : Expr) (rest : List Token.Kind) : Prop :=
  ∃ ms, ks = ms ++ rest ∧ Whole n ms e ∧ ∀ op : BinaryOp, rest.head? ≠ some op.kind

/-- The token kinds with which an expression of a level can start. -/
def Starts (l : Level) : Token.Kind → Prop
  | .number _ | .string _ | .identifier _ => True
  | .keyword .benar | .keyword .salah | .symbol .parenOpen => True
  | .symbol .minus => Level.sign.rank ≤ l.rank
  | .keyword .bukan => Level.negation.rank ≤ l.rank
  | _ => False

theorem Starts.mono {l m : Level} {k : Token.Kind} (hl : m.rank ≤ l.rank) (h : Starts m k) :
    Starts l k := by
  unfold Starts at h ⊢
  split at h <;> first | trivial | exact Nat.le_trans h hl

/-- A derived expression has a first token. -/
theorem Derives.head {l : Level} {n : Nat} {ks : List Token.Kind} {e : Expr}
    (h : Derives l n ks e) : ∃ k ms, ks = k :: ms ∧ Starts l k := by
  induction h with
  | number | text | benar | salah | name | paren => exact ⟨_, _, rfl, trivial⟩
  | unary op hl h ih =>
    refine ⟨_, _, rfl, ?_⟩
    subst hl
    cases op <;> exact Nat.le_refl _
  | binary op hl _ _ iha _ =>
    obtain ⟨k, ms, rfl, hk⟩ := iha
    exact ⟨k, _, rfl, hk.mono (hl ▸ op.rank_left)⟩
  | tighter hl _ ih =>
    obtain ⟨k, ms, rfl, hk⟩ := ih
    exact ⟨k, ms, rfl, hk.mono (Level.rank_le_of_tighter hl)⟩

end Expr

end Naskah
