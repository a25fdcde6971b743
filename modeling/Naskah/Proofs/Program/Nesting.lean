import Naskah.Proofs.Program.Exact

/-
  How deep the trees of a program are. The grammar counts blocks, `kalogak` links, parentheses and
  unary operators; of these all but the parentheses can be seen in the tree. The limits bound what
  lies within one another in a statement (`Derives.nesting_le`) and with it the height of the tree
  (`Derives.frames_le`), which is that of the calls that execute it.
-/

namespace Naskah

namespace Expr

/-- The unary operators on a path to a leaf, at most. -/
def nesting : Expr → Nat
  | .unary _ operand => operand.nesting + 1
  | .binary _ left right => max left.nesting right.nesting
  | _ => 0

/-- The nodes on a path to a leaf, at most. -/
def height : Expr → Nat
  | .unary _ operand => operand.height + 1
  | .binary _ left right => max left.height right.height + 1
  | _ => 1

theorem height_le_operators (e : Expr) : e.height ≤ e.operators + 1 := by
  induction e with
  | unary _ _ ih =>
    simp only [height, operators]
    omega
  | binary _ _ _ iha ihb =>
    simp only [height, operators]
    omega
  | _ => exact Nat.le_refl _

theorem Derives.nesting_le {l : Level} {n : Nat} {ks : List Token.Kind} {e : Expr}
    (h : Derives l n ks e) : e.nesting ≤ n := by
  induction h with
  | number | text | benar | salah | name => exact Nat.zero_le _
  | paren _ ih => exact Nat.le_succ_of_le ih
  | unary _ _ _ ih => exact Nat.succ_le_succ ih
  | binary _ _ _ _ iha ihb => exact Nat.max_le.2 ⟨iha, ihb⟩
  | tighter _ _ ih => exact ih

theorem Reads.nesting_le {n : Nat} {ks rest : List Token.Kind} {e : Expr} (h : Reads n ks e rest) :
    e.nesting ≤ n := by
  obtain ⟨_, _, hwhole, _⟩ := h
  exact hwhole.1.nesting_le

theorem Reads.operators_le {n : Nat} {ks rest : List Token.Kind} {e : Expr}
    (h : Reads n ks e rest) : e.operators ≤ maxOperators := by
  obtain ⟨_, _, hwhole, _⟩ := h
  exact hwhole.2

end Expr

namespace Stmt

/-! ## Measures of statements -/

/-- A conditional that stands in the place of a second branch is a link of its chain. -/
def links : Stmt → Nat
  | .cond .. => 1
  | _ => 0

mutual

/-- The blocks, links and unary operators on a path to a leaf, at most. -/
def nesting : Stmt → Nat
  | .assign _ value => value.nesting
  | .cond test yes no => max test.nesting (max yes.nesting (no.nesting + no.links))
  | .count _ first last body => max (max first.nesting last.nesting) body.nesting
  | .loop test body => max test.nesting body.nesting
  | .print value => value.nesting
  | .block body => nestingAll body + 1
  | .expr value => value.nesting
  | .input _ | .empty => 0

def nestingAll : List Stmt → Nat
  | [] => 0
  | s :: ss => max s.nesting (nestingAll ss)

end

mutual

/-- The statements on a path to a leaf, at most. -/
def height : Stmt → Nat
  | .cond _ yes no => max yes.height no.height + 1
  | .count _ _ _ body => body.height + 1
  | .loop _ body => body.height + 1
  | .block body => heightAll body + 1
  | _ => 1

def heightAll : List Stmt → Nat
  | [] => 0
  | s :: ss => max s.height (heightAll ss)

end

mutual

/-- The expressions that stand in a statement and in those within it. -/
def expressions : Stmt → List Expr
  | .assign _ value => [value]
  | .cond test yes no => test :: (yes.expressions ++ no.expressions)
  | .count _ first last body => first :: last :: body.expressions
  | .loop test body => test :: body.expressions
  | .print value => [value]
  | .block body => expressionsAll body
  | .expr value => [value]
  | .input _ | .empty => []

def expressionsAll : List Stmt → List Expr
  | [] => []
  | s :: ss => s.expressions ++ expressionsAll ss

end

/-! ## Bounds -/

theorem links_le (s : Stmt) : s.links ≤ 1 := by
  unfold links
  split <;> decide

/-- A block is no link of a chain. -/
theorem Derives.links_block {n : Nat} {ks rest : List Token.Kind} {s : Stmt}
    (h : Derives .block n ks s rest) : s.links = 0 := by
  cases h with
  | block h => cases h <;> rfl

/-- The nesting that the grammar allows to a part. The block of a statement list is counted by the
    part around it. -/
def Part.nesting : Part → (n : Nat) → Nat
  | .statements, n => n + 1
  | _, n => n

theorem Derives.nesting_le {p : Part} {n : Nat} {ks rest : List Token.Kind} {s : Stmt}
    (h : Derives p n ks s rest) : s.nesting ≤ p.nesting n := by
  induction h with
  | assign _ value | expr value | print value => exact Expr.Reads.nesting_le value
  | input => exact Nat.zero_le _
  | loop test _ ih => exact Nat.max_le.2 ⟨Expr.Reads.nesting_le test, ih⟩
  | count first last _ ih =>
    exact Nat.max_le.2
      ⟨Nat.max_le.2 ⟨Expr.Reads.nesting_le first, Expr.Reads.nesting_le last⟩, ih⟩
  | cond _ ih => exact ih
  | closed test _ ih =>
    exact Nat.max_le.2 ⟨Expr.Reads.nesting_le test, Nat.max_le.2 ⟨ih, Nat.zero_le _⟩⟩
  | lainnya test _ otherwise ih ih' =>
    have hno := otherwise.links_block
    refine Nat.max_le.2 ⟨Expr.Reads.nesting_le test, Nat.max_le.2 ⟨ih, ?_⟩⟩
    rw [hno]
    exact ih'
  | @kalogak _ _ _ _ _ _ _ no test _ _ ih ih' =>
    exact Nat.max_le.2
      ⟨Expr.Reads.nesting_le test, Nat.max_le.2 ⟨ih, Nat.add_le_add ih' no.links_le⟩⟩
  | block _ ih => exact ih
  | nil => exact Nat.le_add_left _ _
  | cons _ _ ih ih' =>
    have hfirst := Nat.succ_le_succ ih
    simp only [nesting, nestingAll, Part.nesting] at hfirst ih' ⊢
    omega

/-- The height that the grammar allows to a part. A block and the statement in it are two nodes on
    one nesting level, and a link is one. -/
def Part.height : Part → (n : Nat) → Nat
  | .statement, n | .conditional, n => 2 * n + 1
  | .block, n => 2 * n
  | .statements, n => 2 * n + 2

theorem Derives.height_le {p : Part} {n : Nat} {ks rest : List Token.Kind} {s : Stmt}
    (h : Derives p n ks s rest) : s.height ≤ p.height n := by
  induction h with
  | assign | expr | print | input => exact Nat.le_add_left _ _
  | loop _ _ ih => exact Nat.succ_le_succ ih
  | count _ _ _ ih => exact Nat.succ_le_succ ih
  | cond _ ih => exact ih
  | closed _ run ih =>
    -- The first branch is a block, so a level is left for the empty statement.
    cases run with
    | block => exact Nat.succ_le_succ (Nat.max_le.2 ⟨ih, Nat.le_add_left _ _⟩)
  | lainnya _ _ _ ih ih' => exact Nat.succ_le_succ (Nat.max_le.2 ⟨ih, ih'⟩)
  | kalogak _ _ _ ih ih' =>
    exact Nat.succ_le_succ (Nat.max_le.2 ⟨ih, Nat.le_succ_of_le ih'⟩)
  | block _ ih => exact ih
  | nil => exact Nat.le_add_left _ _
  | cons _ _ ih ih' =>
    have hfirst := Nat.succ_le_succ ih
    simp only [height, heightAll, Part.height] at hfirst ih' ⊢
    omega

theorem Derives.operators_le {p : Part} {n : Nat} {ks rest : List Token.Kind} {s : Stmt}
    (h : Derives p n ks s rest) : ∀ e ∈ s.expressions, e.operators ≤ maxOperators := by
  induction h with
  | assign _ value | expr value | print value =>
    exact List.forall_mem_singleton.2 (Expr.Reads.operators_le value)
  | input | nil => exact fun e he => nomatch he
  | loop test _ ih => exact List.forall_mem_cons.2 ⟨Expr.Reads.operators_le test, ih⟩
  | count first last _ ih =>
    exact List.forall_mem_cons.2 ⟨Expr.Reads.operators_le first,
      List.forall_mem_cons.2 ⟨Expr.Reads.operators_le last, ih⟩⟩
  | cond _ ih | block _ ih => exact ih
  | closed test _ ih =>
    exact List.forall_mem_cons.2 ⟨Expr.Reads.operators_le test,
      List.forall_mem_append.2 ⟨ih, fun e he => nomatch he⟩⟩
  | lainnya test _ _ ih ih' | kalogak test _ _ ih ih' =>
    exact List.forall_mem_cons.2
      ⟨Expr.Reads.operators_le test, List.forall_mem_append.2 ⟨ih, ih'⟩⟩
  | cons _ _ ih ih' => exact List.forall_mem_append.2 ⟨ih, ih'⟩

/-! ## Lists -/

theorem nesting_le_all {s : Stmt} {ss : List Stmt} (h : s ∈ ss) : s.nesting ≤ nestingAll ss := by
  induction h with
  | head => exact Nat.le_max_left _ _
  | tail _ _ ih => exact Nat.le_trans ih (Nat.le_max_right _ _)

theorem height_le_all {s : Stmt} {ss : List Stmt} (h : s ∈ ss) : s.height ≤ heightAll ss := by
  induction h with
  | head => exact Nat.le_max_left _ _
  | tail _ _ ih => exact Nat.le_trans ih (Nat.le_max_right _ _)

theorem expressions_subset_all {s : Stmt} {ss : List Stmt} (h : s ∈ ss) :
    s.expressions ⊆ expressionsAll ss := by
  induction h with
  | head => exact List.subset_append_left _ _
  | tail _ _ ih => exact List.Subset.trans ih (List.subset_append_right _ _)

end Stmt

end Naskah
