import Naskah.Proofs.Expr.Grammar
import Naskah.Stmt.Parse

/-
  The grammar of statements. `Stmt.Derives p n ks s rest` says that the token kinds `ks` begin with
  a text of the part `p` of the grammar, whose tree is `s`, and go on with `rest`. Blocks and
  `kalogak` links nest together with the parentheses and unary operators of the expressions in
  them, and no more than `n` of them lie within one another. A statement list is given as the block
  of its statements.
-/

namespace Naskah

open Naskah.Expr (Reads)

namespace Stmt

/-- The parts of the grammar. -/
inductive Part where
  | statement
  /-- What follows `kalo` or `kalogak`, up to the one `yaudah` that closes the whole chain. -/
  | conditional
  | block
  /-- Statements one after another. -/
  | statements
deriving DecidableEq, Repr

/-- The target of an assignment: a name, in any number of parentheses. -/
inductive Target : (n : Nat) → List Token.Kind → String → Prop
  | name {n : Nat} {x : String} : Target n [.identifier x] x
  | paren {n : Nat} {ks : List Token.Kind} {x : String} (h : Target n ks x) :
      Target (n + 1) (.symbol .parenOpen :: (ks ++ [.symbol .parenClose])) x

inductive Derives : Part → (n : Nat) → List Token.Kind → Stmt → (rest : List Token.Kind) → Prop
  | assign {n : Nat} {ks ms rest : List Token.Kind} {x : String} {e : Expr} (target : Target n ks x)
      (value : Reads n ms e rest) :
      Derives .statement n (ks ++ .keyword .itu :: ms) (.assign x e) rest
  | expr {n : Nat} {ks rest : List Token.Kind} {e : Expr} (value : Reads n ks e rest) :
      Derives .statement n ks (.expr e) rest
  | input {n : Nat} {rest : List Token.Kind} {x : String} :
      Derives .statement n (.keyword .baca :: .identifier x :: rest) (.input x) rest
  | print {n : Nat} {ks rest : List Token.Kind} {e : Expr} (value : Reads n ks e rest) :
      Derives .statement n (.keyword .tulis :: ks) (.print e) rest
  | loop {n : Nat} {ks ms rest : List Token.Kind} {e : Expr} {body : Stmt} (test : Reads n ks e ms)
      (run : Derives .block n ms body (.keyword .yaudah :: rest)) :
      Derives .statement n (.keyword .selama :: ks) (.loop e body) rest
  | count {n : Nat} {ks ms ls rest : List Token.Kind} {x : String} {a b : Expr} {body : Stmt}
      (first : Reads n ks a (.keyword .sampe :: ms)) (last : Reads n ms b ls)
      (run : Derives .block n ls body (.keyword .yaudah :: rest)) :
      Derives .statement n (.keyword .ulangin :: .identifier x :: .keyword .dari :: ks)
        (.count x a b body) rest
  | cond {n : Nat} {ks rest : List Token.Kind} {s : Stmt} (h : Derives .conditional n ks s rest) :
      Derives .statement n (.keyword .kalo :: ks) s rest
  | closed {n : Nat} {ks ms rest : List Token.Kind} {e : Expr} {yes : Stmt} (test : Reads n ks e ms)
      (run : Derives .block n ms yes (.keyword .yaudah :: rest)) :
      Derives .conditional n ks (.cond e yes .empty) rest
  | lainnya {n : Nat} {ks ms ls rest : List Token.Kind} {e : Expr} {yes no : Stmt}
      (test : Reads n ks e ms) (run : Derives .block n ms yes (.keyword .lainnya :: ls))
      (otherwise : Derives .block n ls no (.keyword .yaudah :: rest)) :
      Derives .conditional n ks (.cond e yes no) rest
  | kalogak {n : Nat} {ks ms ls rest : List Token.Kind} {e : Expr} {yes no : Stmt}
      (test : Reads (n + 1) ks e ms)
      (run : Derives .block (n + 1) ms yes (.keyword .kalogak :: ls))
      (otherwise : Derives .conditional n ls no rest) :
      Derives .conditional (n + 1) ks (.cond e yes no) rest
  | block {n : Nat} {ks rest : List Token.Kind} {s : Stmt} (h : Derives .statements n ks s rest) :
      Derives .block (n + 1) ks s rest
  | nil {n : Nat} {rest : List Token.Kind} : Derives .statements n rest (.block []) rest
  | cons {n : Nat} {ks ms rest : List Token.Kind} {s : Stmt} {ss : List Stmt}
      (first : Derives .statement n ks s ms) (more : Derives .statements n ms (.block ss) rest) :
      Derives .statements n ks (.block (s :: ss)) rest

/-! ## Targets -/

theorem Target.derives {n : Nat} {ks : List Token.Kind} {x : String} (h : Target n ks x) :
    Expr.Derives .literal n ks (.variable x) := by
  induction h with
  | name => exact .name
  | paren _ ih =>
    exact .paren (.tighter rfl (.tighter rfl (.tighter rfl (.tighter rfl (.tighter rfl
      (.tighter rfl ih))))))

theorem Target.whole {n : Nat} {ks : List Token.Kind} {x : String} (h : Target n ks x) :
    Expr.Whole n ks (.variable x) :=
  ⟨.tighter rfl (.tighter rfl (.tighter rfl (.tighter rfl (.tighter rfl (.tighter rfl h.derives))))),
    Nat.zero_le _⟩

/-- Of the expressions only names in parentheses have a variable as their tree. -/
theorem target_of_derives {l : Expr.Level} {n : Nat} {ks : List Token.Kind} {x : String}
    (h : Expr.Derives l n ks (.variable x)) : Target n ks x := by
  generalize he : Expr.variable x = e at h
  induction h with
  | name =>
    cases he
    exact .name
  | paren _ ih => exact .paren (ih he)
  | tighter _ _ ih => exact ih he
  | number | text | benar | salah | unary | binary => cases he

end Stmt

end Naskah
