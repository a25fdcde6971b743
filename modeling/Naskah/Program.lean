import Naskah.Stmt.Exec
import Naskah.Stmt.Parse

/-
  Programs: a text is compiled once and can be executed any number of times.
-/

namespace Naskah

structure Program where
  statements : List Stmt
deriving DecidableEq

/-- Scans and parses a text. -/
def compile (source : String) : Except Error Program :=
  match Feed.ofSource source with
  | .error e => .error (.lexical e)
  | .ok f =>
    match Stmt.parseAll f with
    | .error e => .error e
    | .ok statements => .ok ⟨statements⟩

namespace Program

/-- Executes the program in a context, its loops making no more than the given passes. -/
def execute (p : Program) (passes : Nat) (ctx : Context) : Outcome :=
  Stmt.execAll p.statements passes ctx

/-- Executes the program in a new context. -/
def run (p : Program) (passes : Nat) (input : List String) : Outcome :=
  p.execute passes (.start input)

end Program

end Naskah
