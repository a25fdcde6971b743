import Naskah.Cli.Run

/-
  A described world: the process environment, standard input and a directory tree, all given as
  data. The command line program runs in it without touching a disk, and time is measured by the
  passes that loops make.
-/

namespace Naskah.Cli

structure World where
  env : List (String × String)
  stdin : ByteArray
  tree : Tree
  /-- The passes that the loops of a run can make in a time in milliseconds. -/
  passes : (budgetMs : UInt64) → Nat

namespace World

/-- A log file that could not be opened has no lines to take. -/
def writeLog (path : Option String) (lines : List String) (t : Tree) : Tree :=
  match path with
  | some path => if lines.isEmpty then t else t.appendLog path (unlines lines).toUTF8
  | none => t

/-- The world as the program meets it; what changes is the tree. -/
def host (w : World) : Host (StateM Tree) where
  env name := w.env.lookup name
  readFile path := do return (← get).read path
  readInput := pure (.ok w.stdin)
  openLog path := do
    match (← get).openLog path with
    | .error e => return .error e
    | .ok t =>
      set t
      return .ok ()
  writeLog path lines := modify (writeLog path lines)
  execute budgetMs p inputs := pure (p.run (w.passes budgetMs) inputs)

/-- The end of the program and the tree that it leaves. -/
def run (w : World) (args : List String) : Ending × Tree :=
  (program w.host args).run w.tree

end World

end Naskah.Cli
