import Naskah.Environment
import Naskah.Value.Text

/-
  Contexts: all that a run reads and changes. A context outlives its run, so what was bound and
  printed before a failure can still be seen.
-/

namespace Naskah

structure Context where
  environment : Environment
  /-- The entries not yet read, the next one first. -/
  input : List String
  /-- The entries printed, in order. -/
  output : Array String
deriving DecidableEq

namespace Context

/-- A context without bindings and output. -/
def start (input : List String) : Context :=
  ⟨.empty, input, #[]⟩

def bind (ctx : Context) (name : String) (value : Value) : Context :=
  { ctx with environment := ctx.environment.set name value }

def print (ctx : Context) (value : Value) : Context :=
  { ctx with output := ctx.output.push value.display }

/-- Binds a name to the next input entry, if there is one. -/
def read? (ctx : Context) (target : String) : Option Context :=
  match ctx.input with
  | [] => none
  | raw :: input => some ({ ctx with input }.bind target (.ofInput raw))

end Context

end Naskah
