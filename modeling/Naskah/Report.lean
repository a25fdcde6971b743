import Naskah.Json.Write
import Naskah.Program

/-
  Reports: what a run leaves behind, as JSON. The output entries come first, then the variables in
  the order of their names.
-/

namespace Naskah

/-- JSON numbers are positional from `1e-5` up to below `1e16`, where a whole number keeps `.0`, and
    show the sign of zero. What is not finite is null. -/
def jsonNumberLayout : Layout where
  leastPlain := -5
  greatestPlain := 15
  pointZero := true
  tie := .even
  zero := "0.0"
  negativeZero := "-0.0"
  infinity := "null"
  negativeInfinity := "null"
  notANumber := "null"

/-- A value as JSON. -/
def Value.toJson : Value → Json
  | .number x => if x.isFinite then .number (jsonNumberLayout.render x) else .null
  | .text s => .text s
  | .boolean b => .boolean b

/-- What a run has left behind; a run that failed has an error. -/
structure Report where
  output : List String
  bindings : Bindings
  error : Option RuntimeError

namespace Report

/-- The report on a context. -/
def ofContext (ctx : Context) (error : Option RuntimeError) : Report :=
  ⟨ctx.output.toList, ctx.environment.bindings, error⟩

/-- The report on a run, if it ended. -/
def ofOutcome? : Outcome → Option Report
  | .finished ctx _ => some (ofContext ctx none)
  | .failed e ctx => some (ofContext ctx (some e))
  | .exhausted => none

def toJson (r : Report) : Json :=
  .ofMembers [
    ("output", .array (r.output.map .text)),
    ("variables", .ofMembers (r.bindings.entries.map fun (name, v) => (name, v.toJson)))]

end Report

end Naskah
