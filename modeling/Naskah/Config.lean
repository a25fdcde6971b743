import Naskah.Json.Read
import Naskah.Json.Write
import Naskah.Number.Decimal

/-
  Settings kept in a file. The file is a JSON object with the members `timeout_ms` and `format`, or
  an array of their values in that order. Each may be missing or null, and other members are passed
  over. A file that is refused for any reason counts as a file without settings.
-/

namespace Naskah

/-- How the result of a run is printed. -/
inductive OutputFormat where
  | text
  | json
deriving DecidableEq, Repr

namespace OutputFormat

def name : OutputFormat → String
  | text => "text"
  | json => "json"

def ofName? (s : String) : Option OutputFormat :=
  if s = "text" then some text
  else if s = "json" then some json
  else none

end OutputFormat

structure Config where
  /-- The time that a run may take, in milliseconds. -/
  timeoutMs : Option UInt64
  format : Option OutputFormat
deriving DecidableEq, Repr

namespace Config

/-- No settings. -/
def unset : Config := ⟨none, none⟩

def defaultTimeoutMs : UInt64 := 5000

/-- The time that a run may take. -/
def timeout (c : Config) : UInt64 :=
  c.timeoutMs.getD defaultTimeoutMs

/-- The format that results are printed in. -/
def outputFormat (c : Config) : OutputFormat :=
  c.format.getD .text

/-- A natural number below `2 ^ 64`, from digits alone. -/
def word64? (ds : List Char) : Option UInt64 :=
  if ds.isEmpty || !ds.all Char.isDigit then none
  else
    let n := Decimal.natOfDigits ds
    if n < UInt64.size then some (.ofNat n) else none

/-- The value of `timeout_ms`; null leaves it unset. -/
def readTimeout? : Json → Option (Option UInt64)
  | .null => some none
  | .number numeral => (word64? numeral.toList).map some
  | _ => none

/-- The value of `format`; null leaves it unset. The name of a format may also be the only member of
    an object, with null under it. -/
def readFormat? : Json → Option (Option OutputFormat)
  | .null => some none
  | .string (some s) => (OutputFormat.ofName? s).map some
  | .object [(some s, .null)] => (OutputFormat.ofName? s).map some
  | _ => none

/-- The settings read so far; the outer option tells whether the member was met. -/
structure Draft where
  timeoutMs : Option (Option UInt64)
  format : Option (Option OutputFormat)

/-- Reads one member. Its name has to be a text, and neither setting may come twice. -/
def readMember? (p : Draft) : Option String × Json → Option Draft
  | (none, _) => none
  | (some name, j) =>
    if name = "timeout_ms" then
      if p.timeoutMs.isSome then none
      else (readTimeout? j).map fun t => { p with timeoutMs := some t }
    else if name = "format" then
      if p.format.isSome then none
      else (readFormat? j).map fun f => { p with format := some f }
    else some p

/-- Reads the settings from a document. -/
def ofJson? : Json → Option Config
  | .object members => do
    let p ← members.foldlM readMember? ⟨none, none⟩
    return ⟨p.timeoutMs.join, p.format.join⟩
  | .array [] => some unset
  | .array [t] => return ⟨← readTimeout? t, none⟩
  | .array [t, f] => return ⟨← readTimeout? t, ← readFormat? f⟩
  | _ => none

/-- The settings in the text of a file. -/
def read? (content : String) : Option Config :=
  (Json.read? content).bind ofJson?

/-- The settings in a file, of which there are none if it is missing or refused. -/
def load (content : Option String) : Config :=
  (content.bind read?).getD unset

/-- The settings that are set, as a document. -/
def toJson (c : Config) : Json :=
  .ofMembers
    ((c.timeoutMs.map fun t => ("timeout_ms", Json.nat t.toNat)).toList ++
      (c.format.map fun f => ("format", Json.text f.name)).toList)

end Config

end Naskah
