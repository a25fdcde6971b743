import Naskah.Cli.Log
import Naskah.Number.Decimal
import Naskah.Text.Blank
import Naskah.Text.WordChar

/-
  Log filters: which events are written. A filter is a list of directives between commas. A
  directive names a threshold, or the start of the sources it is about, or both:

    debug    selang    selang::host=info    selang[{statements}]=debug

  Brackets narrow it down to events with a field. Of the directives that fit an event the most
  specific one decides, and of equally specific ones the last. An event that no directive fits is
  not written.
-/

namespace Naskah.Cli

/-- The least rank that is written; no event has a rank of 4 or more. -/
structure LogThreshold where
  leastRank : Nat
deriving DecidableEq, Repr

namespace LogThreshold

def silent : LogThreshold := ⟨4⟩

/-- The threshold with a name, in any case. -/
def ofName? (name : String) : Option LogThreshold :=
  match String.ofList (name.toList.map Char.toLower) with
  | "trace" => some ⟨LogLevel.trace.rank⟩
  | "debug" => some ⟨LogLevel.debug.rank⟩
  | "info" => some ⟨LogLevel.info.rank⟩
  | "warn" => some ⟨LogLevel.warn.rank⟩
  | "error" => some silent
  | "off" => some silent
  | _ => none

/-- The threshold with a number: 2 lets warnings pass, 5 everything, 0 and 1 nothing. A plus sign
    may stand before the number. -/
def ofNumber? (cs : List Char) : Option LogThreshold :=
  let digits := match cs with
    | '+' :: r => r
    | r => r
  if digits.isEmpty || !digits.all Char.isDigit then none
  else
    let n := Decimal.natOfDigits digits
    if n ≤ 1 then some silent
    else if n ≤ 5 then some ⟨5 - n⟩
    else none

def ofText? (cs : List Char) : Option LogThreshold :=
  (ofNumber? cs).or (ofName? (.ofList cs))

/-- The threshold behind an equals sign; without a text everything passes. -/
def ofLevelText? (cs : List Char) : Option LogThreshold :=
  if cs.isEmpty then some ⟨LogLevel.trace.rank⟩ else ofText? cs

def admits (t : LogThreshold) (l : LogLevel) : Bool :=
  t.leastRank ≤ l.rank

end LogThreshold

/-- A rule for the events that it fits. -/
structure LogDirective where
  /-- What the source of an event has to start with. -/
  source : Option String
  /-- A field that an event has to have. -/
  field : Option String
  threshold : LogThreshold
deriving DecidableEq, Repr

namespace LogDirective

def fits (d : LogDirective) (e : LogEvent) : Bool :=
  d.source.all (fun s => e.source.startsWith s) && d.field.all e.hasField

/-- The order of two directives that fit one event: a longer source comes before a shorter one or
    none, then a field before none. Which of two fields comes first is settled by their names. -/
def isLessSpecific (d d' : LogDirective) : Bool :=
  let length (d : LogDirective) := (d.source.map String.length).getD 0
  if length d = length d' then
    match d.field, d'.field with
    | none, some _ => true
    | some f, some f' => f < f'
    | _, none => false
  else length d < length d'

/-- What a directive may start with. -/
def isStart (c : Char) : Bool :=
  c == '[' || c == '-' || c == ':' || c == '_' || Text.isAlphanumeric c

/-- What follows the closing bracket, at `place` of the directive `text`: nothing, or a
    threshold. -/
def afterBracket? (text : List Char) (place : Nat) : List Char → Option LogThreshold
  | [] => some ⟨LogLevel.trace.rank⟩
  | '=' :: _ => LogThreshold.ofLevelText? (text.drop (place + 1))
  | _ => none

/-- A directive with brackets, `inside` being what follows the opening one, at `place` of `text`.
    Brackets with a name in them, or with a value for the field, are about stretches of work, of
    which the program has none: such a directive is well formed but fits no event. -/
def bracketed? (text inside : List Char) (source : Option String) (place : Nat) :
    Option (Option LogDirective) :=
  let name := inside.takeWhile fun c => c != ']' && c != '\x7b'
  let place := place + name.length + 1
  match inside.drop name.length with
  | ']' :: r => (afterBracket? text place r).map fun _ => none
  | '\x7b' :: r =>
    let field := r.takeWhile (· != '\x7d')
    match r.drop field.length with
    | '\x7d' :: ']' :: r' =>
      if field.isEmpty then none
      else
        (afterBracket? text (place + field.length + 2) r').map fun threshold =>
          let field := (text.drop place).take field.length
          if name.isEmpty && !field.contains '=' then
            some ⟨source, some (.ofList field), threshold⟩
          else none
    | _ => none
  | _ => none

/-- Reads a directive. The outer option is none if it is not well formed, the inner one if it fits
    no event of the program. Its signs are looked for between the blanks at its two ends, and its
    parts are then cut out of the whole text at the places found, so that a blank at the end belongs
    to the last part. -/
def read? (text : List Char) : Option (Option LogDirective) :=
  let shown := Text.trimBlanks text
  let head := shown.takeWhile fun c => c != '=' && c != '['
  let n := head.length
  if !shown.head?.any isStart then none
  else
    match shown.drop n with
    | [] =>
      match LogThreshold.ofText? text with
      | some threshold => some (some ⟨none, none, threshold⟩)
      | none => some (some ⟨some (.ofList text), none, ⟨LogLevel.trace.rank⟩⟩)
    | '[' :: inside =>
      let source := if n = 0 then none else some (.ofList (text.take n))
      bracketed? text inside source (n + 1)
    | _ :: _ =>
      (LogThreshold.ofLevelText? (text.drop (n + 1))).map fun threshold =>
        some ⟨some (.ofList (text.take n)), none, threshold⟩

end LogDirective

abbrev LogFilter : Type := List LogDirective

namespace LogFilter

/-- The filter of a program that is told nothing: warnings pass. -/
def standard : LogFilter := [⟨none, none, ⟨LogLevel.warn.rank⟩⟩]

/-- Reads a filter; empty directives are passed over. -/
def read? (s : String) : Option LogFilter :=
  let texts := ((s.splitOn ",").map String.toList).filter fun t => !t.isEmpty
  (texts.mapM LogDirective.read?).map (·.filterMap id)

/-- The filter that is set, or the standard one if none is set or it is not well formed. -/
def ofSetting (setting : Option String) : LogFilter :=
  (setting.bind read?).getD standard

/-- The directive that decides on an event. -/
def directive? (f : LogFilter) (e : LogEvent) : Option LogDirective :=
  (f.filter (·.fits e)).foldl (fun best d =>
    match best with
    | none => some d
    | some b => if d.isLessSpecific b then best else some d) none

/-- Whether an event is written. -/
def admits (f : LogFilter) (e : LogEvent) : Bool :=
  (f.directive? e).any (·.threshold.admits e.level)

/-- Whether any executed statement is written. -/
def admitsExecution (f : LogFilter) : Bool :=
  f.admits (.executing "")

end LogFilter

end Naskah.Cli
