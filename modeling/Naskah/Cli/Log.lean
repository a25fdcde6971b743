import Naskah.Machine

/-
  Log events: what a command reports about its work, and how a report is written as a line of the
  log. Which of them are written is decided by a `LogFilter`.
-/

namespace Naskah.Cli

/-- The importance of an event. -/
inductive LogLevel where
  | trace
  | debug
  | info
  | warn
deriving DecidableEq, Repr

namespace LogLevel

def rank : LogLevel → Nat
  | trace => 0
  | debug => 1
  | info => 2
  | warn => 3

def label : LogLevel → String
  | trace => "TRACE"
  | debug => "DEBUG"
  | info => "INFO"
  | warn => "WARN"

end LogLevel

/-- Something worth a log line. -/
inductive LogEvent where
  | compiled (statements : Nat)
  | scriptCompiled (statements : Nat)
  | scriptOk (statements : Nat)
  | startingWorker (inputs : Nat) (budgetMs : UInt64)
  | runningProgram (statements : Nat)
  | executing (statement : String)
  | programFinished (output : Nat)
  | timedOut (budgetMs : UInt64)
deriving DecidableEq, Repr

namespace LogEvent

def level : LogEvent → LogLevel
  | compiled _ => .debug
  | scriptCompiled _ => .info
  | scriptOk _ => .debug
  | startingWorker .. => .debug
  | runningProgram _ => .debug
  | executing _ => .trace
  | programFinished _ => .debug
  | timedOut _ => .warn

/-- The part of the program that reports. -/
def source : LogEvent → String
  | compiled _ => "selang_core::program"
  | scriptCompiled _ => "selang"
  | scriptOk _ => "selang"
  | startingWorker .. => "selang::host"
  | runningProgram _ => "selang_core::program"
  | executing _ => "selang_core::executor"
  | programFinished _ => "selang_core::program"
  | timedOut _ => "selang::host"

def message : LogEvent → String
  | compiled _ => "compiled program"
  | scriptCompiled _ => "compiled script"
  | scriptOk _ => "script ok"
  | startingWorker .. => "starting worker"
  | runningProgram _ => "running program"
  | executing _ => "executing"
  | programFinished _ => "program finished"
  | timedOut _ => "execution timed out"

/-- What is told beside the message: names and values as they are written. -/
def fields : LogEvent → List (String × String)
  | compiled n => [("statements", toString n)]
  | scriptCompiled n => [("statements", toString n)]
  | scriptOk n => [("statements", toString n)]
  | startingWorker inputs budgetMs =>
    [("inputs", toString inputs), ("budget_ms", toString budgetMs.toNat)]
  | runningProgram n => [("statements", toString n)]
  | executing statement => [("statement", "\"" ++ statement ++ "\"")]
  | programFinished n => [("output", toString n)]
  | timedOut budgetMs => [("budget_ms", toString budgetMs.toNat)]

/-- Whether the event has a field; the message counts as one. -/
def hasField (e : LogEvent) (name : String) : Bool :=
  name = "message" || e.fields.any (·.1 = name)

/-- The line of an event, without the time. -/
def line (e : LogEvent) : String :=
  e.level.label ++ " " ++ e.source ++ ": " ++ e.message ++
    .join (e.fields.map fun (name, value) => " " ++ name ++ "=" ++ value)

end LogEvent

/-- The steps of a run that are looked through for the statements it executes. -/
def tracedSteps : Nat := 2000000

/-- The events of the execution of a program: one for each statement that is started. -/
def executionEvents (p : List Stmt) (inputs : List String) : List LogEvent :=
  ((Machine.start p (.start inputs)).started #[] tracedSteps).toList.map fun s =>
    .executing s.name

end Naskah.Cli
