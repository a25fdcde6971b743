import Naskah.Cli.Arguments
import Naskah.Cli.LogFilter
import Naskah.Cli.Tree
import Naskah.Report

/-
  The command line program: it reads its arguments, opens the log file, loads the settings, reads
  the script, and runs it, checks it or lists its tokens. What it needs of the world is a parameter,
  so that it can be run on a disk as well as on a described world.
-/

namespace Naskah.Cli

/-- What the program needs of the world. -/
structure Host (m : Type → Type) where
  /-- A variable of the process environment. -/
  env : String → Option String
  readFile : String → m (Except FileError ByteArray)
  readInput : m (Except FileError ByteArray)
  openLog : String → m (Except LogFileError Unit)
  /-- Writes log lines to a file that has been opened, or to standard error. -/
  writeLog : Option String → List String → m Unit
  /-- Executes a program within a time in milliseconds; a run that takes longer is exhausted. -/
  execute : (budgetMs : UInt64) → Program → List String → m Outcome

/-- Why the program ends without success. -/
inductive Failure where
  | file (e : FileError)
  | logFile (path : String) (e : LogFileError)
  | program (e : Error)
  | timeout (budgetMs : UInt64)
deriving DecidableEq, Repr

namespace Failure

def message : Failure → String
  | file e => "IO error: " ++ e.message
  | logFile path e => "IO error: " ++ e.message path
  | program e => e.message
  | timeout budgetMs => s!"Execution exceeded time budget of {budgetMs.toNat} ms"

def exitCode : Failure → UInt8
  | file _ => 4
  | logFile .. => 4
  | program e => e.exitCode
  | timeout _ => 124

end Failure

/-- What the program leaves to the world when it ends. -/
structure Answer where
  stdout : String
  events : List LogEvent
  failure : Option Failure

namespace Answer

def failed (f : Failure) : Answer := ⟨"", [], some f⟩

def exitCode (a : Answer) : UInt8 :=
  (a.failure.map Failure.exitCode).getD 0

/-- What is written to standard error, the log left out. -/
def stderr (a : Answer) : String :=
  (a.failure.map fun f => "Error: " ++ f.message ++ "\n").getD ""

end Answer

/-- The lines that an answer adds to the log. -/
def Answer.logLines (a : Answer) (f : LogFilter) : List String :=
  (a.events.filter f.admits).map LogEvent.line

/-- A text of lines, each with a line break. -/
def unlines (lines : List String) : String :=
  .join (lines.map (· ++ "\n"))

/-- A report in a format. -/
def render (format : OutputFormat) (r : Report) : String :=
  match format with
  | .text => unlines r.output
  | .json => unlines [r.toJson.pretty]

/-- What a run comes to. -/
def answerRun (format : OutputFormat) (budgetMs : UInt64) (p : Program) (inputs : List String)
    (tracing : Bool) (o : Outcome) : Answer :=
  let statements := p.statements.length
  let before := [.compiled statements, .scriptCompiled statements,
    .startingWorker inputs.length budgetMs, .runningProgram statements] ++
    (if tracing then executionEvents p.statements inputs else [])
  match o with
  | .finished ctx _ =>
    ⟨render format (.ofContext ctx none), before ++ [.programFinished ctx.output.size], none⟩
  | .failed e ctx =>
    ⟨render format (.ofContext ctx (some e)), before, some (.program (.runtime e))⟩
  | .exhausted => ⟨"", before ++ [.timedOut budgetMs], some (.timeout budgetMs)⟩

/-- What a check comes to. -/
def answerCheck (p : Program) : Answer :=
  let statements := p.statements.length
  ⟨unlines ["ok"], [.compiled statements, .scriptOk statements], none⟩

/-- The list of tokens, the end of the text included. -/
def answerTokens (tokens : List Token) (lastLine : Nat) : Answer :=
  let row (line : Nat) (text : String) := toString line ++ "\t" ++ text
  ⟨unlines (tokens.map (fun t => row t.line t.kind.describe) ++ [row lastLine Token.endOfInput]),
    [], none⟩

/-- The text in bytes. -/
def decode (content : Except FileError ByteArray) : Except FileError String :=
  content.bind fun bytes =>
    match String.fromUTF8? bytes with
    | some s => .ok s
    | none => .error .invalidText

section

variable {m : Type → Type} [Monad m] (host : Host m)

/-- The settings in the file that is named, or else in the home directory. -/
def loadConfig (named : Option String) : m Config := do
  let path := named.orElse fun _ =>
    (host.env "HOME").bind fun home =>
      if home.isEmpty then none else some (home ++ "/.selang/config.json")
  match path with
  | none => return .unset
  | some path => return Config.load (decode (← host.readFile path)).toOption

/-- The script of a command. -/
def readScript (script : Option String) : m (Except FileError String) := do
  match script with
  | some path => return decode (← host.readFile path)
  | none => return decode (← host.readInput)

/-- Carries out a command on the text of its script. -/
def perform (config : Config) (tracing : Bool) (command : Command) (source : String) :
    m Answer := do
  match command with
  | .tokens _ =>
    match tokenize source with
    | .error e => return .failed (.program (.lexical e))
    | .ok (tokens, lastLine) => return answerTokens tokens lastLine
  | .check _ =>
    match compile source with
    | .error e => return .failed (.program e)
    | .ok p => return answerCheck p
  | .run _ inputs timeoutMs format =>
    match compile source with
    | .error e => return .failed (.program e)
    | .ok p =>
      let budgetMs := timeoutMs.getD config.timeout
      let o ← host.execute budgetMs p inputs
      return answerRun (format.getD config.outputFormat) budgetMs p inputs tracing o

/-- Opens the log file of an invocation, if it has one. -/
def openLog (i : Invocation) : m (Option Failure) := do
  match i.logFile with
  | none => return none
  | some path =>
    match ← host.openLog path with
    | .error e => return some (.logFile path e)
    | .ok () => return none

/-- Which events go to the log. -/
def logFilter : LogFilter := .ofSetting (host.env "RUST_LOG")

/-- Carries out an invocation. -/
def invoke (i : Invocation) : m Answer := do
  match ← openLog host i with
  | some f => return .failed f
  | none =>
    let config ← loadConfig host i.config
    match ← readScript host i.command.script with
    | .error e => return .failed (.file e)
    | .ok source => perform host config (logFilter host).admitsExecution i.command source

/-- How the program ends. -/
inductive Ending where
  | usage
  /-- Nothing was asked for, so help is shown on standard error; the exit code is 2. -/
  | helpOnly
  | exit (code : UInt8) (stdout stderr : String)
deriving DecidableEq, Repr

def versionText : String := "selang 0.1.0\n"

def helpText : String :=
  unlines [
    "Run scripts written in the selang language",
    "",
    "Usage: selang [--config PATH] [--log-file PATH] COMMAND",
    "",
    "Commands:",
    "  run [SCRIPT]     Compile and run a script",
    "  check [SCRIPT]   Compile a script without running it",
    "  tokens [SCRIPT]  Print the token stream of a script",
    "",
    "Options of run:",
    "  -i, --input VALUE     Value to append to the input queue",
    "  -t, --timeout-ms N    Execution time budget in milliseconds",
    "  -f, --format FORMAT   Output format: text or json"]

/-- The program, from its arguments to its end. -/
def program (args : List String) : m Ending := do
  match Arguments.parse? host.env args with
  | none => return .usage
  | some .version => return .exit 0 versionText ""
  | some .help => return .exit 0 helpText ""
  | some .nothing => return .helpOnly
  | some (.invoke i) =>
    let a ← invoke host i
    host.writeLog i.logFile (a.logLines (logFilter host))
    return .exit a.exitCode a.stdout a.stderr

end

end Naskah.Cli
