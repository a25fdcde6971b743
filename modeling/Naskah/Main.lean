import Naskah.Cli.Run

/-
  The command line program on a real disk, with time measured by the clock.
-/

open Naskah Naskah.Cli

/-- The error of a file operation. The system's code comes with either sign. -/
def fileErrorOf (e : IO.Error) : FileError :=
  let isCode (code n : UInt32) : Bool := code = n ∨ code + n = 0
  match e with
  | .alreadyExists .. => .alreadyThere
  | .inappropriateType _ code _ => if isCode code 20 then .notDirectory else .isDirectory
  | .invalidArgument _ code _ => if isCode code 36 then .nameTooLong else .notFound
  | _ => .notFound

def attempt {α : Type} (act : IO α) : IO (Except FileError α) := do
  match ← act.toBaseIO with
  | .ok a => return .ok a
  | .error e => return .error (fileErrorOf e)

/-- All that is left on standard input. -/
partial def readRest (stream : IO.FS.Stream) (sofar : ByteArray) : IO ByteArray := do
  let bytes ← stream.read 65536
  if bytes.isEmpty then return sofar
  readRest stream (sofar ++ bytes)

def openForAppending (path : String) : IO (Except FileError Unit) :=
  attempt do
    let handle ← IO.FS.Handle.mk path .append
    handle.flush

def isDirectory (path : String) : IO Bool := do
  match ← attempt (IO.FS.realPath path) with
  | .ok real => real.isDir
  | .error _ => return false

/-- Makes one directory, unless it is there. -/
def makeDirectory (path : String) : IO (Except FileError Unit) := do
  match ← attempt (IO.FS.createDir path) with
  | .ok () => return .ok ()
  | .error .notFound => return .error .notFound
  | .error e => return if ← isDirectory path then .ok () else .error e

/-- Makes the directory of the given parts and those that lead to it. -/
partial def makeDirectories (start : String) (parts : List String) : IO (Except FileError Unit) := do
  if parts.isEmpty then return .ok ()
  let path := start ++ "/".intercalate parts
  match ← makeDirectory path with
  | .error .notFound =>
    match ← makeDirectories start parts.dropLast with
    | .error e => return .error e
    | .ok () => makeDirectory path
  | made => return made

def openLogFile (path : String) : IO (Except LogFileError Unit) := do
  let p := Tree.logPath path
  if p.name?.isNone then return .error .invalidPath
  match ← openForAppending p.toText with
  | .ok () => return .ok ()
  | .error _ =>
    match ← makeDirectories (if p.absolute then "/" else "") p.parent.parts with
    | .error e => return .error (.directory e)
    | .ok () => return (← openForAppending p.toText).mapError .file

def appendLog (path : Option String) (lines : List String) : IO Unit := do
  if lines.isEmpty then return
  match path with
  | none => (← IO.getStderr).putStr (unlines lines)
  | some path =>
    let handle ← IO.FS.Handle.mk (Tree.logPath path).toText .append
    handle.putStr (unlines lines)

/-- Runs a machine until it ends or the clock has passed the deadline. -/
partial def runUntil (deadline : Nat) (m : Machine) : IO Outcome := do
  match m.run 4096 with
  | .halted ctx => return .finished ctx 0
  | .failed e ctx => return .failed e ctx
  | .running next =>
    if deadline ≤ (← IO.monoMsNow) then return .exhausted
    runUntil deadline next

def diskHost (env : List (String × String)) : Host IO where
  env name := env.lookup name
  readFile path := attempt (IO.FS.readBinFile path)
  readInput := attempt do readRest (← IO.getStdin) .empty
  openLog := openLogFile
  writeLog := appendLog
  execute budgetMs p inputs := do
    let start ← IO.monoMsNow
    runUntil (start + budgetMs.toNat) (.start p.statements (.start inputs))

/-- The variables of the process environment that the program looks at. -/
def readEnvironment : IO (List (String × String)) := do
  let names := ["HOME", "SELANG_CONFIG", "SELANG_LOG_FILE", "SELANG_TIMEOUT_MS", "RUST_LOG"]
  names.filterMapM fun name => do
    return (← IO.getEnv name).map fun value => (name, value)

def main (args : List String) : IO UInt32 := do
  match ← program (diskHost (← readEnvironment)) args with
  | .usage =>
    (← IO.getStderr).putStr ("error: invalid arguments\n\n" ++ helpText)
    return 2
  | .helpOnly =>
    (← IO.getStderr).putStr helpText
    return 2
  | .exit code stdout stderr =>
    let out ← IO.getStdout
    out.putStr stdout
    out.flush
    (← IO.getStderr).putStr stderr
    return code.toUInt32
