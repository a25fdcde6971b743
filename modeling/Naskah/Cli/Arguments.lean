import Naskah.Config

/-
  Command lines. In front of the command stand options for all commands, behind it those of the
  command itself, in any order with the script. An option's value follows it, or is attached:
  `--input 5`, `--input=5`, `-i 5`, `-i=5`, `-i5`. A value that starts with a hyphen can only be
  attached. An option that is missing may be given by the process environment.
-/

namespace Naskah.Cli

/-- What is to be done with a script; without a path the script is read from standard input. -/
inductive Command where
  | run (script : Option String) (inputs : List String) (timeoutMs : Option UInt64)
    (format : Option OutputFormat)
  | check (script : Option String)
  | tokens (script : Option String)
deriving DecidableEq, Repr

/-- The path of the script that a command reads. -/
def Command.script : Command → Option String
  | run script .. => script
  | check script => script
  | tokens script => script

structure Invocation where
  config : Option String
  logFile : Option String
  command : Command
deriving DecidableEq, Repr

/-- What a command line asks for. -/
inductive Request where
  | version
  | help
  /-- Nothing at all was given. -/
  | nothing
  | invoke (i : Invocation)
deriving DecidableEq, Repr

namespace Arguments

/-- How an option is named. -/
inductive OptionName where
  | long (name : String)
  | short (letter : Char)
deriving DecidableEq, Repr

/-- The forms of an argument. -/
inductive Form where
  /-- `--`, behind which there are no options. -/
  | escape
  /-- An option, and the value that is attached to it. -/
  | option (name : OptionName) (attached : Option String)
  | plain (value : String)
deriving DecidableEq, Repr

/-- A long option, which may have a value attached to it. -/
def longForm (cs : List Char) : Form :=
  let (name, r) := cs.span (· != '=')
  match r with
  | [] => .option (.long (.ofList name)) none
  | _ :: value => .option (.long (.ofList name)) (some (.ofList value))

/-- The value that is attached to a short option. -/
def attachedValue : List Char → Option String
  | [] => none
  | '=' :: value => some (.ofList value)
  | value => some (.ofList value)

def form (arg : String) : Form :=
  match arg.toList with
  | ['-', '-'] => .escape
  | '-' :: '-' :: r => longForm r
  | ['-'] => .plain arg
  | '-' :: letter :: r => .option (.short letter) (attachedValue r)
  | _ => .plain arg

/-- Sets an option in `σ`; `none` if the value is refused or the option was set before. -/
abbrev Setter (σ : Type) : Type := String → σ → Option σ

/-- What an option does. -/
inductive Effect (σ : Type) where
  | value (set : Setter σ)
  | ask (r : Request)

/-- Where reading options comes to a stop. -/
inductive Stop (σ : Type) where
  | finished (s : σ)
  /-- An argument that is no option, and what follows it. -/
  | plain (s : σ) (value : String) (rest : List String)
  | escape (s : σ) (rest : List String)
  | ask (r : Request)
  | usage

/-- Reads options up to the first argument that is none. -/
def options {σ : Type} (effect? : OptionName → Option (Effect σ)) (s : σ) :
    List String → Stop σ
  | [] => .finished s
  | arg :: rest =>
    match form arg with
    | .escape => .escape s rest
    | .plain value => .plain s value rest
    | .option name attached =>
      match effect? name, attached with
      | none, _ => .usage
      | some (.ask r), none => .ask r
      | some (.ask r), some _ => if name matches .short _ then .ask r else .usage
      | some (.value set), some v =>
        match set v s with
        | none => .usage
        | some s => options effect? s rest
      | some (.value set), none =>
        match rest with
        | [] => .usage
        | v :: rest =>
          match form v, set v s with
          | .plain _, some s => options effect? s rest
          | _, _ => .usage

theorem options_rest {σ : Type} {effect? : OptionName → Option (Effect σ)} {s s' : σ}
    {args rest : List String} {value : String}
    (h : options effect? s args = .plain s' value rest) : rest.length < args.length := by
  fun_induction options effect? s args <;> simp_all <;> omega

/-- Sets something that may be set only once. -/
def once {α : Type} (old : Option α) (new : Option α) : Option (Option α) :=
  match old, new with
  | none, some a => some (some a)
  | _, _ => none

/-- A path, which must not be empty. -/
def path? (s : String) : Option String :=
  if s.isEmpty then none else some s

/-- A natural number below `2 ^ 64`; a plus sign may stand before it. -/
def timeout? (s : String) : Option UInt64 :=
  match s.toList with
  | '+' :: r => Config.word64? r
  | r => Config.word64? r

/-- The options in front of the command. -/
structure Leading where
  config : Option String
  logFile : Option String

def leadingEffect? : OptionName → Option (Effect Leading)
  | .long "config" => some (.value fun v s =>
      (once s.config (path? v)).map fun config => { s with config })
  | .long "log-file" => some (.value fun v s =>
      (once s.logFile (path? v)).map fun logFile => { s with logFile })
  | .long "version" => some (.ask .version)
  | .short 'V' => some (.ask .version)
  | .long "help" => some (.ask .help)
  | .short 'h' => some (.ask .help)
  | _ => none

/-- What stands behind the command. -/
structure Trailing where
  script : Option String
  inputs : List String
  timeoutMs : Option UInt64
  format : Option OutputFormat

def Trailing.setScript : Setter Trailing := fun v s =>
  (once s.script (path? v)).map fun script => { s with script }

def Trailing.addInput : Setter Trailing := fun v s =>
  some { s with inputs := s.inputs ++ [v] }

def Trailing.setTimeout : Setter Trailing := fun v s =>
  (once s.timeoutMs (timeout? v)).map fun timeoutMs => { s with timeoutMs }

def Trailing.setFormat : Setter Trailing := fun v s =>
  (once s.format (OutputFormat.ofName? v)).map fun format => { s with format }

/-- The options of the command that only reads a script. -/
def scriptEffect? : OptionName → Option (Effect Trailing)
  | .long "help" => some (.ask .help)
  | .short 'h' => some (.ask .help)
  | _ => none

/-- The options of the command that runs a script. -/
def runEffect? : OptionName → Option (Effect Trailing)
  | .long "input" => some (.value Trailing.addInput)
  | .short 'i' => some (.value Trailing.addInput)
  | .long "timeout-ms" => some (.value Trailing.setTimeout)
  | .short 't' => some (.value Trailing.setTimeout)
  | .long "format" => some (.value Trailing.setFormat)
  | .short 'f' => some (.value Trailing.setFormat)
  | name => scriptEffect? name

/-- Arguments of which none is an option. -/
def plains (s : Trailing) : List String → Option Trailing
  | [] => some s
  | v :: rest => (Trailing.setScript v s).bind fun s => plains s rest

/-- What stands behind a command, or what is asked for in its place; `none` is a usage error. -/
def trailing (effect? : OptionName → Option (Effect Trailing)) (s : Trailing)
    (args : List String) : Option (Except Request Trailing) :=
  match _h : options effect? s args with
  | .finished s => some (.ok s)
  | .plain s v rest =>
    match Trailing.setScript v s with
    | none => none
    | some s => trailing effect? s rest
  | .escape s rest => (plains s rest).map .ok
  | .ask r => some (.error r)
  | .usage => none
termination_by args.length
decreasing_by exact options_rest _h

/-- An option that was not given, from the process environment. -/
def fallback {α : Type} (read? : String → Option α) (given : Option String) :
    Option α → Option (Option α)
  | some a => some (some a)
  | none =>
    match given with
    | none => some none
    | some v => (read? v).map some

/-- The names of the commands. -/
def commandNames : List String := ["run", "check", "tokens", "help"]

/-- What help is asked about: nothing in particular, or one command. -/
def helpTopic? : List String → Option Request
  | [] => some .help
  | [name] => if commandNames.contains name then some .help else none
  | _ => none

/-- The command with a name, from what stands behind it. -/
def command? (env : String → Option String) (name : String) (args : List String) :
    Option (Except Request Command) :=
  let start : Trailing := ⟨none, [], none, none⟩
  match name with
  | "run" => do
    match ← trailing runEffect? start args with
    | .error r => return .error r
    | .ok s =>
      let timeoutMs ← fallback timeout? (env "SELANG_TIMEOUT_MS") s.timeoutMs
      return .ok (.run s.script s.inputs timeoutMs s.format)
  | "check" => do return (← trailing scriptEffect? start args).map (.check ·.script)
  | "tokens" => do return (← trailing scriptEffect? start args).map (.tokens ·.script)
  | "help" => (helpTopic? args).map .error
  | _ => none

/-- A command line without a command is refused, unless the process environment gives nothing
    either. -/
def withoutCommand (env : String → Option String) (s : Leading) : Option Request :=
  let config := s.config.or (env "SELANG_CONFIG")
  let logFile := s.logFile.or (env "SELANG_LOG_FILE")
  if config.isNone && logFile.isNone then some .nothing else none

/-- Reads a command line; `none` is a usage error. -/
def parse? (env : String → Option String) (args : List String) : Option Request :=
  match options leadingEffect? ⟨none, none⟩ args with
  | .plain s name rest => do
    match ← command? env name rest with
    | .error r => return r
    | .ok command =>
      let config ← fallback path? (env "SELANG_CONFIG") s.config
      let logFile ← fallback path? (env "SELANG_LOG_FILE") s.logFile
      return .invoke ⟨config, logFile, command⟩
  | .ask r => some r
  | .finished s => withoutCommand env s
  | .escape s [] => withoutCommand env s
  | _ => none

end Arguments

end Naskah.Cli
