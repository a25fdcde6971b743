import Naskah.Cli.World
import Naskah.Proofs.Program.Ends
import Naskah.Proofs.Program.Lazy
import Naskah.Proofs.Report

/-
  The commands on one script. What a command line comes to is told from what the script compiles to and
  how its program ends (`World.run_check`, `World.run_tokens`, `World.run_of_ends`), so a check, the
  list of tokens and a run in either format agree on every script (`Session.agrees`). There are such
  command lines for any script and any inputs (`Session.ofScript`).
-/

namespace Naskah.Cli

open Reading

/-! ## Command lines -/

namespace Arguments

/-- The command line of a run of the script on standard input. The inputs are attached to their
    options, for they may start with a hyphen. -/
def runLine (inputs : List String) (format : OutputFormat) : List String :=
  "run" :: "-f" :: format.name :: inputs.map ("--input=" ++ ·)

theorem form_input (v : String) : form ("--input=" ++ v) = .option (.long "input") (some v) := by
  have hchars : ("--input=" ++ v).toList = '-' :: '-' :: ("input".toList ++ '=' :: v.toList) := by
    simp
  unfold form
  rw [hchars]
  simp [longForm]

theorem options_inputs (inputs : List String) (s : Trailing) :
    options runEffect? s (inputs.map ("--input=" ++ ·)) =
      .finished { s with inputs := s.inputs ++ inputs } := by
  induction inputs generalizing s with
  | nil =>
    rw [List.append_nil]
    rfl
  | cons v inputs ih =>
    have heffect : runEffect? (.long "input") = some (.value Trailing.addInput) := rfl
    rw [List.map_cons, options, form_input]
    dsimp only
    rw [heffect]
    dsimp only [Trailing.addInput]
    rw [ih, List.append_assoc, List.singleton_append]

theorem trailing_of_finished {effect? : OptionName → Option (Effect Trailing)} {s s' : Trailing}
    {args : List String} (h : options effect? s args = .finished s') :
    trailing effect? s args = some (.ok s') := by
  rw [trailing]
  split <;> simp_all

theorem parse?_check :
    parse? (fun _ => none) ["check"] = some (.invoke ⟨none, none, .check none⟩) := by
  decide +kernel

theorem parse?_tokens :
    parse? (fun _ => none) ["tokens"] = some (.invoke ⟨none, none, .tokens none⟩) := by
  decide +kernel

theorem parse?_runLine (inputs : List String) (format : OutputFormat) :
    parse? (fun _ => none) (runLine inputs format) =
      some (.invoke ⟨none, none, .run none inputs none (some format)⟩) := by
  have hleading : options leadingEffect? ⟨none, none⟩ (runLine inputs format) =
      .plain ⟨none, none⟩ "run" ("-f" :: format.name :: inputs.map ("--input=" ++ ·)) := rfl
  have hoptions : options runEffect? ⟨none, [], none, none⟩
      ("-f" :: format.name :: inputs.map ("--input=" ++ ·)) =
        .finished ⟨none, inputs, none, some format⟩ := by
    cases format <;> exact options_inputs inputs _
  unfold parse?
  rw [hleading]
  dsimp only [command?]
  rw [trailing_of_finished hoptions]
  rfl

end Arguments

/-! ## Refused texts -/

theorem exitCode_of_compile {source : String} {e : Error} (h : compile source = .error e) :
    e.exitCode = 2 := by
  rcases compile_eq_error h with ⟨le, -, rfl⟩ | ⟨f, -, hparse⟩
  · rfl
  · have htrue := Stmt.parseAll_truthful hparse
    cases e with
    | lexical e => rfl
    | structural e => rfl
    | runtime e => exact htrue.elim

theorem tokenize_of_lexical {source : String} {e : LexError}
    (h : compile source = .error (.lexical e)) : tokenize source = .error e := by
  rcases compile_eq_error h with ⟨le, hsource, heq⟩ | ⟨f, hsource, hparse⟩
  · cases heq
    unfold tokenize
    rw [hsource]
    rfl
  · rw [tokenize_eq_tokens hsource]
    exact Stmt.parseAll_truthful hparse

theorem compile_ne_ok {source : String} {e : LexError} (h : tokenize source = .error e)
    (p : Program) : compile source ≠ .ok p := by
  intro hcompile
  obtain ⟨f, hsource, hparse⟩ := compile_eq_ok hcompile
  rw [tokenize_eq_tokens hsource] at h
  exact Feed.not_complete h (Feed.tokens_of_scanned (Feed.ofCursor_scanned _ hsource) hparse)

/-! ## The program in a described world -/

/-- What is written to standard error for an error. -/
def complaint (e : Error) : String := "Error: " ++ e.message ++ "\n"

namespace World

variable {w : World} {args : List String} {config : Option String} {command : Command}
  {source : String}

/-- A command line that asks for a command, with no log file. -/
def Asks (w : World) (args : List String) (config : Option String) (command : Command) : Prop :=
  Arguments.parse? w.host.env args = some (.invoke ⟨config, none, command⟩)

/-- The settings that a command line names, or those of the home directory. -/
def settings (w : World) (config : Option String) : Config :=
  ((loadConfig w.host config).run w.tree).1

/-- The text of a script. -/
def script (w : World) (path : Option String) : Except FileError String :=
  ((readScript w.host path).run w.tree).1

/-- A world with nothing but a script on standard input, in which any time is enough for the same
    number of passes. -/
def ofScript (source : String) (passes : Nat) : World :=
  ⟨[], source.toUTF8, ⟨[], []⟩, fun _ => passes⟩

theorem script_ofScript (source : String) (passes : Nat) :
    (ofScript source passes).script none = .ok source := by
  have hdecode : String.fromUTF8? source.toUTF8 = some source := dif_pos source.isValidUTF8
  show decode (.ok source.toUTF8) = .ok source
  unfold decode
  dsimp only [Except.bind]
  rw [hdecode]

theorem run_bind {α β : Type} {x : StateM Tree α} {f : α → StateM Tree β} {a : α} {t : Tree}
    (h : x.run t = (a, t)) : (x >>= f).run t = (f a).run t := by
  rw [StateT.run_bind, h]
  rfl

theorem loadConfig_run (w : World) (config : Option String) :
    (loadConfig w.host config).run w.tree = (w.settings config, w.tree) := by
  unfold settings loadConfig
  dsimp only
  generalize config.orElse _ = path
  cases path <;> rfl

theorem readScript_run (w : World) (path : Option String) :
    (readScript w.host path).run w.tree = (w.script path, w.tree) := by
  cases path <;> rfl

/-- What a command answers to a script. -/
def answer (w : World) (config : Option String) (command : Command) (source : String) : Answer :=
  ((perform w.host (w.settings config) (logFilter w.host).admitsExecution command source).run
    w.tree).1

/-- No command changes the tree. -/
theorem perform_run (w : World) (config : Option String) (command : Command) (source : String) :
    (perform w.host (w.settings config) (logFilter w.host).admitsExecution command source).run
      w.tree = (w.answer config command source, w.tree) := by
  unfold answer
  cases command with
  | tokens path =>
    unfold perform
    dsimp only
    cases tokenize source <;> rfl
  | check path =>
    unfold perform
    dsimp only
    cases compile source <;> rfl
  | run path inputs timeoutMs named =>
    unfold perform
    dsimp only
    cases compile source <;> rfl

theorem run_of_asks (h : w.Asks args config command)
    (hscript : w.script command.script = .ok source) :
    w.run args = (.exit (w.answer config command source).exitCode
      (w.answer config command source).stdout (w.answer config command source).stderr, w.tree) := by
  have hlog : (openLog w.host ⟨config, none, command⟩).run w.tree = (none, w.tree) := rfl
  have hinvoke : (invoke w.host ⟨config, none, command⟩).run w.tree =
      (w.answer config command source, w.tree) := by
    unfold invoke
    rw [run_bind hlog]
    dsimp only
    rw [run_bind (w.loadConfig_run config), run_bind (w.readScript_run command.script), hscript]
    exact perform_run w config command source
  unfold run program
  rw [h]
  dsimp only
  rw [run_bind hinvoke]
  rfl

/-! ## The three commands -/

theorem run_check {path : Option String} (h : w.Asks args config (.check path))
    (hscript : w.script path = .ok source) :
    (w.run args).1 = match compile source with
      | .error e => .exit e.exitCode "" (complaint e)
      | .ok _ => .exit 0 "ok\n" "" := by
  rw [run_of_asks h hscript]
  dsimp only [answer, perform]
  cases compile source <;> rfl

theorem run_tokens {path : Option String} (h : w.Asks args config (.tokens path))
    (hscript : w.script path = .ok source) :
    (w.run args).1 = match tokenize source with
      | .error e => .exit 2 "" (complaint (.lexical e))
      | .ok (tokens, line) => .exit 0 (answerTokens tokens line).stdout "" := by
  rw [run_of_asks h hscript]
  dsimp only [answer, perform]
  cases tokenize source <;> rfl

variable {path : Option String} {inputs : List String} {format : OutputFormat} {p : Program}
  {result : Except RuntimeError Unit} {final : Context}

/-- A command line that asks for a run in a format, and the run ends within its time. -/
def AsksRun (w : World) (args : List String) (path : Option String) (source : String)
    (inputs : List String) (format : OutputFormat) : Prop :=
  ∃ config timeoutMs named, w.Asks args config (.run path inputs timeoutMs named) ∧
    named.getD (w.settings config).outputFormat = format ∧
    ∀ p, compile source = .ok p →
      p.run (w.passes (timeoutMs.getD (w.settings config).timeout)) inputs ≠ .exhausted

theorem run_of_error {e : Error} (h : w.AsksRun args path source inputs format)
    (hscript : w.script path = .ok source) (hcompile : compile source = .error e) :
    (w.run args).1 = .exit e.exitCode "" (complaint e) := by
  obtain ⟨config, timeoutMs, named, hasks, -, -⟩ := h
  rw [run_of_asks hasks hscript]
  dsimp only [answer, perform]
  rw [hcompile]
  rfl

theorem ends_of_finished {passes left : Nat} (h : p.run passes inputs = .finished final left) :
    p.Ends (.start inputs) (.ok ()) final :=
  Program.ends_iff_execute.2 ⟨passes, left, h⟩

theorem ends_of_failed {passes : Nat} {e : RuntimeError} (h : p.run passes inputs = .failed e final) :
    p.Ends (.start inputs) (.error e) final :=
  Program.ends_iff_execute.2 ⟨passes, h⟩

theorem exists_ends (h : w.AsksRun args path source inputs format)
    (hcompile : compile source = .ok p) : ∃ result final, p.Ends (.start inputs) result final := by
  obtain ⟨config, timeoutMs, named, -, -, htime⟩ := h
  have htime := htime p hcompile
  cases hrun : p.run (w.passes (timeoutMs.getD (w.settings config).timeout)) inputs with
  | finished ctx left => exact ⟨_, _, ends_of_finished hrun⟩
  | failed e ctx => exact ⟨_, _, ends_of_failed hrun⟩
  | exhausted => exact absurd hrun htime

/-- How a run ends that has come to a result and has left a context behind. -/
def endOf (format : OutputFormat) (final : Context) : Except RuntimeError Unit → Ending
  | .ok () => .exit 0 (render format (.ofContext final none)) ""
  | .error e => .exit 3 (render format (.ofContext final (some e))) (complaint (.runtime e))

theorem run_of_ends (h : w.AsksRun args path source inputs format)
    (hscript : w.script path = .ok source) (hcompile : compile source = .ok p)
    (hends : p.Ends (.start inputs) result final) : (w.run args).1 = endOf format final result := by
  obtain ⟨config, timeoutMs, named, hasks, rfl, htime⟩ := h
  have hanswer : w.answer config (.run path inputs timeoutMs named) source =
      answerRun (named.getD (w.settings config).outputFormat)
        (timeoutMs.getD (w.settings config).timeout) p inputs (logFilter w.host).admitsExecution
        (p.run (w.passes (timeoutMs.getD (w.settings config).timeout)) inputs) := by
    dsimp only [answer, perform]
    rw [hcompile]
    rfl
  rw [run_of_asks hasks hscript, hanswer]
  cases hrun : p.run (w.passes (timeoutMs.getD (w.settings config).timeout)) inputs with
  | finished ctx left =>
    obtain ⟨rfl, rfl⟩ := hends.unique (ends_of_finished hrun)
    rfl
  | failed e ctx =>
    obtain ⟨rfl, rfl⟩ := hends.unique (ends_of_failed hrun)
    rfl
  | exhausted => exact absurd hrun (htime p hcompile)

end World

/-! ## Agreement -/

theorem blanks_lineBreak : Json.Blanks ['\n'] := List.forall_mem_singleton.2 rfl

/-- What is printed as JSON is read as the report. -/
theorem decodes_render (ctx : Context) (e : Option RuntimeError) :
    Report.Decodes (render .json (.ofContext ctx e)) ctx := by
  have hread := Json.read?_pretty (Report.writable_toJson (.ofContext ctx e)) blanks_lineBreak
  have hlines : render .json (.ofContext ctx e) =
      (Report.ofContext ctx e).toJson.pretty ++ .ofList ['\n'] := by
    show String.join [_ ++ "\n"] = _
    rw [String.join_cons, String.join_nil, String.append_empty]
  rw [← hlines] at hread
  exact ⟨_, Report.lists_toJson ctx.environment.bindings, hread⟩

/-- Command lines for one script and one list of inputs: one for each command, and a run in each
    format. None of them has a log file, and the runs end within their time. -/
structure Session (w : World) where
  path : Option String
  source : String
  inputs : List String
  check : List String
  tokens : List String
  run : OutputFormat → List String
  readable : w.script path = .ok source
  asks_check : ∃ config, w.Asks check config (.check path)
  asks_tokens : ∃ config, w.Asks tokens config (.tokens path)
  asks_run (format : OutputFormat) : w.AsksRun (run format) path source inputs format

namespace Session

variable {w : World}

/-- A session for a script on standard input and any inputs, if the run ends within its passes. -/
def ofScript (source : String) (inputs : List String) (passes : Nat)
    (hended : ∀ p, compile source = .ok p → p.run passes inputs ≠ .exhausted) :
    Session (.ofScript source passes) where
  path := none
  source := source
  inputs := inputs
  check := ["check"]
  tokens := ["tokens"]
  run := Arguments.runLine inputs
  readable := World.script_ofScript source passes
  asks_check := ⟨none, Arguments.parse?_check⟩
  asks_tokens := ⟨none, Arguments.parse?_tokens⟩
  asks_run format := ⟨none, none, some format, Arguments.parse?_runLine inputs format, rfl, hended⟩

/-- What the ends of the commands have to do with each other, with compiling and with executing. -/
structure Agrees (s : Session w) : Prop where
  /-- A check says that the script is ok iff it compiles. -/
  check_ok : (w.run s.check).1 = .exit 0 "ok\n" "" ↔ ∃ p, compile s.source = .ok p
  /-- A run ends with 0 or 3 iff the script compiles. -/
  run_code (format : OutputFormat) : (∃ p, compile s.source = .ok p) ↔
    ∃ code out err, (w.run (s.run format)).1 = .exit code out err ∧ (code = 0 ∨ code = 3)
  /-- A script that does not compile is refused by a check and by a run in the same way. -/
  refused (e : Error) : compile s.source = .error e →
    ∃ report, (w.run s.check).1 = .exit 2 "" report ∧
      ∀ format, (w.run (s.run format)).1 = .exit 2 "" report
  /-- A script whose tokens are refused is refused by a check and by a run. -/
  tokens_refused : (∃ out err, (w.run s.tokens).1 = .exit 2 out err) →
    ∃ report, (w.run s.check).1 = .exit 2 "" report ∧
      ∀ format, (w.run (s.run format)).1 = .exit 2 "" report
  /-- A lexical error is reported by all commands in the same way. -/
  lexical (e : LexError) : compile s.source = .error (.lexical e) →
    ∃ report, (w.run s.tokens).1 = .exit 2 "" report ∧ (w.run s.check).1 = .exit 2 "" report ∧
      ∀ format, (w.run (s.run format)).1 = .exit 2 "" report
  /-- A run ends with 3 iff the execution fails. -/
  run_failed (format : OutputFormat) :
    (∃ out err, (w.run (s.run format)).1 = .exit 3 out err) ↔
      ∃ p e final, compile s.source = .ok p ∧ p.Ends (.start s.inputs) (.error e) final
  /-- The exit code and what is written to standard error are the same in both formats. -/
  same_end : ∃ code err, ∀ format, ∃ out, (w.run (s.run format)).1 = .exit code out err
  /-- As text a run writes the lines that were printed, also when it fails. -/
  text_output (p : Program) (result : Except RuntimeError Unit) (final : Context) :
    compile s.source = .ok p → p.Ends (.start s.inputs) result final →
      ∃ code err, (w.run (s.run .text)).1 = .exit code (unlines final.output.toList) err
  /-- As JSON a run writes the same output and the variables that are bound in the end, also when it
      fails. -/
  json_output (p : Program) (result : Except RuntimeError Unit) (final : Context) :
    compile s.source = .ok p → p.Ends (.start s.inputs) result final →
      ∃ code out err, (w.run (s.run .json)).1 = .exit code out err ∧ Report.Decodes out final

theorem refusal (s : Session w) {e : Error} (h : compile s.source = .error e) :
    (w.run s.check).1 = .exit 2 "" (complaint e) ∧
      ∀ format, (w.run (s.run format)).1 = .exit 2 "" (complaint e) := by
  obtain ⟨config, hcheck⟩ := s.asks_check
  have hcode := exitCode_of_compile h
  constructor
  · rw [World.run_check hcheck s.readable, h]
    dsimp only
    rw [hcode]
  · intro format
    rw [World.run_of_error (s.asks_run format) s.readable h, hcode]

theorem check_ok_iff (s : Session w) :
    (w.run s.check).1 = .exit 0 "ok\n" "" ↔ ∃ p, compile s.source = .ok p := by
  obtain ⟨config, hcheck⟩ := s.asks_check
  rw [World.run_check hcheck s.readable]
  cases hcompile : compile s.source with
  | ok p => exact ⟨fun _ => ⟨p, rfl⟩, fun _ => rfl⟩
  | error e =>
    constructor
    · intro h
      have hcode := (Ending.exit.inj h).1
      rw [exitCode_of_compile hcompile] at hcode
      cases hcode
    · rintro ⟨p, h⟩
      cases h

theorem tokens_lexical (s : Session w) {e : LexError} (h : compile s.source = .error (.lexical e)) :
    (w.run s.tokens).1 = .exit 2 "" (complaint (.lexical e)) := by
  obtain ⟨config, htokens⟩ := s.asks_tokens
  rw [World.run_tokens htokens s.readable, tokenize_of_lexical h]

theorem exists_error_of_tokens (s : Session w)
    (h : ∃ out err, (w.run s.tokens).1 = .exit 2 out err) : ∃ e, compile s.source = .error e := by
  obtain ⟨config, htokens⟩ := s.asks_tokens
  obtain ⟨out, err, hrun⟩ := h
  rw [World.run_tokens htokens s.readable] at hrun
  cases htokenize : tokenize s.source with
  | ok r =>
    rw [htokenize] at hrun
    have hcode := (Ending.exit.inj hrun).1
    cases hcode
  | error e =>
    cases hcompile : compile s.source with
    | error e' => exact ⟨e', rfl⟩
    | ok p => exact absurd hcompile (compile_ne_ok htokenize p)

theorem run_of_ends (s : Session w) {p : Program} {result : Except RuntimeError Unit}
    {final : Context} (hcompile : compile s.source = .ok p)
    (hends : p.Ends (.start s.inputs) result final) (format : OutputFormat) :
    (w.run (s.run format)).1 = World.endOf format final result :=
  World.run_of_ends (s.asks_run format) s.readable hcompile hends

theorem run_code_iff (s : Session w) (format : OutputFormat) :
    (∃ p, compile s.source = .ok p) ↔
      ∃ code out err, (w.run (s.run format)).1 = .exit code out err ∧ (code = 0 ∨ code = 3) := by
  constructor
  · rintro ⟨p, hcompile⟩
    obtain ⟨result, final, hends⟩ := World.exists_ends (s.asks_run format) hcompile
    have hrun := s.run_of_ends hcompile hends format
    cases result with
    | ok u => exact ⟨_, _, _, hrun, .inl rfl⟩
    | error e => exact ⟨_, _, _, hrun, .inr rfl⟩
  · rintro ⟨code, out, err, hrun, hcode⟩
    cases hcompile : compile s.source with
    | ok p => exact ⟨p, rfl⟩
    | error e =>
      rw [(s.refusal hcompile).2 format] at hrun
      obtain rfl := (Ending.exit.inj hrun).1
      exact absurd hcode (by decide)

theorem run_failed_iff (s : Session w) (format : OutputFormat) :
    (∃ out err, (w.run (s.run format)).1 = .exit 3 out err) ↔
      ∃ p e final, compile s.source = .ok p ∧ p.Ends (.start s.inputs) (.error e) final := by
  constructor
  · rintro ⟨out, err, hrun⟩
    obtain ⟨p, hcompile⟩ := (s.run_code_iff format).2 ⟨3, out, err, hrun, .inr rfl⟩
    obtain ⟨result, final, hends⟩ := World.exists_ends (s.asks_run format) hcompile
    rw [s.run_of_ends hcompile hends format] at hrun
    cases result with
    | ok u => exact absurd (Ending.exit.inj hrun).1 (by decide)
    | error e => exact ⟨p, e, final, hcompile, hends⟩
  · rintro ⟨p, e, final, hcompile, hends⟩
    exact ⟨_, _, s.run_of_ends hcompile hends format⟩

theorem exists_same_end (s : Session w) :
    ∃ code err, ∀ format, ∃ out, (w.run (s.run format)).1 = .exit code out err := by
  cases hcompile : compile s.source with
  | error e => exact ⟨_, _, fun format => ⟨_, (s.refusal hcompile).2 format⟩⟩
  | ok p =>
    obtain ⟨result, final, hends⟩ := World.exists_ends (s.asks_run .text) hcompile
    have hrun := s.run_of_ends hcompile hends
    cases result with
    | ok u => exact ⟨_, _, fun format => ⟨_, hrun format⟩⟩
    | error e => exact ⟨_, _, fun format => ⟨_, hrun format⟩⟩

/-- The commands agree on every script. -/
theorem agrees (s : Session w) : s.Agrees where
  check_ok := s.check_ok_iff
  run_code := s.run_code_iff
  refused e h := ⟨_, s.refusal h⟩
  tokens_refused h :=
    have ⟨_, hcompile⟩ := s.exists_error_of_tokens h
    ⟨_, s.refusal hcompile⟩
  lexical e h := ⟨_, s.tokens_lexical h, s.refusal h⟩
  run_failed := s.run_failed_iff
  same_end := s.exists_same_end
  text_output p result final hcompile hends := by
    have hrun := s.run_of_ends hcompile hends .text
    cases result with
    | ok u => exact ⟨_, _, hrun⟩
    | error e => exact ⟨_, _, hrun⟩
  json_output p result final hcompile hends := by
    have hrun := s.run_of_ends hcompile hends .json
    cases result with
    | ok u => exact ⟨_, _, _, hrun, decodes_render final none⟩
    | error e => exact ⟨_, _, _, hrun, decodes_render final (some e)⟩

/-- A script that reads an entry and prints a line before it fails with an unknown name. The line is
    kept in both formats, and the report in JSON has the variable that was read. -/
theorem agrees_failing :
    ∃ (w : World) (s : Session w), s.source = "baca y tulis 1 tulis x" ∧ s.inputs = ["ani"] ∧
      s.Agrees ∧
      (w.run (s.run .text)).1 = .exit 3 "1\n" (complaint (.runtime (.unknownIdentifier "x"))) ∧
      ∃ out final,
        (w.run (s.run .json)).1 = .exit 3 out (complaint (.runtime (.unknownIdentifier "x"))) ∧
        Report.Decodes out final ∧ final.output = #["1"] ∧
        final.environment.bindings.get? "y" = some (.text "ani") := by
  have hcompile : compile "baca y tulis 1 tulis x" =
      .ok ⟨[.input "y", .print (.number (Numeral.plain ['1'])), .print (.variable "x")]⟩ := by
    decide +kernel
  have hrun : Program.run
      ⟨[.input "y", .print (.number (Numeral.plain ['1'])), .print (.variable "x")]⟩ 0 ["ani"] =
        .failed (.unknownIdentifier "x")
          (((Context.start []).bind "y" (.text "ani")).print (.number 1)) := by
    decide +kernel
  have hended (p : Program) (hp : compile "baca y tulis 1 tulis x" = .ok p) :
      p.run 0 ["ani"] ≠ .exhausted := by
    rw [hcompile] at hp
    cases hp
    rw [hrun]
    exact Outcome.noConfusion
  have hends := World.ends_of_failed hrun
  have hagrees := agrees (ofScript _ _ _ hended)
  have htext := run_of_ends (ofScript _ _ _ hended) hcompile hends .text
  have hjson := run_of_ends (ofScript _ _ _ hended) hcompile hends .json
  obtain ⟨code, out, err, hout, hdecodes⟩ := hagrees.json_output _ _ _ hcompile hends
  obtain ⟨rfl, -, rfl⟩ := Ending.exit.inj (hjson.symm.trans hout)
  refine ⟨_, ofScript _ _ _ hended, rfl, rfl, hagrees, htext.trans ?_, out, _, hout, hdecodes, ?_⟩
  · decide +kernel
  · decide +kernel

end Session

end Naskah.Cli
