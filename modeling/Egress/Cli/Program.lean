import Egress.Cli.Report
import Egress.Config.Example
import Egress.Config.Load
import Egress.Config.Setup
import Egress.Service.Session

/-!
Running the program.

A run reads a command line, looks up the one file that the command is about, and ends in an outcome:
what it prints, what it writes, and the code it exits with. Only looking up the file and carrying out
the outcome touch the outside.
-/

set_option autoImplicit false

namespace Egress.Cli

/-- Why a command fails. -/
inductive ProgramError
  | unloaded (path : String) (error : Config.LoadError)
  | invalid (flaw : ConfigFlaw)
  | unserved (error : SetupError)
  | failed (failure : Failure)
  /-- There is a file already, and it is not to be replaced. -/
  | inTheWay (path : String)
  | unwritten (problem : FileProblem)
  /-- The requests of the command did not come to an end. -/
  | unfinished

/-- The wording of the error, each cause behind what it led to. -/
def ProgramError.message : ProgramError → String
  | .unloaded path error =>
    "failed to load " ++ path ++ ": " ++ error.message ++ error.cause?.elim "" (": " ++ ·)
  | .invalid flaw => flaw.message
  | .unserved error => error.message
  | .failed failure => failure.message
  | .inTheWay path => "File already exists: " ++ path ++ ". Use --force to overwrite."
  | .unwritten problem => problem.message
  | .unfinished => "requests did not come to an end"

/-- What a command that succeeds leaves behind. -/
structure Result where
  /-- What it prints, without the line end. -/
  output : String
  /-- A file that it writes. -/
  written : Option (String × String)

/-- A result that is only printed. -/
def Result.ofOutput (output : String) : Result := ⟨output, none⟩

/-- The configuration of a file, checked after the environment has had its say. -/
def loadConfig (env : Dict String) (path : String) (file : FileState) :
    Except ProgramError Config := do
  let c := (← (Config.load path file).mapError (.unloaded path)).withEnvironment env
  match c.flaw? with
  | some flaw => throw (.invalid flaw)
  | none => return c

def loadService (env : Dict String) (path : String) (file : FileState) :
    Except ProgramError Service := do
  (← loadConfig env path file).service.mapError .unserved

/-- The body of a request: the JSON value of the text if it is one, otherwise the text. -/
def bodyOfText (text : String) : Body :=
  match Json.read? text with
  | some j => .json j
  | none => .text text

/-- What a request asks for; of pairs with one key the last one counts. -/
def RequestArguments.options (a : RequestArguments) : CallOptions where
  query := Dict.ofList a.query
  headers := Dict.ofList a.headers
  body := a.body.map bodyOfText
  timeout := a.timeout
  forceRefresh := a.forceRefresh

section Session

variable {ω : Type} (transport : Transport ω)

/-- Makes a request and shows the envelope; the session goes on in either case. -/
def runRequest (s : Session ω) (a : RequestArguments) :
    Option (Except Failure String × Session ω) := do
  let (answer, s) ← s.request transport Schedule.ampleFuel a.endpoint a.options
  return (answer.map fun envelope => envelope.toJson.pretty, s)

/-- Checks all endpoints and shows the reports; `metrics` gives the text of the metrics. -/
def runHealth (s : Session ω) (form : HealthForm) (metrics : Service → String) :
    Option (String × Session ω) := do
  let (reports, s) ← s.checkAll transport Schedule.ampleFuel
  return (form.present (metrics s.world.service) reports, s)

end Session

def metricsText (s : Service) : String :=
  let number : Double.Layout := ⟨-400, 400, false, false⟩
  String.join ((s.metrics.exposition.lines fun f => number.format (.ofFloat f)).map (· ++ "\n"))

namespace Command

/-- The file that the command is about. -/
def path? : Command → Option String
  | .listEndpoints _ config => some config
  | .request a => some a.config
  | .health _ config => some config
  | .initConfig output _ => some output
  | .exportConfig config => some config
  | .completions _ => none

/-- Writes the configuration to start from. -/
def runInit (path : String) (force : Bool) (file : FileState) : Except ProgramError Result :=
  if file.exists? && !force then .error (.inTheWay path)
  else
    match file.writeProblem? with
    | some problem => .error (.unwritten problem)
    | none =>
      .ok ⟨"✓ Configuration file created: " ++ path ++
        "\n  Edit this file to describe the APIs you integrate with.",
        some (path, Config.exampleText)⟩

/-- The words that a shell may complete: the commands, and those below them. -/
def completionText (shell : Shell) : String :=
  "# conduit: " ++ shell.name ++ "\nendpoints list\nrequest\nhealth\nconfig init\nconfig export\ncompletions"

/-- Runs the command on the file it is about. -/
def run (env : Dict String) (file : FileState) : Command → Except ProgramError Result
  | .listEndpoints asJson config => do
    return .ofOutput (listing (← loadConfig env config file).endpoints asJson)
  | .request a => do
    let service ← loadService env a.config file
    match runRequest .offline (.start service ()) a with
    | none => throw .unfinished
    | some (.error failure, _) => throw (.failed failure)
    | some (.ok output, _) => return .ofOutput output
  | .health form config => do
    let service ← loadService env config file
    match runHealth .offline (.start service ()) form metricsText with
    | none => throw .unfinished
    | some (output, _) => return .ofOutput output
  | .initConfig output force => runInit output force file
  | .exportConfig config => do
    return .ofOutput (← loadService env config file).document.render
  | .completions shell => return .ofOutput (completionText shell)

end Command

/-- What a run ends in. -/
structure Outcome where
  exitCode : Nat
  /-- What is printed. -/
  output : String
  /-- What is told besides. -/
  error : Option String
  written : Option (String × String)

namespace Outcome

def ofResult : Except ProgramError Result → Outcome
  | .ok r => ⟨0, r.output ++ "\n", none, r.written⟩
  | .error e => ⟨1, "", some ("Error: " ++ e.message), none⟩

/-- What is printed when help is asked for. -/
def helpText : String :=
  "Rate-limited, cached and retried calls to third-party HTTP APIs\n\nUsage: conduit [OPTIONS] <COMMAND>\n"

/-- What is printed when the version is asked for. -/
def versionText : String := "conduit 0.1.0\n"

/-- The outcome of a command line that runs no command. -/
def ofUsage : UsageError → Outcome
  | .helpWanted => ⟨0, helpText, none, none⟩
  | .versionWanted => ⟨0, versionText, none, none⟩
  | _ => ⟨2, "", none, none⟩

end Outcome

/-- Runs a command line; `look` says what a path leads to. -/
def run {m : Type → Type} [Monad m] (env : Dict String) (look : String → m FileState)
    (words : List String) : m Outcome :=
  match Invocation.read env words with
  | .error usage => return .ofUsage usage
  | .ok invocation => do
    let file ← match invocation.command.path? with
      | some path => look path
      | none => pure (.absent none)
    return .ofResult (invocation.command.run env file)

end Egress.Cli
