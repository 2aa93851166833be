import Egress.Cli.Grammar
import Egress.Config.Environment

/-!
The commands of the program.

`Invocation.read` makes an invocation of the words of a command line, or says why it cannot. What
is set for the whole program may stand in front of or behind the name of the command.
-/

set_option autoImplicit false

namespace Egress.Cli

/-- A key and a value with an equals sign between them. The key is not empty and has no such sign. -/
def parsePair (text : String) : Except String (String × String) :=
  match text.toList.span (· ≠ '=') with
  | ([], _) | (_, []) => .error ("expected KEY=VALUE, got '" ++ text ++ "'")
  | (key, _ :: value) => .ok (String.ofList key, String.ofList value)

/-- The configuration file unless one is named. -/
def standardConfig : String := "conduit.toml"

/-- Shells that words can be completed in. -/
inductive Shell
  | bash
  | elvish
  | fish
  | powershell
  | zsh
  deriving DecidableEq

def Shell.named : List (String × Shell) :=
  [("bash", .bash), ("elvish", .elvish), ("fish", .fish), ("powershell", .powershell), ("zsh", .zsh)]

def Shell.ofName? (name : String) : Option Shell := (named.find? (·.1 = name)).map (·.2)

def Shell.name : Shell → String
  | .bash => "bash"
  | .elvish => "elvish"
  | .fish => "fish"
  | .powershell => "powershell"
  | .zsh => "zsh"

/-- A request to make. -/
structure RequestArguments where
  endpoint : String
  query : List (String × String)
  headers : List (String × String)
  body : Option String
  timeout : Option Nat
  forceRefresh : Bool
  config : String

/-- How reports on health are shown. -/
inductive HealthForm
  | table
  | json
  /-- What the checks left in the metrics. -/
  | prometheus
  deriving DecidableEq

/-- What the program is to do. -/
inductive Command
  | listEndpoints (asJson : Bool) (config : String)
  | request (arguments : RequestArguments)
  | health (form : HealthForm) (config : String)
  | initConfig (output : String) (force : Bool)
  | exportConfig (config : String)
  | completions (shell : Shell)

/-- A command with what is set for the whole program. -/
structure Invocation where
  logLevel : Option String
  command : Command

/-! The grammar -/

/-- A value for a path; a path is not empty. -/
def Check.path : Check := fun value => if value.isEmpty then some .badValue else none

def Check.pair : Check := fun value => if (parsePair value).toBool then none else some .refusedValue

/-- A natural number of at most 64 bits. -/
def Check.word : Check := fun value => if (parseWord value).isSome then none else some .refusedValue

def Check.shell : Check := fun value => if (Shell.ofName? value).isSome then none else some .badValue

namespace OptionSpec

/-- An option that is set or not. -/
def switch (name : String) (short : Option Char) : OptionSpec := ⟨name, short, .set, [], none⟩

def valued (name : String) (short : Char) (check : Check) : OptionSpec :=
  ⟨name, some short, .take false check, [], none⟩

/-- An option with a value that may be given again. -/
def repeated (name : String) (short : Char) (check : Check) : OptionSpec :=
  ⟨name, some short, .take true check, [], none⟩

/-- The option that asks for help. -/
def help : OptionSpec := ⟨"help", some 'h', .showHelp, [], none⟩

/-- The option that asks for the version. -/
def version : OptionSpec := ⟨"version", some 'V', .showVersion, [], none⟩

def logLevel : OptionSpec := ⟨"log-level", some 'l', .take false .any, [], some "CONDUIT_LOG_LEVEL"⟩

def config : OptionSpec := valued "config" 'c' .path

/-- The options of a level, with those that every level has. -/
def withCommon (options : List OptionSpec) : List OptionSpec := options ++ [logLevel, help]

end OptionSpec

namespace Grammar

open OptionSpec

/-- The last value of an option or operand. -/
def value (m : Matches) (name : String) : Option String := (m.get? name).bind List.getLast?

/-- The path given by an option, or else the standard one. -/
def pathOf (m : Matches) (name : String) : String := (value m name).getD standardConfig

def pairsOf (m : Matches) (name : String) : List (String × String) :=
  ((m.get? name).getD []).filterMap fun text => (parsePair text).toOption

def list : Grammar Command :=
  .command "list" (withCommon [switch "json" none, config]) [] fun m =>
    .listEndpoints (m.contains "json") (pathOf m "config")

def request : Grammar Command :=
  .command "request"
    (withCommon [repeated "query" 'q' .pair, repeated "header" 'H' .pair, valued "body" 'b' .any,
      valued "timeout" 't' .word, switch "force-refresh" none, config])
    [⟨"endpoint", .any⟩] fun m =>
    .request {
      endpoint := (value m "endpoint").getD ""
      query := pairsOf m "query"
      headers := pairsOf m "header"
      body := value m "body"
      timeout := (value m "timeout").bind parseWord
      forceRefresh := m.contains "force-refresh"
      config := pathOf m "config" }

def health : Grammar Command :=
  .command "health"
    (withCommon [{ switch "json" none with excludes := ["prometheus"] }, switch "prometheus" none,
      config]) [] fun m =>
    .health
      (if m.contains "prometheus" then .prometheus else if m.contains "json" then .json else .table)
      (pathOf m "config")

/-- Writes a configuration to start from. -/
def initConfig : Grammar Command :=
  .command "init" (withCommon [valued "output" 'o' .path, switch "force" (some 'f')]) [] fun m =>
    .initConfig (pathOf m "output") (m.contains "force")

/-- Shows the endpoints of a configuration as a document. -/
def exportConfig : Grammar Command :=
  .command "export" (withCommon [config]) [] fun m => .exportConfig (pathOf m "config")

def completions : Grammar Command :=
  .command "completions" (withCommon []) [⟨"shell", .shell⟩] fun m =>
    .completions (((value m "shell").bind Shell.ofName?).getD .bash)

/-- All command lines of the program. -/
def program : Grammar Command :=
  .group "conduit" (withCommon [version])
    [.group "endpoints" (withCommon []) [list], request, health,
      .group "config" (withCommon []) [initConfig, exportConfig], completions]

end Grammar

/-- The invocation of a command line without the name of the program. -/
def Invocation.read (env : Dict String) (words : List String) : Except UsageError Invocation := do
  let (command, levels) ← Grammar.program.read env .start words
  return ⟨Grammar.setting? env .logLevel levels, command⟩

end Egress.Cli
