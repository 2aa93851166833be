import Egress.Config.Environment
import Egress.Config.Validate
import Egress.File
import Egress.Toml.Document

/-!
Loading configurations from files.

A configuration file is a TOML document in UTF-8. The environment overrides what it says, and only then
is the configuration checked.
-/

set_option autoImplicit false

namespace Egress

/-- What records in TOML are not strict about. -/
def Toml.dialect : Json.Dialect := ⟨true, true⟩

namespace Config

def read? (text : String) : Option Config := do
  let value ← Toml.read? text
  (decode Toml.dialect value.tree).toOption

/-- Why a file gives no configuration. -/
inductive LoadError
  | notFound (path : String)
  | isDirectory
  | notText
  /-- The text is no TOML, or not that of a configuration. -/
  | unreadable
  deriving DecidableEq

/-- What kept a file from being read, for the errors that have such a cause. -/
def LoadError.cause? : LoadError → Option String
  | .isDirectory => some FileProblem.isDirectory.message
  | .notText => some "stream did not contain valid UTF-8"
  | _ => none

/-- The wording of the error. What exactly is wrong with a text is not told. -/
def LoadError.message : LoadError → String
  | .notFound path => "Config file not found: " ++ path
  | .unreadable => "Failed to parse config: "
  | e => "IO error: " ++ e.cause?.getD ""

def load (path : String) : FileState → Except LoadError Config
  | .absent _ => .error (.notFound path)
  | .directory => .error .isDirectory
  | .file bytes =>
    match Text.Utf8.decode? bytes with
    | none => .error .notText
    | some text =>
      match read? text with
      | none => .error .unreadable
      | some c => .ok c

end Config

end Egress
