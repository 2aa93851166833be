import Egress.Dict

/-!
Command lines.

A grammar is a tree of commands. The words of a command line lead from its root to one command; on every
level there may be options, and the command itself may take operands. A value behind an option or
operand is examined when the next option or operand is met, or at the end of its level, and what is
missing on a level is found after all that is wrong below it.
-/

set_option autoImplicit false

namespace Egress.Cli

/-- Why a command line does not run a command. -/
inductive UsageError
  | helpWanted
  | versionWanted
  /-- A group of commands alone. -/
  | nothingAsked
  /-- A group with options, but none of its commands. -/
  | missingCommand
  | unknownCommand
  | unknownArgument
  | missingOperand
  /-- Options that exclude each other, or one option too often. -/
  | conflict
  /-- No value where one is needed, or none that could be meant. -/
  | badValue
  /-- A value that cannot be read. -/
  | refusedValue
  /-- A value for an option that takes none. -/
  | surplusValue
  deriving DecidableEq

/-- What is wrong with a value, if anything. -/
abbrev Check := String → Option UsageError

/-- Every value is fine. -/
def Check.any : Check := fun _ => none

/-- What giving an option does. -/
inductive Effect
  | showHelp
  | showVersion
  /-- It is set, without a value. -/
  | set
  /-- It takes a value, and several ones if it may be given again. -/
  | take (again : Bool) (check : Check)

/-- An option. -/
structure OptionSpec where
  name : String
  short : Option Char
  effect : Effect
  /-- Names of options that must not be given as well. -/
  excludes : List String
  /-- The environment variable that gives its value when the command line does not. -/
  fallback : Option String

/-- An operand, which has to be given. -/
structure Operand where
  name : String
  check : Check

/-- The values given on one level, by the name of their option or operand. -/
abbrev Matches := Dict (List String)

/-- Commands in a tree. A command makes something of its values. -/
inductive Grammar (α : Type)
  | command (name : String) (options : List OptionSpec) (operands : List Operand)
      (build : Matches → α)
  | group (name : String) (options : List OptionSpec) (commands : List (Grammar α))

/-- A value whose option or operand is known; `none` while the value of an option is to come. -/
structure Pending where
  name : String
  again : Bool
  check : Check
  value : Option String

/-- How far a level is read. -/
structure Progress where
  given : Matches
  pending : Option Pending
  operandsTaken : Nat
  /-- Behind a double hyphen every word is an operand. -/
  onlyOperands : Bool

namespace Progress

/-- The level before its first word. -/
def start : Progress := ⟨∅, none, 0, false⟩

/-- Whether the next word may be the value of an option. -/
def awaitsValue (p : Progress) : Bool :=
  match p.pending with
  | some ⟨_, _, _, none⟩ => true
  | _ => false

/-- Adds an option or operand with its value. -/
def record (p : Progress) (name : String) (again : Bool) (values : List String) :
    Except UsageError Progress :=
  match p.given.get? name with
  | none => .ok { p with given := p.given.insert name values }
  | some earlier =>
    if again then .ok { p with given := p.given.insert name (earlier ++ values) }
    else .error .conflict

/-- Examines and adds the value that is pending. -/
def resolve (p : Progress) : Except UsageError Progress :=
  match p.pending with
  | none => .ok p
  | some ⟨_, _, _, none⟩ => .error .badValue
  | some ⟨name, again, check, some value⟩ => do
    let p ← ({ p with pending := none } : Progress).record name again [value]
    match check value with
    | some error => throw error
    | none => return p

/-- Starts the value of an option or operand. -/
def expect (p : Progress) (name : String) (again : Bool) (check : Check) (value : Option String) :
    Except UsageError Progress := do
  return { (← p.resolve) with pending := some ⟨name, again, check, value⟩ }

/-- Takes a value behind an option or, if given together with it, at once. -/
def take (p : Progress) (name : String) (again : Bool) (check : Check) :
    Option String → Except UsageError Progress
  | none => p.expect name again check none
  | some value => do (← p.expect name again check (some value)).resolve

/-- Gives an option, with the value that is attached to it if there is one. -/
def give (p : Progress) (o : OptionSpec) (value : Option String) : Except UsageError Progress :=
  match o.effect, value with
  | .take again check, value => p.take o.name again check value
  | _, some _ => .error .surplusValue
  | .showHelp, none => do
    let _ ← p.resolve
    throw .helpWanted
  | .showVersion, none => do
    let _ ← p.resolve
    throw .versionWanted
  | .set, none => do (← p.resolve).record o.name false []

/-- Gives an option by its long name, perhaps with a value behind an equals sign. -/
def giveLong (options : List OptionSpec) (p : Progress) (word : List Char) :
    Except UsageError Progress :=
  let (name, rest) := word.span (· ≠ '=')
  match options.find? (·.name = String.ofList name) with
  | none => .error .unknownArgument
  | some o =>
    match rest with
    | [] => p.give o none
    | _ :: value => p.give o (some (String.ofList value))

/-- Gives options by their letters. The letters behind an option that takes a value are that value,
perhaps after an equals sign. -/
def giveShort (options : List OptionSpec) (p : Progress) : List Char → Except UsageError Progress
  | [] => .ok p
  | c :: rest =>
    match options.find? (·.short = some c) with
    | none => .error .unknownArgument
    | some o =>
      match o.effect, rest with
      | .take .., [] => p.give o none
      | .take .., '=' :: value => p.give o (some (String.ofList value))
      | .take .., value => p.give o (some (String.ofList value))
      | _, _ => do giveShort options (← p.give o none) rest

end Progress

namespace Grammar

variable {α : Type}

/-- The name of the command or group. -/
def name : Grammar α → String
  | .command name .. => name
  | .group name .. => name

/-- The word that asks for help on the commands of a group. -/
def helpWord : String := "help"

/-- The outcome of asking a group for help by words: each word has to name a command of the group
before it. -/
def helpOn : List (Grammar α) → List String → UsageError
  | _, [] => .helpWanted
  | commands, word :: rest =>
    match commands.find? (·.name = word) with
    | some (.group _ _ inner) => helpOn inner rest
    | some (.command ..) => if rest.isEmpty then .helpWanted else .unknownCommand
    | none => if word = helpWord && rest.isEmpty then .helpWanted else .unknownCommand

end Grammar

namespace Progress

/-- Reads a word that is no option, on a level whose commands have the given names. The name of a
command behind a double hyphen is out of place. -/
def readOperand (operands : List Operand) (names : List String) (p : Progress) (word : String) :
    Except UsageError Progress :=
  match operands[p.operandsTaken]? with
  | some o => do
    let p ← p.expect o.name false o.check (some word)
    return { p with operandsTaken := p.operandsTaken + 1 }
  | none =>
    let misplaced := p.onlyOperands && (names.contains word || word = Grammar.helpWord)
    .error (if names.isEmpty || misplaced then .unknownArgument else .unknownCommand)

/-- Reads a word that does not name a command. -/
def readWord (options : List OptionSpec) (operands : List Operand) (names : List String)
    (p : Progress) (word : String) : Except UsageError Progress :=
  if p.onlyOperands then p.readOperand operands names word
  else if word = "--" then .ok { p with onlyOperands := true }
  else
    match word.toList, p.pending with
    | '-' :: '-' :: long, _ => p.giveLong options long
    | '-' :: c :: letters, _ => p.giveShort options (c :: letters)
    | _, some ⟨name, again, check, none⟩ =>
      .ok { p with pending := some ⟨name, again, check, some word⟩ }
    | _, _ => p.readOperand operands names word

def takesCommand (p : Progress) : Bool := !p.onlyOperands && !p.awaitsValue

end Progress

namespace Grammar

variable {α : Type}

/-- Whether options were given that exclude each other. -/
def excluded (options : List OptionSpec) (given : Matches) : Bool :=
  options.any fun o => given.contains o.name && o.excludes.any given.contains

/-- The values of a level that is read to its end. -/
def finish (options : List OptionSpec) (operands : List Operand) (p : Progress) :
    Except UsageError Matches := do
  let p ← p.resolve
  if excluded options p.given then throw .conflict
  if operands.any fun o => !p.given.contains o.name then throw .missingOperand
  return p.given

/-- Why a group that ends without naming a command does so. -/
def unnamed (env : Dict String) (options : List OptionSpec) (p : Progress) : UsageError :=
  match p.resolve with
  | .error error => error
  | .ok p =>
    let set := options.any fun o => o.fallback.any env.contains
    if p.given.entries.isEmpty && !set then .nothingAsked else .missingCommand

/-- Reads the words of a level and of those below; the values of every level from the top on, and what
the command at the end makes of its own. -/
def read (env : Dict String) : Grammar α → Progress → List String → Except UsageError (α × List Matches)
  | .command _ options operands build, p, [] => do
    let given ← finish options operands p
    return (build given, [given])
  | .group _ options _, p, [] => .error (unnamed env options p)
  | .command name options operands build, p, word :: rest => do
    read env (.command name options operands build) (← p.readWord options operands [] word) rest
  | .group name options commands, p, word :: rest =>
    match commands.find? fun g => p.takesCommand && g.name = word with
    | some g => do
      let (result, below) ← read env g .start rest
      return (result, (← finish options [] p) :: below)
    | none =>
      if p.takesCommand && word = helpWord then .error (helpOn commands rest)
      else do
        read env (.group name options commands)
          (← p.readWord options [] (commands.map Grammar.name) word) rest

/-- The last value that an option got on any level, or else the value of its variable. -/
def setting? (env : Dict String) (o : OptionSpec) (levels : List Matches) : Option String :=
  let given := levels.reverse.findSome? fun m => (m.get? o.name).bind List.getLast?
  given.or (o.fallback.bind env.get?)

end Grammar

end Egress.Cli
