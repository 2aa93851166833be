import Egress.Json.Reader
import Egress.Json.Printer
import Egress.Text.Quoted
import Egress.Timestamp

/-!
Decoding records from JSON.

A record is given as an object of its fields, or as an array of them in declaration order. A
`RecordField` says how one field is read into the record under construction; `readRecord` finds
missing, repeated and surplus fields. Unknown fields are passed over without looking at their value.
The first problem met is the one reported.
-/

set_option autoImplicit false

namespace Egress.Json

/-- What was found in the place of something else. -/
inductive Found
  | null
  | bool (b : Bool)
  | int (n : Int)
  | double (d : Double)
  | string (s : String)
  | sequence
  | map
  deriving DecidableEq

def Found.describe : Found → String
  | .null => "null"
  | .bool b => "boolean `" ++ (if b then "true" else "false") ++ "`"
  | .int n => "integer `" ++ String.ofList (intDigits n) ++ "`"
  | .double d => "floating point `" ++ numberLayout.format d ++ "`"
  | .string s => "string " ++ Text.Quoted.quote s
  | .sequence => "sequence"
  | .map => "map"

/-- Where the decoded value comes from: a text that is read along the way, or a value that was kept
before. The two differ in how they refuse a few values. -/
inductive Origin
  | text
  | value
  deriving DecidableEq

/-- Why a value is not the record asked for. -/
inductive DecodeError
  /-- A part that has no value was asked for. -/
  | unkept
  | missingField (name : String)
  | duplicateField (name : String)
  | unknownVariant (given : String) (expected : List String)
  | invalidType (found : Found) (expected : String)
  | invalidInteger (n : Int) (expected : String)
  /-- An array ended before the first field that has to be there. -/
  | invalidLength (length : Nat) (record : String) (fields : Nat)
  /-- An array went on after the last field; `buffered` when it had been kept before. -/
  | surplusItems (length fields : Nat) (buffered : Bool)
  /-- A variant given as something other than its name or an object. -/
  | notVariant (found : Found)
  /-- A variant given as an object without members, or with several; the problem of the first one. -/
  | variantCount (first : Option DecodeError)
  | timestamp (error : TimestampError)

/-- Names between backticks, separated by commas. -/
def backticked (names : List String) : String :=
  ", ".intercalate (names.map fun n => "`" ++ n ++ "`")

def expectedVariants : List String → String
  | [a] => "expected `" ++ a ++ "`"
  | [a, b] => "expected `" ++ a ++ "` or `" ++ b ++ "`"
  | names => "expected one of " ++ backticked names

/-- A count of things, with an `s` unless it is one. -/
def counted (n : Nat) (thing : String) : String :=
  toString n ++ " " ++ thing ++ (if n = 1 then "" else "s")

/-- The wording of the error. Two errors have none when a text is read: the reader stops at the
offending character there. -/
def DecodeError.message (origin : Origin) : DecodeError → Option String
  | .unkept => none
  | .missingField name => some ("missing field `" ++ name ++ "`")
  | .duplicateField name => some ("duplicate field `" ++ name ++ "`")
  | .unknownVariant given expected =>
    some ("unknown variant `" ++ given ++ "`, " ++ expectedVariants expected)
  | .invalidType found expected =>
    some ("invalid type: " ++ found.describe ++ ", expected " ++ expected)
  | .invalidInteger n expected =>
    some ("invalid value: integer `" ++ String.ofList (intDigits n) ++ "`, expected " ++ expected)
  | .invalidLength length record fields =>
    some ("invalid length " ++ toString length ++ ", expected " ++ record ++ " with " ++
      counted fields "element")
  | .surplusItems length fields buffered =>
    if buffered then
      some ("invalid length " ++ toString length ++ ", expected " ++ counted fields "element" ++
        " in sequence")
    else match origin with
      | .text => none
      | .value => some ("invalid length " ++ toString length ++ ", expected fewer elements in array")
  | .notVariant found =>
    match origin with
    | .text => none
    | .value => some ("invalid type: " ++ found.describe ++ ", expected string or map")
  | .variantCount first =>
    match origin, first with
    | .text, none => none
    | .text, some error => error.message .text
    | .value, _ => some "invalid value: map, expected map with a single key"
  | .timestamp error => some error.message

/-- What a format makes of records that JSON texts are strict about. -/
structure Dialect where
  /-- Items behind the last field of a record given as an array are passed over. -/
  passesSurplus : Bool
  /-- An empty array or object stands for the null under the name of a variant. -/
  emptyIsNull : Bool
  deriving DecidableEq

/-- The rules for JSON. -/
def Dialect.json : Dialect := ⟨false, false⟩

abbrev Decoder (α : Type) := Dialect → Tree → Except DecodeError α

/-- What the tree is, unless it has no value. -/
def Tree.found : Tree → Except DecodeError Found
  | .null => .ok .null
  | .bool b => .ok (.bool b)
  | .int n => .ok (.int n)
  | .double d => .ok (.double d)
  | .string s => .ok (.string s)
  | .array _ => .ok .sequence
  | .object _ => .ok .map
  | .unkept => .error .unkept

/-- Refuses the tree, naming what was expected instead. -/
def mismatch {α : Type} (expected : String) (t : Tree) : Except DecodeError α := do
  throw (.invalidType (← t.found) expected)

def decodeString : Decoder String
  | _, .string s => .ok s
  | _, t => mismatch "a string" t

def decodeBool : Decoder Bool
  | _, .bool b => .ok b
  | _, t => mismatch "a boolean" t

/-- A natural number of at most `width` bits. -/
def decodeNat (width : Nat) : Decoder Nat
  | _, .int n =>
    if 0 ≤ n && n.toNat < Nat.pow 2 width then .ok n.toNat
    else .error (.invalidInteger n ("u" ++ toString width))
  | _, t => mismatch ("u" ++ toString width) t

/-- A value that null leaves out. -/
def decodeOption {α : Type} (decode : Decoder α) : Decoder (Option α)
  | _, .null => .ok none
  | d, t => (decode d t).map some

def decodeList {α : Type} (decode : Decoder α) : Decoder (List α)
  | d, .array items => items.mapM (decode d)
  | _, t => mismatch "a sequence" t

/-- Inserts the members of an object into a dictionary. -/
def decodeMembers {α : Type} (decode : Tree → Except DecodeError α) :
    Dict α → List (Option String × Tree) → Except DecodeError (Dict α)
  | dict, [] => .ok dict
  | _, (none, _) :: _ => .error .unkept
  | dict, (some key, t) :: rest => do decodeMembers decode (dict.insert key (← decode t)) rest

/-- A dictionary; the last value under a key stays. -/
def decodeDict {α : Type} (decode : Decoder α) : Decoder (Dict α)
  | d, .object members => decodeMembers (decode d) Dict.empty members
  | _, t => mismatch "a map" t

def decodeValue : Decoder Json := fun _ t =>
  match t.value? with
  | some j => .ok j
  | none => .error .unkept

def decodeTimestamp : Decoder Timestamp
  | _, .string s => (Timestamp.parse s).mapError .timestamp
  | _, t => mismatch "an RFC 3339 formatted date and time string" t

/-- The names of an enumeration, each with the value it stands for, in the order they are listed. -/
abbrev Variants (α : Type) := List (String × α)

def Variants.find {α : Type} (variants : Variants α) (name : String) : Except DecodeError α :=
  match variants.find? (·.1 = name) with
  | some (_, value) => .ok value
  | none => .error (.unknownVariant name (variants.map (·.1)))

/-- Whether the tree stands for null under the name of a variant. -/
def Dialect.isUnit (d : Dialect) : Tree → Bool
  | .null => true
  | .array [] => d.emptyIsNull
  | .object [] => d.emptyIsNull
  | _ => false

/-- A variant given as its name, or as an object with the name as its only key and null under it. -/
def decodeVariant {α : Type} (variants : Variants α) : Decoder α
  | _, .string name => variants.find name
  | _, .object [] => .error (.variantCount none)
  | d, .object ((key, t) :: rest) =>
    let first : Except DecodeError α := do
      let value ← match key with
        | none => throw .unkept
        | some name => variants.find name
      if d.isUnit t then return value else mismatch "unit" t
    match first, rest with
    | .ok value, [] => .ok value
    | .ok _, _ :: _ => .error (.variantCount none)
    | .error e, [] => .error e
    | .error e, _ :: _ => .error (.variantCount (some e))
  | _, .unkept => .error .unkept
  | _, t => do throw (.notVariant (← t.found))

/-- How one field of a record under construction is read. -/
structure RecordField (ρ : Type) where
  name : String
  aliases : List String
  required : Bool
  read : Dialect → Tree → ρ → Except DecodeError ρ

namespace RecordField

variable {ρ α : Type}

/-- A field that has to be there. -/
def needed (name : String) (decode : Decoder α) (set : α → ρ → ρ) : RecordField ρ :=
  ⟨name, [], true, fun d t r => do return set (← decode d t) r⟩

/-- A field that may be missing. -/
def optional (name : String) (decode : Decoder α) (set : α → ρ → ρ) : RecordField ρ :=
  ⟨name, [], false, fun d t r => do return set (← decode d t) r⟩

def orNamed (f : RecordField ρ) (aliases : List String) : RecordField ρ := { f with aliases }

/-- Whether `key` names the field. -/
def answersTo (f : RecordField ρ) (key : String) : Bool := f.name = key || f.aliases.contains key

end RecordField

/-- Reads the members of an object into the record; `seen` names the fields already there. -/
def readMembersInto {ρ : Type} (d : Dialect) (fields : List (RecordField ρ)) :
    List String → ρ → List (Option String × Tree) → Except DecodeError ρ
  | seen, record, [] =>
    match fields.find? fun f => f.required && !seen.contains f.name with
    | some f => .error (.missingField f.name)
    | none => .ok record
  | _, _, (none, _) :: _ => .error .unkept
  | seen, record, (some key, t) :: rest =>
    match fields.find? (·.answersTo key) with
    | none => readMembersInto d fields seen record rest
    | some f =>
      if seen.contains f.name then .error (.duplicateField f.name)
      else do readMembersInto d fields (f.name :: seen) (← f.read d t record) rest

/-- Reads the items of an array into the fields from `index` on. -/
def readItemsInto {ρ : Type} (d : Dialect) (record : String) (count : Nat) :
    Nat → List (RecordField ρ) → ρ → List Tree → Except DecodeError ρ
  | _, [], r, [] => .ok r
  | index, [], r, surplus =>
    if d.passesSurplus then .ok r
    else .error (.surplusItems (index + surplus.length) index false)
  | index, f :: fields, r, [] =>
    if f.required then .error (.invalidLength index record count)
    else readItemsInto d record count (index + 1) fields r []
  | index, f :: fields, r, t :: rest => do
    readItemsInto d record count (index + 1) fields (← f.read d t r) rest

/-- A record with the given fields, named `record` in messages; fields that are missing keep what
`start` says. -/
def readRecord {ρ : Type} (record : String) (fields : List (RecordField ρ)) (start : ρ) :
    Decoder ρ
  | d, .object members => readMembersInto d fields [] start members
  | d, .array items => readItemsInto d record fields.length 0 fields start items
  | _, t => mismatch record t

/-- Why a text is not the record asked for. -/
inductive TextError
  /-- The text is no JSON value, or none that can be kept. -/
  | malformed
  | data (error : DecodeError)

/-- The wording of the error; a malformed text has none here. -/
def TextError.message : TextError → Option String
  | .malformed => none
  | .data error => error.message .text

def decodeText {α : Type} (decode : Decoder α) (text : String) : Except TextError α :=
  match Tree.read? text.toList with
  | none => .error .malformed
  | some tree =>
    match decode .json tree with
    | .ok a => .ok a
    | .error e => .error (if tree.value?.isSome then .data e else .malformed)

def decodeJson {α : Type} (decode : Decoder α) (j : Json) : Except DecodeError α :=
  decode .json (Tree.ofJson j)

end Egress.Json
