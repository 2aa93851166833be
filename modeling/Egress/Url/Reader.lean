import Egress.Url.Basic

/-!
Reading URLs.

Blanks and control characters around the text and tabs and line breaks within it are dropped. The
scheme decides how the rest is read: as authority and path, as the path of a file, as segments without
a host, or as a text of its own.
-/

set_option autoImplicit false

namespace Egress.Url

/-- The text without control characters and spaces around it and without tabs and line breaks. -/
def cleaned (cs : List Char) : List Char :=
  let outer := fun (c : Char) => c.toNat ≤ 0x20
  (((cs.dropWhile outer).reverse.dropWhile outer).reverse).filter fun c =>
    c ≠ '\t' && c ≠ '\n' && c ≠ '\r'

def isSchemeChar (c : Char) : Bool :=
  c.isAlpha || Json.isDigit c || c = '+' || c = '-' || c = '.'

/-- The scheme in lower case, with the text behind its colon. -/
def readScheme (cs : List Char) : Option (String × List Char) :=
  if (cs.head?.any Char.isAlpha) then
    match cs.span isSchemeChar with
    | (scheme, ':' :: rest) => some (Text.lower (String.ofList scheme), rest)
    | _ => none
  else none

/-- Whether the character separates segments: a slash, or a backslash in a special scheme. -/
def isSlash (special : Bool) (c : Char) : Bool := c = '/' || (special && c = '\\')

def endsAuthority (special : Bool) (c : Char) : Bool :=
  isSlash special c || c = '?' || c = '#'

/-- What stands before the last `@`, and what stands behind it. -/
def splitAtLastAt (cs : List Char) : Option (List Char × List Char) :=
  match cs.reverse.span (· ≠ '@') with
  | (_, []) => none
  | (after, _ :: before) => some (before.reverse, after.reverse)

/-- The text of the host, with what follows; a colon ends it unless it stands in brackets. -/
def readHostText (special : Bool) : Bool → List Char → List Char × List Char
  | _, [] => ([], [])
  | bracketed, c :: rest =>
    if (c = ':' && !bracketed) || endsAuthority special c then ([], c :: rest)
    else
      let bracketed := if c = '[' then true else if c = ']' then false else bracketed
      let (text, after) := readHostText special bracketed rest
      (c :: text, after)

/-- The port after its colon, with what follows. An implied port is dropped. -/
def readPort (scheme : String) (cs : List Char) : Except UrlError (Option Nat × List Char) :=
  let (digits, after) := cs.span Json.isDigit
  let port := Json.digitsValue digits
  if 65535 < port then .error .invalidPort
  else
    match after with
    | c :: _ =>
      if c = '/' || c = '\\' || c = '?' || c = '#' then
        .ok (if digits.isEmpty || defaultPort? scheme = some port then none else some port, after)
      else .error .invalidPort
    | [] => .ok (if digits.isEmpty || defaultPort? scheme = some port then none else some port, [])

/-- Whether the segment is a letter and a colon or bar. -/
def isDriveLetter (segment : List Char) : Bool :=
  match segment with
  | [a, b] => a.isAlpha && (b = ':' || b = '|')
  | _ => false

/-- Whether the segment is a dot, perhaps encoded. -/
def isSingleDot (segment : List Char) : Bool :=
  let s := segment.map Char.toLower
  s = ['.'] || s = ['%', '2', 'e']

/-- Whether the segment is two dots, perhaps encoded. -/
def isDoubleDot (segment : List Char) : Bool :=
  let s := segment.map Char.toLower
  s = ['.', '.'] || s = ['.', '%', '2', 'e'] || s = ['%', '2', 'e', '.'] ||
    s = ['%', '2', 'e', '%', '2', 'e']

/-- The segments without the last one; a drive letter stays. -/
def shorten (segments : List (List Char)) : List (List Char) :=
  match segments.getLast? with
  | some last => if isDriveLetter last then segments else segments.dropLast
  | none => []

/-- Adds one more segment of a path. Dots move within the path, and at its end leave an empty
segment. -/
def addSegment (file : Bool) (segments : List (List Char)) (segment : List Char) (last : Bool) :
    List (List Char) :=
  if isDoubleDot segment then if last then shorten segments ++ [[]] else shorten segments
  else if isSingleDot segment then if last then segments ++ [[]] else segments
  else if file && segments.isEmpty && isDriveLetter segment then [segment.take 1 ++ [':']]
  else segments ++ [segment]

/-- Adds the segments one after the other. -/
def addSegments (file : Bool) : List (List Char) → List (List Char) → List (List Char)
  | segments, [] => segments
  | segments, [segment] => addSegment file segments segment true
  | segments, segment :: rest => addSegments file (addSegment file segments segment false) rest

def splitAtSlashes (special : Bool) (cs : List Char) : List (List Char) :=
  splitAtEach '/' (cs.map fun c => if isSlash special c then '/' else c)

def readSegments (special file : Bool) (cs : List Char) : List (List Char) :=
  addSegments file [] ((splitAtSlashes special cs).map (percentEncode inPathSet))

def segmentsPath (segments : List (List Char)) : Path := .segments (segments.map String.ofList)

/-- The path that follows an authority: everything after an optional slash. -/
def readPath (special : Bool) (cs : List Char) : Path :=
  match cs with
  | [] => if special then .segments [""] else .segments []
  | c :: rest => segmentsPath (readSegments special false (if isSlash special c then rest else c :: rest))

/-- Query and fragment, from the question mark or number sign on. -/
def readTail (special : Bool) (cs : List Char) : Option String × Option String :=
  let fragment := fun (rest : List Char) => String.ofList (percentEncode inFragmentSet rest)
  match cs with
  | '#' :: rest => (none, some (fragment rest))
  | '?' :: rest =>
    let (query, after) := rest.span (· ≠ '#')
    (some (String.ofList (percentEncode (inQuerySet special) query)),
      match after with
      | [] => none
      | _ :: rest => some (fragment rest))
  | _ => (none, none)

/-- The text up to the query or fragment, with what follows. -/
def splitAtTail (cs : List Char) : List Char × List Char := cs.span fun c => c ≠ '?' && c ≠ '#'

def readUserInfo (cs : List Char) : String × String :=
  let (username, password) := splitAtFirst ':' cs
  (String.ofList (percentEncode inUserInfoSet username),
    String.ofList (percentEncode inUserInfoSet password))

/-- A URL with an authority, from behind its slashes on. -/
def readWithAuthority (scheme : String) (cs : List Char) : Except UrlError Url := do
  let special := isSpecial scheme
  let (authority, after) := cs.span fun c => !endsAuthority special c
  let (userInfo, cs) ← match splitAtLastAt authority with
    | none => pure (none, cs)
    | some ([], host) =>
      if host.isEmpty && !after.isEmpty then throw .emptyHost else pure (none, host ++ after)
    | some (userInfo, host) => pure (some (readUserInfo userInfo), host ++ after)
  let (hostText, cs) := readHostText special false cs
  if special && hostText.isEmpty then throw .emptyHost
  let host ← if special then parseHost hostText else parseOtherHost hostText
  if host = .domain "" && cs.head? = some ':' then throw .emptyHost
  let (port, cs) ← match cs with
    | ':' :: rest => readPort scheme rest
    | cs => pure (none, cs)
  let (username, password) := userInfo.getD ("", "")
  if host = .domain "" && !(username.isEmpty && password.isEmpty) then throw .emptyHost
  let (path, tail) := splitAtTail cs
  let (query, fragment) := readTail special tail
  return { scheme, username, password, host := some host, port, path := readPath special path,
           query, fragment }

/-- The segments of a file's path: empty ones at the front are dropped. -/
def readFileSegments (cs : List Char) : List (List Char) :=
  match (readSegments true true cs).dropWhile (·.isEmpty) with
  | [] => [[]]
  | segments => segments

/-- Whether the path of a file starts with a drive letter. -/
def startsWithDrive (cs : List Char) : Bool :=
  (addSegments true [] (splitAtSlashes true cs)).head?.any isDriveLetter

/-- The host of a file, unless it is a drive letter or this machine; with the path behind it. -/
def readFileHost (cs : List Char) : Except UrlError (Host × List Char) := do
  let (text, after) := cs.span fun c => !isSlash true c
  if isDriveLetter text then return (.domain "", cs)
  else if text.isEmpty then return (.domain "", after.drop 1)
  else
    let host ← parseHost text
    return (if host = .domain "localhost" then .domain "" else host, after.drop 1)

/-- The URL of a file, from behind its scheme on. A path with a drive letter has no host. -/
def readFile (cs : List Char) : Except UrlError Url := do
  let (path, tail) := splitAtTail cs
  let (host, path) ← match path with
    | a :: b :: rest =>
      if isSlash true a then
        if isSlash true b then readFileHost rest else pure (.domain "", b :: rest)
      else pure (.domain "", a :: b :: rest)
    | [a] => pure (.domain "", if isSlash true a then [] else [a])
    | [] => pure (.domain "", [])
  let host := if startsWithDrive path then .domain "" else host
  let (query, fragment) := readTail true tail
  return { scheme := "file", username := "", password := "", host := some host, port := none,
           path := segmentsPath (readFileSegments path), query, fragment }

/-- A URL without an authority, from behind its scheme on. -/
def readWithoutAuthority (scheme : String) (cs : List Char) : Url :=
  let (path, tail) := splitAtTail cs
  let (query, fragment) := readTail false tail
  let path := match path with
    | '/' :: rest => segmentsPath (readSegments false false rest)
    | path => .text (String.ofList (percentEncode isControlByte path))
  { scheme, username := "", password := "", host := none, port := none, path, query, fragment }

/-- The URL of a text. A domain name in another script has to be in its encoded form (`parseHost`). -/
def parse (text : String) : Except UrlError Url :=
  match readScheme (cleaned text.toList) with
  | none => .error .relativeWithoutBase
  | some (scheme, rest) =>
    if scheme = "file" then readFile rest
    else if isSpecial scheme then readWithAuthority scheme (rest.dropWhile (isSlash true))
    else
      match rest with
      | '/' :: '/' :: rest => readWithAuthority scheme rest
      | rest => .ok (readWithoutAuthority scheme rest)

end Egress.Url
