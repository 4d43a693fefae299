import LinkedViews.Uri.Basic
import LinkedViews.Uri.Host
import LinkedViews.Uri.Path

/-! Reading identifiers from text, with no base to resolve them against. Schemes of a fixed meaning
have an authority and a rooted path however many slashes are written; files have a host and no
port; all other schemes are hierarchical when a slash follows the colon and opaque otherwise. -/
namespace LinkedViews.Uri

open Text

inductive SchemeKind
  | file
  | network (defaultPort : Nat)
  | general
  deriving DecidableEq

def SchemeKind.of (scheme : List Char) : SchemeKind :=
  if scheme = ['f', 'i', 'l', 'e'] then .file
  else if scheme = ['h', 't', 't', 'p'] ∨ scheme = ['w', 's'] then .network 80
  else if scheme = ['h', 't', 't', 'p', 's'] ∨ scheme = ['w', 's', 's'] then .network 443
  else if scheme = ['f', 't', 'p'] then .network 21
  else .general

def isSchemeChar (c : Char) : Bool :=
  Path.isLetter c || Decimal.isDigit c || c == '+' || c == '-' || c == '.'

/-- A letter and then letters, digits and three marks, up to the first colon; letters are lowered. -/
def readScheme? (text : List Char) : Option (List Char × List Char) := do
  let (scheme, rest) ← cut ':' text
  match scheme with
  | [] => none
  | c :: _ =>
    if Path.isLetter c ∧ scheme.all isSchemeChar then some (scheme.map lower, rest) else none

/-- Query and fragment, cut off at their marks. -/
structure Tail where
  query : Option (List Char)
  fragment : Option (List Char)

def cutTail (text : List Char) : List Char × Tail :=
  let (text, fragment) := match cut '#' text with
    | some (head, fragment) => (head, some fragment)
    | none => (text, none)
  match cut '?' text with
  | some (head, query) => (head, ⟨some query, fragment⟩)
  | none => (text, ⟨none, fragment⟩)

def Tail.isEmpty (tail : Tail) : Bool := tail.query.isNone && tail.fragment.isNone

def isSlash (c : Char) : Bool := c == '/'

def isAnySlash (c : Char) : Bool := c == '/' || c == '\\'

/-- Everything before the last at sign of an authority, if there is one. -/
def cutCredentials (text : List Char) : Option (List Char × List Char) :=
  match beforeLast '@' text with
  | some head => some (head, text.drop (head.length + 1))
  | none => none

/-- The first colon parts the password, and goes with it if it is empty. -/
def credentials (text : List Char) : List Char :=
  match cut ':' text with
  | some (user, []) => escape reservedInCredentials user
  | some (user, password) =>
    escape reservedInCredentials user ++ ':' :: escape reservedInCredentials password
  | none => escape reservedInCredentials text

/-- A host runs to the first colon outside brackets. -/
def cutHost (inside : Bool) : List Char → List Char × List Char
  | [] => ([], [])
  | c :: rest =>
    if c = ':' ∧ inside = false then ([], c :: rest)
    else
      let (host, rest) := cutHost (if c = '[' then true else if c = ']' then false else inside) rest
      (c :: host, rest)

/-- No digits mean no port; a port may end at either slash. -/
def readPort (text : List Char) : Except UriError (Option Nat × List Char) :=
  let digits := text.takeWhile Decimal.isDigit
  let rest := text.dropWhile Decimal.isDigit
  if 65535 < Decimal.value digits then .error .invalidPort
  else
    match rest with
    | [] => .ok (if digits = [] then none else some (Decimal.value digits), [])
    | c :: _ =>
      if isAnySlash c then .ok (if digits = [] then none else some (Decimal.value digits), rest)
      else .error .invalidPort

/-- An authority up to its closing slash; what is left is the path. -/
def readAuthority (kind : SchemeKind) (closed : Bool) (text : List Char) :
    Except UriError (Authority × List Char) := do
  let isEnd := if kind = .general then isSlash else isAnySlash
  let span := text.takeWhile (! isEnd ·)
  let path := text.dropWhile (! isEnd ·)
  let (user, rest) ← match cutCredentials span with
    | none => pure ([], span)
    | some ([], rest) =>
      if rest = [] ∧ (path ≠ [] ∨ closed) then .error .emptyHost else pure ([], rest)
    | some (user, rest) => pure (credentials user, rest)
  let (hostText, rest) := cutHost false rest
  let host ←
    if kind = .general then Host.ofOpaque hostText
    else if hostText = [] then .error .emptyHost
    else Host.ofSpecial hostText
  if host = [] ∧ rest ≠ [] then .error .emptyHost
  let (port, rest) ← match rest with
    | ':' :: rest => readPort rest
    | _ => pure (none, [])
  let port := match kind with
    | .network standard => if port = some standard then none else port
    | _ => port
  if host = [] ∧ user ≠ [] then .error .emptyHost
  return (⟨String.ofList user, String.ofList host, port⟩, rest ++ path)

/-- The path after an authority. Schemes of a fixed meaning always have one. -/
def pathAfterAuthority (kind : SchemeKind) (text : List Char) : List Char :=
  match kind, text with
  | .general, [] => []
  | .general, '/' :: rest | .general, rest => Path.join (Path.walk [] (Path.split isSlash rest))
  | _, c :: rest =>
    Path.join (Path.walk [] (Path.split isAnySlash (if isAnySlash c then rest else c :: rest)))
  | _, [] => ['/']

def filePath (segments : List Path.Segment) : List Char :=
  Path.join (Path.dropEmpty (Path.walk [] segments))

/-- A drive at the head of the path belongs to no host. -/
def onHost (host : List Char) (segments : List Path.Segment) : Authority × List Char :=
  match Path.headDrive? [] segments with
  | some segments => (.none, filePath segments)
  | none => (⟨"", String.ofList host, none⟩, filePath segments)

/-- With two slashes a host follows, unless a drive stands in its place; `localhost` is no host. Where
two slashes lead to no host, an empty segment comes before the path. It is dropped in the end, but
keeps a drive from being at the head. -/
def readFile (text : List Char) : Except UriError (Authority × List Char) := do
  match text with
  | a :: b :: rest =>
    if isAnySlash a ∧ isAnySlash b then
      let hostText := rest.takeWhile (! isAnySlash ·)
      let path := rest.dropWhile (! isAnySlash ·)
      if Path.isDrive hostText then
        return (.none, filePath (Path.withDrive [] (Path.split isAnySlash rest)))
      let host ← if hostText = [] then pure [] else Host.ofSpecial hostText
      let segments := Path.split isAnySlash (path.drop 1)
      if host = [] ∨ host = "localhost".toList then
        return (.none, filePath (Path.withDrive [[]] segments))
      else
        return onHost host segments
    else
      let rest := if isAnySlash a then b :: rest else text
      return (.none, filePath (Path.withDrive [] (Path.split isAnySlash rest)))
  | _ =>
    return (.none, filePath (Path.withDrive [] (Path.split isAnySlash (text.dropWhile isAnySlash))))

def readGeneral (closed : Bool) (text : List Char) :
    Except UriError (Option Authority × List Char) :=
  match text with
  | '/' :: '/' :: rest => do
    let (authority, path) ← readAuthority .general closed rest
    return (some authority, pathAfterAuthority .general path)
  | '/' :: rest => .ok (none, Path.join (Path.walk [] (Path.split isSlash rest)))
  | _ => .ok (none, escape isControl text)

def isTrimmed (c : Char) : Bool := c.toNat ≤ 0x20

def isIgnored (c : Char) : Bool := c == '\t' || c == '\n' || c == '\r'

/-- Surrounding controls and spaces, and tabs and line ends anywhere, are no part of the text. -/
def cleaned (text : List Char) : List Char :=
  (dropEndWhile isTrimmed (text.dropWhile isTrimmed)).filter (! isIgnored ·)

def parseChars (raw : List Char) : Except UriError Uri :=
  match readScheme? (cleaned raw) with
  | none => .error .relativeWithoutBase
  | some (scheme, rest) => do
    let kind := SchemeKind.of scheme
    let (head, tail) := cutTail rest
    let closed := !tail.isEmpty
    let (authority, path) ← match kind with
      | .file => do
        let (authority, path) ← readFile head
        pure (some authority, path)
      | .network _ => do
        let (authority, path) ← readAuthority kind closed (head.dropWhile isAnySlash)
        pure (some authority, pathAfterAuthority kind path)
      | .general => readGeneral closed head
    let inQuery := if kind = .general then reservedInQuery else reservedInSpecialQuery
    return {
      scheme := String.ofList scheme
      authority := authority
      path := String.ofList path
      query := tail.query.map fun q => String.ofList (escape inQuery q)
      fragment := tail.fragment.map fun f => String.ofList (escape reservedInFragment f) }

def parse (raw : String) : Except UriError Uri := parseChars raw.toList

end LinkedViews.Uri
