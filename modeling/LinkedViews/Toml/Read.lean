import LinkedViews.Toml.Scalar

/-! Configuration documents from text: one key with its value or one header a line. A table is
defined once; headers may open what was only implied, and dotted keys may extend what dotted keys
have made. -/
namespace LinkedViews.Toml

/-- Keys and nested values may not go deeper. -/
def maxDepth : Nat := 80

abbrev Entries := List (String × Toml)

def lookUp (key : String) : Entries → Option Toml
  | [] => none
  | (k, v) :: rest => if k = key then some v else lookUp key rest

def replace (key : String) (value : Toml) : Entries → Entries
  | [] => [(key, value)]
  | (k, v) :: rest => if k = key then (key, value) :: rest else (k, v) :: replace key value rest

/-- A value under dotted keys. The tables on the way are made by dotted keys, or still open to them
because only implied; the last of them must be a dotted one. Only `origin` is the table's own. -/
def addDotted (origin : Origin) (entries : Entries) (path : List String) (key : String)
    (value : Toml) : Option Entries :=
  match path with
  | [] =>
    if (lookUp key entries).isSome then none else some (entries ++ [(key, value)])
  | next :: path =>
    match lookUp next entries with
    | none => do
      let inner ← addDotted .dotted [] path key value
      return entries ++ [(next, .table .dotted inner)]
    | some (.table .dotted inner) => do
      let inner ← addDotted .dotted inner path key value
      return replace next (.table .dotted inner) entries
    | some (.table .implied inner) =>
      if path = [] ∨ origin = .inline then none
      else do
        let inner ← addDotted .implied inner path key value
        return replace next (.table .implied inner) entries
    | some (.tables (latest :: older)) =>
      if path = [] then none
      else do
        let latest ← addDotted .header latest path key value
        return replace next (.tables (latest :: older)) entries
    | _ => none

/-- A change to the table that a header names. Missing tables on the way are implied, and a repeated
table stands for its latest. -/
def updateAt (entries : Entries) (path : List String) (change : Entries → Option Entries) :
    Option Entries :=
  match path with
  | [] => change entries
  | next :: path =>
    match lookUp next entries with
    | none => do return entries ++ [(next, .table .implied (← updateAt [] path change))]
    | some (.table .inline _) => none
    | some (.table origin inner) => do
      return replace next (.table origin (← updateAt inner path change)) entries
    | some (.tables (latest :: older)) => do
      return replace next (.tables ((← updateAt latest path change) :: older)) entries
    | _ => none

def openTable (key : String) (entries : Entries) : Option Entries :=
  match lookUp key entries with
  | none => some (entries ++ [(key, .table .header [])])
  | some (.table .implied inner) => some (replace key (.table .header inner) entries)
  | _ => none

def openRepeated (key : String) (entries : Entries) : Option Entries :=
  match lookUp key entries with
  | none => some (entries ++ [(key, .tables [[]])])
  | some (.tables items) => some (replace key (.tables ([] :: items)) entries)
  | _ => none

def isBareKey (c : Char) : Bool :=
  ('a' ≤ c && c ≤ 'z') || ('A' ≤ c && c ≤ 'Z') || Decimal.isDigit c || c == '_' || c == '-'

def scanSimpleKey : Scanner String
  | '"' :: rest => scanBasic [] rest
  | '\'' :: rest => scanLiteral [] rest
  | text =>
    let key := text.takeWhile isBareKey
    if key = [] then none else some (String.ofList key, text.dropWhile isBareKey)

/-- Keys between dots, the last apart. -/
def scanKey (fuel : Nat) (path : List String) : Scanner (List String × String) := fun text =>
  match fuel with
  | 0 => none
  | fuel + 1 => do
    let (key, rest) ← scanSimpleKey (skipSpace text)
    match skipSpace rest with
    | '.' :: rest => scanKey fuel (path ++ [key]) rest
    | _ => return ((path, key), skipSpace rest)

def isCommentEnd (c : Char) : Bool := c == '\n' || c == '\r'

/-- A comment runs to the end of its line. -/
def skipComment? : List Char → Option (List Char)
  | '#' :: rest =>
    let comment := rest.takeWhile (! isCommentEnd ·)
    if comment.all isPlain then some (rest.dropWhile (! isCommentEnd ·)) else none
  | text => some text

/-- Blanks, comments and line ends inside an array. -/
def skipGap (fuel : Nat) (text : List Char) : Option (List Char) :=
  match fuel with
  | 0 => none
  | fuel + 1 => do
    let text ← skipComment? (skipSpace text)
    match newline? text with
    | some rest => skipGap fuel rest
    | none => some text

def skipGaps (text : List Char) : Option (List Char) := skipGap (text.length + 1) text

def expectWord (word : List Char) (value : Toml) : Scanner Toml := fun text =>
  if text.take word.length = word then some (value, text.drop word.length) else none

/-- Items up to the closing bracket, which a comma may precede. -/
def scanItems (item : Scanner Toml) (fuel : Nat) (seen : List Toml) : Scanner (List Toml) :=
  fun text =>
    match fuel with
    | 0 => none
    | fuel + 1 => do
      match ← skipGaps text with
      | ']' :: rest => return (seen.reverse, rest)
      | text =>
        let (value, rest) ← item text
        match ← skipGaps rest with
        | ',' :: rest => scanItems item fuel (value :: seen) rest
        | ']' :: rest => return ((value :: seen).reverse, rest)
        | _ => none

def scanPairOf (item : Scanner Toml) : Scanner (List String × String × Toml) := fun text => do
  let ((path, key), rest) ← scanKey maxDepth [] text
  match rest with
  | '=' :: rest =>
    let (value, rest) ← item (skipSpace rest)
    return ((path, key, value), skipSpace rest)
  | _ => none

/-- Members on one line, with no comma before the closing brace. -/
def scanMembers (item : Scanner Toml) (fuel : Nat) (entries : Entries) : Scanner Entries :=
  fun text =>
    match fuel with
    | 0 => none
    | fuel + 1 => do
      let ((path, key, value), rest) ← scanPairOf item text
      let entries ← addDotted .inline entries path key value
      match rest with
      | ',' :: rest => scanMembers item fuel entries rest
      | '\x7d' :: rest => return (entries, rest)
      | _ => none

def scanValue (depth : Nat) : Scanner Toml := fun text =>
  match depth, text with
  | 0, _ | _, [] => none
  | depth + 1, c :: rest =>
    if c = '"' ∨ c = '\'' then (scanString text).map fun (s, rest) => (.string s, rest)
    else if c = '[' then
      (scanItems (scanValue depth) (rest.length + 1) [] rest).map fun (items, rest) =>
        (.array items, rest)
    else if c = '\x7b' then
      match skipSpace rest with
      | '\x7d' :: rest => some (.table .inline [], rest)
      | rest =>
        (scanMembers (scanValue depth) (rest.length + 1) [] rest).map fun (entries, rest) =>
          (.table .inline entries, rest)
    else if c = 't' then expectWord "true".toList (.bool true) text
    else if c = 'f' then expectWord "false".toList (.bool false) text
    else if c = 'i' ∨ c = 'n' then scanSigned false text
    else scanNumber text

/-- The root table, and the path to the table that the last header opened. -/
structure Document where
  root : Entries
  current : List String

/-- Nothing but a comment may follow on a line. -/
def endLine (text : List Char) : Option (List Char) := do
  match ← skipComment? (skipSpace text) with
  | [] => some []
  | text => newline? text

def addPair (d : Document) (path : List String) (key : String) (value : Toml) :
    Option Document := do
  let root ← updateAt d.root d.current fun entries => addDotted .header entries path key value
  return { d with root := root }

def readLine (d : Document) (text : List Char) : Option (Document × List Char) := do
  match skipSpace text with
  | '[' :: '[' :: rest =>
    let ((path, key), rest) ← scanKey maxDepth [] rest
    match rest with
    | ']' :: ']' :: rest =>
      let root ← updateAt d.root path (openRepeated key)
      return (⟨root, path ++ [key]⟩, ← endLine rest)
    | _ => none
  | '[' :: rest =>
    let ((path, key), rest) ← scanKey maxDepth [] rest
    match rest with
    | ']' :: rest =>
      let root ← updateAt d.root path (openTable key)
      return (⟨root, path ++ [key]⟩, ← endLine rest)
    | _ => none
  | text =>
    match newline? text, text with
    | some rest, _ => return (d, rest)
    | none, [] => return (d, [])
    | none, '#' :: _ => return (d, ← endLine text)
    | none, _ =>
      let ((path, key, value), rest) ← scanPairOf (scanValue maxDepth) text
      return (← addPair d path key value, ← endLine rest)

def readLines (fuel : Nat) (d : Document) (text : List Char) : Option Document :=
  match fuel, text with
  | _, [] => some d
  | 0, _ => none
  | fuel + 1, text => do
    let (d, rest) ← readLine d text
    readLines fuel d rest

/-- The root table of a document. A byte order mark may come first. -/
def parse? (text : List Char) : Option Entries :=
  let text := match text with
    | '\uFEFF' :: rest => rest
    | _ => text
  (readLines (text.length + 1) ⟨[], []⟩ text).map (·.root)

end LinkedViews.Toml
