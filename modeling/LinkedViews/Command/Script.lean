import LinkedViews.Command.Failure

/-! Scripts: one step a line, as JSON. Blank lines and comments are skipped, and every step keeps
the number of its line. -/
namespace LinkedViews

inductive ScriptStep
  | publish (publication : Publication)
  | select (uri : String) (selections : List Span)
  | sync (uri : String)
  | close (uri : String)
  deriving DecidableEq, Repr

namespace ScriptStep

open Json

def pairExpected : String := "a tuple of size 2"

def readSpan : Reader Span := fun input =>
  match skipBlank input with
  | [] => .error .truncated
  | b :: rest =>
    if b = 0x5B then do
      let (start, rest) ← readRequired 0 pairExpected readWord rest
      let (stop, rest) ← readRequired 1 pairExpected readWord rest
      return (⟨start, stop⟩, ← expectEnd rest)
    else rejectValue pairExpected (b :: rest)

def readWords : Reader String := readString "a string"

def readUriMember (uri : Option String) (key : String) : Reader (Option String) := fun input => do
  if key = "uri" then readField key uri readWords input
  else return (uri, ← passMember input)

def readUri (expected : String) : Reader String :=
  readRecord expected
    (fun input => do
      let (uri, rest) ← readRequired 0 (expected ++ " with 1 element") readWords input
      return (uri, ← expectEnd rest))
    (fun input => do
      let (uri, rest) ← readMembers readUriMember none input
      return (← require "uri" uri, rest))

structure Draft where
  uri : Option String := none
  selections : Option (List Span) := none

def readSelectMember (d : Draft) (key : String) : Reader Draft := fun input => do
  if key = "uri" then
    let (v, rest) ← readField key d.uri readWords input
    return ({ d with uri := v }, rest)
  else if key = "selections" then
    let (v, rest) ← readField key d.selections (readList readSpan) input
    return ({ d with selections := v }, rest)
  else return (d, ← passMember input)

def selectExpected : String := "struct variant Step::Select"

def readSelect : Reader ScriptStep :=
  readRecord selectExpected
    (fun input => do
      let places := selectExpected ++ " with 2 elements"
      let (uri, rest) ← readRequired 0 places readWords input
      let (selections, rest) ← readRequired 1 places (readList readSpan) rest
      return (select uri selections, ← expectEnd rest))
    (fun input => do
      let (d, rest) ← readMembers readSelectMember {} input
      return (select (← require "uri" d.uri) (← require "selections" d.selections), rest))

inductive Name
  | publish
  | select
  | sync
  | close
  deriving DecidableEq

def Name.text : Name → String
  | publish => "publish"
  | select => "select"
  | sync => "sync"
  | close => "close"

def Name.all : List Name := [publish, select, sync, close]

def readName : Reader Name := fun input => do
  let (text, rest) ← readString "variant identifier" input
  match Name.all.find? (·.text = text) with
  | some name => return (name, rest)
  | none => mismatch (.unknownVariant text (Name.all.map Name.text))

def readContent : Name → Reader ScriptStep
  | .publish => fun input => do
    let (publication, rest) ← Publication.read input
    return (publish publication, rest)
  | .select => readSelect
  | .sync => fun input => do
    let (uri, rest) ← readUri "struct variant Step::Sync" input
    return (sync uri, rest)
  | .close => fun input => do
    let (uri, rest) ← readUri "struct variant Step::Close" input
    return (close uri, rest)

/-- What a step needs beside its name. -/
def contentExpected : Name → String
  | .publish => "newtype variant"
  | _ => "struct variant"

/-- A step is an object whose only member has the step's name. -/
def read : Reader ScriptStep := fun input =>
  match skipBlank input with
  | [] => .error .truncated
  | b :: rest =>
    if b = 0x7B then do
      let (name, rest) ← readName rest
      let (step, rest) ← readContent name (← expectColon rest)
      match skipBlank rest with
      | [] => .error .truncated
      | b :: rest => if b = 0x7D then return (step, rest) else .error .malformed
    else if b = 0x22 then do
      let (name, _) ← readName (b :: rest)
      typeMismatch .unitVariant (contentExpected name)
    else .error .malformed

def parse (line : List Char) : Except Fault ScriptStep := complete read (Utf8.encode line)

end ScriptStep

/-- Steps with the numbers of their lines, counted from one. -/
abbrev Script := List (Nat × ScriptStep)

namespace Script

def isComment (line : List Char) : Bool := line.head? = some '#'

/-- The lines that hold steps, trimmed, with their numbers. -/
def stepLines (text : List Char) : List (Nat × List Char) :=
  (((Text.lines text).zipIdx 1).map fun (line, n) => (n, Text.trim line)).filter fun (_, line) =>
    line ≠ [] ∧ isComment line = false

def readLine (numbered : Nat × List Char) : Except CommandFailure (Nat × ScriptStep) :=
  match ScriptStep.parse numbered.2 with
  | .ok step => .ok (numbered.1, step)
  | .error fault => .error (.invalidStep numbered.1 fault)

/-- The first line that is no step fails the whole script. -/
def parse (text : List Char) : Except CommandFailure Script := (stepLines text).mapM readLine

def load (files : Files) (path : String) : Except CommandFailure Script :=
  match files.readText path with
  | .ok text => parse text
  | .error fault => .error (.unreadableScript path fault)

end Script

end LinkedViews
