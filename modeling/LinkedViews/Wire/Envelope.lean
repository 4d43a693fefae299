import LinkedViews.Json.Typed
import LinkedViews.Json.Write

/-! The wrapper around every message: a version marker, and as the case may be an id, a method and
parameters. Only a method without an id makes a notification. -/
namespace LinkedViews

structure Envelope where
  jsonrpc : String
  id : Option Json
  method : Option String
  params : Option Json

/-- Why a text is no envelope. -/
inductive EnvelopeError
  | undecodable (fault : Json.Fault)
  | unsupportedVersion (version : String)
  deriving DecidableEq, Repr

namespace Envelope

open Json

def version : String := "2.0"

def notification (method : String) (params : Json) : Envelope :=
  ⟨version, none, some method, some params⟩

def isNotification (e : Envelope) : Bool := e.id.isNone && e.method.isSome

def optionalMember (key : String) : Option (List Char) → List (String × List Char)
  | some text => [(key, text)]
  | none => []

def write (e : Envelope) : List Char :=
  writeRecord (("jsonrpc", writeText e.jsonrpc)
    :: optionalMember "id" (e.id.map Json.write)
    ++ optionalMember "method" (e.method.map writeText)
    ++ optionalMember "params" (e.params.map Json.write))

def encode (e : Envelope) : Bytes := Utf8.encode e.write

def expected : String := "struct Envelope"

def placesExpected : String := "struct Envelope with 4 elements"

/-- An optional field is given once it has been read, even as `null`. -/
structure Draft where
  jsonrpc : Option String := none
  id : Option (Option Json) := none
  method : Option (Option String) := none
  params : Option (Option Json) := none

def Draft.finish (d : Draft) : Except Fault Envelope := do
  let jsonrpc ← require "jsonrpc" d.jsonrpc
  return ⟨jsonrpc, d.id.join, d.method.join, d.params.join⟩

/-- The brackets of the envelope count for the values inside it. -/
def readInner : Reader Json := readValue (maxDepth - 1)

def readWords : Reader String := readString "a string"

def readMember (d : Draft) (key : String) : Reader Draft := fun input => do
  if key = "jsonrpc" then
    let (v, rest) ← readField key d.jsonrpc readWords input
    return ({ d with jsonrpc := v }, rest)
  else if key = "id" then
    let (v, rest) ← readField key d.id (readOptional readInner) input
    return ({ d with id := v }, rest)
  else if key = "method" then
    let (v, rest) ← readField key d.method (readOptional readWords) input
    return ({ d with method := v }, rest)
  else if key = "params" then
    let (v, rest) ← readField key d.params (readOptional readInner) input
    return ({ d with params := v }, rest)
  else return (d, ← passMember input)

def readMembers : Reader Envelope := fun input => do
  let (draft, rest) ← Json.readMembers readMember {} input
  return (← draft.finish, rest)

/-- Places after the first may be missing. -/
def readPlaces : Reader Envelope := fun input => do
  let (jsonrpc, rest) ← readRequired 0 placesExpected readWords input
  match ← readPlace false (readOptional readInner) rest with
  | (none, rest) => return (⟨jsonrpc, none, none, none⟩, rest)
  | (some id, rest) =>
    match ← readPlace false (readOptional readWords) rest with
    | (none, rest) => return (⟨jsonrpc, id, none, none⟩, rest)
    | (some method, rest) =>
      match ← readPlace false (readOptional readInner) rest with
      | (none, rest) => return (⟨jsonrpc, id, method, none⟩, rest)
      | (some params, rest) => return (⟨jsonrpc, id, method, params⟩, ← expectEnd rest)

def read : Reader Envelope := readRecord expected readPlaces readMembers

def parse (body : Bytes) : Except EnvelopeError Envelope :=
  match complete read body with
  | .error fault => .error (.undecodable fault)
  | .ok e => if e.jsonrpc = version then .ok e else .error (.unsupportedVersion e.jsonrpc)

end Envelope

end LinkedViews
