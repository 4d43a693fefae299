import LinkedViews.Json.Typed
import LinkedViews.Json.Write
import LinkedViews.Product.Naming

/-! A product as it is sent: its source still a raw text. Both the payload and its range pairs are
read from objects or from arrays, and fields are checked in the order in which they come. -/
namespace LinkedViews

structure Publication where
  uri : String
  name : String
  language : String
  content : String
  rangeMap : List RangePair
  deriving DecidableEq, Repr

namespace RangePair

open Json

def expected : String := "struct RangePair"

def placesExpected : String := "struct RangePair with 4 elements"

/-- The fields of a pair that have been read. -/
structure Draft where
  sbegin : Option UInt64 := none
  send : Option UInt64 := none
  tbegin : Option UInt64 := none
  tend : Option UInt64 := none

/-- Missing fields are reported in this order. -/
def Draft.finish (d : Draft) : Except Fault RangePair := do
  let sbegin ← require "sbegin" d.sbegin
  let send ← require "send" d.send
  let tbegin ← require "tbegin" d.tbegin
  let tend ← require "tend" d.tend
  return ⟨⟨sbegin, send⟩, ⟨tbegin, tend⟩⟩

def readMember (d : Draft) (key : String) : Reader Draft := fun input => do
  if key = "sbegin" then
    let (v, rest) ← readField key d.sbegin readWord input
    return ({ d with sbegin := v }, rest)
  else if key = "send" then
    let (v, rest) ← readField key d.send readWord input
    return ({ d with send := v }, rest)
  else if key = "tbegin" then
    let (v, rest) ← readField key d.tbegin readWord input
    return ({ d with tbegin := v }, rest)
  else if key = "tend" then
    let (v, rest) ← readField key d.tend readWord input
    return ({ d with tend := v }, rest)
  else return (d, ← passMember input)

def readPlaces : Reader RangePair := fun input => do
  let (sbegin, rest) ← readRequired 0 placesExpected readWord input
  let (send, rest) ← readRequired 1 placesExpected readWord rest
  let (tbegin, rest) ← readRequired 2 placesExpected readWord rest
  let (tend, rest) ← readRequired 3 placesExpected readWord rest
  return (⟨⟨sbegin, send⟩, ⟨tbegin, tend⟩⟩, ← expectEnd rest)

def readMembers : Reader RangePair := fun input => do
  let (draft, rest) ← Json.readMembers readMember {} input
  return (← draft.finish, rest)

def read : Reader RangePair := readRecord expected readPlaces readMembers

def putMember (d : Draft) (member : String × Json) : Except Fault Draft := do
  let (key, value) := member
  if key = "sbegin" then return { d with sbegin := some (← wordOf value) }
  else if key = "send" then return { d with send := some (← wordOf value) }
  else if key = "tbegin" then return { d with tbegin := some (← wordOf value) }
  else if key = "tend" then return { d with tend := some (← wordOf value) }
  else return d

def ofJson (value : Json) : Except Fault RangePair := do
  match value with
  | .array items =>
    match items with
    | a :: b :: c :: d :: rest =>
      let pair : RangePair := ⟨⟨← wordOf a, ← wordOf b⟩, ⟨← wordOf c, ← wordOf d⟩⟩
      if rest = [] then return pair
      else mismatch (.invalidLength items.length "fewer elements in array")
    | items =>
      for item in items do
        let _ ← wordOf item
      mismatch (.invalidLength items.length placesExpected)
  | .object members => (← members.foldlM putMember {}).finish
  | value => typeMismatch value.found expected

def members (p : RangePair) : List (String × Json) :=
  [("sbegin", .ofNat p.source.start.toNat), ("send", .ofNat p.source.stop.toNat),
    ("tbegin", .ofNat p.target.start.toNat), ("tend", .ofNat p.target.stop.toNat)]

def toJson (p : RangePair) : Json := .object p.members

end RangePair

namespace Publication

open Json

def expected : String := "struct PublishProduct"

def placesExpected : String := "struct PublishProduct with 5 elements"

structure Draft where
  uri : Option String := none
  name : Option String := none
  language : Option String := none
  content : Option String := none
  rangeMap : Option (List RangePair) := none

def Draft.finish (d : Draft) : Except Fault Publication := do
  let uri ← require "uri" d.uri
  let name ← require "name" d.name
  let language ← require "language" d.language
  let content ← require "content" d.content
  let rangeMap ← require "rangeMap" d.rangeMap
  return ⟨uri, name, language, content, rangeMap⟩

def readWords : Reader String := readString "a string"

def readMember (d : Draft) (key : String) : Reader Draft := fun input => do
  if key = "uri" then
    let (v, rest) ← readField key d.uri readWords input
    return ({ d with uri := v }, rest)
  else if key = "name" then
    let (v, rest) ← readField key d.name readWords input
    return ({ d with name := v }, rest)
  else if key = "language" then
    let (v, rest) ← readField key d.language readWords input
    return ({ d with language := v }, rest)
  else if key = "content" then
    let (v, rest) ← readField key d.content readWords input
    return ({ d with content := v }, rest)
  else if key = "rangeMap" then
    let (v, rest) ← readField key d.rangeMap (readList RangePair.read) input
    return ({ d with rangeMap := v }, rest)
  else return (d, ← passMember input)

def readPlaces : Reader Publication := fun input => do
  let (uri, rest) ← readRequired 0 placesExpected readWords input
  let (name, rest) ← readRequired 1 placesExpected readWords rest
  let (language, rest) ← readRequired 2 placesExpected readWords rest
  let (content, rest) ← readRequired 3 placesExpected readWords rest
  let (rangeMap, rest) ← readRequired 4 placesExpected (readList RangePair.read) rest
  return (⟨uri, name, language, content, rangeMap⟩, ← expectEnd rest)

def readMembers : Reader Publication := fun input => do
  let (draft, rest) ← Json.readMembers readMember {} input
  return (← draft.finish, rest)

def read : Reader Publication := readRecord expected readPlaces readMembers

def parse (input : Bytes) : Except Fault Publication := complete read input

def rangeMapOf (value : Json) : Except Fault (List RangePair) := do
  (← itemsOf value).mapM RangePair.ofJson

def putMember (d : Draft) (member : String × Json) : Except Fault Draft := do
  let (key, value) := member
  if key = "uri" then return { d with uri := some (← stringOf value) }
  else if key = "name" then return { d with name := some (← stringOf value) }
  else if key = "language" then return { d with language := some (← stringOf value) }
  else if key = "content" then return { d with content := some (← stringOf value) }
  else if key = "rangeMap" then return { d with rangeMap := some (← rangeMapOf value) }
  else return d

def ofJson (value : Json) : Except Fault Publication := do
  match value with
  | .array items =>
    match items with
    | uri :: name :: language :: content :: rangeMap :: rest =>
      let publication : Publication := ⟨← stringOf uri, ← stringOf name, ← stringOf language,
        ← stringOf content, ← rangeMapOf rangeMap⟩
      if rest = [] then return publication
      else mismatch (.invalidLength items.length "fewer elements in array")
    | items =>
      for item in items do
        let _ ← stringOf item
      mismatch (.invalidLength items.length placesExpected)
  | .object members => (← members.foldlM putMember {}).finish
  | value => typeMismatch value.found expected

/-- The payload as a generic value, its members in the order of their keys. -/
def toJson (p : Publication) : Json :=
  .object [("content", .string p.content), ("language", .string p.language),
    ("name", .string p.name), ("rangeMap", .array (p.rangeMap.map RangePair.toJson)),
    ("uri", .string p.uri)]

/-- The payload alone, its members in the order of declaration. -/
def write (p : Publication) : List Char :=
  writeRecord [("uri", writeText p.uri), ("name", writeText p.name),
    ("language", writeText p.language), ("content", writeText p.content),
    ("rangeMap", (Json.array (p.rangeMap.map RangePair.toJson)).write)]

def ofProduct (p : Product) : Publication :=
  ⟨toString p.source, p.name, p.language, p.content, p.rangeMap⟩

/-- The product itself, if its source can be read and its spans are ordered. -/
def toProduct (p : Publication) : Except ProductError Product := do
  let source ← Uri.read p.uri
  let product : Product := ⟨source, p.name, p.language, p.content, p.rangeMap⟩
  product.validate
  return product

end Publication

end LinkedViews
