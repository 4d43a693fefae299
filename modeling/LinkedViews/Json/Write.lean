import LinkedViews.Json.Basic
import LinkedViews.Text.Utf8

/-! JSON text of a value: compact, with only quotation marks, backslashes and controls escaped. -/
namespace LinkedViews.Json

def escapeChar (c : Char) : List Char :=
  if c = '"' then ['\\', '"']
  else if c = '\\' then ['\\', '\\']
  else if c = '\n' then ['\\', 'n']
  else if c = '\r' then ['\\', 'r']
  else if c = '\t' then ['\\', 't']
  else if c.toNat = 8 then ['\\', 'b']
  else if c.toNat = 12 then ['\\', 'f']
  else if c.toNat < 0x20 then
    ['\\', 'u', '0', '0', Text.hexDigit (c.toNat / 16), Text.hexDigit (c.toNat % 16)]
  else [c]

def writeText (s : String) : List Char := '"' :: s.toList.flatMap escapeChar ++ ['"']

mutual

def write : Json → List Char
  | null => ['n', 'u', 'l', 'l']
  | bool true => ['t', 'r', 'u', 'e']
  | bool false => ['f', 'a', 'l', 's', 'e']
  | integer n => integerText n
  | real x => x.text
  | string s => writeText s
  | array [] => ['[', ']']
  | array (item :: items) => '[' :: write item ++ writeItems items
  | object [] => ['\x7b', '\x7d']
  | object ((key, value) :: members) =>
    '\x7b' :: writeText key ++ ':' :: write value ++ writeMembers members

/-- The items after the first, and the closing bracket. -/
def writeItems : List Json → List Char
  | [] => [']']
  | item :: items => ',' :: write item ++ writeItems items

def writeMembers : List (String × Json) → List Char
  | [] => ['\x7d']
  | (key, value) :: members => ',' :: writeText key ++ ':' :: write value ++ writeMembers members

end

/-- Members in a given order, as a record is written. -/
def writeRecord (members : List (String × List Char)) : List Char :=
  let member (m : String × List Char) := writeText m.1 ++ ':' :: m.2
  '\x7b' :: [','].intercalate (members.map member) ++ ['\x7d']

def encode (value : Json) : Bytes := Utf8.encode value.write

def ofNat (n : Nat) : Json := .integer n

end LinkedViews.Json
