import LinkedViews.Number.Binary64
import LinkedViews.Text.Decimal
import LinkedViews.Text.Quoted
import LinkedViews.Number.Shortest

/-! Generic JSON values and the ways in which reading one can fail. The members of an object are
kept in the order of their keys, each key once. -/
namespace LinkedViews

/-- Integers are those of 64 bits, signed or unsigned; every other number is floating point. -/
inductive Json
  | null
  | bool (value : Bool)
  | integer (value : Int)
  | real (value : Binary64)
  | string (value : String)
  | array (items : List Json)
  | object (members : List (String × Json))
  deriving Repr, Inhabited

namespace Json

/-- A new member replaces one of the same key, and keys ascend by their characters. -/
def insert (key : String) (value : Json) : List (String × Json) → List (String × Json)
  | [] => [(key, value)]
  | (k, v) :: rest =>
    if key < k then (key, value) :: (k, v) :: rest
    else if key = k then (key, value) :: rest
    else (k, v) :: insert key value rest

/-- What was found where something else was expected. -/
inductive Found
  | null
  | bool (value : Bool)
  | integer (value : Int)
  | real (value : Binary64)
  | string (value : String)
  | sequence
  | map
  | unitVariant
  deriving DecidableEq, Repr

/-- A well formed text with the wrong content. -/
inductive Mismatch
  | invalidType (found : Found) (expected : String)
  | invalidValue (found : Found) (expected : String)
  | invalidLength (length : Nat) (expected : String)
  | unknownVariant (name : String) (known : List String)
  | missingField (name : String)
  | duplicateField (name : String)
  deriving DecidableEq, Repr

/-- Malformed text, text that ends too early, and text that says something else. -/
inductive Fault
  | malformed
  | truncated
  | mismatch (cause : Mismatch)
  deriving DecidableEq, Repr

def integerText (n : Int) : List Char :=
  match n with
  | .ofNat n => Decimal.digits n
  | .negSucc n => '-' :: Decimal.digits (n + 1)

def Found.message : Found → String
  | .null => "null"
  | .bool b => "boolean `" ++ (if b then "true" else "false") ++ "`"
  | .integer n => "integer `" ++ String.ofList (integerText n) ++ "`"
  | .real x => "floating point `" ++ String.ofList x.text ++ "`"
  | .string s => "string " ++ Text.quote s.toList
  | .sequence => "sequence"
  | .map => "map"
  | .unitVariant => "unit variant"

def found : Json → Found
  | null => .null
  | bool b => .bool b
  | integer n => .integer n
  | real x => .real x
  | string s => .string s
  | array _ => .sequence
  | object _ => .map

def backticked (name : String) : String := "`" ++ name ++ "`"

def Mismatch.message : Mismatch → String
  | .invalidType found expected => "invalid type: " ++ found.message ++ ", expected " ++ expected
  | .invalidValue found expected => "invalid value: " ++ found.message ++ ", expected " ++ expected
  | .invalidLength length expected =>
    "invalid length " ++ String.ofList (Decimal.digits length) ++ ", expected " ++ expected
  | .unknownVariant name known =>
    "unknown variant " ++ backticked name ++ ", expected one of "
      ++ ", ".intercalate (known.map backticked)
  | .missingField name => "missing field " ++ backticked name
  | .duplicateField name => "duplicate field " ++ backticked name

def Fault.message : Fault → String
  | .malformed => "<syntax>"
  | .truncated => "<eof>"
  | .mismatch cause => cause.message

end Json

end LinkedViews
