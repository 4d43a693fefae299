import LinkedViews.Json.Read

/-! Reading values of a known type, from bytes or from a generic value. What is found instead is
named in the fault; of an array or object only its opening bracket is looked at then. -/
namespace LinkedViews.Json

def mismatch (cause : Mismatch) : Except Fault α := .error (.mismatch cause)

def typeMismatch (found : Found) (expected : String) : Except Fault α :=
  mismatch (.invalidType found expected)

/-- The value at the front is not of the expected type; a fault of its own comes first. -/
def rejectValue (expected : String) (input : Bytes) : Except Fault α :=
  match skipBlank input with
  | [] => .error .truncated
  | b :: rest =>
    if b = 0x5B then typeMismatch .sequence expected
    else if b = 0x7B then typeMismatch .map expected
    else do
      let (value, _) ← readValue 0 (b :: rest)
      typeMismatch value.found expected

def readString (expected : String) : Reader String := fun input =>
  match skipBlank input with
  | [] => .error .truncated
  | b :: rest => if b = 0x22 then readText rest else rejectValue expected (b :: rest)

def wordExpected : String := "usize"

/-- Only an integer from zero on is a word. -/
def wordOf (value : Json) : Except Fault UInt64 :=
  match value with
  | .integer (.ofNat n) => .ok n.toUInt64
  | .integer n => mismatch (.invalidValue (.integer n) wordExpected)
  | value => typeMismatch value.found wordExpected

def readWord : Reader UInt64 := fun input =>
  match skipBlank input with
  | [] => .error .truncated
  | b :: rest =>
    if b = 0x2D ∨ isDigit b then do
      let (value, rest) ← readNumber (b :: rest)
      return (← wordOf value, rest)
    else rejectValue wordExpected (b :: rest)

/-- `null` stands for absence. -/
def readOptional (read : Reader α) : Reader (Option α) := fun input =>
  match skipBlank input with
  | 0x6E :: rest => do return (none, ← expectWord nullTail rest)
  | _ => do
    let (value, rest) ← read input
    return (some value, rest)

def readList (item : Reader α) : Reader (List α) := fun input =>
  match skipBlank input with
  | [] => .error .truncated
  | b :: rest =>
    if b = 0x5B then readItems item rest
    else rejectValue "a sequence" (b :: rest)

/-- A record is an object with its fields in any order, or an array with them in their own. -/
def readRecord (expected : String) (ofArray ofObject : Reader α) : Reader α := fun input =>
  match skipBlank input with
  | [] => .error .truncated
  | b :: rest =>
    if b = 0x5B then ofArray rest
    else if b = 0x7B then ofObject rest
    else rejectValue expected (b :: rest)

/-- The next place of an array that is read as a record. A missing place closes the array. -/
def readPlace (first : Bool) (item : Reader α) : Reader (Option α) := fun input => do
  match ← nextItem first input with
  | .close rest => return (none, rest)
  | .item rest =>
    let (value, rest) ← item rest
    return (some value, rest)

/-- The next place, which must be there. -/
def readRequired (index : Nat) (expected : String) (item : Reader α) : Reader α := fun input => do
  match ← readPlace (index = 0) item input with
  | (some value, rest) => return (value, rest)
  | (none, _) => mismatch (.invalidLength index expected)

/-- The value of a field that may be given only once. -/
def readField (name : String) (before : Option α) (read : Reader α) : Reader (Option α) :=
  fun input =>
    match before with
    | some _ => mismatch (.duplicateField name)
    | none => do
      let (value, rest) ← read (← expectColon input)
      return (some value, rest)

def require (name : String) (value : Option α) : Except Fault α :=
  match value with
  | some value => .ok value
  | none => mismatch (.missingField name)

def stringOf (value : Json) : Except Fault String :=
  match value with
  | .string s => .ok s
  | value => typeMismatch value.found "a string"

def itemsOf (value : Json) : Except Fault (List Json) :=
  match value with
  | .array items => .ok items
  | value => typeMismatch value.found "a sequence"

end LinkedViews.Json
