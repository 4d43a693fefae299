import LinkedViews.Json.Scan

/-! Reading JSON from bytes. A reader takes the input from where its value may begin and leaves the
input behind it. Values nest at most 127 brackets deep; what is passed over may nest without limit,
so the open brackets are then kept in a list. Every round of a loop takes at least one byte, so the
input that a loop began with is its bound. -/
namespace LinkedViews.Json

abbrev Reader (α : Type) := Bytes → Except Fault (α × Bytes)

/-- Brackets that may be open at once in a value that is read. -/
def maxDepth : Nat := 127

/-- Where the next item or member begins, or the input behind the closing bracket. -/
inductive Next
  | item (rest : Bytes)
  | close (rest : Bytes)

/-- Between two items stands a comma, and none before the closing bracket. -/
def nextItem (first : Bool) (input : Bytes) : Except Fault Next :=
  match skipBlank input with
  | [] => .error .truncated
  | b :: rest =>
    if b = 0x5D then .ok (.close rest)
    else if first then .ok (.item (b :: rest))
    else if b = 0x2C then
      match skipBlank rest with
      | [] => .error .truncated
      | c :: rest => if c = 0x5D then .error .malformed else .ok (.item (c :: rest))
    else .error .malformed

def nextMember (first : Bool) (input : Bytes) : Except Fault Next :=
  match skipBlank input with
  | [] => .error .truncated
  | b :: rest =>
    if b = 0x7D then .ok (.close rest)
    else if first then if b = 0x22 then .ok (.item rest) else .error .malformed
    else if b = 0x2C then
      match skipBlank rest with
      | [] => .error .truncated
      | c :: rest => if c = 0x22 then .ok (.item rest) else .error .malformed
    else .error .malformed

def expectColon (input : Bytes) : Except Fault Bytes :=
  match skipBlank input with
  | [] => .error .truncated
  | b :: rest => if b = 0x3A then .ok rest else .error .malformed

def expectEnd (input : Bytes) : Except Fault Bytes :=
  match skipBlank input with
  | [] => .error .truncated
  | b :: rest => if b = 0x5D then .ok rest else .error .malformed

/-- Items up to the closing bracket; `seen` holds the latest first. -/
def itemsFrom (item : Reader α) (bound : Bytes) (first : Bool) (seen : List α) : Reader (List α) :=
  fun input =>
    match bound with
    | [] => .error .malformed
    | _ :: bound => do
      match ← nextItem first input with
      | .close rest => return (seen.reverse, rest)
      | .item rest =>
        let (value, rest) ← item rest
        itemsFrom item bound false (value :: seen) rest

def readItems (item : Reader α) : Reader (List α) := fun input =>
  itemsFrom item (0x5B :: input) true [] input

def membersFrom (member : σ → String → Reader σ) (bound : Bytes) (first : Bool) (state : σ) :
    Reader σ :=
  fun input =>
    match bound with
    | [] => .error .malformed
    | _ :: bound => do
      match ← nextMember first input with
      | .close rest => return (state, rest)
      | .item rest =>
        let (key, rest) ← readText rest
        let (state, rest) ← member state key rest
        membersFrom member bound false state rest

/-- All members of an object whose opening brace is behind. `member` sees each key before the colon
is read, and takes the input from there. -/
def readMembers (member : σ → String → Reader σ) (state : σ) : Reader σ := fun input =>
  membersFrom member (0x7B :: input) true state input

def readValue (depth : Nat) : Reader Json :=
  fun input =>
    match skipBlank input with
    | [] => .error .truncated
    | b :: rest =>
      if b = 0x6E then do return (.null, ← expectWord nullTail rest)
      else if b = 0x74 then do return (.bool true, ← expectWord trueTail rest)
      else if b = 0x66 then do return (.bool false, ← expectWord falseTail rest)
      else if b = 0x2D ∨ isDigit b then readNumber (b :: rest)
      else if b = 0x22 then do
        let (text, rest) ← readText rest
        return (.string text, rest)
      else if b = 0x5B then
        match depth with
        | 0 => .error .malformed
        | depth + 1 => do
          let (items, rest) ← readItems (readValue depth) rest
          return (.array items, rest)
      else if b = 0x7B then
        match depth with
        | 0 => .error .malformed
        | depth + 1 => do
          let member (members : List (String × Json)) (key : String) :
              Reader (List (String × Json)) := fun input => do
            let (value, rest) ← readValue depth (← expectColon input)
            return (insert key value members, rest)
          let (members, rest) ← readMembers member [] rest
          return (.object members, rest)
      else .error .malformed

theorem readValue_congr {input input' : Bytes} (same : skipBlank input = skipBlank input')
    (depth : Nat) : readValue depth input = readValue depth input' := by
  rw [readValue.eq_def, same, ← readValue.eq_def]

inductive Bracket
  | array
  | object
  deriving DecidableEq

def Bracket.closing : Bracket → UInt8
  | array => 0x5D
  | object => 0x7D

/-- The key and colon before a member's value; nothing before an item. -/
def passKey (bracket : Bracket) (input : Bytes) : Except Fault Bytes :=
  match bracket with
  | .array => .ok input
  | .object =>
    match skipBlank input with
    | [] => .error .truncated
    | b :: rest => if b = 0x22 then do expectColon (← passText rest) else .error .malformed

/-- What is behind a value: closing brackets, and either the end of all or the next value. -/
def passClosings (fresh : Bool) : List Bracket → Bytes → Except Fault (List Bracket × Bytes)
  | [], input => .ok ([], input)
  | top :: below, input =>
    match skipBlank input with
    | [] => .error .truncated
    | b :: rest =>
      if b = top.closing then passClosings false below rest
      else if fresh then do return (top :: below, ← passKey top (b :: rest))
      else if b = 0x2C then do return (top :: below, ← passKey top rest)
      else .error .malformed

/-- One value and all that it holds, given the brackets that are open around it. -/
def passFrom (bound : Bytes) (brackets : List Bracket) (input : Bytes) : Except Fault Bytes :=
  match bound with
  | [] => .error .malformed
  | _ :: bound => do
    let (fresh, brackets, rest) ← match skipBlank input with
      | [] => .error .truncated
      | b :: rest =>
        if b = 0x6E then do pure (false, brackets, ← expectWord nullTail rest)
        else if b = 0x74 then do pure (false, brackets, ← expectWord trueTail rest)
        else if b = 0x66 then do pure (false, brackets, ← expectWord falseTail rest)
        else if b = 0x2D ∨ isDigit b then do pure (false, brackets, ← passNumber (b :: rest))
        else if b = 0x22 then do pure (false, brackets, ← passText rest)
        else if b = 0x5B then pure (true, .array :: brackets, rest)
        else if b = 0x7B then pure (true, .object :: brackets, rest)
        else .error .malformed
    match ← passClosings fresh brackets rest with
    | ([], rest) => return rest
    | (brackets, rest) => passFrom bound brackets rest

theorem passFrom_congr {input input' : Bytes} (same : skipBlank input = skipBlank input')
    (bound : Bytes) (brackets : List Bracket) :
    passFrom bound brackets input = passFrom bound brackets input' := by
  rw [passFrom.eq_def, same, ← passFrom.eq_def]

/-- The value of a member that nobody asks for, from before its colon. -/
def passMember (input : Bytes) : Except Fault Bytes := do
  let rest ← expectColon input
  passFrom (0x3A :: rest) [] rest

def complete (read : Reader α) (input : Bytes) : Except Fault α := do
  let (value, rest) ← read input
  if skipBlank rest = [] then .ok value else .error .malformed

def parse (input : Bytes) : Except Fault Json := complete (readValue maxDepth) input

end LinkedViews.Json
