import LinkedViews.Text.Blank
import LinkedViews.Text.Decimal
import LinkedViews.Text.Quoted
import LinkedViews.Text.Utf8

/-! Frames on a byte stream: header lines up to an empty one, and a body of the announced length.
Whatever a faulty frame had been read of is gone, and reading goes on behind it. -/
namespace LinkedViews.Frame

open Text

/-- 64 MiB. -/
def maxBody : Nat := 64 * 1024 * 1024

/-- The longest header line, its ending included. -/
def maxLine : Nat := 8 * 1024

inductive Fault
  | lineTooLong
  | endInHeader
  | malformedHeader (line : List Char)
  | invalidLength (value : List Char)
  | missingLength
  | tooLarge (size : Nat)
  | notText (fault : Utf8.Fault)
  | shortBody
  deriving DecidableEq, Repr

def Fault.message : Fault → String
  | lineTooLong => "framing error: header line exceeds 8192 bytes"
  | endInHeader => "framing error: stream ended inside header"
  | malformedHeader line => "framing error: malformed header " ++ quote line
  | invalidLength value => "framing error: invalid Content-Length " ++ quote value
  | missingLength => "framing error: missing Content-Length"
  | tooLarge size =>
    s!"message too large: {size} bytes (limit: {maxBody} bytes)"
  | notText fault => "I/O error: " ++ fault.message
  | shortBody => "I/O error: early eof"

/-- One line with its ending, or as much of it as the limit allows, and what follows. -/
def takeLine : Nat → Bytes → Bytes × Bytes
  | 0, input => ([], input)
  | _ + 1, [] => ([], [])
  | limit + 1, b :: rest =>
    if b = 0x0A then ([b], rest)
    else
      let (line, rest) := takeLine limit rest
      (b :: line, rest)

def isLineEnd (c : Char) : Bool := c == '\r' || c == '\n'

def lengthName : List Char := "content-length".toList

/-- What a header line says. -/
inductive Header
  | blank
  | length (size : Nat)
  | other
  deriving DecidableEq, Repr

def readHeader (line : List Char) : Except Fault Header :=
  let line := dropEndWhile isLineEnd line
  if line = [] then .ok .blank
  else
    match cut ':' line with
    | none => .error (.malformedHeader line)
    | some (name, value) =>
      if (trim name).map lower = lengthName then
        match Decimal.read? (trim value) with
        | some size => .ok (.length size)
        | none => .error (.invalidLength (trim value))
      else .ok .other

/-- A frame's body, or the end of the stream. -/
inductive Outcome
  | body (bytes : Bytes)
  | done
  | fault (fault : Fault)
  deriving DecidableEq, Repr

/-- A line is text before anything else, and then short enough. -/
def checkLine (line : Bytes) : Except Fault (List Char) :=
  match Utf8.decode line with
  | .error fault => .error (.notText fault)
  | .ok text =>
    if line.length = maxLine ∧ line.getLast? ≠ some 0x0A then .error .lineTooLong else .ok text

def readBody (length : Option Nat) (input : Bytes) : Outcome × Bytes :=
  match length with
  | none => (.fault .missingLength, input)
  | some size =>
    if maxBody < size then (.fault (.tooLarge size), input)
    else
      let body := input.take size
      if body.length = size then (.body body, input.drop size) else (.fault .shortBody, [])

/-- The last length counts. Each round takes a line, so the length of the input bounds the rounds. -/
def readFrom (fuel : Nat) (first : Bool) (length : Option Nat) (input : Bytes) : Outcome × Bytes :=
  match fuel with
  | 0 => (.fault .endInHeader, input)
  | fuel + 1 =>
    let (line, rest) := takeLine maxLine input
    if line = [] then (if first then .done else .fault .endInHeader, rest)
    else
      match checkLine line with
      | .error fault => (.fault fault, rest)
      | .ok text =>
        match readHeader text with
        | .error fault => (.fault fault, rest)
        | .ok .blank => readBody length rest
        | .ok (.length size) => readFrom fuel false (some size) rest
        | .ok .other => readFrom fuel false length rest

/-- The next frame of a stream, and what stays unread. -/
def read (input : Bytes) : Outcome × Bytes := readFrom (input.length + 1) true none input

theorem length_takeLine (limit : Nat) (input : Bytes) :
    (takeLine limit input).1.length + (takeLine limit input).2.length = input.length := by
  induction limit generalizing input with
  | zero => simp [takeLine]
  | succ limit ih =>
    cases input with
    | nil => simp [takeLine]
    | cons b rest =>
      have := ih rest
      simp only [takeLine]
      split <;> simp <;> omega

theorem length_readBody_le (length : Option Nat) (input : Bytes) :
    (readBody length input).2.length ≤ input.length := by
  unfold readBody
  grind

/-- A body costs at least the empty line before it. -/
theorem length_readFrom_lt {fuel : Nat} {first : Bool} {length : Option Nat}
    {input body rest : Bytes}
    (h : readFrom fuel first length input = (.body body, rest)) :
    rest.length < input.length := by
  induction fuel generalizing first length input with
  | zero => simp [readFrom] at h
  | succ fuel ih =>
    have total := length_takeLine maxLine input
    rw [readFrom] at h
    generalize takeLine maxLine input = cutOff at h total
    obtain ⟨line, behind⟩ := cutOff
    simp only at h total
    split at h
    next => grind
    next nonempty =>
      have : 0 < line.length := List.length_pos_iff.mpr nonempty
      split at h
      next => simp at h
      next =>
        split at h
        next => simp at h
        next =>
          have := length_readBody_le length behind
          rw [h] at this
          simp only at this
          omega
        next => have := ih h; omega
        next => have := ih h; omega

theorem length_read_lt {input body rest : Bytes} (h : read input = (.body body, rest)) :
    rest.length < input.length := length_readFrom_lt h

def encode (body : Bytes) : Bytes :=
  Utf8.encode ("Content-Length: ".toList ++ Decimal.digits body.length
    ++ ['\r', '\n', '\r', '\n']) ++ body

end LinkedViews.Frame
