import LinkedViews.Text.Blank

/-! Labels outside ASCII, written in ASCII: the plain characters, a hyphen, and for every other
character, in the order of their code points, its distance from the one before. The distance counts
places in the growing label; its digits have base 36, and one below its threshold is the last of its
number. The thresholds follow the distances seen so far. -/
namespace LinkedViews.Uri.Punycode

open Text

def isPlain (c : Char) : Bool := c.toNat < 0x80

def digit (d : Nat) : Char := Char.ofNat (if d < 26 then 97 + d else 22 + d)

def digitValue? (c : Char) : Option Nat :=
  if 'a' ≤ c ∧ c ≤ 'z' then some (c.toNat - 97)
  else if '0' ≤ c ∧ c ≤ '9' then some (c.toNat - 22)
  else none

def threshold (bias place : Nat) : Nat := max 1 (min 26 (36 * (place + 1) - bias))

def scale (distance : Nat) : Nat :=
  if 455 < distance then 36 + scale (distance / 35) else 36 * distance / (distance + 38)
termination_by distance
decreasing_by omega

/-- The bias after a distance that made the label `count` characters long. -/
def adapt (distance count : Nat) (first : Bool) : Nat :=
  let damped := distance / (if first then 700 else 2)
  scale (damped + damped / count)

def encodeNumber (bias place n : Nat) : List Char :=
  let t := threshold bias place
  if n < t then [digit n]
  else digit (t + (n - t) % (36 - t)) :: encodeNumber bias (place + 1) ((n - t) / (36 - t))
termination_by n
decreasing_by
  have positive : 1 ≤ threshold bias place := by unfold threshold; omega
  have shrinks := Nat.div_le_self (n - threshold bias place) (36 - threshold bias place)
  omega

/-- `point` is the least code point not yet written, `placed` counts the characters that are. -/
structure Writing where
  point : Nat
  placed : Nat
  distance : Nat
  bias : Nat
  digits : List Char

/-- One character of the label on the way through it for `point`. -/
def Writing.pass (first : Nat) (w : Writing) (c : Char) : Writing :=
  if c.toNat < w.point then { w with distance := w.distance + 1 }
  else if c.toNat = w.point then
    { w with
      placed := w.placed + 1
      distance := 0
      bias := adapt w.distance (w.placed + 1) (w.placed = first)
      digits := w.digits ++ encodeNumber w.bias 0 w.distance }
  else w

def Writing.place (label : List Char) (first : Nat) (w : Writing) (point : Nat) : Writing :=
  let reached :=
    { w with point := point, distance := w.distance + (point - w.point) * (w.placed + 1) }
  let passed := label.foldl (Writing.pass first) reached
  { passed with point := point + 1, distance := passed.distance + 1 }

def encode (label : List Char) : List Char :=
  let plain := label.filter isPlain
  let points := (label.filter (!isPlain ·)).map Char.toNat
  let ordered := (points.mergeSort fun a b => a ≤ b).eraseDups
  let written := ordered.foldl (Writing.place label plain.length) ⟨0x80, plain.length, 0, 72, []⟩
  (if plain = [] then [] else plain ++ ['-']) ++ written.digits

/-- `place`, `weight` and `distance` belong to the number that is being read; the next character
goes in from `position` on, with a code point from `point` on. -/
structure Reading where
  place : Nat
  weight : Nat
  distance : Nat
  point : Nat
  position : Nat
  bias : Nat
  label : List Char

def Reading.insert (r : Reading) (distance : Nat) : Option Reading :=
  let count := r.label.length + 1
  let point := r.point + (r.position + distance) / count
  let position := (r.position + distance) % count
  if point.isValidChar then
    some ⟨0, 1, 0, point, position + 1, adapt distance count (r.position = 0),
      r.label.insertIdx position (Char.ofNat point)⟩
  else none

def Reading.digit (r : Reading) (c : Char) : Option Reading := do
  let d ← digitValue? c
  let t := threshold r.bias r.place
  let distance := r.distance + d * r.weight
  if d < t then r.insert distance
  else some { r with place := r.place + 1, weight := r.weight * (36 - t), distance := distance }

/-- The plain characters end at the last hyphen. -/
def decode? (text : List Char) : Option (List Char) := do
  let plain := (beforeLast '-' text).getD []
  let digits := if text.contains '-' then text.drop (plain.length + 1) else text
  let read ← digits.foldlM Reading.digit ⟨0, 1, 0, 0x80, 0, 72, plain⟩
  if read.place = 0 ∧ plain.all isPlain then some read.label else none

end LinkedViews.Uri.Punycode
