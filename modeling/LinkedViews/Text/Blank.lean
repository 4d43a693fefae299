/-! White space, and the cuts that depend on it: trimming, lines, the first or last occurrence of
a character. Texts are lists of characters. -/
namespace LinkedViews.Text

/-- The 25 characters with the Unicode property White_Space. -/
def isBlank (c : Char) : Bool :=
  let n := c.toNat
  (9 ≤ n && n ≤ 13) || n == 0x20 || n == 0x85 || n == 0xA0 || n == 0x1680
    || (0x2000 ≤ n && n ≤ 0x200A) || n == 0x2028 || n == 0x2029 || n == 0x202F || n == 0x205F
    || n == 0x3000

def trimStart (text : List Char) : List Char := text.dropWhile isBlank

def dropEndWhile (p : Char → Bool) (text : List Char) : List Char :=
  (text.reverse.dropWhile p).reverse

def trim (text : List Char) : List Char := dropEndWhile isBlank (trimStart text)

/-- Capital letters of ASCII become small, and nothing else changes. -/
def lower (c : Char) : Char := if 'A' ≤ c ∧ c ≤ 'Z' then Char.ofNat (c.toNat + 32) else c

def cut (c : Char) : List Char → Option (List Char × List Char)
  | [] => none
  | x :: rest => if x = c then some ([], rest) else (cut c rest).map fun (a, b) => (x :: a, b)

def beforeLast (c : Char) : List Char → Option (List Char)
  | [] => none
  | x :: rest =>
    match beforeLast c rest with
    | some head => some (x :: head)
    | none => if x = c then some [] else none

/-- The pieces between the occurrences of a separator; never empty. -/
def splitOn (sep : Char → Bool) : List Char → List (List Char)
  | [] => [[]]
  | c :: rest =>
    if sep c then [] :: splitOn sep rest
    else
      match splitOn sep rest with
      | [] => [[c]]
      | piece :: pieces => (c :: piece) :: pieces

/-- A line ends at a line feed, and a carriage return before it belongs to the ending. Nothing
after the last line feed is no line. -/
def lines (text : List Char) : List (List Char) :=
  let pieces := splitOn (· = '\n') text
  let ended := pieces.dropLast.map fun line =>
    if line.getLast? = some '\r' then line.dropLast else line
  match pieces.getLast? with
  | some [] | none => ended
  | some last => ended ++ [last]

end LinkedViews.Text
