import LinkedViews.Text.Blank
import LinkedViews.Uri.Escape

/-! Paths with a root: segments between slashes. Dot segments are resolved while the segments are
walked, and the last segment is what follows the last slash. -/
namespace LinkedViews.Uri.Path

open Text

abbrev Segment := List Char

def isDot (s : Segment) : Bool := s = ['.'] || s = ['%', '2', 'e'] || s = ['%', '2', 'E']

def isDoubleDot (s : Segment) : Bool :=
  match s with
  | '.' :: rest => isDot rest
  | '%' :: '2' :: 'e' :: rest | '%' :: '2' :: 'E' :: rest => isDot rest
  | _ => false

def isLetter (c : Char) : Bool := ('a' ≤ c && c ≤ 'z') || ('A' ≤ c && c ≤ 'Z')

/-- A letter and a colon or bar name a drive, and a drive is never stepped out of. -/
def isDrive (s : Segment) : Bool :=
  match s with
  | [c, mark] => isLetter c && (mark == ':' || mark == '|')
  | _ => false

def up (kept : List Segment) : List Segment :=
  match kept with
  | [] => []
  | top :: below => if isDrive top then kept else below

/-- A dot segment at the end leaves an empty one, so that the path still ends in a slash. -/
def walk (kept : List Segment) : List Segment → List Segment
  | [] => kept.reverse
  | [s] =>
    if isDoubleDot s then ((up kept).reverse ++ [[]])
    else if isDot s then kept.reverse ++ [[]]
    else (s :: kept).reverse
  | s :: rest =>
    if isDoubleDot s then walk (up kept) rest
    else if isDot s then walk kept rest
    else walk (s :: kept) rest

def join (segments : List Segment) : List Char := segments.flatMap ('/' :: ·)

/-- Segments as they are written after the root slash. -/
def split (isSlash : Char → Bool) (text : List Char) : List Segment :=
  splitOn isSlash (escape reservedInPath text)

/-- Paths of local files have no empty segment before a proper one. -/
def dropEmpty : List Segment → List Segment
  | [] :: s :: rest => dropEmpty (s :: rest)
  | segments => segments

/-- The bar of a drive reads as a colon. -/
def withColon (s : Segment) : Segment :=
  match s with
  | [c, '|'] => if isLetter c then [c, ':'] else s
  | _ => s

/-- The segments if a drive is at the head of the path, where all that stands before it was stepped
out of again. -/
def headDrive? (kept : List Segment) : List Segment → Option (List Segment)
  | [] => none
  | s :: rest =>
    if isDoubleDot s then (headDrive? (up kept) rest).map (s :: ·)
    else if isDot s then (headDrive? kept rest).map (s :: ·)
    else if kept = [] ∧ isDrive s then some (withColon s :: rest)
    else (headDrive? (s :: kept) rest).map (s :: ·)

def withDrive (kept segments : List Segment) : List Segment := (headDrive? kept segments).getD segments

end LinkedViews.Uri.Path
