import LinkedViews.Text.Blank
import LinkedViews.Text.Decimal
import LinkedViews.Text.Hex
import LinkedViews.Uri.Basic
import LinkedViews.Uri.Domain
import LinkedViews.Uri.Escape

/-! Hosts in normal form. Schemes with a fixed meaning know domain names and addresses; the other
schemes know addresses of the second kind and otherwise take a host as it is written. -/
namespace LinkedViews.Uri.Host

open Text

def readBase? (base : Nat) (text : List Char) : Option Nat :=
  text.foldlM (fun n c => do
    let d ← hexValue? c
    if d < base then some (n * base + d) else none) 0

/-- A part is decimal, octal after a zero, or hexadecimal after `0x`; the bare prefix is zero. -/
def readPart? (part : List Char) : Option Nat :=
  match part with
  | [] => none
  | '0' :: 'x' :: rest | '0' :: 'X' :: rest => readBase? 16 rest
  | '0' :: c :: rest => readBase? 8 (c :: rest)
  | _ => readBase? 10 part

def partsOf (domain : List Char) : List (List Char) :=
  let parts := splitOn (· = '.') domain
  if 1 < parts.length ∧ parts.getLast? = some [] then parts.dropLast else parts

/-- A domain name whose last part is a number can only be an address. -/
def endsInNumber (domain : List Char) : Bool :=
  match (partsOf domain).getLast? with
  | none => false
  | some last => (last != [] && last.all Decimal.isDigit) || (readPart? last).isSome

/-- All parts but the last are bytes; the last part fills what they leave. -/
def readIpv4? (domain : List Char) : Option Nat := do
  let numbers ← (partsOf domain).mapM readPart?
  let last ← numbers.getLast?
  let front := numbers.dropLast
  if front.length < 4 ∧ front.all (· < 256) ∧ last < Nat.pow 256 (4 - front.length) then
    some (front.zipIdx.foldl (fun total (n, i) => total + n * Nat.pow 256 (3 - i)) last)
  else none

def ipv4Text (address : Nat) : List Char :=
  let part (i : Nat) := Decimal.digits (address / Nat.pow 256 i % 256)
  part 3 ++ '.' :: part 2 ++ '.' :: part 1 ++ '.' :: part 0

def readPiece? (text : List Char) : Option Nat :=
  if text ≠ [] ∧ text.length ≤ 4 then readBase? 16 text else none

def readOctet? (text : List Char) : Option Nat :=
  match text with
  | ['0'] => some 0
  | [] | '0' :: _ => none
  | _ => if text.all Decimal.isDigit ∧ Decimal.value text < 256 then some (Decimal.value text)
      else none

/-- The last place may hold a dotted address, which fills two pieces. -/
def readLastPieces? (text : List Char) : Option (List Nat) :=
  if text.contains '.' then do
    match ← (splitOn (· = '.') text).mapM readOctet? with
    | [a, b, c, d] => some [a * 256 + b, c * 256 + d]
    | _ => none
  else (readPiece? text).map ([·])

def readPieces? (dotted : Bool) (text : List Char) : Option (List Nat) :=
  if text = [] then some []
  else do
    let places := splitOn (· = ':') text
    let front ← places.dropLast.mapM readPiece?
    let last := places.getLastD []
    let back ← if dotted then readLastPieces? last else (readPiece? last).map ([·])
    some (front ++ back)

/-- What stands before and after the first double colon. -/
def cutGap : List Char → Option (List Char × List Char)
  | ':' :: ':' :: rest => some ([], rest)
  | c :: rest => (cutGap rest).map fun (a, b) => (c :: a, b)
  | [] => none

/-- A double colon stands for one or more zero pieces. -/
def readIpv6? (text : List Char) : Option (List Nat) := do
  match cutGap text with
  | some (left, right) =>
    let front ← readPieces? false left
    let back ← readPieces? true right
    let given := front.length + back.length
    if given < 8 then some (front ++ List.replicate (8 - given) 0 ++ back) else none
  | none =>
    let pieces ← readPieces? true text
    if pieces.length = 8 then some pieces else none

/-- The first of the longest runs of at least two zeros, as start and length. -/
def zeroRun (pieces : List Nat) : Option (Nat × Nat) :=
  let runs := (List.range pieces.length).map fun i =>
    (i, ((pieces.drop i).takeWhile (· = 0)).length)
  runs.foldl (fun best (i, n) =>
    if 2 ≤ n ∧ (best.all fun (_, m) => m < n) then some (i, n) else best) none

def joinPieces (pieces : List Nat) : List Char :=
  [':'].intercalate (pieces.map hexDigits)

def ipv6Text (pieces : List Nat) : List Char :=
  match zeroRun pieces with
  | none => joinPieces pieces
  | some (i, n) => joinPieces (pieces.take i) ++ ':' :: ':' :: joinPieces (pieces.drop (i + n))

def unescape : List Char → Bytes
  | '%' :: a :: b :: rest =>
    match hexValue? a, hexValue? b with
    | some high, some low => (high * 16 + low).toUInt8 :: unescape rest
    | _, _ => 0x25 :: unescape (a :: b :: rest)
  | c :: rest => Utf8.encodeChar c ++ unescape rest
  | [] => []

def forbiddenInName (c : Char) : Bool :=
  isControl c || [' ', '%', '#', '/', ':', '<', '>', '?', '@', '[', '\\', ']', '^', '|'].contains c

def forbiddenInOpaque (c : Char) : Bool :=
  c.toNat = 0 || ['\t', '\n', '\r', ' ', '#', '/', ':', '<', '>', '?', '@', '[', '\\', ']', '^',
    '|'].contains c

def bracketed (text : List Char) : Except UriError (List Char) :=
  if text.getLast? = some ']' then
    match readIpv6? (text.dropLast.drop 1) with
    | some pieces => .ok ('[' :: ipv6Text pieces ++ [']'])
    | none => .error .invalidIpv6
  else .error .invalidIpv6

def ofSpecial (text : List Char) : Except UriError (List Char) :=
  if text.head? = some '[' then bracketed text
  else
    match (Utf8.decode? (unescape text)).bind Domain.ascii? with
    | none => .error .invalidDomainName
    | some name =>
      if name.any forbiddenInName then .error .invalidDomainName
      else if name = [] then .error .emptyHost
      else if endsInNumber name then
        match readIpv4? name with
        | some address => .ok (ipv4Text address)
        | none => .error .invalidIpv4
      else .ok name

def ofOpaque (text : List Char) : Except UriError (List Char) :=
  if text.head? = some '[' then bracketed text
  else if text.any forbiddenInOpaque then .error .invalidDomainCharacter
  else .ok (escape isControl text)

end LinkedViews.Uri.Host
