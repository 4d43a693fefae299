import LinkedViews.Number.Binary64
import LinkedViews.Text.Decimal
import LinkedViews.Text.Hex
import LinkedViews.Toml.Value

/-! Strings, numbers and moments of a configuration document. A scanner takes what it can from the
front of the text and leaves the rest; no text is half a value. -/
namespace LinkedViews.Toml

abbrev Scanner (α : Type) := List Char → Option (α × List Char)

def isSpace (c : Char) : Bool := c == ' ' || c == '\t'

def skipSpace (text : List Char) : List Char := text.dropWhile isSpace

/-- Tabs, printable ASCII and everything past ASCII. -/
def isPlain (c : Char) : Bool := c == '\t' || (0x20 ≤ c.toNat && c.toNat != 0x7F)

def newline? : List Char → Option (List Char)
  | '\n' :: rest | '\r' :: '\n' :: rest => some rest
  | _ => none

def codePoint? (digits : List Char) : Option Char := do
  let n ← digits.foldlM (fun n c => do return n * 16 + (← Text.hexValue? c)) 0
  if n.isValidChar then some (Char.ofNat n) else none

def shortEscape? (c : Char) : Option Char :=
  if c = 'b' then some '\x08'
  else if c = 't' then some '\t'
  else if c = 'n' then some '\n'
  else if c = 'f' then some '\x0c'
  else if c = 'r' then some '\r'
  else if c = '"' ∨ c = '\\' then some c
  else none

/-- A string on one line, its opening quotation mark behind. -/
def scanBasic (seen : List Char) : Scanner String
  | [] => none
  | '"' :: rest => some (String.ofList seen.reverse, rest)
  | '\\' :: 'u' :: a :: b :: c :: d :: rest => do
    scanBasic ((← codePoint? [a, b, c, d]) :: seen) rest
  | '\\' :: 'U' :: a :: b :: c :: d :: e :: f :: g :: h :: rest => do
    scanBasic ((← codePoint? [a, b, c, d, e, f, g, h]) :: seen) rest
  | '\\' :: c :: rest => do scanBasic ((← shortEscape? c) :: seen) rest
  | c :: rest => if isPlain c ∧ c ≠ '\\' then scanBasic (c :: seen) rest else none

def scanLiteral (seen : List Char) : Scanner String
  | [] => none
  | '\'' :: rest => some (String.ofList seen.reverse, rest)
  | c :: rest => if isPlain c then scanLiteral (c :: seen) rest else none

/-- Three quotation marks end a long string, and up to two before them still belong to it. -/
def closing? (mark : Char) : List Char → Option (List Char × List Char)
  | a :: b :: c :: rest =>
    if a = mark ∧ b = mark ∧ c = mark then
      match rest with
      | d :: e :: rest' =>
        if d = mark then
          if e = mark then some ([mark, mark], rest') else some ([mark], e :: rest')
        else some ([], rest)
      | [d] => if d = mark then some ([mark], []) else some ([], rest)
      | [] => some ([], [])
    else none
  | _ => none

/-- Behind a backslash at the end of a line, blanks and line ends up to the next text. -/
def skipBlankLines : List Char → List Char
  | '\r' :: '\n' :: rest => skipBlankLines rest
  | c :: rest => if isSpace c ∨ c = '\n' then skipBlankLines rest else c :: rest
  | [] => []

def continuation? (text : List Char) : Option (List Char) :=
  (newline? (skipSpace text)).map skipBlankLines

/-- A string over several lines, its opening marks behind. Line ends are kept as line feeds. -/
def scanLong (mark : Char) (fuel : Nat) (seen : List Char) : Scanner String := fun text =>
  match fuel with
  | 0 => none
  | fuel + 1 =>
    match closing? mark text with
    | some (marks, rest) => some (String.ofList (seen.reverse ++ marks), rest)
    | none =>
      match text with
      | [] => none
      | '\n' :: rest | '\r' :: '\n' :: rest => scanLong mark fuel ('\n' :: seen) rest
      | c :: rest =>
        if c = '\\' ∧ mark = '"' then
          match continuation? rest with
          | some rest => scanLong mark fuel seen rest
          | none =>
            match rest with
            | 'u' :: a :: b :: c :: d :: rest => do
              scanLong mark fuel ((← codePoint? [a, b, c, d]) :: seen) rest
            | 'U' :: a :: b :: c :: d :: e :: f :: g :: h :: rest => do
              scanLong mark fuel ((← codePoint? [a, b, c, d, e, f, g, h]) :: seen) rest
            | e :: rest => do scanLong mark fuel ((← shortEscape? e) :: seen) rest
            | [] => none
        else if isPlain c then scanLong mark fuel (c :: seen) rest
        else none

/-- A line end right behind the opening marks is no part of the string. -/
def scanLongBody (mark : Char) : Scanner String := fun text =>
  let text := (newline? text).getD text
  scanLong mark (text.length + 1) [] text

def scanString : Scanner String
  | '"' :: '"' :: '"' :: rest => scanLongBody '"' rest
  | '\'' :: '\'' :: '\'' :: rest => scanLongBody '\'' rest
  | '"' :: rest => scanBasic [] rest
  | '\'' :: rest => scanLiteral [] rest
  | _ => none

def digitIn (base : Nat) (c : Char) : Option Nat := do
  let d ← Text.hexValue? c
  if d < base then some d else none

/-- Digits, with single underscores between them. -/
def scanDigits (base : Nat) (fuel : Nat) (seen : List Nat) (text : List Char) :
    List Nat × List Char :=
  match fuel, text with
  | fuel + 1, c :: rest =>
    match digitIn base c with
    | some d => scanDigits base fuel (d :: seen) rest
    | none =>
      match c, rest with
      | '_', next :: rest =>
        match seen, digitIn base next with
        | _ :: _, some d => scanDigits base fuel (d :: seen) rest
        | _, _ => (seen.reverse, text)
      | _, _ => (seen.reverse, text)
  | _, _ => (seen.reverse, text)

def digitsOf (base : Nat) (text : List Char) : List Nat × List Char :=
  scanDigits base (text.length + 1) [] text

def natOf (base : Nat) (digits : List Nat) : Nat := digits.foldl (fun n d => n * base + d) 0

/-- Integers have 64 bits and a sign. -/
def integer? (value : Int) : Option Toml :=
  if -9223372036854775808 ≤ value ∧ value ≤ 9223372036854775807 then some (.integer value) else none

def scanBased (base : Nat) : Scanner Toml := fun text => do
  match digitsOf base text with
  | ([], _) => none
  | (digits, rest) => return (← integer? (natOf base digits), rest)

/-- Whether the decimal is beyond the largest floating point number. -/
def isTooLarge (whole fraction : List Nat) (negativeExponent : Bool) (exponent : Nat) : Bool :=
  let digits := natOf 10 (whole ++ fraction)
  let shift : Int := (if negativeExponent then -(exponent : Int) else exponent) - fraction.length
  if digits = 0 then false
  else if shift < 0 then
    if shift.natAbs ≤ whole.length + fraction.length then
      (Binary64.ofQuotient? false digits (Nat.pow 10 shift.natAbs)).isNone
    else false
  else if 400 < shift then true
  else (Binary64.ofQuotient? false (digits * Nat.pow 10 shift.toNat) 1).isNone

def scanExponent (text : List Char) : Option (Option (Bool × Nat) × List Char) :=
  match text with
  | c :: rest =>
    if c = 'e' ∨ c = 'E' then
      let (negative, rest) := match rest with
        | '+' :: rest => (false, rest)
        | '-' :: rest => (true, rest)
        | _ => (false, rest)
      match digitsOf 10 rest with
      | ([], _) => none
      | (digits, rest) => some (some (negative, natOf 10 digits), rest)
    else some (none, text)
  | [] => some (none, [])

def scanFraction (text : List Char) : Option (List Nat × List Char) :=
  match text with
  | '.' :: rest =>
    match digitsOf 10 rest with
    | ([], _) => none
    | (digits, rest) => some (digits, rest)
  | _ => some ([], text)

/-- A decimal with an optional sign; a leading zero stands alone. -/
def scanDecimal (negative : Bool) : Scanner Toml := fun text => do
  match digitsOf 10 text with
  | ([], _) | (0 :: _ :: _, _) => none
  | (whole, rest) =>
    let (fraction, rest) ← scanFraction rest
    let (exponent, rest) ← scanExponent rest
    if fraction = [] ∧ exponent = none then
      let value : Int := natOf 10 whole
      return (← integer? (if negative then -value else value), rest)
    else
      let (below, size) := exponent.getD (false, 0)
      if negative = false ∧ isTooLarge whole fraction below size then none
      else return (.real, rest)

def scanSigned (negative : Bool) : Scanner Toml
  | 'i' :: 'n' :: 'f' :: rest | 'n' :: 'a' :: 'n' :: rest => some (.real, rest)
  | text => scanDecimal negative text

def scanPair (low high : Nat) : Scanner Nat
  | a :: b :: rest => do
    let n := (← digitIn 10 a) * 10 + (← digitIn 10 b)
    if low ≤ n ∧ n ≤ high then some (n, rest) else none
  | _ => none

def expectChar (c : Char) (text : List Char) : Option (List Char) :=
  match text with
  | x :: rest => if x = c then some rest else none
  | [] => none

def daysIn (year month : Nat) : Nat :=
  if month = 2 then
    if year % 4 = 0 ∧ (year % 100 ≠ 0 ∨ year % 400 = 0) then 29 else 28
  else if [4, 6, 9, 11].contains month then 30 else 31

def scanDate (text : List Char) : Option (List Char) := do
  let (century, text) ← scanPair 0 99 text
  let (year, text) ← scanPair 0 99 text
  let (month, text) ← scanPair 1 12 (← expectChar '-' text)
  let (_, text) ← scanPair 1 (daysIn (century * 100 + year) month) (← expectChar '-' text)
  return text

def scanTime (text : List Char) : Option (List Char) := do
  let (_, text) ← scanPair 0 23 text
  let (_, text) ← scanPair 0 59 (← expectChar ':' text)
  let (_, text) ← scanPair 0 60 (← expectChar ':' text)
  match text with
  | '.' :: rest =>
    if (rest.takeWhile Decimal.isDigit).isEmpty then none else some (rest.dropWhile Decimal.isDigit)
  | _ => some text

def scanOffset (text : List Char) : Option (List Char) :=
  match text with
  | c :: rest =>
    if c = 'Z' ∨ c = 'z' then some rest
    else if c = '+' ∨ c = '-' then do
      let (_, text) ← scanPair 0 23 rest
      let (_, text) ← scanPair 0 59 (← expectChar ':' text)
      return text
    else some text
  | [] => some []

/-- A date, a time of day, or both with a letter or space between them. -/
def scanMoment : Scanner Toml := fun text =>
  match scanDate text with
  | some rest =>
    match rest with
    | c :: time =>
      if c = 'T' ∨ c = 't' ∨ c = ' ' then
        match scanTime time with
        | some rest => (scanOffset rest).map (.moment, ·)
        | none => some (.moment, rest)
      else some (.moment, rest)
    | [] => some (.moment, [])
  | none => (scanTime text).map (.moment, ·)

def scanNumber : Scanner Toml
  | '0' :: 'x' :: rest => scanBased 16 rest
  | '0' :: 'o' :: rest => scanBased 8 rest
  | '0' :: 'b' :: rest => scanBased 2 rest
  | '+' :: rest => scanSigned false rest
  | '-' :: rest => scanSigned true rest
  | text => (scanMoment text).or (scanSigned false text)

end LinkedViews.Toml
