import LinkedViews.Json.Basic
import LinkedViews.Text.Utf8

/-! The lexical level of JSON over bytes: blanks, words, strings and numbers. Each of the last two
comes twice: read for its content, or passed over, which asks for the grammar alone and lets pass
what has no content: unpaired surrogates, bytes that are no text, numbers out of range. -/
namespace LinkedViews.Json

def isBlank (b : UInt8) : Bool := b == 0x20 || b == 0x0A || b == 0x0D || b == 0x09

def skipBlank (input : Bytes) : Bytes := input.dropWhile isBlank

def isDigit (b : UInt8) : Bool := 0x30 ≤ b && b ≤ 0x39

/-- The rest of a word whose first letter has been seen. -/
def expectWord : Bytes → Bytes → Except Fault Bytes
  | [], input => .ok input
  | _ :: _, [] => .error .truncated
  | w :: word, b :: input => if b = w then expectWord word input else .error .malformed

def nullTail : Bytes := [0x75, 0x6C, 0x6C]

def trueTail : Bytes := [0x72, 0x75, 0x65]

def falseTail : Bytes := [0x61, 0x6C, 0x73, 0x65]

def hexValue? (b : UInt8) : Option Nat :=
  if 0x30 ≤ b ∧ b ≤ 0x39 then some (b.toNat - 0x30)
  else if 0x41 ≤ b ∧ b ≤ 0x46 then some (b.toNat - 0x37)
  else if 0x61 ≤ b ∧ b ≤ 0x66 then some (b.toNat - 0x57)
  else none

def hexUnit? (a b c d : UInt8) : Option Nat := do
  return (← hexValue? a) * 0x1000 + (← hexValue? b) * 0x100 + (← hexValue? c) * 0x10
    + (← hexValue? d)

/-- The byte that a short escape stands for. -/
def shortEscape? (b : UInt8) : Option UInt8 :=
  if b = 0x22 ∨ b = 0x5C ∨ b = 0x2F then some b
  else if b = 0x62 then some 8
  else if b = 0x66 then some 12
  else if b = 0x6E then some 10
  else if b = 0x72 then some 13
  else if b = 0x74 then some 9
  else none

def isHighSurrogate (n : Nat) : Bool := 0xD800 ≤ n && n < 0xDC00

def isLowSurrogate (n : Nat) : Bool := 0xDC00 ≤ n && n < 0xE000

/-- The bytes of a string whose opening quotation mark is behind; `seen` holds the latest first. -/
def readBytes (seen : Bytes) : Bytes → Except Fault (Bytes × Bytes)
  | [] => .error .truncated
  | b :: rest =>
    if b = 0x22 then .ok (seen.reverse, rest)
    else if b = 0x5C then
      match rest with
      | [] => .error .truncated
      | e :: rest =>
        if e = 0x75 then
          match rest with
          | h1 :: h2 :: h3 :: h4 :: rest =>
            match hexUnit? h1 h2 h3 h4 with
            | none => .error .malformed
            | some high =>
              if isLowSurrogate high then .error .malformed
              else if isHighSurrogate high then
                match rest with
                | [] => .error .truncated
                | b1 :: rest =>
                  if b1 = 0x5C then
                    match rest with
                    | [] => .error .truncated
                    | b2 :: rest =>
                      if b2 = 0x75 then
                        match rest with
                        | l1 :: l2 :: l3 :: l4 :: rest =>
                          match hexUnit? l1 l2 l3 l4 with
                          | none => .error .malformed
                          | some low =>
                            if isLowSurrogate low then
                              let n := (high - 0xD800) * 0x400 + (low - 0xDC00) + 0x10000
                              readBytes ((Utf8.encodeChar (Char.ofNat n)).reverse ++ seen) rest
                            else .error .malformed
                        | _ => .error .truncated
                      else .error .malformed
                  else .error .malformed
              else readBytes ((Utf8.encodeChar (Char.ofNat high)).reverse ++ seen) rest
          | _ => .error .truncated
        else
          match shortEscape? e with
          | some c => readBytes (c :: seen) rest
          | none => .error .malformed
    else if b < 0x20 then .error .malformed
    else readBytes (b :: seen) rest

theorem readBytes_quote (seen rest : Bytes) :
    readBytes seen (0x22 :: rest) = .ok (seen.reverse, rest) := by
  rw [readBytes.eq_def]
  rfl

def readText (input : Bytes) : Except Fault (String × Bytes) := do
  let (bytes, rest) ← readBytes [] input
  match Utf8.decode? bytes with
  | some text => .ok (String.ofList text, rest)
  | none => .error .malformed

def passText : Bytes → Except Fault Bytes
  | [] => .error .truncated
  | b :: rest =>
    if b = 0x22 then .ok rest
    else if b = 0x5C then
      match rest with
      | [] => .error .truncated
      | e :: rest =>
        if e = 0x75 then
          match rest with
          | h1 :: h2 :: h3 :: h4 :: rest =>
            if (hexUnit? h1 h2 h3 h4).isSome then passText rest else .error .malformed
          | _ => .error .truncated
        else if (shortEscape? e).isSome then passText rest
        else .error .malformed
    else if b < 0x20 then .error .malformed
    else passText rest

/-- A number as written: digits before and after the point, sign and digits of the exponent. -/
structure Numeral where
  negative : Bool
  whole : List Nat
  fraction : List Nat
  exponent : Option (Bool × List Nat)
  isInteger : Bool
  deriving Repr

def takeDigits : Bytes → List Nat × Bytes
  | [] => ([], [])
  | b :: rest =>
    if isDigit b then
      let (digits, rest) := takeDigits rest
      ((b.toNat - 0x30) :: digits, rest)
    else ([], b :: rest)

/-- What a missing digit means: at the end of the input, more may follow. -/
def missingDigit (passing : Bool) (rest : Bytes) : Fault :=
  if rest = [] ∧ passing = false then .truncated else .malformed

def scanWhole (passing : Bool) (input : Bytes) : Except Fault (List Nat × Bytes) :=
  match takeDigits input with
  | ([], rest) => .error (missingDigit passing rest)
  | (0 :: _ :: _, _) => .error .malformed
  | (digits, rest) => .ok (digits, rest)

def scanFraction (passing : Bool) (input : Bytes) : Except Fault (Option (List Nat) × Bytes) :=
  match input with
  | 0x2E :: rest =>
    match takeDigits rest with
    | ([], rest) => .error (missingDigit passing rest)
    | (digits, rest) => .ok (some digits, rest)
  | _ => .ok (none, input)

def scanExponent (passing : Bool) (input : Bytes) :
    Except Fault (Option (Bool × List Nat) × Bytes) :=
  match input with
  | b :: rest =>
    if b = 0x65 ∨ b = 0x45 then
      let (negative, rest) := match rest with
        | 0x2B :: rest => (false, rest)
        | 0x2D :: rest => (true, rest)
        | _ => (false, rest)
      match takeDigits rest with
      | ([], rest) => .error (missingDigit passing rest)
      | (digits, rest) => .ok (some (negative, digits), rest)
    else .ok (none, input)
  | [] => .ok (none, input)

/-- A numeral whose first byte is a digit or a minus sign. -/
def scanNumeral (passing : Bool) (input : Bytes) : Except Fault (Numeral × Bytes) := do
  let (negative, input) := match input with
    | 0x2D :: rest => (true, rest)
    | _ => (false, input)
  let (whole, input) ← scanWhole passing input
  let (fraction, input) ← scanFraction passing input
  let (exponent, input) ← scanExponent passing input
  return (⟨negative, whole, fraction.getD [], exponent, fraction.isNone && exponent.isNone⟩, input)

/-- Digits are taken into the significand while it fits a word; the rest is left over. -/
def absorb (significand : Nat) : List Nat → Nat × List Nat
  | [] => (significand, [])
  | d :: digits =>
    if significand * 10 + d ≤ Decimal.maxWord then absorb (significand * 10 + d) digits
    else (significand, d :: digits)

def tenPower? (k : Nat) : Option Binary64 := Binary64.ofNat? (Nat.pow 10 k)

/-- Scaling by a power of ten is one rounded multiplication or division; beyond the largest power
of ten it is repeated on the small side, and out of range on the large one. -/
def scaleByTen? (fuel : Nat) (x : Binary64) (exponent : Int) : Option Binary64 :=
  if exponent.natAbs ≤ 308 then do
    let power ← tenPower? exponent.natAbs
    if 0 ≤ exponent then x.mul? power else x.div? power
  else if x.isZero then some x
  else if 0 ≤ exponent then none
  else
    match fuel with
    | 0 => some (Binary64.zero x.negative)
    | fuel + 1 => do
      let power ← tenPower? 308
      scaleByTen? fuel (← x.div? power) (exponent + 308)

def largestExponent : Nat := 2147483647

def Numeral.realValue? (n : Numeral) : Option Binary64 := do
  let (significand, surplus) := absorb 0 n.whole
  let (significand, unused) := absorb significand n.fraction
  let shift : Int := (surplus.length : Int) - ((n.fraction.length - unused.length : Nat) : Int)
  let shift ← match n.exponent with
    | none => some shift
    | some (negative, digits) =>
      let (e, _) := absorb 0 digits
      if largestExponent < e ∧ significand ≠ 0 ∧ negative = false then none
      else some (if negative then shift - e else shift + e)
  let x ← Binary64.ofNat? significand
  let x ← scaleByTen? 3 x shift
  return { x with negative := n.negative }

/-- An integer that fits is kept as one; negative zero is floating point. -/
def Numeral.value? (n : Numeral) : Option Json :=
  let (whole, surplus) := absorb 0 n.whole
  if n.isInteger ∧ surplus = [] ∧ n.negative = false then some (.integer whole)
  else if n.isInteger ∧ surplus = [] ∧ 0 < whole ∧ whole ≤ 9223372036854775808 then
    some (.integer (-whole))
  else n.realValue?.map .real

/-- A number for its value, which is an integer or floating point. -/
def readNumber (input : Bytes) : Except Fault (Json × Bytes) := do
  let (numeral, rest) ← scanNumeral false input
  match numeral.value? with
  | some value => .ok (value, rest)
  | none => .error .malformed

def passNumber (input : Bytes) : Except Fault Bytes := do
  let (_, rest) ← scanNumeral true input
  return rest

end LinkedViews.Json
