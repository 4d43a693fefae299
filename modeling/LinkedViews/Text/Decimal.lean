/-! Natural numbers in decimal: digits out, and digits in up to a limit. -/
namespace LinkedViews.Decimal

/-- The largest offset, size or counter that fits the 64 bits they are kept in. -/
def maxWord : Nat := 18446744073709551615

def digit (d : Nat) : Char := Char.ofNat (48 + d)

def digits (n : Nat) : List Char :=
  if n < 10 then [digit n] else digits (n / 10) ++ [digit (n % 10)]

def isDigit (c : Char) : Bool := '0' ≤ c && c ≤ '9'

def digitValue (c : Char) : Nat := c.toNat - 48

def value (text : List Char) : Nat := text.foldl (fun n c => n * 10 + digitValue c) 0

/-- At least one digit, perhaps after one plus sign, and no more than a word can hold. -/
def read? (text : List Char) : Option Nat :=
  let body := match text with
    | '+' :: rest => rest
    | _ => text
  if body ≠ [] ∧ body.all isDigit ∧ value body ≤ maxWord then some (value body) else none

end LinkedViews.Decimal
