import LinkedViews.Number.Binary64
import LinkedViews.Text.Decimal

/-! The text of a floating point value: the fewest digits that read back as the same value, of those
the nearest, written positionally between 1e-5 and 1e16 and with a signed exponent elsewhere. -/
namespace LinkedViews.Binary64

/-- Whether `digits * 10 ^ k` rounds to `x`. The interval of such reals reaches halfway to both
neighbours, and holds its ends when the mantissa is even. -/
def readsBack (x : Binary64) (digits : Nat) (k : Int) : Bool :=
  let (a, b) := twoPower (x.exponent - 2)
  let narrow := x.mantissa == Nat.pow 2 52 && minExponent < x.exponent
  let high := (4 * x.mantissa + 2) * a
  let low := (4 * x.mantissa - (if narrow then 1 else 2)) * a
  let (num, den) := if 0 ≤ k then (digits * Nat.pow 10 k.toNat, 1) else (digits, Nat.pow 10 (-k).toNat)
  if x.mantissa % 2 = 0 then low * den ≤ num * b && num * b ≤ high * den
  else low * den < num * b && num * b < high * den

/-- The least `k` such that `num / den < 10 ^ k`. -/
def decimalScale (num den : Nat) : Int :=
  let below (k : Int) : Bool :=
    if 0 ≤ k then num < den * Nat.pow 10 k.toNat else num * Nat.pow 10 (-k).toNat < den
  let guess : Int := ((num.log2 : Int) - (den.log2 : Int)) * 30103 / 100000 - 1
  (((List.range 5).map fun (i : Nat) => guess + (i : Int)).find? below).getD (guess + 5)

/-- Digits and decimal exponent. The neighbours of the value are tried on ever finer grids. -/
def shortest (x : Binary64) : Nat × Int :=
  let (num, den) := x.magnitude
  let top := decimalScale num den
  let onGrid (n : Nat) : Option (Nat × Int) :=
    let k := top - (n : Int)
    let (a, b) := if 0 ≤ k then (num, den * Nat.pow 10 k.toNat) else (num * Nat.pow 10 (-k).toNat, den)
    let floor := a / b
    let nearer := if 2 * (a % b) < b then floor
      else if b < 2 * (a % b) then floor + 1
      else if floor % 2 = 0 then floor else floor + 1
    let farther := if nearer = floor then floor + 1 else floor
    if x.readsBack nearer k then some (nearer, k)
    else if x.readsBack farther k then some (farther, k)
    else none
  ((List.range 17).findSome? fun i => onGrid (i + 1)).getD (num, 0)

def stripZeros (fuel : Nat) (digits : Nat) (k : Int) : Nat × Int :=
  match fuel with
  | 0 => (digits, k)
  | fuel + 1 => if digits % 10 = 0 ∧ digits ≠ 0 then stripZeros fuel (digits / 10) (k + 1)
      else (digits, k)

def exponentText (e : Int) : List Char :=
  (if e < 0 then '-' else '+') :: Decimal.digits e.natAbs

/-- `k` places follow the point, or `k` zeros precede it if negative. -/
def layout (digits : List Char) (k : Int) : List Char :=
  let point : Int := digits.length + k
  if -5 < point ∧ point ≤ 0 then
    '0' :: '.' :: List.replicate (-point).toNat '0' ++ digits
  else if 0 < point ∧ point ≤ 16 then
    if 0 ≤ k then digits ++ List.replicate k.toNat '0' ++ ['.', '0']
    else digits.take point.toNat ++ '.' :: digits.drop point.toNat
  else
    match digits with
    | [d] => d :: 'e' :: exponentText (point - 1)
    | d :: rest => d :: '.' :: rest ++ 'e' :: exponentText (point - 1)
    | [] => []

def text (x : Binary64) : List Char :=
  let sign := if x.negative then ['-'] else []
  if x.isZero then sign ++ ['0', '.', '0']
  else
    let (digits, k) := x.shortest
    let (digits, k) := stripZeros 20 digits k
    sign ++ layout (Decimal.digits digits) k

end LinkedViews.Binary64
