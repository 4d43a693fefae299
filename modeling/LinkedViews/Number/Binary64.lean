/-! Finite binary floating point of 64 bits, in exact arithmetic: a value is a sign, a mantissa of at
most 53 bits and a power of two. Quotients of naturals are rounded to the nearest value, ties to the
even mantissa; what is too large has no value. -/
namespace LinkedViews

/-- The value is `mantissa * 2 ^ exponent`, negated if `negative`. Zero keeps its sign. -/
structure Binary64 where
  negative : Bool
  mantissa : Nat
  exponent : Int
  deriving DecidableEq, Repr

namespace Binary64

def minExponent : Int := -1074

def maxExponent : Int := 971

def zero (negative : Bool) : Binary64 := ⟨negative, 0, minExponent⟩

/-- The quotient to the nearest natural, ties to even. -/
def roundDiv (num den : Nat) : Nat :=
  let q := num / den
  let r := num % den
  if 2 * r < den then q
  else if den < 2 * r then q + 1
  else if q % 2 = 0 then q else q + 1

/-- Naturals `a` and `b` with `a / b = 2 ^ e`. -/
def twoPower (e : Int) : Nat × Nat :=
  if 0 ≤ e then (Nat.pow 2 e.toNat, 1) else (1, Nat.pow 2 (-e).toNat)

/-- The exponent at which the quotient has a mantissa of 53 bits, or the least one. -/
def scale (num den : Nat) : Int :=
  let guess : Int := (num.log2 : Int) - (den.log2 : Int) - 52
  let (a, b) := twoPower guess
  let guess := if num * b < Nat.pow 2 52 * (den * a) then guess - 1 else guess
  max guess minExponent

/-- The value nearest to `num / den`, if it is finite. -/
def ofQuotient? (negative : Bool) (num den : Nat) : Option Binary64 :=
  if num = 0 then some (zero negative)
  else
    let e := scale num den
    let (a, b) := twoPower e
    let m := roundDiv (num * b) (den * a)
    let (m, e) := if m = Nat.pow 2 53 then (Nat.pow 2 52, e + 1) else (m, e)
    if m = 0 then some (zero negative)
    else if maxExponent < e then none
    else some ⟨negative, m, e⟩

/-- Numerator and denominator of the magnitude. -/
def magnitude (x : Binary64) : Nat × Nat :=
  let (a, b) := twoPower x.exponent
  (x.mantissa * a, b)

def isZero (x : Binary64) : Bool := x.mantissa == 0

def mul? (x y : Binary64) : Option Binary64 :=
  let (a, b) := x.magnitude
  let (c, d) := y.magnitude
  ofQuotient? (x.negative != y.negative) (a * c) (b * d)

/-- Division by a value that is not zero. -/
def div? (x y : Binary64) : Option Binary64 :=
  let (a, b) := x.magnitude
  let (c, d) := y.magnitude
  ofQuotient? (x.negative != y.negative) (a * d) (b * c)

def ofNat? (n : Nat) : Option Binary64 := ofQuotient? false n 1

end Binary64

end LinkedViews
