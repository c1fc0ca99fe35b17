/-!
# Binary floating point in exact arithmetic

Finite 64-bit floating-point numbers as a sign, a significand below `2 ^ 53` and a power of two.
One function rounds a positive quotient of natural numbers to the nearest such number, a tie to
the even significand; reading an integer, multiplying and dividing are that function applied to
the exact result. Nothing here depends on the host's own floating-point type.
-/

namespace TreeConsole

/-- The number `significand * 2 ^ exponent`, with a sign. Zero has a sign too. -/
structure Binary64 where
  negative : Bool
  significand : Nat
  exponent : Int
  deriving DecidableEq, Repr, Inhabited

namespace Binary64

/-- The least power of two a number can have. -/
def minExponent : Int := -1074

/-- The greatest power of two a number can have. -/
def maxExponent : Int := 971

/-- A quotient over a power of two, rounded down, with its doubled remainder and its divisor. -/
private def scaled (num den : Nat) (e : Int) : Nat × Nat × Nat :=
  let n := num * Nat.pow 2 (-e).toNat
  let d := den * Nat.pow 2 e.toNat
  (n / d, 2 * (n % d), d)

/-- The exponent that gives a quotient a full significand, or the least one. -/
private def fittingExponent (num den : Nat) : Int :=
  let e : Int := (num.log2 : Int) - den.log2 - 52
  -- The lengths of the two numbers fix the exponent up to one.
  let e := if (scaled num den e).1 < Nat.pow 2 52 then e - 1 else e
  max minExponent e

/-- The number nearest to `num / den`, a tie going to the even significand, or nothing when the
quotient is too large. -/
def roundQuotient (negative : Bool) (num den : Nat) : Option Binary64 :=
  if num = 0 then some ⟨negative, 0, minExponent⟩
  else
    let e := fittingExponent num den
    let (q, twice, d) := scaled num den e
    -- The doubled remainder against the divisor: more than half goes up, half to the even side.
    let q := if d < twice ∨ (d = twice ∧ q % 2 = 1) then q + 1 else q
    -- Rounding up a significand of all ones gives the next power of two.
    let (q, e) := if q = Nat.pow 2 53 then (Nat.pow 2 52, e + 1) else (q, e)
    if e ≤ maxExponent then some ⟨negative, q, e⟩ else none

/-- Whether the number is zero, of either sign. -/
def isZero (x : Binary64) : Bool := x.significand = 0

/-- The number nearest to `num / den * 2 ^ e`. -/
def roundScaled (negative : Bool) (num den : Nat) (e : Int) : Option Binary64 :=
  roundQuotient negative (num * Nat.pow 2 e.toNat) (den * Nat.pow 2 (-e).toNat)

/-- The number nearest to a natural number. -/
def ofNat? (n : Nat) : Option Binary64 := roundQuotient false n 1

/-- A product, rounded once. -/
def mul? (x y : Binary64) : Option Binary64 :=
  roundScaled (x.negative != y.negative) (x.significand * y.significand) 1
    (x.exponent + y.exponent)

/-- A quotient by a number other than zero, rounded once. -/
def div? (x y : Binary64) : Option Binary64 :=
  roundScaled (x.negative != y.negative) x.significand y.significand (x.exponent - y.exponent)

/-- The number nearest to a power of ten. -/
def powerOfTen? (k : Nat) : Option Binary64 := ofNat? (Nat.pow 10 k)

/-- The same number with a given sign. -/
def withSign (negative : Bool) (x : Binary64) : Binary64 := { x with negative }

/-- The greatest power of ten that one step of a scaling can express. -/
def largestStep : Nat := 308

/-- One step of a long way down. -/
def stepDown? (x : Binary64) : Option Binary64 := (powerOfTen? largestStep).bind x.div?

/-- Divides a number by `10 ^ n`, in steps when `n` is out of reach of one; every step rounds. Three
steps take every number this module reads to zero. -/
def descend : Nat → Binary64 → Nat → Option Binary64
  | 0, x, n =>
    if n ≤ largestStep then (powerOfTen? n).bind x.div? else some ⟨x.negative, 0, minExponent⟩
  | steps + 1, x, n =>
    if n ≤ largestStep then (powerOfTen? n).bind x.div?
    else if x.isZero then some x
    else x.stepDown?.bind fun y => descend steps y (n - largestStep)

/-- Scales a number by a power of ten. Nothing when the result is too large. -/
def scaleByTen (x : Binary64) (e : Int) : Option Binary64 :=
  if e < 0 then descend 3 x e.natAbs
  else if e.toNat ≤ largestStep then (powerOfTen? e.toNat).bind x.mul?
  else if x.isZero then some x
  else none

/-- The number read from decimal digits: `digits * 10 ^ e`. -/
def ofDecimal (negative : Bool) (digits : Nat) (e : Int) : Option Binary64 :=
  ((ofNat? digits).bind fun x => x.scaleByTen e).map (withSign negative)

end Binary64
end TreeConsole
