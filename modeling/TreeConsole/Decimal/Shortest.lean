import TreeConsole.Decimal.Binary64

/-!
# Shortest decimal text of a floating-point number

The fewest significant digits that read back as the same number, and of several such digit strings
the one nearest to the number. Digits are looked for on the grids of one digit, two digits and so
on; on each grid only the two neighbours of the number can be the nearest, so two candidates are
tried per grid. Seventeen digits always suffice.
-/

namespace TreeConsole.Binary64

/-- A positive quotient, compared and rounded in natural numbers. -/
structure Quotient where
  num : Nat
  den : Nat

namespace Quotient

/-- A quotient times a power of two. -/
def ofScaled (n : Nat) (e : Int) : Quotient := ⟨n * Nat.pow 2 e.toNat, Nat.pow 2 (-e).toNat⟩

/-- A natural number times a power of ten. -/
def ofDecimal (n : Nat) (e : Int) : Quotient := ⟨n * Nat.pow 10 e.toNat, Nat.pow 10 (-e).toNat⟩

/-- The order of quotients. -/
def compare (a b : Quotient) : Ordering := Ord.compare (a.num * b.den) (b.num * a.den)

/-- The distance of two quotients. -/
def distance (a b : Quotient) : Quotient :=
  ⟨max (a.num * b.den) (b.num * a.den) - min (a.num * b.den) (b.num * a.den), a.den * b.den⟩

/-- The whole number of `10 ^ e` in a quotient. -/
def floorAt (a : Quotient) (e : Int) : Nat :=
  (a.num * Nat.pow 10 (-e).toNat) / (a.den * Nat.pow 10 e.toNat)

end Quotient

/-! ### What reads back -/

/-- The magnitude of a number. -/
def magnitude (x : Binary64) : Quotient := .ofScaled x.significand x.exponent

/-- The lower end of the quotients that round to a number. The step below a power of two is half
as wide. -/
def lowerEnd (x : Binary64) : Quotient :=
  if x.significand = Nat.pow 2 52 ∧ minExponent < x.exponent then
    .ofScaled (4 * x.significand - 1) (x.exponent - 2)
  else .ofScaled (2 * x.significand - 1) (x.exponent - 1)

/-- The upper end of the quotients that round to a number. -/
def upperEnd (x : Binary64) : Quotient := .ofScaled (2 * x.significand + 1) (x.exponent - 1)

/-- Whether a quotient reads back as the number; the ends do when the significand is even. -/
def readsBack (x : Binary64) (q : Quotient) : Bool :=
  let low := x.lowerEnd.compare q
  let high := q.compare x.upperEnd
  if x.significand % 2 = 0 then low != .gt && high != .gt else low == .lt && high == .lt

/-- The exponent of the leading decimal digit, searched downwards from a bound. -/
private def leadingExponent (q : Quotient) : Nat → Int → Int
  | 0, e => e
  | n + 1, e => if (Quotient.ofDecimal 1 e).compare q = .gt then leadingExponent q n (e - 1) else e

/-! ### The search for digits -/

/-- Digits and the power of ten they are multiplied with. -/
structure Digits where
  digits : Nat
  exponent : Int
  deriving DecidableEq, Repr

/-- The better of the two neighbours on the grid of `10 ^ e` that read back; the even one of two
equally near. -/
def onGrid (x : Binary64) (e : Int) : Option Digits :=
  let v := x.magnitude
  let low := v.floorAt e
  let lowFits := low != 0 && x.readsBack (.ofDecimal low e)
  let highFits := x.readsBack (.ofDecimal (low + 1) e)
  let takeLow : Option Digits := some ⟨low, e⟩
  let takeHigh : Option Digits := some ⟨low + 1, e⟩
  if lowFits && highFits then
    match (v.distance (.ofDecimal low e)).compare (v.distance (.ofDecimal (low + 1) e)) with
    | .lt => takeLow
    | .gt => takeHigh
    | .eq => if low % 2 = 0 then takeLow else takeHigh
  else if lowFits then takeLow
  else if highFits then takeHigh
  else none

/-- Tries ever finer grids below a leading exponent. -/
private def search (x : Binary64) (lead : Int) : Nat → Int → Digits
  | 0, e => ⟨x.magnitude.floorAt e, e⟩
  | n + 1, e =>
    match x.onGrid e with
    | some d => d
    | none => search x lead n (e - 1)

/-- Drops zeros at the end of the digits. -/
private def dropZeros : Nat → Digits → Digits
  | 0, d => d
  | n + 1, d =>
    if d.digits % 10 = 0 ∧ d.digits ≠ 0 then dropZeros n ⟨d.digits / 10, d.exponent + 1⟩ else d

/-- The shortest digits of a number other than zero. -/
def shortest (x : Binary64) : Digits :=
  let lead := leadingExponent x.magnitude 700 310
  dropZeros 20 (search x lead 18 lead)

/-! ### The text -/

/-- The decimal digits of a natural number. -/
def digitChars (n : Nat) : List Char := Nat.toDigits 10 n

/-- Digits in plain notation: a point with at least one digit on each side. -/
def plain (ds : List Char) (e : Int) : List Char :=
  let point : Int := ds.length + e
  if 0 ≤ e then ds ++ List.replicate e.toNat '0' ++ ['.', '0']
  else if 0 < point then ds.take point.toNat ++ ['.'] ++ ds.drop point.toNat
  else ['0', '.'] ++ List.replicate (-point).toNat '0' ++ ds

/-- Digits in scientific notation: one digit before the point, the exponent always signed. -/
def scientific (ds : List Char) (lead : Int) : List Char :=
  let fraction := if ds.length ≤ 1 then [] else '.' :: ds.drop 1
  let sign := if lead < 0 then '-' else '+'
  ds.take 1 ++ fraction ++ ['e', sign] ++ digitChars lead.natAbs

/-- The text of a number: the fewest digits that read back, plain from `1e-5` up to `1e16` and
scientific outside. -/
def text (x : Binary64) : List Char :=
  let body :=
    if x.isZero then ['0', '.', '0']
    else
      let d := x.shortest
      let ds := digitChars d.digits
      let lead : Int := ds.length - 1 + d.exponent
      if -5 ≤ lead ∧ lead < 16 then plain ds d.exponent else scientific ds lead
  if x.negative then '-' :: body else body

end TreeConsole.Binary64
