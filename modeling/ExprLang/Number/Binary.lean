/-!
# Binary floating-point numbers as bit patterns

A binary format lists its nonnegative values in increasing order: bit pattern `0` is zero, each next pattern the next larger value,
and the pattern after the largest finite one is infinity. `BinaryFormat.value` reads a finite pattern as a fraction and
`BinaryFormat.nearest` gives the pattern nearest to a fraction, with ties to the even pattern. The sign is kept apart. Everything
is exact arithmetic on natural numbers, so a decimal text and a float can be compared without an error term.
-/

namespace ExprLang.Number

/-- A nonnegative fraction; the denominator of every fraction built here is positive. -/
structure Fraction where
  /-- The numerator. -/
  num : Nat
  /-- The denominator. -/
  den : Nat
deriving DecidableEq, Repr

namespace Fraction

/-- The natural number `n`. -/
def ofNat (n : Nat) : Fraction := ⟨n, 1⟩

/-- The product of two fractions. -/
def mul (a b : Fraction) : Fraction := ⟨a.num * b.num, a.den * b.den⟩

/-- The quotient of two fractions. -/
def div (a b : Fraction) : Fraction := ⟨a.num * b.den, a.den * b.num⟩

/-- `q * base ^ e`, for an exponent of either sign. -/
def scale (q : Fraction) (base : Nat) (e : Int) : Fraction :=
  match e with
  | .ofNat k => ⟨q.num * base.pow k, q.den⟩
  | .negSucc k => ⟨q.num, q.den * base.pow (k + 1)⟩

/-- The largest natural number that is at most `q`. -/
def floor (q : Fraction) : Nat := q.num / q.den

/-- The natural number nearest to `q`; a half goes to the even neighbour. -/
def nearestNat (q : Fraction) : Nat :=
  let whole := q.num / q.den
  let twice := 2 * (q.num % q.den)
  if twice < q.den then whole
  else if q.den < twice then whole + 1
  else whole + whole % 2

end Fraction

/-- A binary format: the bits of its significand, the leading one included, and the bits of its exponent field. -/
structure BinaryFormat where
  /-- Bits of the significand. -/
  precision : Nat
  /-- Bits of the exponent field. -/
  exponentBits : Nat
deriving DecidableEq, Repr

namespace BinaryFormat

/-- The 32-bit format of values. -/
def binary32 : BinaryFormat := ⟨24, 8⟩

/-- The 64-bit format in which number texts are read. -/
def binary64 : BinaryFormat := ⟨53, 11⟩

/-- The exponent of the least positive value, which is `2 ^ f.minExponent`. -/
def minExponent (f : BinaryFormat) : Int := 3 - Nat.pow 2 (f.exponentBits - 1) - f.precision

/-- How many patterns share one exponent. -/
def binade (f : BinaryFormat) : Nat := Nat.pow 2 (f.precision - 1)

/-- The pattern of infinity: every finite pattern is smaller. -/
def infinity (f : BinaryFormat) : Nat := (Nat.pow 2 f.exponentBits - 1) * f.binade

/-- The sign bit of a whole word. -/
def signBit (f : BinaryFormat) : Nat := Nat.pow 2 (f.exponentBits + f.precision - 1)

/-- The value of a finite pattern: patterns of the lowest exponent count units of `2 ^ minExponent`, and above them a leading one
is implied. -/
def value (f : BinaryFormat) (bits : Nat) : Fraction :=
  let field := bits / f.binade
  let rest := bits % f.binade
  if field = 0 then (Fraction.ofNat rest).scale 2 f.minExponent
  else (Fraction.ofNat (f.binade + rest)).scale 2 (f.minExponent + (field - 1 : Nat))

/-- The exponent of the unit in which a positive fraction is rounded: the one that leaves `precision` bits, but never below that of
the least positive value. -/
def unitExponent (f : BinaryFormat) (q : Fraction) : Int :=
  let guess : Int := (q.num.log2 : Int) - q.den.log2 - f.precision
  let wide := Nat.pow 2 f.precision ≤ (q.scale 2 (-guess)).floor
  max (if wide then guess + 1 else guess) f.minExponent

/-- The pattern nearest to a fraction: rounded to a whole number of units, ties to even. Rounding up to the next power of two is
the next pattern, and everything past the largest finite value is infinity. -/
def nearest (f : BinaryFormat) (q : Fraction) : Nat :=
  if q.num = 0 then 0
  else
    let e := f.unitExponent q
    min ((e - f.minExponent).toNat * f.binade + (q.scale 2 (-e)).nearestNat) f.infinity

end BinaryFormat

end ExprLang.Number
