import ExprLang.Number.Binary

/-!
# The shortest decimal that reads back

A reader of decimals sends every decimal to a bit pattern. `Decimal.shortest` looks for the decimal with the fewest digits that is
read as a given pattern: for one digit, two digits and so on it tries the two neighbours of the exact value among the decimals of
that many digits. If some decimal of that many digits lies between the ends of the interval that reads back, so does one of the two
neighbours, so no shorter decimal is missed; of two neighbours that both read back the nearer one is taken.
-/

namespace ExprLang.Number

/-- The decimal `digits * 10 ^ exponent`. -/
structure Decimal where
  /-- The digits, as one number. -/
  digits : Nat
  /-- The power of ten of the last digit. -/
  exponent : Int
deriving DecidableEq, Repr

/-- Which neighbour is taken when the value lies exactly halfway between two decimals that both read back. -/
inductive Tie where
  /-- The larger one. -/
  | up
  /-- The one whose last digit is even. -/
  | even
deriving DecidableEq, Repr

namespace Fraction

/-- The least `k ≥ shift` with `1 ≤ q * 10 ^ k`, looked for in `fuel` steps. -/
def decimalShift (q : Fraction) : (fuel shift : Nat) → Nat
  | 0, shift => shift
  | fuel + 1, shift => if q.den ≤ q.num * Nat.pow 10 shift then shift else decimalShift q fuel (shift + 1)

/-- The power of ten of the leading digit of a positive fraction. -/
def leadingExponent (q : Fraction) : Int :=
  if q.den ≤ q.num then ((Nat.toDigits 10 q.floor).length - 1 : Nat)
  else -(q.decimalShift (q.den.log2 + 1) 1 : Int)

end Fraction

namespace Decimal

/-- The exact value. -/
def toFraction (d : Decimal) : Fraction := (Fraction.ofNat d.digits).scale 10 d.exponent

/-- The neighbour of `q` among the multiples of `10 ^ e` that reads back, the nearer of two, if one does. -/
def neighbour? (readsBack : Decimal → Bool) (tie : Tie) (q : Fraction) (e : Int) : Option Decimal :=
  let scaled := q.scale 10 (-e)
  let low : Decimal := ⟨scaled.floor, e⟩
  let high : Decimal := ⟨scaled.floor + 1, e⟩
  match readsBack low, readsBack high with
  | false, false => none
  | true, false => some low
  | false, true => some high
  | true, true =>
    let twice := 2 * (scaled.num % scaled.den)
    if twice < scaled.den then some low
    else if scaled.den < twice then some high
    else match tie with
      | .up => some high
      | .even => some (if low.digits % 2 = 0 then low else high)

/-- How many digits are tried: seventeen tell any two values of the 64-bit format apart. -/
def maxDigits : Nat := 17

/-- The decimal of fewest digits that reads back as the positive value `q`. If none of at most `maxDigits` digits does, the value is
cut after that many digits. -/
def shortest (readsBack : Decimal → Bool) (tie : Tie) (q : Fraction) : Decimal :=
  let top := q.leadingExponent
  let last := top - (maxDigits - 1 : Nat)
  ((List.range maxDigits).findSome? fun (n : Nat) => neighbour? readsBack tie q (top - n)).getD
    ⟨(q.scale 10 (-last)).floor, last⟩

end Decimal

end ExprLang.Number
