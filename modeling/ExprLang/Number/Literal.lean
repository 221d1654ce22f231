import ExprLang.Number.Shortest

/-!
# Number literals

A number literal has a sign, whole digits, and perhaps a fraction and an exponent. Its digits are collected into a significand of
64 bits: whole digits that no longer fit count as zeros, and fraction digits that no longer fit are dropped. Without a fraction and
an exponent, a literal that fits is an integer. Any other is a 64-bit float: the significand, rounded, times or divided by a power
of ten, rounded again.
-/

namespace ExprLang.Number

/-- What a number literal denotes. -/
inductive Numeral where
  /-- An integer of 64 bits, signed or unsigned. -/
  | integer (value : Int)
  /-- A finite 64-bit float, as its sign and the pattern of its magnitude. -/
  | float (negative : Bool) (bits : Nat)
deriving DecidableEq, Repr

/-- A number literal as written. -/
structure Literal where
  /-- Whether it starts with a minus sign. -/
  negative : Bool
  /-- The digits before the point. -/
  whole : List Nat
  /-- The digits after the point, if there is one. -/
  fraction : Option (List Nat)
  /-- The exponent, if there is one. -/
  exponent : Option Int
deriving DecidableEq, Repr

/-- Significands are smaller than this. -/
def significandBound : Nat := Nat.pow 2 64

/-- Appends digits to a significand as long as they fit, and counts the digits left over. -/
def appendDigits (significand : Nat) : List Nat → Nat × Nat
  | [] => (significand, 0)
  | d :: rest =>
    if significand * 10 + d < significandBound then appendDigits (significand * 10 + d) rest
    else (significand, rest.length + 1)

/-- The greatest power of ten used in one step. -/
def maxPower : Nat := 308

/-- The 64-bit pattern of `10 ^ k`. -/
def powerOfTen (k : Nat) : Nat := BinaryFormat.binary64.nearest (.ofNat (Nat.pow 10 k))

/-- The pattern of `bits / 10 ^ k`, rounded. -/
def divideByPower (bits k : Nat) : Nat :=
  BinaryFormat.binary64.nearest ((BinaryFormat.binary64.value bits).div (BinaryFormat.binary64.value (powerOfTen k)))

/-- The 64-bit pattern of `significand * 10 ^ exponent`, or nothing if it is too large. Exponents below `-308` are divided out in
two steps; what is left of a significand of 64 bits after two whole steps is zero. -/
def readDecimal? (d : Decimal) : Option Nat :=
  let start := BinaryFormat.binary64.nearest (.ofNat d.digits)
  match d.exponent with
  | .ofNat k =>
    if start = 0 then some 0
    else if maxPower < k then none
    else
      let bits := BinaryFormat.binary64.nearest
        ((BinaryFormat.binary64.value start).mul (BinaryFormat.binary64.value (powerOfTen k)))
      if bits < BinaryFormat.binary64.infinity then some bits else none
  | .negSucc j =>
    let k := j + 1
    if k ≤ maxPower then some (divideByPower start k)
    else if k ≤ 2 * maxPower then some (divideByPower (divideByPower start maxPower) (k - maxPower))
    else some 0

namespace Literal

/-- What the literal denotes, or nothing if it is too large for a 64-bit float. -/
def numeral? (l : Literal) : Option Numeral :=
  let (whole, wholeLeft) := appendDigits 0 l.whole
  let float (d : Decimal) : Option Numeral := (readDecimal? d).map (.float l.negative ·)
  match l.fraction, l.exponent with
  | none, none =>
    if wholeLeft ≠ 0 then float ⟨whole, wholeLeft⟩
    else if !l.negative then some (.integer whole)
    else if whole = 0 ∨ Nat.pow 2 63 < whole then float ⟨whole, 0⟩
    else some (.integer (-whole))
  | fraction, exponent =>
    let digits := fraction.getD []
    let (all, fractionLeft) := appendDigits whole digits
    float ⟨all, (wholeLeft : Int) - (digits.length - fractionLeft : Nat) + exponent.getD 0⟩

end Literal

/-- A float of 32 bits from its sign and the pattern of its magnitude. -/
def float32OfBits (negative : Bool) (bits : Nat) : Float32 :=
  Float32.ofBits (if negative then BinaryFormat.binary32.signBit + bits else bits).toUInt32

/-- The sign of a 32-bit float and the pattern of its magnitude. -/
def bitsOfFloat32 (x : Float32) : Bool × Nat :=
  let bits := x.toBits.toNat
  (decide (BinaryFormat.binary32.signBit ≤ bits), bits % BinaryFormat.binary32.signBit)

namespace Numeral

/-- The 32-bit float nearest to a numeral; a numeral too large becomes infinite. -/
def toFloat32 : Numeral → Float32
  | .integer n => float32OfBits (decide (n < 0)) (BinaryFormat.binary32.nearest (.ofNat n.natAbs))
  | .float negative bits => float32OfBits negative (BinaryFormat.binary32.nearest (BinaryFormat.binary64.value bits))

end Numeral

/-- The 32-bit pattern as which a literal of these digits is read. -/
def readDecimal32 (d : Decimal) : Nat :=
  match readDecimal? d with
  | some bits => BinaryFormat.binary32.nearest (BinaryFormat.binary64.value bits)
  | none => BinaryFormat.binary32.infinity

end ExprLang.Number
