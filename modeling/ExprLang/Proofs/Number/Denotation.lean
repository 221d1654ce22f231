import ExprLang.Json.Scan
import ExprLang.Proofs.Number.Rounding

/-!
# What number literals stand for

A number literal has an exact value, its digits scaled by a power of ten. It is read as a number that may differ from it: as many of its
digits are taken as make a significand of 64 bits, the significand is rounded to a double, and then it is multiplied or divided by powers
of ten, which are rounded to doubles themselves, with the result rounded again. Only integers of 64 bits are read as they are. Here this
is said by rounding as a relation between rational numbers, without patterns, and so is which float is nearest to a number.
-/

namespace ExprLang.Number

open Float.Model (UnpackedFloat)
open Float.Model.UnpackedFloat (Sign)
open Json (ofDigits)

/-- The number is rounded to a float of 64 bits, if there were no greatest one. -/
abbrev Double (q d : ℚ) : Prop := RoundsTo 53 (-1074) q d

/-- The number is rounded to a float of 32 bits, if there were no greatest one. -/
abbrev Single (q v : ℚ) : Prop := RoundsTo 24 (-149) q v

/-! ### Doubles -/

/-- The digits, taken one after the other behind those of `start`, make a significand of 64 bits but for the last ones: the first digit that
does not fit is left out, and so are all digits after it. -/
def Takes (start : ℕ) (digits : List ℕ) (significand left : ℕ) : Prop :=
  ∃ taken rest, digits = taken ++ rest ∧ rest.length = left ∧ significand = taken.foldl (fun n d => 10 * n + d) start ∧
    significand < 2 ^ 64 ∧ ∀ d ∈ rest.head?, 2 ^ 64 ≤ 10 * significand + d

/-- The double `a` is multiplied by `10 ^ k`. The product must not be too large, nor may `10 ^ k` be, except that zero stays zero. -/
def Multiplied (a : ℚ) (k : ℕ) (d : ℚ) : Prop :=
  (a = 0 ∧ d = 0) ∨ (k ≤ 308 ∧ ∃ power, Double (10 ^ k) power ∧ Double (a * power) d ∧ d < 2 ^ 1024)

/-- The double `a` is divided by `10 ^ k`: by `10 ^ 308` as long as more is left, and then by what is left. -/
inductive Divided : ℚ → ℕ → ℚ → Prop
  /-- The last division. -/
  | last {a power d : ℚ} {k : ℕ} (hk : k ≤ 308) (hpower : Double (10 ^ k) power) (hd : Double (a / power) d) : Divided a k d
  /-- A division that others follow. -/
  | further {a power b d : ℚ} {k : ℕ} (hk : 0 < k) (hpower : Double (10 ^ 308) power) (hb : Double (a / power) b)
      (hd : Divided b k d) : Divided a (k + 308) d

/-- The double that is made of a significand and the exponent of its last digit. -/
def Scaled (significand : ℕ) (exponent : ℤ) (d : ℚ) : Prop :=
  ∃ a, Double significand a ∧ match exponent with
    | .ofNat k => Multiplied a k d
    | .negSucc k => Divided a (k + 1) d

namespace Literal

/-- The exact magnitude of a literal. -/
def value (l : Literal) : ℚ :=
  ofDigits (l.whole ++ l.fraction.getD []) * 10 ^ (l.exponent.getD 0 - (l.fraction.getD []).length)

/-- The literal is an integer of 64 bits, written without a fraction and without an exponent. There is no negative zero. -/
def IsInteger (l : Literal) : Prop :=
  l.fraction = none ∧ l.exponent = none ∧
    if l.negative then 0 < ofDigits l.whole ∧ ofDigits l.whole ≤ 2 ^ 63 else ofDigits l.whole < 2 ^ 64

/-- The literal is read as a number of this magnitude. -/
inductive ReadAs (l : Literal) : ℚ → Prop
  /-- An integer is read as it is. -/
  | integer (h : l.IsInteger) : ReadAs l (ofDigits l.whole)
  /-- Any other literal is read as the double that is made of those of its digits that fit. -/
  | double {whole wholeLeft significand left : ℕ} {d : ℚ} (h : ¬ l.IsInteger) (hwhole : Takes 0 l.whole whole wholeLeft)
      (hfraction : Takes whole (l.fraction.getD []) significand left)
      (hd : Scaled significand (l.exponent.getD 0 - (l.fraction.getD []).length + wholeLeft + left) d) : ReadAs l d

end Literal

/-! ### Floats -/

/-- A float stands for its sign and its magnitude; an infinite one stands for all magnitudes that are too large. -/
inductive StandsFor : UnpackedFloat → Sign → ℚ → Prop
  | zero {s : Sign} : StandsFor (.zero s) s 0
  | finite {s : Sign} {m : ℕ} {e : ℤ} {h : 0 < m} : StandsFor (.finite s m e h) s (m * 2 ^ e)
  | infinity {s : Sign} {v : ℚ} (h : 2 ^ 128 ≤ v) : StandsFor (.infinity s) s v

/-- The sign of a number. -/
def signOf (negative : Bool) : Sign := if negative then .negative else .positive

/-- The float is nearest to the number of this sign and magnitude, and infinite if the number is too large. -/
def IsNearest (negative : Bool) (q : ℚ) (x : Float32) : Prop := ∃ v, Single q v ∧ StandsFor x.toModel.unpack (signOf negative) v

end ExprLang.Number
