import ExprLang.Number.Shortest

/-!
# How a float is written

A `FloatStyle` says which decimal stands for a float and how that decimal is laid out. The digits are always the shortest that the
style's own reader reads back; the style decides which exponents are written positionally, whether a whole number shows a point, and
whether a positive exponent shows its sign.
-/

namespace ExprLang.Number

/-- The decisions of one way to write floats. -/
structure FloatStyle where
  /-- The format of the floats written. -/
  format : BinaryFormat
  /-- The pattern as which a decimal is read back. -/
  reads : Decimal → Nat
  /-- Whether a number whose leading digit stands for this power of ten is written without an exponent. -/
  positional : Int → Bool
  /-- Whether a whole number written positionally ends in `.0`. -/
  wholePoint : Bool
  /-- Whether an exponent that is not negative is written with a plus sign. -/
  plusSign : Bool
  /-- Which of two equally near decimals is written. -/
  tie : Tie

namespace FloatStyle

/-- The digits of a decimal without the zeros at its end. -/
def significant (d : Decimal) : List Char :=
  ((Nat.toDigits 10 d.digits).reverse.dropWhile (· = '0')).reverse

/-- Digits whose first stands for `10 ^ top`, without an exponent. -/
def positionalText (style : FloatStyle) (digits : List Char) (top : Int) : List Char :=
  match top with
  | .negSucc k => '0' :: '.' :: List.replicate k '0' ++ digits
  | .ofNat k =>
    if digits.length ≤ k + 1 then
      digits ++ List.replicate (k + 1 - digits.length) '0' ++ (if style.wholePoint then ['.', '0'] else [])
    else digits.take (k + 1) ++ '.' :: digits.drop (k + 1)

/-- Digits whose first stands for `10 ^ top`, as a number between one and ten with an exponent. -/
def exponentText (style : FloatStyle) (digits : List Char) (top : Int) : List Char :=
  let fraction := digits.drop 1
  let sign := if top < 0 then ['-'] else if style.plusSign then ['+'] else []
  digits.take 1 ++ (if fraction.isEmpty then [] else '.' :: fraction) ++ 'e' :: sign ++ Nat.toDigits 10 top.natAbs

/-- A positive decimal, laid out. -/
def decimalText (style : FloatStyle) (d : Decimal) : List Char :=
  let digits := significant d
  let top := d.exponent + ((Nat.toDigits 10 d.digits).length - 1 : Nat)
  if style.positional top then style.positionalText digits top else style.exponentText digits top

/-- A finite pattern, written without a sign. -/
def magnitudeText (style : FloatStyle) (bits : Nat) : List Char :=
  if bits = 0 then style.positionalText ['0'] 0
  else style.decimalText <|
    Decimal.shortest (fun d => style.reads d = bits) style.tie (style.format.value bits)

/-- A pattern with its sign: infinity is `inf`, and a pattern past infinity, which is no number, is `NaN` whatever its sign. -/
def text (style : FloatStyle) (negative : Bool) (bits : Nat) : String :=
  if style.format.infinity < bits then "NaN"
  else
    let body := if bits = style.format.infinity then ['i', 'n', 'f'] else style.magnitudeText bits
    String.ofList (if negative then '-' :: body else body)

end FloatStyle

end ExprLang.Number
