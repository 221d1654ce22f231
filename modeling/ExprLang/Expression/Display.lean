import ExprLang.Expression.Basic
import ExprLang.Number.Literal
import ExprLang.Number.Style

/-!
# Displayed programs

A one-line text of an expression for people to read. Operators stand between their operands inside parentheses; strings stand in
quotes as they are, so the text cannot always be read back.
-/

namespace ExprLang.Expression

open Number

/-- Displayed floats have the digits that read back exactly and always a point or an exponent, the latter below `1e-4` and from
`1e16` on. -/
def floatStyle : FloatStyle where
  format := .binary32
  reads d := BinaryFormat.binary32.nearest d.toFraction
  positional top := -4 ≤ top && top < 16
  wholePoint := true
  plusSign := false
  tie := .up

/-- A float as displayed programs show it. -/
def floatText (x : Float32) : String :=
  let (negative, bits) := bitsOfFloat32 x
  floatStyle.text negative bits

/-- A displayed parameter list. -/
def parameterText (parameters : List String) : String := "(" ++ ", ".intercalate parameters ++ ")"

mutual

/-- The displayed text of an expression. -/
def display : Expression → String
  | .integer v => toString v.toInt
  | .float v => floatText v
  | .boolean v => if v then "true" else "false"
  | .string v => "\"" ++ v ++ "\""
  | .identifier n => n
  | .void => "void"
  | .varDecl n => "var " ++ n
  | .funcDecl n ⟨_, ps, e⟩ => "fun " ++ n ++ parameterText ps ++ " " ++ display e
  | .function ⟨_, ps, e⟩ => "fun" ++ parameterText ps ++ " " ++ display e
  | .closure ⟨_, ps, e⟩ => "closure" ++ parameterText ps ++ " " ++ display e
  | .scope a => "\x7b " ++ display a ++ " \x7d"
  | .sequence as => "; ".intercalate (displayList as)
  | .not a => "(!" ++ display a ++ ")"
  | .binary a op b => "(" ++ display a ++ " " ++ op.symbol ++ " " ++ display b ++ ")"
  | .assign a b => display a ++ " = " ++ display b
  | .call f as => display f ++ "(" ++ ", ".intercalate (displayList as) ++ ")"
  | .conditional a b none => "if " ++ display a ++ " \x7b " ++ display b ++ " \x7d"
  | .conditional a b (some c) =>
    "if " ++ display a ++ " \x7b " ++ display b ++ " \x7d else \x7b " ++ display c ++ " \x7d"
  | .loop a b => "while " ++ display a ++ " \x7b " ++ display b ++ " \x7d"
  | .ret a => "return " ++ display a
  | .print a => "print(" ++ display a ++ ")"
  | .isType a n => "(" ++ display a ++ " is " ++ n ++ ")"
  | .stringLength a => "length(" ++ display a ++ ")"
  | .substring a b c => "substring(" ++ display a ++ ", " ++ display b ++ ", " ++ display c ++ ")"
  | .object fs => "\x7b" ++ ", ".intercalate (displayFields fs) ++ "\x7d"
  | .field a n => display a ++ "." ++ n
termination_by structural e => e

/-- The displayed texts of the items of a list. -/
def displayList : List Expression → List String
  | [] => []
  | a :: as => display a :: displayList as
termination_by structural es => es

/-- The displayed texts of the fields of an object. -/
def displayFields : List (String × Expression) → List String
  | [] => []
  | (n, a) :: fs => (n ++ ": " ++ display a) :: displayFields fs
termination_by structural fs => fs

end

end ExprLang.Expression

namespace ExprLang

/-- The displayed text of a function literal: its parameters and its body. -/
def FunctionLiteral.display (function : FunctionLiteral) : String :=
  Expression.parameterText function.parameters ++ " " ++ function.body.display

end ExprLang
