/-!
# Operators

The operators that stand between two operands. Each has a name, which programs are stored with and error messages use, and a symbol,
which stands in the displayed text of a program.
-/

namespace ExprLang

/-- An operator that computes a number. -/
inductive Arithmetic where
  /-- Sum of numbers, or concatenation of strings. -/
  | add
  /-- Difference of numbers. -/
  | sub
  /-- Product of numbers. -/
  | mul
  /-- Quotient of numbers. -/
  | div
deriving DecidableEq, Repr

/-- An operator that compares numbers. -/
inductive Comparison where
  /-- Equality, also of booleans, strings and voids. -/
  | equal
  /-- Strictly less. -/
  | less
  /-- Strictly greater. -/
  | greater
  /-- Less or equal. -/
  | lessEqual
  /-- Greater or equal. -/
  | greaterEqual
deriving DecidableEq, Repr

/-- An operator between two operands. -/
inductive Operator where
  /-- Computes a number. -/
  | arithmetic (op : Arithmetic)
  /-- Compares numbers. -/
  | comparison (op : Comparison)
  /-- Both hold; the right operand is left alone when the left one is false. -/
  | and
  /-- One of them holds; the right operand is left alone when the left one is true. -/
  | or
  /-- Equality of strings. -/
  | stringEqual
  /-- The order of strings by their characters. -/
  | stringLess
deriving DecidableEq, Repr

namespace Operator

/-- The operators in the order in which messages list them. -/
def all : List Operator :=
  [.arithmetic .add, .arithmetic .sub, .arithmetic .mul, .arithmetic .div, .comparison .equal, .comparison .less,
    .comparison .greater, .comparison .lessEqual, .comparison .greaterEqual, .and, .or, .stringEqual, .stringLess]

/-- The name under which an operator is stored. -/
def name : Operator → String
  | .arithmetic .add => "Add"
  | .arithmetic .sub => "Sub"
  | .arithmetic .mul => "Mult"
  | .arithmetic .div => "Div"
  | .comparison .equal => "Equals"
  | .comparison .less => "LessThan"
  | .comparison .greater => "GreaterThan"
  | .comparison .lessEqual => "LessEq"
  | .comparison .greaterEqual => "GreaterEq"
  | .and => "And"
  | .or => "Or"
  | .stringEqual => "StringEqual"
  | .stringLess => "StringLess"

/-- The operator of a name. -/
def named? (s : String) : Option Operator := all.find? fun op => op.name = s

/-- The symbol that stands for an operator in displayed programs. -/
def symbol : Operator → String
  | .arithmetic .add => "+"
  | .arithmetic .sub => "-"
  | .arithmetic .mul => "*"
  | .arithmetic .div => "/"
  | .comparison .equal => "=="
  | .comparison .less => "<"
  | .comparison .greater => ">"
  | .comparison .lessEqual => "<="
  | .comparison .greaterEqual => ">="
  | .and => "&&"
  | .or => "||"
  | .stringEqual => "eq"
  | .stringLess => "lt"

/-- Whether an operator computes a number. -/
def isArithmetic : Operator → Bool
  | .arithmetic _ => true
  | _ => false

/-- Whether an operator compares numbers. -/
def isComparison : Operator → Bool
  | .comparison _ => true
  | _ => false

end Operator

end ExprLang
