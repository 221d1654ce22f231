import ExprLang.Operator

/-!
# Why evaluation fails

Each cause has its constructor; the kind of an error and its message are functions of the cause. A context is the kind of expression
that failed, as the message names it.
-/

namespace ExprLang

/-- Why evaluation fails. -/
inductive EvalError where
  /-- A value of one type stands where another type is needed. -/
  | wrongType (context expected found : String)
  /-- An arithmetic operator does not apply to values of these types. -/
  | notApplicable (op : Arithmetic) (left right : String)
  /-- A comparison does not apply to values of these types. -/
  | notComparable (op : Comparison) (left right : String)
  /-- An operator on strings was given values of these types. -/
  | notStrings (op : Operator) (left right : String)
  /-- A value of this type was called. -/
  | notCallable (found : String)
  /-- A function was called with another number of arguments than it has parameters. -/
  | wrongArity (expected found : Nat)
  /-- A value of this type stands where a name is assigned to. -/
  | notAssignable (found : String)
  /-- A name stands for nothing. -/
  | unbound (name context : String)
  /-- A name stands for a cell that is not handed out; it reads like a name that stands for nothing. -/
  | vanished (name context : String)
  /-- An integer was divided by zero. -/
  | divisionByZero
  /-- A range does not lie within a string of this length. -/
  | outOfRange (start stop : Int32) (length : Nat)
  /-- The length of a string is no integer of 32 bits. -/
  | tooLong
  /-- The program returned outside of a call. -/
  | returnOutsideFunction
  /-- The output took no more text. -/
  | output
deriving DecidableEq, Repr

namespace EvalError

/-- The kind of an error. -/
def kind : EvalError → String
  | .unbound .. | .vanished .. => "UnboundIdentifier"
  | .divisionByZero => "DivisionByZero"
  | .outOfRange .. | .tooLong => "IndexOutOfRange"
  | .returnOutsideFunction => "ReturnOutsideFunction"
  | .output => "Output"
  | _ => "TypeError"

/-- The message about a value of a wrong type. -/
def typeMessage (context problem : String) : String := "type error in " ++ context ++ ": " ++ problem

/-- The message of an error. -/
def message : EvalError → String
  | .wrongType context expected found => typeMessage context ("expected " ++ expected ++ ", got " ++ found)
  | .notApplicable op left right =>
    let op := Operator.arithmetic op
    typeMessage op.name ("cannot apply `" ++ op.symbol ++ "` to " ++ left ++ " and " ++ right)
  | .notComparable op left right =>
    let op := Operator.comparison op
    typeMessage op.name ("cannot compare " ++ left ++ " " ++ op.symbol ++ " " ++ right)
  | .notStrings op left right => typeMessage op.name ("expected two strings, got " ++ left ++ " and " ++ right)
  | .notCallable found => typeMessage "Call" (found ++ " is not callable")
  | .wrongArity expected found =>
    typeMessage "Call" ("expected " ++ toString expected ++ " argument(s), got " ++ toString found)
  | .notAssignable found => typeMessage "Assign" ("cannot assign to " ++ found)
  | .unbound name context | .vanished name context => "unbound identifier `" ++ name ++ "` in " ++ context
  | .divisionByZero => "division by zero in Div"
  | .outOfRange start stop length =>
    "index out of range in Substring: range " ++ toString start.toInt ++ ".." ++ toString stop.toInt ++
      " on a string of length " ++ toString length
  | .tooLong => "index out of range in StringLength: string is too long"
  | .returnOutsideFunction => "return outside of a function"
  | .output => "failed to write program output"

end EvalError

end ExprLang
