import ExprLang.Value.Basic
import ExprLang.Evaluation.Error

/-!
# Operations on values

What operators and built-in functions compute from resolved values. Integers are of 32 bits and wrap around; an integer beside a
float counts as the nearest float. No comparison holds of a float that is no number.
-/

namespace ExprLang

namespace Arithmetic

/-- An operator on integers, which wraps around; only division by zero fails. -/
def onIntegers (op : Arithmetic) (a b : Int32) : Except EvalError Int32 :=
  match op with
  | add => .ok (a + b)
  | sub => .ok (a - b)
  | mul => .ok (a * b)
  | div => if b = 0 then .error .divisionByZero else .ok (a / b)

/-- An operator on floats. -/
def onFloats (op : Arithmetic) (a b : Float32) : Float32 :=
  match op with
  | add => a + b
  | sub => a - b
  | mul => a * b
  | div => a / b

/-- An arithmetic operator on values. Strings can be added, which joins them. -/
def apply (op : Arithmetic) (left right : Value) : Except EvalError Value :=
  match left, right with
  | .int a, .int b => (op.onIntegers a b).map .int
  | .int a, .float b => .ok (.float (op.onFloats (Value.floatOfInt a) b))
  | .float a, .int b => .ok (.float (op.onFloats a (Value.floatOfInt b)))
  | .float a, .float b => .ok (.float (op.onFloats a b))
  | .string a, .string b =>
    if op = add then .ok (.string (a ++ b)) else .error (.notApplicable op left.typeName right.typeName)
  | _, _ => .error (.notApplicable op left.typeName right.typeName)

end Arithmetic

/-- How two integers compare. -/
def compareIntegers (a b : Int32) : Ordering := if a < b then .lt else if a = b then .eq else .gt

/-- How two floats compare, if they do. -/
def compareFloats (a b : Float32) : Option Ordering :=
  if a < b then some .lt else if b < a then some .gt else if a == b then some .eq else none

namespace Comparison

/-- Whether a comparison holds of numbers that compare like this. -/
def holds (op : Comparison) (ordering : Ordering) : Bool :=
  match op with
  | equal => ordering == .eq
  | less => ordering == .lt
  | greater => ordering == .gt
  | lessEqual => ordering != .gt
  | greaterEqual => ordering != .lt

/-- Whether a comparison holds of floats. -/
def onFloats (op : Comparison) (a b : Float32) : Bool := ((compareFloats a b).map op.holds).getD false

/-- A comparison of values. Booleans, strings, names and voids can be tested for equality. -/
def apply (op : Comparison) (left right : Value) : Except EvalError Bool :=
  match left, right with
  | .int a, .int b => .ok (op.holds (compareIntegers a b))
  | .int a, .float b => .ok (op.onFloats (Value.floatOfInt a) b)
  | .float a, .int b => .ok (op.onFloats a (Value.floatOfInt b))
  | .float a, .float b => .ok (op.onFloats a b)
  | left, right =>
    let mismatch : Except EvalError Bool := .error (.notComparable op left.typeName right.typeName)
    if op = equal then
      match left, right with
      | .bool a, .bool b => .ok (a == b)
      | .string a, .string b => .ok (a == b)
      | .id a, .id b => .ok (a == b)
      | .void, .void => .ok true
      | _, _ => mismatch
    else mismatch

end Comparison

namespace Value

/-- Compares two strings. -/
def compareStrings (op : Operator) (test : String → String → Bool) (left right : Value) : Except EvalError Bool :=
  match left, right with
  | .string a, .string b => .ok (test a b)
  | _, _ => .error (.notStrings op left.typeName right.typeName)

/-- The truth value that a value must be. -/
def expectBool (context : String) : Value → Except EvalError Bool
  | .bool b => .ok b
  | v => .error (.wrongType context "Bool" v.typeName)

/-- The string that a value must be. -/
def expectString (context : String) : Value → Except EvalError String
  | .string s => .ok s
  | v => .error (.wrongType context "String" v.typeName)

/-- The integer that a value must be. -/
def expectInt (context : String) : Value → Except EvalError Int32
  | .int n => .ok n
  | v => .error (.wrongType context "Int" v.typeName)

/-- The number of characters of a string. -/
def stringLength (v : Value) : Except EvalError Value := do
  let s ← v.expectString "StringLength"
  if s.length ≤ Int32.maxValue.toInt then return .int (Int32.ofNat s.length) else throw .tooLong

/-- The characters of a string from `start` up to but not including `stop`. -/
def substring (v start stop : Value) : Except EvalError Value := do
  let s ← v.expectString "Substring"
  let i ← start.expectInt "Substring"
  let j ← stop.expectInt "Substring"
  if 0 ≤ i.toInt ∧ i.toInt ≤ j.toInt ∧ j.toInt ≤ s.length then
    return .string (String.ofList ((s.toList.drop i.toInt.toNat).take (j.toInt - i.toInt).toNat))
  else throw (.outOfRange i j s.length)

/-- A field of a record. -/
def field (v : Value) (name : String) : Except EvalError Value :=
  match v with
  | .object fields =>
    match fields.lookup name with
    | some value => .ok value
    | none => .error (.unbound name "Field")
  | v => .error (.wrongType "Field" "PlainObject" v.typeName)

end Value

end ExprLang
