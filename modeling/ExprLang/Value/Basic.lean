import ExprLang.Expression.Basic
import ExprLang.Number.Literal
import ExprLang.Number.Style

/-!
# Values

What expressions evaluate to. A name is a value too until it is resolved. Functions are equal when they come from one literal, and
closures when they were made by one evaluation; a closure is known by its number, under which the interpreter keeps its literal and
its environment.
-/

namespace ExprLang

open Number

/-- A value. -/
inductive Value where
  /-- An integer of 32 bits. -/
  | int (value : Int32)
  /-- A float of 32 bits. -/
  | float (value : Float32)
  /-- A truth value. -/
  | bool (value : Bool)
  /-- A name that is not resolved yet. -/
  | id (name : String)
  /-- A string. -/
  | string (value : String)
  /-- The closure of this number. -/
  | closure (number : Nat)
  /-- A function that sees the names of its caller. -/
  | function (literal : FunctionLiteral)
  /-- A record; each name once, the names in the order of their characters. -/
  | object (fields : List (String × Value))
  /-- No value. -/
  | void

namespace Value

/-- The name of a value's type. -/
def typeName : Value → String
  | .int _ => "Int"
  | .float _ => "Float"
  | .bool _ => "Bool"
  | .id _ => "Id"
  | .string _ => "String"
  | .closure _ => "Closure"
  | .function _ => "Function"
  | .object _ => "PlainObject"
  | .void => "Void"

/-- Floats that are values are written out in full with the digits that read back exactly, and without a point if they are whole. -/
def floatStyle : FloatStyle where
  format := .binary32
  reads d := BinaryFormat.binary32.nearest d.toFraction
  positional _ := true
  wholePoint := false
  plusSign := false
  tie := .up

/-- The text of a float. -/
def floatText (x : Float32) : String :=
  let (negative, bits) := bitsOfFloat32 x
  floatStyle.text negative bits

mutual

/-- The displayed text of a value: strings stand in quotes, and nothing is shown of functions. -/
def display : Value → String
  | .int v => toString v.toInt
  | .float v => floatText v
  | .bool v => if v then "true" else "false"
  | .id name => name
  | .string v => "\"" ++ v ++ "\""
  | .closure _ => "<closure>"
  | .function _ => "<function>"
  | .object fields => "\x7b" ++ ", ".intercalate (displayFields fields) ++ "\x7d"
  | .void => "void"
termination_by structural v => v

/-- The displayed texts of fields. -/
def displayFields : List (String × Value) → List String
  | [] => []
  | (name, v) :: rest => (name ++ ": " ++ display v) :: displayFields rest
termination_by structural fields => fields

end

/-- The text that is printed for a value: that of a string is the string itself. -/
def text : Value → String
  | .string v => v
  | v => v.display

/-- The truth value that a value is, if it is one. -/
def asBool : Value → Option Bool
  | .bool v => some v
  | _ => none

mutual

/-- Equality of values: floats as numbers, functions by their literal's identity, closures by their number. -/
def beq : Value → Value → Bool
  | .int a, .int b => a == b
  | .float a, .float b => a == b
  | .bool a, .bool b => a == b
  | .id a, .id b => a == b
  | .string a, .string b => a == b
  | .closure a, .closure b => a == b
  | .function a, .function b => a.identity == b.identity
  | .object as, .object bs => beqFields as bs
  | .void, .void => true
  | _, _ => false
termination_by structural v => v

/-- Equality of fields in their order. -/
def beqFields : List (String × Value) → List (String × Value) → Bool
  | [], [] => true
  | (n, a) :: as, (m, b) :: bs => n == m && beq a b && beqFields as bs
  | _, _ => false
termination_by structural fields => fields

end

instance : BEq Value := ⟨beq⟩

/-- Sets a field, in a list of fields whose names are in order. -/
def setField (name : String) (value : Value) : List (String × Value) → List (String × Value)
  | [] => [(name, value)]
  | (n, v) :: rest =>
    if name < n then (name, value) :: (n, v) :: rest
    else if name = n then (name, value) :: rest
    else (n, v) :: setField name value rest

/-- The record of these fields; of two fields of one name the later one counts. -/
def ofFields (fields : List (String × Value)) : Value :=
  .object (fields.foldl (fun object field => setField field.1 field.2 object) [])

/-- The float nearest to an integer. -/
def floatOfInt (n : Int32) : Float32 := (Numeral.integer n.toInt).toFloat32

end Value

end ExprLang
