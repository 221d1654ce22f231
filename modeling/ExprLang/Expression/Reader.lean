import ExprLang.Expression.Basic
import ExprLang.Json.Record

/-!
# Reading programs

`Expression.parse` reads a stored program. What each kind of expression holds is a table, `Expression.forms`; the reader follows it.
Brackets may be open at most 127 deep where something is read; what is passed over may be deeper.
-/

namespace ExprLang.Expression

open Json (Reader Row ReadError)

/-- The kinds of parts an expression has. -/
inductive Part where
  /-- An integer. -/
  | integer
  /-- A float. -/
  | float
  /-- A truth value. -/
  | boolean
  /-- A string. -/
  | text
  /-- An operator. -/
  | operator
  /-- An expression. -/
  | expression
  /-- An expression that may be left out. -/
  | optional
  /-- Any number of expressions. -/
  | expressions
  /-- Any number of named expressions. -/
  | fields
  /-- A function literal. -/
  | function
deriving DecidableEq, Repr

/-- The values of a kind of part. -/
abbrev Part.Denotes : Part → Type
  | .integer => Int32
  | .float => Float32
  | .boolean => Bool
  | .text => String
  | .operator => Operator
  | .expression => Expression
  | .optional => Option Expression
  | .expressions => List Expression
  | .fields => List (String × Expression)
  | .function => FunctionLiteral

/-- The parts of a function literal. -/
inductive LiteralPart where
  /-- The names of the parameters. -/
  | parameters
  /-- The body. -/
  | body
deriving DecidableEq, Repr

/-- The values of a part of a function literal. -/
abbrev LiteralPart.Denotes : LiteralPart → Type
  | .parameters => List String
  | .body => Expression

/-- Reads a part of a function literal. -/
def LiteralPart.read (fuel : Nat) (expression : Reader Expression) : (part : LiteralPart) → Reader part.Denotes
  | .parameters => Reader.list fuel Reader.text
  | .body => expression

/-- Reads a function literal. -/
def readFunction (fuel : Nat) (expression : Reader Expression) : Reader FunctionLiteral := do
  let (parameters, body, ()) ← Reader.record fuel "struct FunctionLiteral" (LiteralPart.read fuel expression)
    (fun _ => none) [("parameters", .parameters), ("body", .body)]
  return ⟨0, parameters, body⟩

/-- Reads an operator: its name, or an object of one member of that name without a value. -/
def readOperator : Reader Operator :=
  Reader.choice (Operator.all.map fun op => (op.name, op)) (fun op => .ok op) fun op => do
    Reader.unit
    return op

/-- Reads a part. -/
def Part.read (fuel : Nat) (expression : Reader Expression) : (part : Part) → Reader part.Denotes
  | .integer => Reader.int32
  | .float => Reader.float32
  | .boolean => Reader.boolean
  | .text => Reader.text
  | .operator => readOperator
  | .expression => expression
  | .optional => Reader.optional expression
  | .expressions => Reader.list fuel expression
  | .fields => Reader.list fuel (Reader.pair Reader.text expression)
  | .function => readFunction fuel expression

/-- The value of a part that is left out, where one may be. -/
def Part.absent : (part : Part) → Option part.Denotes
  | .optional => some none
  | _ => none

/-- What an expression of one kind holds. -/
inductive Form where
  /-- Nothing; there is one such expression. -/
  | bare (value : Expression)
  /-- Parts, from which the expression is made. -/
  | record (parts : List (String × Part)) (make : Row Part.Denotes parts → Expression)

/-- The kinds of expressions by name, in the order in which messages list them. -/
def forms : List (String × Form) := [
  ("Integer", .record [("value", .integer)] fun (v, ()) => .integer v),
  ("Float", .record [("value", .float)] fun (v, ()) => .float v),
  ("Boolean", .record [("value", .boolean)] fun (v, ()) => .boolean v),
  ("String", .record [("value", .text)] fun (v, ()) => .string v),
  ("Identifier", .record [("name", .text)] fun (n, ()) => .identifier n),
  ("Void", .bare .void),
  ("VarDecl", .record [("name", .text)] fun (n, ()) => .varDecl n),
  ("FuncDecl", .record [("name", .text), ("function", .function)] fun (n, f, ()) => .funcDecl n f),
  ("Function", .record [("function", .function)] fun (f, ()) => .function f),
  ("Closure", .record [("function", .function)] fun (f, ()) => .closure f),
  ("Scope", .record [("body", .expression)] fun (a, ()) => .scope a),
  ("Sequence", .record [("expressions", .expressions)] fun (as, ()) => .sequence as),
  ("Not", .record [("operand", .expression)] fun (a, ()) => .not a),
  ("Infix", .record [("left", .expression), ("operator", .operator), ("right", .expression)]
    fun (a, op, b, ()) => .binary a op b),
  ("Assign", .record [("target", .expression), ("value", .expression)] fun (a, b, ()) => .assign a b),
  ("Call", .record [("function", .expression), ("arguments", .expressions)] fun (f, as, ()) => .call f as),
  ("If", .record [("condition", .expression), ("consequence", .expression), ("alternative", .optional)]
    fun (a, b, c, ()) => .conditional a b c),
  ("While", .record [("condition", .expression), ("body", .expression)] fun (a, b, ()) => .loop a b),
  ("Return", .record [("value", .expression)] fun (a, ()) => .ret a),
  ("Print", .record [("value", .expression)] fun (a, ()) => .print a),
  ("IsType", .record [("value", .expression), ("type_name", .text)] fun (a, n, ()) => .isType a n),
  ("StringLength", .record [("value", .expression)] fun (a, ()) => .stringLength a),
  ("Substring", .record [("value", .expression), ("start", .expression), ("end", .expression)]
    fun (a, b, c, ()) => .substring a b c),
  ("Object", .record [("fields", .fields)] fun (fs, ()) => .object fs),
  ("Field", .record [("object", .expression), ("name", .text)] fun (a, n, ()) => .field a n)]

/-- The expression of a kind that is written as a bare name. -/
def Form.ofBareName : String × Form → Except ReadError Expression
  | (_, .bare value) => .ok value
  | (_, .record ..) => .error (.mismatch (.wrongType .bareName "struct variant"))

/-- Reads what an expression of a kind holds. -/
def Form.read (fuel : Nat) (expression : Reader Expression) : String × Form → Reader Expression
  | (_, .bare value) => do
    Reader.unit
    return value
  | (name, .record parts make) => do
    return make (← Reader.record fuel ("struct variant Expression::" ++ name) (Part.read fuel expression) Part.absent parts)

/-- Reads an expression in a text of fewer than `fuel` characters. -/
def reader : (fuel : Nat) → Reader Expression
  | 0 => Reader.fail .malformed
  | fuel + 1 =>
    Reader.choice (forms.map fun form => (form.1, form)) Form.ofBareName (Form.read fuel (reader fuel))

/-- How many brackets may be open inside one another. -/
def maxDepth : Nat := 127

/-- Reads a stored program. -/
def parse (source : String) : Except ReadError Expression := (reader (source.length + 1)).run maxDepth source

end ExprLang.Expression
