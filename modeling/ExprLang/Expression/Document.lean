import ExprLang.Expression.Basic
import ExprLang.Json.Document

/-!
# Stored programs

The document in which a program is stored: an object with one member, named for the kind of expression, whose value holds the parts
under their names. An operator, and the expression without parts, is its bare name.
-/

namespace ExprLang.Expression

open Json (Document)

/-- An expression with parts. -/
def tagged (name : String) (parts : List (String × Document)) : Document := .object [(name, .object parts)]

/-- A list of names. -/
def nameList (names : List String) : Document := .array (names.map .string)

mutual

/-- The document of an expression. -/
def document : Expression → Document
  | .integer v => tagged "Integer" [("value", .integer v.toInt)]
  | .float v => tagged "Float" [("value", .float v)]
  | .boolean v => tagged "Boolean" [("value", .boolean v)]
  | .string v => tagged "String" [("value", .string v)]
  | .identifier n => tagged "Identifier" [("name", .string n)]
  | .void => .string "Void"
  | .varDecl n => tagged "VarDecl" [("name", .string n)]
  | .funcDecl n ⟨_, ps, e⟩ =>
    tagged "FuncDecl" [("name", .string n), ("function", .object [("parameters", nameList ps), ("body", document e)])]
  | .function ⟨_, ps, e⟩ => tagged "Function" [("function", .object [("parameters", nameList ps), ("body", document e)])]
  | .closure ⟨_, ps, e⟩ => tagged "Closure" [("function", .object [("parameters", nameList ps), ("body", document e)])]
  | .scope a => tagged "Scope" [("body", document a)]
  | .sequence as => tagged "Sequence" [("expressions", .array (documentList as))]
  | .not a => tagged "Not" [("operand", document a)]
  | .binary a op b => tagged "Infix" [("left", document a), ("operator", .string op.name), ("right", document b)]
  | .assign a b => tagged "Assign" [("target", document a), ("value", document b)]
  | .call f as => tagged "Call" [("function", document f), ("arguments", .array (documentList as))]
  | .conditional a b none =>
    tagged "If" [("condition", document a), ("consequence", document b), ("alternative", .null)]
  | .conditional a b (some c) =>
    tagged "If" [("condition", document a), ("consequence", document b), ("alternative", document c)]
  | .loop a b => tagged "While" [("condition", document a), ("body", document b)]
  | .ret a => tagged "Return" [("value", document a)]
  | .print a => tagged "Print" [("value", document a)]
  | .isType a n => tagged "IsType" [("value", document a), ("type_name", .string n)]
  | .stringLength a => tagged "StringLength" [("value", document a)]
  | .substring a b c => tagged "Substring" [("value", document a), ("start", document b), ("end", document c)]
  | .object fs => tagged "Object" [("fields", .array (documentFields fs))]
  | .field a n => tagged "Field" [("object", document a), ("name", .string n)]
termination_by structural e => e

/-- The documents of the items of a list. -/
def documentList : List Expression → List Document
  | [] => []
  | a :: as => document a :: documentList as
termination_by structural es => es

/-- The documents of the fields of an object: pairs of a name and a value. -/
def documentFields : List (String × Expression) → List Document
  | [] => []
  | (n, a) :: fs => .array [.string n, document a] :: documentFields fs
termination_by structural fs => fs

end

/-- The text in which a program is stored. -/
def stored (e : Expression) : String := e.document.text

end ExprLang.Expression
