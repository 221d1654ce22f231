import ExprLang.Expression.Basic
import ExprLang.Proofs.Json.Grammar

/-!
# The spellings of a program

`Expression.spellings e n` are the texts that stand for `e` with at most `n` brackets open inside one another, those of members that are
passed over not counted. An expression with parts is an object with one member, named for its kind, that holds a record of its parts;
`Void` and operators are their bare name, or an object with one member of that name that holds nothing. The identity of a function
literal is not written, and what is written stands for literals whose identity is zero.
-/

namespace ExprLang

open Json

/-- A name that stands for itself: bare, or as a member that holds nothing. -/
def nameText (name : String) (n : Nat) : Language Char := quoted name + variant name (fun _ => null) n

/-- The spellings of an operator. -/
def Operator.spellings (op : Operator) : Nat → Language Char := nameText op.name

namespace Expression

/-- The spellings of an array of any length. -/
def arrayText (items : Nat → List (Language Char)) : Nat → Language Char := inside fun n => array (items n)

/-- The spellings of a function literal. -/
def functionText (identity : Nat) (parameters : List String) (body : Nat → Language Char) (n : Nat) : Language Char :=
  if identity = 0 then
    record (fun n => [.required "parameters" (arrayText (fun _ => parameters.map quoted) n), .required "body" (body n)]) n
  else 0

/-- The spellings of an expression with parts. -/
def partsText (kind : String) (parts : Nat → List Json.Field) : Nat → Language Char := variant kind (record parts)

mutual

/-- The spellings of an expression with brackets at most so deep. -/
def spellings : Expression → Nat → Language Char
  | .integer v => partsText "Integer" fun _ => [.required "value" (Json.integer v)]
  | .float x => partsText "Float" fun _ => [.required "value" (Json.float x)]
  | .boolean b => partsText "Boolean" fun _ => [.required "value" (Json.boolean b)]
  | .string s => partsText "String" fun _ => [.required "value" (quoted s)]
  | .identifier name => partsText "Identifier" fun _ => [.required "name" (quoted name)]
  | .void => nameText "Void"
  | .varDecl name => partsText "VarDecl" fun _ => [.required "name" (quoted name)]
  | .funcDecl name ⟨i, ps, body⟩ =>
    partsText "FuncDecl" fun n => [.required "name" (quoted name), .required "function" (functionText i ps (spellings body) n)]
  | .function ⟨i, ps, body⟩ => partsText "Function" fun n => [.required "function" (functionText i ps (spellings body) n)]
  | .closure ⟨i, ps, body⟩ => partsText "Closure" fun n => [.required "function" (functionText i ps (spellings body) n)]
  | .scope a => partsText "Scope" fun n => [.required "body" (spellings a n)]
  | .sequence as => partsText "Sequence" fun n => [.required "expressions" (arrayText (spellingsList as) n)]
  | .not a => partsText "Not" fun n => [.required "operand" (spellings a n)]
  | .binary a op b => partsText "Infix" fun n =>
    [.required "left" (spellings a n), .required "operator" (op.spellings n), .required "right" (spellings b n)]
  | .assign a b => partsText "Assign" fun n => [.required "target" (spellings a n), .required "value" (spellings b n)]
  | .call f as => partsText "Call" fun n => [.required "function" (spellings f n), .required "arguments" (arrayText (spellingsList as) n)]
  | .conditional a b none => partsText "If" fun n =>
    [.required "condition" (spellings a n), .required "consequence" (spellings b n), ⟨"alternative", True, null⟩]
  | .conditional a b (some c) => partsText "If" fun n =>
    [.required "condition" (spellings a n), .required "consequence" (spellings b n), .required "alternative" (spellings c n)]
  | .loop a b => partsText "While" fun n => [.required "condition" (spellings a n), .required "body" (spellings b n)]
  | .ret a => partsText "Return" fun n => [.required "value" (spellings a n)]
  | .print a => partsText "Print" fun n => [.required "value" (spellings a n)]
  | .isType a name => partsText "IsType" fun n => [.required "value" (spellings a n), .required "type_name" (quoted name)]
  | .stringLength a => partsText "StringLength" fun n => [.required "value" (spellings a n)]
  | .substring a b c => partsText "Substring" fun n =>
    [.required "value" (spellings a n), .required "start" (spellings b n), .required "end" (spellings c n)]
  | .object fs => partsText "Object" fun n => [.required "fields" (arrayText (spellingsFields fs) n)]
  | .field a name => partsText "Field" fun n => [.required "object" (spellings a n), .required "name" (quoted name)]
termination_by structural e => e

/-- The spellings of the items of a list. -/
def spellingsList : List Expression → Nat → List (Language Char)
  | [], _ => []
  | a :: as, n => spellings a n :: spellingsList as n
termination_by structural es => es

/-- The spellings of the fields of an object: arrays of a name and a value. -/
def spellingsFields : List (String × Expression) → Nat → List (Language Char)
  | [], _ => []
  | (name, a) :: fs, n => arrayText (fun n => [quoted name, spellings a n]) n :: spellingsFields fs n
termination_by structural fs => fs

end

end Expression

end ExprLang
