import ExprLang.Operator

/-!
# Expressions

A program is one expression. The interpreter evaluates it and the code generator lowers it, both case by case over the constructors
below. Functions are data of the tree: two literals at different places of a program are different functions even if they read the
same, so each literal carries an identity. A reader leaves every identity at zero and `Expression.distinguish` hands out different
ones; no text shows an identity and `==` ignores it.
-/

namespace ExprLang

/-- Parameters and a body of type `β`, together with what tells this literal from others that read the same. -/
structure Abstraction (β : Type) where
  /-- Tells literals apart that stand at different places. -/
  identity : Nat
  /-- The names of the parameters. -/
  parameters : List String
  /-- What a call evaluates. -/
  body : β

/-- A program, or a part of one. -/
inductive Expression where
  /-- An integer. -/
  | integer (value : Int32)
  /-- A floating-point number. -/
  | float (value : Float32)
  /-- A truth value. -/
  | boolean (value : Bool)
  /-- A string. -/
  | string (value : String)
  /-- A name, left unresolved until its value is needed. -/
  | identifier (name : String)
  /-- No value. -/
  | void
  /-- Declares a name. -/
  | varDecl (name : String)
  /-- Declares a name for a function. -/
  | funcDecl (name : String) (function : Abstraction Expression)
  /-- A function whose body sees the names of its caller. -/
  | function (function : Abstraction Expression)
  /-- A function whose body sees the names known where it was made. -/
  | closure (function : Abstraction Expression)
  /-- A block: what it declares ends with it. -/
  | scope (body : Expression)
  /-- Expressions one after the other; the last one counts. -/
  | sequence (expressions : List Expression)
  /-- Negation. -/
  | not (operand : Expression)
  /-- An operator between two operands. -/
  | binary (left : Expression) (operator : Operator) (right : Expression)
  /-- Gives a name a new value. -/
  | assign (target value : Expression)
  /-- Calls a function. -/
  | call (function : Expression) (arguments : List Expression)
  /-- A choice; without an alternative the other outcome is no value. -/
  | conditional (condition consequence : Expression) (alternative : Option Expression)
  /-- Repeats the body as long as the condition holds. -/
  | loop (condition body : Expression)
  /-- Ends the call that is running. -/
  | ret (value : Expression)
  /-- Prints a line. -/
  | print (value : Expression)
  /-- Whether a value has a type. -/
  | isType (value : Expression) (typeName : String)
  /-- The number of characters of a string. -/
  | stringLength (value : Expression)
  /-- The characters of a string from `start` up to but not including `stop`. -/
  | substring (value start stop : Expression)
  /-- A record of named fields. -/
  | object (fields : List (String × Expression))
  /-- One field of a record. -/
  | field (object : Expression) (name : String)

/-- A function literal. -/
abbrev FunctionLiteral := Abstraction Expression

namespace Expression

/-- Declares a name with a first value. -/
def declare (name : String) (value : Expression) : Expression := .assign (.varDecl name) value

/-- What kind of expression this is, as messages name it; an operator goes by its own name. -/
def kind : Expression → String
  | .integer _ => "Integer"
  | .float _ => "Float"
  | .boolean _ => "Boolean"
  | .string _ => "String"
  | .identifier _ => "Identifier"
  | .void => "Void"
  | .varDecl _ => "VarDecl"
  | .funcDecl .. => "FuncDecl"
  | .function _ => "Function"
  | .closure _ => "Closure"
  | .scope _ => "Scope"
  | .sequence _ => "Sequence"
  | .not _ => "Not"
  | .binary _ op _ => op.name
  | .assign .. => "Assign"
  | .call .. => "Call"
  | .conditional .. => "If"
  | .loop .. => "While"
  | .ret _ => "Return"
  | .print _ => "Print"
  | .isType .. => "IsType"
  | .stringLength _ => "StringLength"
  | .substring .. => "Substring"
  | .object _ => "Object"
  | .field .. => "Field"

mutual

/-- Equality of form: floats are equal as numbers, and identities of literals do not count. -/
def beq : Expression → Expression → Bool
  | .integer a, .integer b => a == b
  | .float a, .float b => a == b
  | .boolean a, .boolean b => a == b
  | .string a, .string b => a == b
  | .identifier a, .identifier b => a == b
  | .void, .void => true
  | .varDecl a, .varDecl b => a == b
  | .funcDecl n ⟨_, ps, e⟩, .funcDecl m ⟨_, qs, f⟩ => n == m && ps == qs && beq e f
  | .function ⟨_, ps, e⟩, .function ⟨_, qs, f⟩ => ps == qs && beq e f
  | .closure ⟨_, ps, e⟩, .closure ⟨_, qs, f⟩ => ps == qs && beq e f
  | .scope a, .scope b => beq a b
  | .sequence as, .sequence bs => beqList as bs
  | .not a, .not b => beq a b
  | .binary a op b, .binary c oq d => beq a c && op == oq && beq b d
  | .assign a b, .assign c d => beq a c && beq b d
  | .call f as, .call g bs => beq f g && beqList as bs
  | .conditional a b none, .conditional c d none => beq a c && beq b d
  | .conditional a b (some e), .conditional c d (some f) => beq a c && beq b d && beq e f
  | .loop a b, .loop c d => beq a c && beq b d
  | .ret a, .ret b => beq a b
  | .print a, .print b => beq a b
  | .isType a n, .isType b m => beq a b && n == m
  | .stringLength a, .stringLength b => beq a b
  | .substring a b c, .substring d e f => beq a d && beq b e && beq c f
  | .object as, .object bs => beqFields as bs
  | .field a n, .field b m => beq a b && n == m
  | _, _ => false
termination_by structural e => e

/-- Equality of form, item by item. -/
def beqList : List Expression → List Expression → Bool
  | [], [] => true
  | a :: as, b :: bs => beq a b && beqList as bs
  | _, _ => false
termination_by structural es => es

/-- Equality of form of fields in their order. -/
def beqFields : List (String × Expression) → List (String × Expression) → Bool
  | [], [] => true
  | (n, a) :: as, (m, b) :: bs => n == m && beq a b && beqFields as bs
  | _, _ => false
termination_by structural fs => fs

end

instance : BEq Expression := ⟨beq⟩

/-- The next identity. -/
def fresh : StateM Nat Nat := modifyGet fun next => (next, next + 1)

mutual

/-- Gives the literals of an expression the identities counted by the state, outer literals first. -/
def distinguish : Expression → StateM Nat Expression
  | .funcDecl n ⟨_, ps, e⟩ => do let i ← fresh; return .funcDecl n ⟨i, ps, ← distinguish e⟩
  | .function ⟨_, ps, e⟩ => do let i ← fresh; return .function ⟨i, ps, ← distinguish e⟩
  | .closure ⟨_, ps, e⟩ => do let i ← fresh; return .closure ⟨i, ps, ← distinguish e⟩
  | .scope a => return .scope (← distinguish a)
  | .sequence as => return .sequence (← distinguishList as)
  | .not a => return .not (← distinguish a)
  | .binary a op b => return .binary (← distinguish a) op (← distinguish b)
  | .assign a b => return .assign (← distinguish a) (← distinguish b)
  | .call f as => return .call (← distinguish f) (← distinguishList as)
  | .conditional a b none => return .conditional (← distinguish a) (← distinguish b) none
  | .conditional a b (some c) => return .conditional (← distinguish a) (← distinguish b) (some (← distinguish c))
  | .loop a b => return .loop (← distinguish a) (← distinguish b)
  | .ret a => return .ret (← distinguish a)
  | .print a => return .print (← distinguish a)
  | .isType a n => return .isType (← distinguish a) n
  | .stringLength a => return .stringLength (← distinguish a)
  | .substring a b c => return .substring (← distinguish a) (← distinguish b) (← distinguish c)
  | .object fs => return .object (← distinguishFields fs)
  | .field a n => return .field (← distinguish a) n
  | leaf => return leaf
termination_by structural e => e

/-- `distinguish` along a list. -/
def distinguishList : List Expression → StateM Nat (List Expression)
  | [] => return []
  | a :: as => return (← distinguish a) :: (← distinguishList as)
termination_by structural es => es

/-- `distinguish` along the fields of an object. -/
def distinguishFields : List (String × Expression) → StateM Nat (List (String × Expression))
  | [] => return []
  | (n, a) :: fs => return (n, ← distinguish a) :: (← distinguishFields fs)
termination_by structural fs => fs

end

end Expression

end ExprLang
