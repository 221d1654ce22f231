import ExprLang.Expression.Reader

/-!
# Programs in files

A program file holds one stored expression as UTF-8 text.
-/

namespace ExprLang

/-- Why a program cannot be loaded. -/
inductive LoadError where
  /-- There is no such file, or it holds no text. -/
  | unreadable (path : String)
  /-- The text is no stored program. -/
  | invalid (reason : Json.ReadError)
deriving DecidableEq, Repr

/-- The message of an error. -/
def LoadError.message : LoadError → String
  | .unreadable path => "failed to read `" ++ path ++ "`"
  | .invalid reason => "invalid program: " ++ reason.message

/-- The operator of a name. -/
def Operator.load (name : String) : Except LoadError Operator :=
  match Operator.named? name with
  | some op => .ok op
  | none => .error (.invalid (.mismatch (.unknownName name (Operator.all.map Operator.name))))

namespace Expression

/-- The program in a text. -/
def load (source : String) : Except LoadError Expression := (parse source).mapError .invalid

/-- The program in a file, given the file's bytes if there is such a file. -/
def loadFile (path : String) (contents : Option ByteArray) : Except LoadError Expression :=
  match contents.bind String.fromUTF8? with
  | some source => load source
  | none => .error (.unreadable path)

end Expression

end ExprLang
