import ExprLang.Code.Module
import ExprLang.Expression.Basic

/-!
# Functions and calls of a program

Which functions a program declares, and whom it calls with how many arguments, can be read off the program without lowering it
(`declarations`, `calls`). Calls are counted where they are made: those in the body of a function belong to that function and not to
the expression that declares it. A program is linked if all of its calls are resolved by the functions that it declares (`Linked`).
-/

namespace ExprLang

open Code

namespace Expression

mutual

/-- The functions that are declared in an expression, each behind those that are declared inside of it. -/
def declarations : Expression → List (String × FunctionLiteral)
  | .integer _ | .float _ | .boolean _ | .string _ | .identifier _ | .void | .varDecl _ => []
  | .funcDecl name ⟨identity, parameters, body⟩ => declarations body ++ [(name, ⟨identity, parameters, body⟩)]
  | .function ⟨_, _, body⟩ | .closure ⟨_, _, body⟩ => declarations body
  | .scope a | .not a | .ret a | .print a | .isType a _ | .stringLength a | .field a _ => declarations a
  | .sequence as => declarationsOfAll as
  | .binary a _ b | .assign a b | .loop a b | .conditional a b none => declarations a ++ declarations b
  | .conditional a b (some c) | .substring a b c => declarations a ++ (declarations b ++ declarations c)
  | .call f as => declarations f ++ declarationsOfAll as
  | .object fs => declarationsOfFields fs
termination_by structural e => e

/-- The functions that are declared in expressions one after the other. -/
def declarationsOfAll : List Expression → List (String × FunctionLiteral)
  | [] => []
  | a :: rest => declarations a ++ declarationsOfAll rest
termination_by structural es => es

/-- The functions that are declared in the fields of a record. -/
def declarationsOfFields : List (String × Expression) → List (String × FunctionLiteral)
  | [] => []
  | (_, a) :: rest => declarations a ++ declarationsOfFields rest
termination_by structural fs => fs

end

mutual

/-- The calls in an expression outside of the functions inside of it, each behind those in its arguments: the name that is called and
the number of arguments. -/
def calls : Expression → List (String × Nat)
  | .integer _ | .float _ | .boolean _ | .string _ | .identifier _ | .void | .varDecl _ => []
  | .funcDecl .. | .function _ | .closure _ => []
  | .scope a | .not a | .ret a | .print a | .isType a _ | .stringLength a | .field a _ => calls a
  | .sequence as => callsOfAll as
  | .binary a _ b | .assign a b | .loop a b | .conditional a b none => calls a ++ calls b
  | .conditional a b (some c) | .substring a b c => calls a ++ (calls b ++ calls c)
  | .call (.identifier name) as => callsOfAll as ++ [(name, as.length)]
  | .call f as => calls f ++ callsOfAll as
  | .object fs => callsOfFields fs
termination_by structural e => e

/-- The calls in expressions one after the other. -/
def callsOfAll : List Expression → List (String × Nat)
  | [] => []
  | a :: rest => calls a ++ callsOfAll rest
termination_by structural es => es

/-- The calls in the fields of a record. -/
def callsOfFields : List (String × Expression) → List (String × Nat)
  | [] => []
  | (_, a) :: rest => calls a ++ callsOfFields rest
termination_by structural fs => fs

end

end Expression

/-- Exactly one of the signatures has the name that is called, and it has as many parameters as the call has arguments. -/
def Resolves (signatures : List (String × Nat)) (call : String × Nat) : Prop := signatures.filter (fun s => s.1 = call.1) = [call]

instance (signatures : List (String × Nat)) (call : String × Nat) : Decidable (Resolves signatures call) :=
  inferInstanceAs (Decidable (_ = _))

namespace Expression

/-- The names that a program defines, with the numbers of their parameters: those of the functions it declares, and the entry. -/
def signatures (program : Expression) : List (String × Nat) :=
  program.declarations.map (fun f => (f.1, f.2.parameters.length)) ++ [(Module.entryName, 0)]

/-- All calls of a program, those in the bodies of its functions included. -/
def allCalls (program : Expression) : List (String × Nat) :=
  program.declarations.flatMap (fun f => f.2.body.calls) ++ program.calls

/-- Every call of a program names exactly one of the names that it defines, with the right number of arguments. -/
def Linked (program : Expression) : Prop := ∀ call ∈ program.allCalls, Resolves program.signatures call

instance (program : Expression) : Decidable program.Linked := inferInstanceAs (Decidable (∀ _ ∈ _, _))

end Expression

end ExprLang
