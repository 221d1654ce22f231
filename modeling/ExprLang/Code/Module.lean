import ExprLang.Code.Frame
import ExprLang.Code.Instruction

/-!
# Modules

The code of a whole program: the definitions of its functions, and the entry, which holds the code outside of all functions.
-/

namespace ExprLang.Code

/-- The code of a program. -/
structure Module where
  /-- The functions in the order in which they were finished. -/
  functions : List Definition
  /-- The code outside of all functions. -/
  entry : Definition
  /-- The frame of that code. -/
  rootFrame : Frame
deriving DecidableEq, Repr

namespace Module

/-- The name of the entry. -/
def entryName : String := "llvm_main"

/-- The first function of a name. -/
def function? (m : Module) (name : String) : Option Definition := m.functions.find? fun d => d.name = name

/-- The layout of data on the machine that modules are made for. -/
def dataLayout : String :=
  "e-p:32:32:32-i1:8:8-i8:8:8-i16:16:16-i32:32:32-i64:32:64-f32:32:32-f64:32:64-v64:64:64-v128:128:128-a0:0:64-f80:32:32"

/-- The lines with which every module begins. -/
def header : String :=
  "target datalayout = \"" ++ dataLayout ++ "\"\n" ++
  "target triple = \"i386-pc-linux-gnu\"\n" ++
  "%eframe = type \x7b%eframe*, i32, [0 x i32]\x7d\n" ++
  "@emptyframe = global %eframe undef\n"

/-- The text of a module. -/
def text (m : Module) : String :=
  header ++ String.join (m.functions.map fun d => d.text ++ "\n") ++ m.entry.text ++ "\n"

end Module

end ExprLang.Code
