/-!
# Instructions

The instructions of the intermediate code, as data, and their text. Registers are numbered and are written once; named operands are
the parameters of the function around; labels are numbered within a function.
-/

namespace ExprLang.Code

/-- What an instruction works on. -/
inductive Operand where
  /-- The value of a register. -/
  | register (number : Nat)
  /-- The value of a parameter. -/
  | named (name : String)
  /-- A constant. -/
  | constant (value : Int32)
deriving DecidableEq, Repr

/-- Ways to shift bits. -/
inductive Shift where
  /-- To the left. -/
  | left
  /-- To the right, filling with zeros. -/
  | logical
  /-- To the right, filling with the sign. -/
  | signed
deriving DecidableEq, Repr

/-- Ways to compare integers. -/
inductive Predicate where
  /-- Equal. -/
  | equal
  /-- Greater, as signed integers. -/
  | greater
  /-- Greater or equal, as signed integers. -/
  | greaterEqual
  /-- Less, as signed integers. -/
  | less
  /-- Less or equal, as signed integers. -/
  | lessEqual
deriving DecidableEq, Repr

/-- Operations on two integers. -/
inductive BinaryOp where
  /-- Sum. -/
  | add
  /-- Difference. -/
  | sub
  /-- Product. -/
  | mul
  /-- Quotient of signed integers. -/
  | sdiv
  /-- Quotient of unsigned integers. -/
  | udiv
deriving DecidableEq, Repr

/-- An instruction. -/
inductive Instruction where
  /-- Reads a cell. -/
  | load (dest pointer : Nat)
  /-- Writes a cell. -/
  | store (value : Operand) (pointer : Nat)
  /-- Makes a cell or a frame of a type. -/
  | malloc (dest : Nat) (type : String)
  /-- Computes with two integers. -/
  | binary (op : BinaryOp) (dest : Nat) (left right : Operand)
  /-- Shifts an integer. -/
  | shift (dest : Nat) (op : Shift) (value : Operand) (amount : Nat)
  /-- Compares two integers. -/
  | compare (dest : Nat) (predicate : Predicate) (left right : Operand)
  /-- Goes on at a label; with a condition, at `target` if it holds and else at `otherwise`. -/
  | branch (condition : Option Nat) (target : Nat) (otherwise : Option Nat)
  /-- A place to go on at. -/
  | label (number : Nat)
  /-- The address of a slot of a frame. -/
  | slotAddress (dest frame : Nat) (slot : Nat)
  /-- Calls a function. -/
  | call (dest : Nat) (function : String) (arguments : List Operand)
  /-- Takes a value of one type as one of another. -/
  | bitcast (dest : Nat) (source : String) (value : Nat) (type : String)
  /-- Ends the function. -/
  | ret (value : Operand)
deriving DecidableEq, Repr

/-- The text of a register. -/
def registerText (register : Nat) : String := "%r" ++ toString register

/-- The text of a label where it is gone to. -/
def labelText (label : Nat) : String := "label_" ++ toString label

/-- The text of an operand. -/
def Operand.text : Operand → String
  | register r => registerText r
  | named name => "%" ++ name
  | constant value => toString value.toInt

/-- The word for a way to shift. -/
def Shift.mnemonic : Shift → String
  | left => "shl"
  | logical => "lshr"
  | signed => "ashr"

/-- The word for a way to compare. -/
def Predicate.mnemonic : Predicate → String
  | equal => "eq"
  | greater => "sgt"
  | greaterEqual => "sge"
  | less => "slt"
  | lessEqual => "sle"

/-- The word for an operation. -/
def BinaryOp.mnemonic : BinaryOp → String
  | add => "add"
  | sub => "sub"
  | mul => "mul"
  | sdiv => "sdiv"
  | udiv => "udiv"

namespace Instruction

/-- The register that an instruction writes, if it writes one. -/
def dest? : Instruction → Option Nat
  | load dest _ | malloc dest _ | binary _ dest .. | shift dest .. | compare dest .. | slotAddress dest .. | call dest ..
  | bitcast dest .. => some dest
  | store .. | branch .. | label _ | ret _ => none

/-- Whether an instruction is a label. -/
def isLabel : Instruction → Bool
  | label _ => true
  | _ => false

/-- Whether an instruction ends a block. -/
def isTerminator : Instruction → Bool
  | branch .. | ret _ => true
  | _ => false

/-- An instruction that writes a register. -/
def assignment (dest : Nat) (operation : String) : String := registerText dest ++ " = " ++ operation

/-- The text of an instruction. -/
def text : Instruction → String
  | load dest pointer => assignment dest ("load i32* " ++ registerText pointer)
  | store value pointer => "store i32 " ++ value.text ++ ", i32* " ++ registerText pointer
  | malloc dest type => assignment dest ("malloc " ++ type)
  | binary op dest left right => assignment dest (op.mnemonic ++ " i32 " ++ left.text ++ ", " ++ right.text)
  | shift dest op value amount =>
    assignment dest (op.mnemonic ++ " i32 " ++ value.text ++ ", " ++ toString amount)
  | compare dest predicate left right =>
    assignment dest ("icmp " ++ predicate.mnemonic ++ " i32 " ++ left.text ++ ", " ++ right.text)
  | branch (some condition) target otherwise =>
    "br i1 " ++ registerText condition ++ ", label %" ++ labelText target ++ ", label %" ++
      labelText (otherwise.getD target)
  | branch none target _ => "br label %" ++ labelText target
  | label l => labelText l ++ ":"
  | slotAddress dest frame slot =>
    assignment dest ("getelementptr %eframe* " ++ registerText frame ++ ", i32 0, i32 2, i32 " ++ toString slot)
  | call dest function arguments =>
    assignment dest ("call i32 @" ++ function ++ "(" ++
      ", ".intercalate (arguments.map fun a => "i32 " ++ a.text) ++ ")")
  | bitcast dest source value type =>
    assignment dest ("bitcast " ++ source ++ " " ++ registerText value ++ " to " ++ type)
  | ret value => "ret i32 " ++ value.text

end Instruction

/-- The definition of a function. -/
structure Definition where
  /-- The name under which the function is called. -/
  name : String
  /-- The names of the parameters. -/
  parameters : List String
  /-- The instructions. -/
  body : List Instruction
deriving DecidableEq, Repr

namespace Definition

/-- A line of a definition; labels stand at the margin. -/
def line (i : Instruction) : String := (if i.isLabel then "" else "  ") ++ i.text ++ "\n"

/-- The text of a definition. -/
def text (d : Definition) : String :=
  "define i32 @" ++ d.name ++ "(" ++ ", ".intercalate (d.parameters.map fun p => "i32 %" ++ p) ++ ") \x7b\n" ++
    String.join (d.body.map line) ++ "\x7d"

end Definition

end ExprLang.Code
