import ExprLang.Code.Module

/-!
# The generator's state

Code is made one instruction after the other. A value lives in a cell and carries a tag in its two lowest bits: an integer is shifted
left by two, and the truth values are two constants that no shifted integer equals. The generator counts registers and labels, keeps
the frames, and remembers the last constant and the last cell that was written.

Lowering changes the state and ends with a result or with an error; the code made before an error stays.
-/

namespace ExprLang

open Code

/-- Why an expression cannot be lowered. -/
inductive LoweringError where
  /-- There is no code for this kind of expression. -/
  | unsupported (kind : String)
  /-- A name is not declared. -/
  | unbound (name kind : String)
  /-- A name is declared by a function around the current one. -/
  | captured (name : String)
  /-- This kind of expression is assigned to. -/
  | invalidTarget (kind : String)
  /-- This kind of expression leaves no value where one is needed. -/
  | notAValue (kind : String)
deriving DecidableEq, Repr

namespace LoweringError

/-- The kind of an error. -/
def kind : LoweringError → String
  | unsupported _ => "Unsupported"
  | unbound .. => "UnboundIdentifier"
  | captured _ => "CapturedVariable"
  | invalidTarget _ => "InvalidAssignmentTarget"
  | notAValue _ => "NotAValue"

/-- The message of an error. -/
def message : LoweringError → String
  | unsupported kind => kind ++ " expressions cannot be compiled"
  | unbound name kind => "unbound identifier `" ++ name ++ "` in " ++ kind
  | captured name => "`" ++ name ++ "` is declared by an enclosing function and cannot be read from a nested one"
  | invalidTarget kind => "cannot assign to " ++ kind
  | notAValue kind => kind ++ " does not produce a value"

end LoweringError

/-- Whether numbers are taken as signed where it matters: in shifts to the right and in division. -/
inductive Signedness where
  /-- As signed numbers. -/
  | signed
  /-- As unsigned numbers. -/
  | unsigned
deriving DecidableEq, Repr

/-- What the code of an expression leaves behind. -/
inductive Lowered where
  /-- The address of a cell with a tagged value. -/
  | boxed (cell : Nat)
  /-- The outcome of a comparison. -/
  | flag (register : Nat)
  /-- No value. -/
  | nothing
deriving DecidableEq, Repr

/-- The number of bits of the tag. -/
def tagBits : Nat := 2

/-- The tagged form of an integer. -/
def tagInteger (n : Int32) : Int32 := n <<< Int32.ofNat tagBits

/-- The tagged form of a truth value. -/
def tagBoolean (b : Bool) : Int32 := if b then 15 else 7

/-- The state of a generator. -/
structure Generator where
  /-- The code of the function that is being generated. -/
  instructions : Array Instruction
  /-- The functions that are finished. -/
  functions : Array Definition
  /-- The frames of the function being generated and of the functions around it. -/
  frames : FrameChain
  /-- The register with the address of the current frame. -/
  framePointer : Nat
  /-- The first register that is not used. -/
  nextRegister : Nat
  /-- The first label of the function that is not used. -/
  nextLabel : Nat
  /-- The tagged form of the last constant of the function. -/
  lastConstant : Option Int32
  /-- The last cell that was written and whose address is known wherever the code goes on from here. -/
  lastBoxed : Option Nat
deriving DecidableEq, Repr

/-- A change of the generator's state with a result or an error. -/
abbrev Lowering (α : Type) := EStateM LoweringError Generator α

namespace Generator

/-- The register in which the entry makes its frame. -/
def rootAllocation : Nat := 0

/-- The register with the address of the entry's frame. -/
def rootFramePointer : Nat := 1

/-- The generator of an entry. -/
def initial : Generator where
  instructions := #[]
  functions := #[]
  frames := FrameChain.empty
  framePointer := rootFramePointer
  nextRegister := rootFramePointer + 1
  nextLabel := 0
  lastConstant := none
  lastBoxed := none

/-- The generator of a function inside the one of `g`: registers are counted on, labels begin anew. -/
def nested (g : Generator) : Generator :=
  { initial with frames := g.frames.enclose, nextRegister := g.nextRegister }

/-- Ends a function: it returns what the last instruction stored, else what the last cell holds, else zero. -/
def close (g : Generator) : Generator :=
  let pointer := match g.instructions.back? with
    | some (.store _ pointer) => some pointer
    | _ => g.lastBoxed
  match pointer with
  | some pointer =>
    let value := g.nextRegister
    { g with
      nextRegister := value + 1
      instructions := (g.instructions.push (.load value pointer)).push (.ret (.register value)) }
  | none => { g with instructions := g.instructions.push (.ret (.constant 0)) }

/-- The instructions with which a function makes its frame. -/
def prologue (frame : Frame) (allocation pointer : Nat) : List Instruction :=
  [.malloc allocation frame.typeText, .bitcast pointer (frame.typeText ++ "*") allocation "%eframe*"]

end Generator

namespace Lowering

variable {α : Type}

/-- Takes a register that is not used. -/
def freshRegister : Lowering Nat :=
  modifyGet fun g => (g.nextRegister, { g with nextRegister := g.nextRegister + 1 })

/-- Takes `count` labels that are not used and gives the first. -/
def reserveLabels (count : Nat) : Lowering Nat :=
  modifyGet fun g => (g.nextLabel, { g with nextLabel := g.nextLabel + count })

/-- Adds an instruction. -/
def emit (i : Instruction) : Lowering Unit := modify fun g => { g with instructions := g.instructions.push i }

/-- Adds an instruction that writes a new register, and gives the register. -/
def emitTo (i : Nat → Instruction) : Lowering Nat := do
  let dest ← freshRegister
  emit (i dest)
  return dest

/-- Remembers a cell as the last one written. -/
def noteBoxed (cell : Nat) : Lowering Lowered := do
  modify fun g => { g with lastBoxed := some cell }
  return .boxed cell

/-- Makes a cell for a value. -/
def box (value : Operand) : Lowering Lowered := do
  let cell ← emitTo (.malloc · "i32")
  emit (.store value cell)
  noteBoxed cell

/-- Makes a cell for a constant and remembers the constant. -/
def constant (tagged : Int32) : Lowering Lowered := do
  modify fun g => { g with lastConstant := some tagged }
  box (.constant tagged)

/-- Reads the value that the code of an expression of this kind left. -/
def load (lowered : Lowered) (kind : String) : Lowering Operand :=
  match lowered with
  | .boxed pointer => return .register (← emitTo (.load · pointer))
  | .flag _ | .nothing => throw (.notAValue kind)

/-- Reads the value that the code of an expression of this kind left, and drops its tag. -/
def unbox (mode : Signedness) (lowered : Lowered) (kind : String) : Lowering Operand := do
  let value ← load lowered kind
  let op := match mode with
    | .signed => Shift.signed
    | .unsigned => Shift.logical
  return .register (← emitTo (.shift · op value tagBits))

/-- Declares a name in the current frame, noting the last constant. -/
def declare (name : String) (initial : Option Int32) : Lowering Nat :=
  modifyGet fun g =>
    let (slot, frames) := g.frames.declare name initial
    (slot, { g with frames })

/-- The slot of a name in the current frame. -/
def ownSlot (name kind : String) : Lowering Nat := do
  match (← get).frames.resolve? name with
  | some (.own slot) => return slot
  | some .enclosing => throw (.captured name)
  | none => throw (.unbound name kind)

/-- The address of a slot of the current frame. -/
def slotAddress (slot : Nat) : Lowering Nat := do
  let frame := (← get).framePointer
  emitTo (.slotAddress · frame slot)

/-- Writes a slot of the current frame. Its address stands for the value from then on. -/
def storeSlot (slot : Nat) (value : Operand) : Lowering Lowered := do
  let pointer ← slotAddress slot
  emit (.store value pointer)
  noteBoxed pointer

/-- Reads a name into a new cell. -/
def readName (name : String) : Lowering Lowered := do
  let slot ← ownSlot name "Identifier"
  let pointer ← slotAddress slot
  let value ← emitTo (.load · pointer)
  box (.register value)

/-- Goes on at a label. -/
def jump (target : Nat) : Lowering Unit := emit (.branch none target none)

/-- Goes on at one label if a condition holds and at another if not. -/
def branch (condition : Nat) (target otherwise : Nat) : Lowering Unit :=
  emit (.branch (some condition) target (some otherwise))

/-- The outcome of a test of this kind: that of a comparison, or whether a value is the truth value `true`. -/
def test (lowered : Lowered) (kind : String) : Lowering Nat := do
  match lowered with
  | .flag flag => return flag
  | .boxed _ =>
    let value ← load lowered kind
    emitTo (.compare · .equal value (.constant (tagBoolean true)))
  | .nothing => throw (.notAValue kind)

/-- Ends a function. -/
def epilogue : Lowering Unit := modify Generator.close

/-- Runs code after which only the cells known before it are sure to be written. -/
def branching (code : Lowering Unit) : Lowering Lowered := do
  let dominating := (← get).lastBoxed
  code
  modify fun g => { g with lastBoxed := dominating }
  return .nothing

end Lowering

end ExprLang
