import ExprLang.Expression.Basic
import ExprLang.Lowering.Generator

/-!
# Lowering

`lower` makes the code of an expression, case by case; `Expression.compile?` makes the module of a whole program. Strings, floats,
records, closures and what works on them have no code.

Patterns of code:

* a constant: a new cell, the tagged constant stored into it;
* a name: the slot's address, its value, a new cell for the value;
* a sum: both tagged values are added, since tags of integers are zero;
* another arithmetic operator: tags are dropped, the numbers computed with, the tag put back;
* a comparison: the tagged values are compared;
* an assignment: the value is computed, then stored at the slot's address;
* a choice, with labels `b` to `b + 3`: the test at `b`, its outcomes at `b + 1` and `b + 2`, what follows at `b + 3`;
* a loop, with labels `b` to `b + 2`: the test at `b`, the body at `b + 1`, what follows at `b + 2`.
-/

namespace ExprLang

open Code

namespace Lowering

/-- The code of an arithmetic operator whose operands are lowered already. -/
def arithmetic (mode : Signedness) (op : Arithmetic) (left : Lowered) (leftKind : String) (right : Lowered)
    (rightKind : String) : Lowering Lowered := do
  match op with
  | .add =>
    let l ← load left leftKind
    let r ← load right rightKind
    box (.register (← emitTo (.binary .add · l r)))
  | op =>
    let l ← unbox mode left leftKind
    let r ← unbox mode right rightKind
    let raw ← emitTo (.binary (opcode op) · l r)
    box (.register (← emitTo (.shift · .left (.register raw) tagBits)))
where
  /-- The operation on numbers without tags. -/
  opcode : Arithmetic → BinaryOp
    | .add => .add
    | .sub => .sub
    | .mul => .mul
    | .div => match mode with
      | .signed => .sdiv
      | .unsigned => .udiv

/-- How a comparison compares tagged values. -/
def predicate : Comparison → Predicate
  | .equal => .equal
  | .less => .less
  | .greater => .greater
  | .lessEqual => .lessEqual
  | .greaterEqual => .greaterEqual

/-- The code of a comparison whose operands are lowered already. -/
def comparison (op : Comparison) (left : Lowered) (leftKind : String) (right : Lowered) (rightKind : String) :
    Lowering Lowered := do
  let l ← load left leftKind
  let r ← load right rightKind
  return .flag (← emitTo (.compare · (predicate op) l r))

/-- The code of a choice. -/
def conditional (test : Lowering Nat) (consequence alternative : Lowering Unit) : Lowering Lowered :=
  branching do
    let start ← reserveLabels 4
    jump start
    emit (.label start)
    branch (← test) (start + 1) (start + 2)
    emit (.label (start + 1))
    consequence
    jump (start + 3)
    emit (.label (start + 2))
    alternative
    jump (start + 3)
    emit (.label (start + 3))

/-- The code of a loop. -/
def loop (test : Lowering Nat) (body : Lowering Unit) : Lowering Lowered :=
  branching do
    let start ← reserveLabels 3
    jump start
    emit (.label start)
    branch (← test) (start + 1) (start + 2)
    emit (.label (start + 1))
    body
    jump start
    emit (.label (start + 2))

/-- The code of a return; a label follows, at which nothing arrives. -/
def ret (value : Operand) : Lowering Lowered := do
  emit (.ret value)
  emit (.label (← reserveLabels 1))
  return .nothing

/-- Makes slots for parameters and stores the parameters there. -/
def spill : List String → Lowering Unit
  | [] => return ()
  | p :: rest => do
    let slot ← declare p none
    let _ ← storeSlot slot (.named p)
    spill rest

/-- The definition of a function, made by the generator of that function. -/
def definition (name : String) (parameters : List String) (body : Lowering Lowered) : Lowering Definition := do
  let allocation ← freshRegister
  let pointer ← freshRegister
  modify fun g => { g with framePointer := pointer }
  spill parameters
  let _ ← body
  epilogue
  let g ← get
  return ⟨name, parameters, Generator.prologue g.frames.current allocation pointer ++ g.instructions.toList⟩

/-- Adds the definition of a function, and before it those of the functions inside. The generator of the function holds the frames
around it. They are taken back from it, also if the body cannot be lowered; everything else stays as it is then. -/
def define (name : String) (parameters : List String) (body : Lowering Lowered) : Lowering Lowered := fun g =>
  match definition name parameters body g.nested with
  | .ok d inner =>
    .ok .nothing { g with
      frames := inner.frames.leave?.getD .empty
      nextRegister := inner.nextRegister
      functions := (g.functions ++ inner.functions).push d }
  | .error e inner => .error e { g with frames := inner.frames.leave?.getD .empty }

end Lowering

open Lowering

mutual

/-- Makes the code of an expression. -/
def lower (mode : Signedness) : Expression → Lowering Lowered
  | .integer v => constant (tagInteger v)
  | .boolean v => constant (tagBoolean v)
  | .identifier name => readName name
  | .void => return .nothing
  | .varDecl name => do
    let _ ← declare name (← get).lastConstant
    return .nothing
  | .funcDecl name ⟨_, parameters, body⟩ => define name parameters (lower mode body)
  | .scope a => lower mode a
  | .sequence as => lowerSequence mode as .nothing
  | .binary a op b =>
    match op with
    | .arithmetic o => do
      let l ← lower mode a
      let r ← lower mode b
      arithmetic mode o l a.kind r b.kind
    | .comparison o => do
      let l ← lower mode a
      let r ← lower mode b
      comparison o l a.kind r b.kind
    | op => throw (.unsupported op.name)
  | .assign (.varDecl name) a => do
    let value ← load (← lower mode a) a.kind
    let slot ← declare name (← get).lastConstant
    storeSlot slot value
  | .assign (.identifier name) a => do
    let slot ← ownSlot name "Assign"
    let value ← load (← lower mode a) a.kind
    storeSlot slot value
  | .assign place _ => throw (.invalidTarget place.kind)
  | .call (.identifier name) as => do
    let operands ← lowerArguments mode as
    box (.register (← emitTo (.call · name operands)))
  | .call _ _ => throw (.unsupported "indirect Call")
  | .conditional a b none =>
    conditional (do test (← lower mode a) a.kind) (discard (lower mode b)) (return ())
  | .conditional a b (some c) =>
    conditional (do test (← lower mode a) a.kind) (discard (lower mode b)) (discard (lower mode c))
  | .loop a b => loop (do test (← lower mode a) a.kind) (discard (lower mode b))
  | .ret a => do ret (← load (← lower mode a) a.kind)
  | e => throw (.unsupported e.kind)
termination_by structural e => e

/-- Makes the code of expressions one after the other; what the last one leaves counts. -/
def lowerSequence (mode : Signedness) : List Expression → Lowered → Lowering Lowered
  | [], last => return last
  | a :: rest, _ => do lowerSequence mode rest (← lower mode a)
termination_by structural es => es

/-- Makes the code of arguments one after the other and reads their values. -/
def lowerArguments (mode : Signedness) : List Expression → Lowering (List Operand)
  | [] => return []
  | a :: rest => do
    let operand ← load (← lower mode a) a.kind
    return operand :: (← lowerArguments mode rest)
termination_by structural es => es

end

namespace Generator

/-- The module of the code made so far. -/
def toModule (g : Generator) : Module :=
  let g := g.close
  { functions := g.functions.toList
    entry := ⟨Module.entryName, [],
      prologue g.frames.current rootAllocation rootFramePointer ++ g.instructions.toList⟩
    rootFrame := g.frames.current }

end Generator

namespace Expression

/-- The module of a program. -/
def compile? (mode : Signedness) (program : Expression) : Except LoweringError Module :=
  match lower mode program Generator.initial with
  | .ok _ g => .ok g.toModule
  | .error e _ => .error e

end Expression

end ExprLang
