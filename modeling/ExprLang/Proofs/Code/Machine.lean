import Mathlib.Logic.Function.Basic
import Mathlib.Logic.Relation
import ExprLang.Code.Frame
import ExprLang.Code.Module

/-!
# The machine

What the instructions of a definition do. Registers hold integers of 32 bits, truth values and addresses; memory consists of blocks of
cells, which hold integers once they were written. A cell made on its own is a block of one cell, and a frame is a block with a cell for
each slot. Arithmetic wraps around, and comparisons are those of signed integers.

The machine does not go on where an instruction has no meaning: when a register was not written or holds something else than is needed,
when a cell was not written or there is no such cell, when a division has no result, or at a call, since it executes one function only.
-/

namespace ExprLang.Code

/-- What a register holds. -/
inductive Word where
  /-- An integer. -/
  | integer (value : Int32)
  /-- A truth value. -/
  | truth (value : Bool)
  /-- The address of a cell of a block. -/
  | address (block cell : Nat)
deriving DecidableEq, Repr

/-- Blocks of cells, in the order in which they were made. -/
structure Memory where
  /-- The blocks; a cell that was not written holds nothing. -/
  blocks : Array (Array (Option Int32))
deriving DecidableEq, Repr

namespace Memory

/-- There are no blocks. -/
def empty : Memory := ⟨#[]⟩

/-- The number of cells of a block. -/
def size? (m : Memory) (block : Nat) : Option Nat := m.blocks[block]?.map Array.size

/-- Makes a block; nothing is written to its cells. -/
def allocate (m : Memory) (size : Nat) : Memory := ⟨m.blocks.push (Array.replicate size none)⟩

/-- Reads a cell. -/
def read? (m : Memory) (block cell : Nat) : Option Int32 := (m.blocks[block]?.bind (·[cell]?)).join

/-- Writes a cell, if there is such a cell. -/
def write? (m : Memory) (block cell : Nat) (value : Int32) : Option Memory :=
  if (m.size? block).any (cell < ·) then some ⟨m.blocks.modify block (·.setIfInBounds cell (some value))⟩ else none

/-- The number of cells of a block after a block was made. -/
theorem size?_allocate (m : Memory) (size block : Nat) :
    (m.allocate size).size? block = if block = m.blocks.size then some size else m.size? block := by
  by_cases h : block = m.blocks.size <;> simp [allocate, size?, Array.getElem?_push, h]

/-- The cells of other blocks are what they were after a block was made. -/
theorem read?_allocate (m : Memory) (size : Nat) {block : Nat} (h : block ≠ m.blocks.size) (cell : Nat) :
    (m.allocate size).read? block cell = m.read? block cell := by
  simp [allocate, read?, Array.getElem?_push, h]

/-- A cell that there is can be written. -/
theorem write?_eq_some {m : Memory} {block cell size : Nat} (h : m.size? block = some size) (hlt : cell < size)
    (value : Int32) :
    m.write? block cell value = some ⟨m.blocks.modify block (·.setIfInBounds cell (some value))⟩ := by
  simp [write?, h, hlt]

/-- Writing a cell changes no other. -/
theorem read?_of_write? {m m' : Memory} {block cell : Nat} {value : Int32} (h : m.write? block cell value = some m')
    (block' cell' : Nat) :
    m'.read? block' cell' = if block' = block ∧ cell' = cell then some value else m.read? block' cell' := by
  unfold write? at h
  split at h
  · cases h
    rename_i hlt
    by_cases hb : block = block'
    · subst hb
      cases hm : m.blocks[block]? with
      | none => simp [size?, hm] at hlt
      | some cells =>
        simp only [size?, hm, Option.map_some, Option.any_some, decide_eq_true_eq] at hlt
        by_cases hc : cell = cell'
        · subst hc
          simp [read?, Array.getElem?_modify, hm, hlt]
        · simp [read?, Array.getElem?_modify, hm, hc, Ne.symm hc]
    · simp [read?, Array.getElem?_modify, hb, Ne.symm hb]
  · cases h

/-- Writing a cell changes no block's number of cells. -/
theorem size?_of_write? {m m' : Memory} {block cell : Nat} {value : Int32} (h : m.write? block cell value = some m')
    (block' : Nat) : m'.size? block' = m.size? block' := by
  unfold write? at h
  split at h
  · cases h
    by_cases hb : block = block'
    · subst hb
      simp [size?, Array.getElem?_modify]
      cases m.blocks[block]? <;> simp
    · simp [size?, Array.getElem?_modify, hb]
  · cases h

/-- A block with a number of cells is one of the blocks made. -/
theorem lt_of_size? {m : Memory} {block size : Nat} (h : m.size? block = some size) : block < m.blocks.size := by
  obtain ⟨cells, hcells, -⟩ := Option.map_eq_some_iff.1 h
  exact (Array.getElem?_eq_some_iff.1 hcells).1

/-- A cell that holds something is one of a block made. -/
theorem lt_of_read? {m : Memory} {block cell : Nat} {value : Int32} (h : m.read? block cell = some value) :
    block < m.blocks.size := by
  obtain ⟨cells, hcells, -⟩ := Option.bind_eq_some_iff.1 (Option.join_eq_some_iff.1 h)
  exact (Array.getElem?_eq_some_iff.1 hcells).1

/-- What there is in `m` is in `m'` too: the blocks with their cells, and what these hold. -/
structure Extends (m m' : Memory) : Prop where
  /-- Blocks keep their cells. -/
  size : ∀ {block size : Nat}, m.size? block = some size → m'.size? block = some size
  /-- Cells keep what they hold. -/
  read : ∀ {block cell : Nat} {value : Int32}, m.read? block cell = some value → m'.read? block cell = some value

namespace Extends

theorem refl (m : Memory) : m.Extends m := ⟨id, id⟩

theorem trans {m₁ m₂ m₃ : Memory} (h : m₁.Extends m₂) (h' : m₂.Extends m₃) : m₁.Extends m₃ :=
  ⟨fun hs => h'.size (h.size hs), fun hr => h'.read (h.read hr)⟩

/-- No block is lost. -/
theorem blocks_le {m m' : Memory} (h : m.Extends m') : m.blocks.size ≤ m'.blocks.size := by
  by_contra hlt
  have hlast : m'.blocks.size < m.blocks.size := Nat.lt_of_not_le hlt
  have hsize : m.size? m'.blocks.size = some m.blocks[m'.blocks.size].size := by simp [size?, hlast]
  exact Nat.lt_irrefl _ (lt_of_size? (h.size hsize))

end Extends

/-- A value can be written to a cell made for it, and nothing else changes. -/
theorem exists_write?_allocate (m : Memory) (value : Int32) :
    ∃ m', (m.allocate 1).write? m.blocks.size 0 value = some m' ∧ m.Extends m' ∧ m'.read? m.blocks.size 0 = some value := by
  have hsize : (m.allocate 1).size? m.blocks.size = some 1 := by rw [size?_allocate, if_pos rfl]
  have hwrite := write?_eq_some hsize Nat.zero_lt_one value
  refine ⟨_, hwrite, ⟨fun {block size} hs => ?_, fun {block cell v} hr => ?_⟩, ?_⟩
  · rw [size?_of_write? hwrite, size?_allocate, if_neg (Nat.ne_of_lt (lt_of_size? hs))]
    exact hs
  · have hne := Nat.ne_of_lt (lt_of_read? hr)
    rw [read?_of_write? hwrite, if_neg fun h => hne h.1, read?_allocate m 1 hne]
    exact hr
  · rw [read?_of_write? hwrite, if_pos ⟨rfl, rfl⟩]

end Memory

/-! ## Types -/

/-- How a frame type begins. -/
def frameTypeStart : String := "\x7b%eframe*, i32, ["

/-- The type of a frame with so many slots. -/
def frameType (count : Nat) : String := frameTypeStart ++ toString count ++ " x i32]\x7d"

/-- The number of cells that are made for a type: one for an integer, and the slots of a frame. -/
def cellCount? (type : String) : Option Nat :=
  if type = "i32" then some 1
  else
    let count := Nat.ofDigitChars 10 ((type.toList.drop frameTypeStart.length).takeWhile Char.isDigit) 0
    if type = frameType count then some count else none

/-- A frame has a cell for each slot. -/
theorem cellCount?_typeText (f : Frame) : cellCount? f.typeText = some f.size := by
  have htext : f.typeText.toList = frameTypeStart.toList ++ (Nat.toDigits 10 f.size ++ " x i32]\x7d".toList) := by
    show (frameTypeStart ++ toString f.size ++ " x i32]\x7d").toList = _
    simp [Nat.toString_eq_repr, Nat.repr_eq_ofList_toDigits]
  have hne : f.typeText ≠ "i32" := by
    intro h
    rw [h] at htext
    simp [frameTypeStart] at htext
  have hdigits : ((f.typeText.toList.drop frameTypeStart.length).takeWhile Char.isDigit) = Nat.toDigits 10 f.size := by
    rw [htext, ← String.length_toList, List.drop_left,
      List.takeWhile_append_of_pos fun c hc => Nat.isDigit_of_mem_toDigits (by decide) (by decide) hc]
    have hspace : (" x i32]\x7d".toList).takeWhile Char.isDigit = [] := by decide
    rw [hspace, List.append_nil]
  unfold cellCount?
  rw [if_neg hne, hdigits, Nat.ofDigitChars_ten_toDigits]
  exact if_pos rfl

/-! ## Operations -/

/-- The result of an operation on two integers, if it has one. -/
def BinaryOp.result? (op : BinaryOp) (a b : Int32) : Option Int32 :=
  match op with
  | add => some (a + b)
  | sub => some (a - b)
  | mul => some (a * b)
  | sdiv => if b = 0 ∨ a = Int32.minValue ∧ b = -1 then none else some (a / b)
  | udiv => if b = 0 then none else some (a.toUInt32 / b.toUInt32).toInt32

/-- The bits of an integer shifted by fewer places than it has. -/
def Shift.result? (op : Shift) (a : Int32) (amount : Nat) : Option Int32 :=
  if amount < 32 then
    match op with
    | left => some (a <<< Int32.ofNat amount)
    | logical => some (a.toUInt32 >>> UInt32.ofNat amount).toInt32
    | signed => some (a >>> Int32.ofNat amount)
  else none

/-- Whether a comparison of signed integers holds. -/
def Predicate.holds (p : Predicate) (a b : Int32) : Bool :=
  match p with
  | equal => a == b
  | greater => b < a
  | greaterEqual => b ≤ a
  | less => a < b
  | lessEqual => a ≤ b

/-! ## Execution -/

/-- The state of the machine while it executes a function. -/
structure Machine where
  /-- The position of the next instruction. -/
  position : Nat
  /-- What the registers hold that were written. -/
  registers : Nat → Option Word
  /-- The arguments, by the names of the parameters. -/
  arguments : List (String × Int32)
  /-- The memory. -/
  memory : Memory

namespace Machine

/-- The machine before the first instruction. -/
def start (arguments : List (String × Int32)) : Machine := ⟨0, fun _ => none, arguments, Memory.empty⟩

/-- The integer in a register. -/
def integer? (s : Machine) (r : Nat) : Option Int32 :=
  match s.registers r with
  | some (.integer n) => some n
  | _ => none

/-- The address in a register. -/
def address? (s : Machine) (r : Nat) : Option (Nat × Nat) :=
  match s.registers r with
  | some (.address block cell) => some (block, cell)
  | _ => none

/-- The truth value in a register. -/
def truth? (s : Machine) (r : Nat) : Option Bool :=
  match s.registers r with
  | some (.truth b) => some b
  | _ => none

/-- The integer that an operand stands for. -/
def operand? (s : Machine) : Operand → Option Int32
  | .register r => s.integer? r
  | .named name => s.arguments.lookup name
  | .constant n => some n

/-- Writes a register and goes on with the next instruction. -/
def assign (s : Machine) (r : Nat) (w : Word) : Machine :=
  { s with registers := Function.update s.registers r (some w), position := s.position + 1 }

/-- The register holds what was written. -/
theorem registers_assign_self (s : Machine) (r : Nat) (w : Word) : (s.assign r w).registers r = some w := by
  simp [assign]

/-- Other registers hold what they held. -/
theorem registers_assign_of_ne (s : Machine) {r other : Nat} (h : other ≠ r) (w : Word) :
    (s.assign r w).registers other = s.registers other := by
  simp [assign, h]

/-- Goes on at a label. -/
def goto? (s : Machine) (body : List Instruction) (l : Nat) : Option Machine :=
  (body.findIdx? (· = .label l)).map fun position => { s with position }

/-- Executes an instruction that does not end the function. -/
def execute (body : List Instruction) (s : Machine) : Instruction → Option Machine
  | .load dest pointer => do
    let (block, cell) ← s.address? pointer
    return s.assign dest (.integer (← s.memory.read? block cell))
  | .store value pointer => do
    let (block, cell) ← s.address? pointer
    let memory ← s.memory.write? block cell (← s.operand? value)
    return { s with memory, position := s.position + 1 }
  | .malloc dest type => do
    let memory := s.memory.allocate (← cellCount? type)
    return { s.assign dest (.address s.memory.blocks.size 0) with memory }
  | .binary op dest left right => do
    return s.assign dest (.integer (← op.result? (← s.operand? left) (← s.operand? right)))
  | .shift dest op value amount => do
    return s.assign dest (.integer (← op.result? (← s.operand? value) amount))
  | .compare dest predicate left right => do
    return s.assign dest (.truth (predicate.holds (← s.operand? left) (← s.operand? right)))
  | .branch none target _ => s.goto? body target
  | .branch (some condition) target otherwise => do
    if ← s.truth? condition then s.goto? body target else s.goto? body (← otherwise)
  | .label _ => some { s with position := s.position + 1 }
  | .slotAddress dest frame slot => do
    let (block, _) ← s.address? frame
    return s.assign dest (.address block slot)
  | .bitcast dest _ value _ => do
    let w ← s.registers value
    return s.assign dest w
  | .call .. | .ret _ => none

/-- A cell is read through a register with its address. -/
theorem execute_load {body : List Instruction} {s : Machine} {pointer block cell : Nat} {n : Int32}
    (hp : s.registers pointer = some (.address block cell)) (hr : s.memory.read? block cell = some n) (dest : Nat) :
    s.execute body (.load dest pointer) = some (s.assign dest (.integer n)) := by
  simp [execute, address?, hp, hr]

/-- A cell is written through a register with its address. -/
theorem execute_store {body : List Instruction} {s : Machine} {value : Operand} {pointer block cell : Nat} {n : Int32}
    {memory : Memory} (hp : s.registers pointer = some (.address block cell)) (hv : s.operand? value = some n)
    (hw : s.memory.write? block cell n = some memory) :
    s.execute body (.store value pointer) = some { s with memory, position := s.position + 1 } := by
  simp [execute, address?, hp, hv, hw]

/-- Executes the next instruction. -/
def step (body : List Instruction) (s : Machine) : Option Machine := body[s.position]?.bind (s.execute body)

/-- The value that the next instruction returns. -/
def returned? (body : List Instruction) (s : Machine) : Option Int32 :=
  match body[s.position]? with
  | some (.ret value) => s.operand? value
  | _ => none

/-- Executes at most so many instructions up to a return. -/
def run (body : List Instruction) : (steps : Nat) → Machine → Option Int32
  | 0, _ => none
  | steps + 1, s =>
    match s.returned? body with
    | some value => some value
    | none => (s.step body).bind (run body steps)

/-- The machine comes from one state into another. -/
def Reaches (body : List Instruction) : Machine → Machine → Prop := Relation.ReflTransGen fun s s' => s.step body = some s'

theorem Reaches.refl (body : List Instruction) (s : Machine) : Reaches body s s := Relation.ReflTransGen.refl

theorem Reaches.single {body : List Instruction} {s s' : Machine} (h : s.step body = some s') : Reaches body s s' :=
  Relation.ReflTransGen.single h

theorem Reaches.trans {body : List Instruction} {s₁ s₂ s₃ : Machine} (h : Reaches body s₁ s₂) (h' : Reaches body s₂ s₃) :
    Reaches body s₁ s₃ :=
  Relation.ReflTransGen.trans h h'

/-- Where the machine goes on, nothing is returned. -/
theorem returned?_of_step {body : List Instruction} {s s' : Machine} (h : s.step body = some s') : s.returned? body = none := by
  obtain ⟨i, hi, hs⟩ := Option.bind_eq_some_iff.1 h
  unfold returned?
  rw [hi]
  cases i with
  | ret value => cases hs
  | _ => rfl

/-- What is returned in a state that the machine comes into is the value of the run. -/
theorem Reaches.exists_run {body : List Instruction} {s s' : Machine} {value : Int32} (h : Reaches body s s')
    (hr : s'.returned? body = some value) : ∃ steps, run body steps s = some value := by
  induction h using Relation.ReflTransGen.head_induction_on with
  | refl => exact ⟨1, by rw [run, hr]⟩
  | head hstep _ ih =>
    obtain ⟨steps, ih⟩ := ih
    exact ⟨steps + 1, by rw [run, returned?_of_step hstep, hstep]; exact ih⟩

/-- With more steps a run ends with the same value. -/
theorem run_of_le {body : List Instruction} {steps steps' : Nat} (hle : steps ≤ steps') {s : Machine} {value : Int32}
    (h : run body steps s = some value) : run body steps' s = some value := by
  induction steps generalizing steps' s with
  | zero => cases h
  | succ steps ih =>
    obtain ⟨steps', rfl⟩ : ∃ k, steps' = k + 1 := ⟨steps' - 1, by omega⟩
    rw [run] at h ⊢
    cases hr : s.returned? body with
    | some v =>
      rw [hr] at h
      exact h
    | none =>
      rw [hr] at h
      obtain ⟨s₁, hs, h⟩ := Option.bind_eq_some_iff.1 h
      show (s.step body).bind (run body steps') = some value
      rw [hs]
      exact ih (Nat.le_of_succ_le_succ hle) h

end Machine

/-- Executed with these arguments, the definition returns this value. -/
def Definition.Returns (d : Definition) (arguments : List Int32) (value : Int32) : Prop :=
  ∃ steps, Machine.run d.body steps (Machine.start (d.parameters.zip arguments)) = some value

/-- A definition returns one value at most. -/
theorem Definition.Returns.eq {d : Definition} {arguments : List Int32} {v w : Int32} (hv : d.Returns arguments v)
    (hw : d.Returns arguments w) : v = w := by
  obtain ⟨i, hi⟩ := hv
  obtain ⟨j, hj⟩ := hw
  have hi' := Machine.run_of_le (Nat.le_max_left i j) hi
  rw [Machine.run_of_le (Nat.le_max_right i j) hj] at hi'
  exact (Option.some.inj hi').symm

end ExprLang.Code
