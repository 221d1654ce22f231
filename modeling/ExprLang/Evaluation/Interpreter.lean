import ExprLang.Environment
import ExprLang.Value.Operations

/-!
# The interpreter's state

The interpreter keeps a store of cells, one for each binding, the closures made so far, and the sink it prints to. Cells are handed
out like a stack: when a call or a block ends, the cells handed out since it began are given back, unless a closure was made or bound
anew in the meantime and may still reach them. `Reclamation` says whether that happens at all.

An evaluation changes the state and ends with a result or with an `Interrupt`; either way the state it leaves is there to see.
-/

namespace ExprLang

/-- What a closure consists of. Assigning a closure to a name replaces its environment. -/
structure Closure where
  /-- Parameters and body. -/
  literal : FunctionLiteral
  /-- The environment in which the body sees names. -/
  env : Environment

namespace Closure

/-- The parameters and the names in the environment, as people read them. -/
def text (c : Closure) : String :=
  "Closure \x7b parameters: " ++ Text.quotedList c.literal.parameters ++ ", env: " ++ c.env.text ++ " \x7d"

end Closure

/-- The cells in which bindings keep their values. -/
structure Store where
  /-- The cells in the order in which they were handed out. -/
  cells : Array Value

namespace Store

/-- No cell is handed out. -/
def empty : Store := ⟨#[]⟩

/-- The number of cells. -/
def size (store : Store) : Nat := store.cells.size

/-- Whether no cell is handed out. -/
def isEmpty (store : Store) : Bool := store.cells.isEmpty

/-- Hands out a cell. -/
def alloc (store : Store) (value : Value) : Nat × Store := (store.cells.size, ⟨store.cells.push value⟩)

/-- The value in a cell, if the cell is handed out. -/
def get? (store : Store) (slot : Nat) : Option Value := store.cells[slot]?

/-- Changes the value in a cell, if the cell is handed out. -/
def set? (store : Store) (slot : Nat) (value : Value) : Option Store :=
  if slot < store.cells.size then some ⟨store.cells.setIfInBounds slot value⟩ else none

/-- Takes back all cells but the first `size`. -/
def truncate (store : Store) (size : Nat) : Store := ⟨store.cells.shrink size⟩

/-- A new cell comes after all others. -/
@[simp] theorem fst_alloc (store : Store) (value : Value) : (store.alloc value).1 = store.size := rfl

/-- A new cell is one more cell. -/
@[simp] theorem size_alloc (store : Store) (value : Value) : (store.alloc value).2.size = store.size + 1 := by
  simp [alloc, size]

/-- A new cell holds its value, and the cells handed out before keep theirs. -/
theorem get?_alloc (store : Store) (value : Value) (slot : Nat) :
    (store.alloc value).2.get? slot = if slot = store.size then some value else store.get? slot := by
  simp only [alloc, get?, size, Array.getElem?_push]
  rfl

/-- A cell is handed out exactly if its number is below their count. -/
theorem isSome_get?_iff (store : Store) (slot : Nat) : (store.get? slot).isSome ↔ slot < store.size := by
  simp [get?, size]

/-- Changing a cell changes no other, and cells are neither handed out nor taken back. -/
theorem get?_of_set? {store after : Store} {slot : Nat} {value : Value} (h : store.set? slot value = some after)
    (other : Nat) : after.get? other = if other = slot then some value else store.get? other := by
  simp only [set?] at h
  split at h
  · cases h
    by_cases e : slot = other
    · subst e
      simp [get?, *]
    · simp [get?, e, Ne.symm e]
  · cases h

/-- A cell can be changed exactly if it is handed out. -/
theorem isSome_set?_iff (store : Store) (slot : Nat) (value : Value) : (store.set? slot value).isSome ↔ slot < store.size := by
  simp only [set?, size]
  split <;> simp [*]

/-- Changing a cell changes the number of cells as little as the other cells. -/
theorem size_of_set? {store after : Store} {slot : Nat} {value : Value} (h : store.set? slot value = some after) :
    after.size = store.size := by
  simp only [set?] at h
  split at h <;> cases h
  simp [size]

/-- What is left are the first cells. -/
@[simp] theorem size_truncate (store : Store) (size : Nat) : (store.truncate size).size = min size store.size := by
  simp [truncate, Store.size]

/-- The cells that are left keep their values. -/
theorem get?_truncate (store : Store) (size : Nat) (slot : Nat) :
    (store.truncate size).get? slot = if slot < size then store.get? slot else none := by
  simp only [truncate, get?, Array.shrink_eq_take, Array.take_eq_extract, Array.getElem?_extract, Nat.sub_zero, Nat.zero_add,
    Nat.lt_min]
  by_cases h : slot < size <;> by_cases k : slot < store.cells.size <;> simp [h, k]

end Store

/-- What printed text is handed to, piece by piece. -/
class Sink (σ : Type) where
  /-- Hands over a piece: what becomes of the sink, and whether it took the piece. -/
  write : σ → String → σ × Bool

/-- A sink that keeps the text. -/
structure Output where
  /-- The text written so far. -/
  text : String
  /-- How many lines are taken; all, if nothing is said. -/
  maxLines : Option Nat

namespace Output

/-- Nothing is written yet. -/
def empty (maxLines : Option Nat) : Output := ⟨"", maxLines⟩

/-- Whether the output takes more text: it holds fewer line ends than lines are taken. -/
def accepts (out : Output) : Bool :=
  match out.maxLines with
  | none => true
  | some limit => out.text.toList.count '\n' < limit

/-- Writes a text as a whole, or not at all. -/
def write? (out : Output) (s : String) : Option Output :=
  if out.accepts then some { out with text := out.text ++ s } else none

instance : Sink Output where
  write out s :=
    match out.write? s with
    | some after => (after, true)
    | none => (out, false)

end Output

/-- The state of an interpreter that prints to a sink. -/
structure Interpreter (σ : Type := Output) where
  /-- The cells of bindings. -/
  store : Store
  /-- The closures made so far, by number. -/
  closures : Array Closure
  /-- How often a closure was made or bound anew. -/
  captures : Nat
  /-- The output. -/
  output : σ

namespace Interpreter

variable {σ : Type}

/-- An interpreter that has done nothing and prints to this sink. -/
def initial (output : σ) : Interpreter σ := ⟨Store.empty, #[], 0, output⟩

/-- An interpreter that has done nothing, with the closures of an earlier one. -/
def fresh (closures : Array Closure) (maxLines : Option Nat) : Interpreter :=
  { initial (Output.empty maxLines) with closures }

/-- Binds a name to a new cell in front of an environment. -/
def bind (m : Interpreter σ) (env : Environment) (name : String) (value : Value) : Environment × Interpreter σ :=
  let (slot, store) := m.store.alloc value
  (env.bind name slot, { m with store })

/-- The value that a name stands for. -/
def lookup (m : Interpreter σ) (env : Environment) (name context : String) : Except EvalError Value :=
  match env.find? name with
  | none => .error (.unbound name context)
  | some slot =>
    match m.store.get? slot with
    | some value => .ok value
    | none => .error (.vanished name context)

/-- The value of a name, and of any other value the value itself. -/
def resolve (m : Interpreter σ) (value : Value) (env : Environment) (context : String) : Except EvalError Value :=
  match value with
  | .id name => m.lookup env name context
  | value => .ok value

end Interpreter

/-- A value and the environment in which the next expression is evaluated. -/
structure Evaluated where
  /-- The value. -/
  value : Value
  /-- The environment to go on with. -/
  env : Environment

/-- How an evaluation ends without a result. -/
inductive Interrupt where
  /-- A call returns this value. -/
  | returned (value : Value)
  /-- An error. -/
  | failed (error : EvalError)
  /-- The steps allowed are used up. -/
  | exhausted

/-- A change of the interpreter's state with a result or an interruption. -/
abbrev Evaluation (σ α : Type) := EStateM Interrupt (Interpreter σ) α

/-- Whether cells are given back when a call or a block ends. -/
inductive Reclamation where
  /-- Cells that cannot be reached any more are given back. -/
  | onExit
  /-- Every cell is kept. -/
  | never
deriving DecidableEq, Repr

/-- What is noted when a call or a block begins. -/
structure Mark where
  /-- The number of cells. -/
  cells : Nat
  /-- How often a closure was made or bound anew. -/
  captures : Nat
deriving DecidableEq, Repr

namespace Interpreter

variable {σ : Type}

/-- Notes where the store stands. -/
def mark (m : Interpreter σ) : Mark := ⟨m.store.size, m.captures⟩

/-- Gives back the cells handed out since a mark, unless a closure was made or bound anew since then. -/
def reclaim (reclamation : Reclamation) (mark : Mark) (m : Interpreter σ) : Interpreter σ :=
  match reclamation with
  | .never => m
  | .onExit => if m.captures = mark.captures then { m with store := m.store.truncate mark.cells } else m

/-- If no closure was made or bound anew since the mark, the cells handed out since are given back. -/
theorem reclaim_of_captures_eq {m : Interpreter σ} {mark : Mark} (h : m.captures = mark.captures) :
    m.reclaim .onExit mark = { m with store := m.store.truncate mark.cells } := if_pos h

/-- If a closure was made or bound anew since the mark, nothing is given back. -/
theorem reclaim_of_captures_ne {m : Interpreter σ} {mark : Mark} (h : m.captures ≠ mark.captures)
    (reclamation : Reclamation) : m.reclaim reclamation mark = m := by
  cases reclamation with
  | onExit => exact if_neg h
  | never => rfl

/-- Nothing but cells is given back. -/
theorem reclaim_eq (m : Interpreter σ) (reclamation : Reclamation) (mark : Mark) :
    m.reclaim reclamation mark = { m with store := (m.reclaim reclamation mark).store } := by
  cases reclamation with
  | onExit =>
    simp only [reclaim]
    split <;> rfl
  | never => rfl

/-- Cells that were handed out at the mark keep their values. -/
theorem get?_reclaim (m : Interpreter σ) (reclamation : Reclamation) {mark : Mark} {slot : Nat} (h : slot < mark.cells) :
    (m.reclaim reclamation mark).store.get? slot = m.store.get? slot := by
  cases reclamation with
  | onExit =>
    simp only [reclaim]
    split
    · exact (Store.get?_truncate _ _ _).trans (if_pos h)
    · rfl
  | never => rfl

end Interpreter

namespace Evaluation

variable {σ α : Type}

/-- Fails. -/
def fail (e : EvalError) : Evaluation σ α := throw (.failed e)

/-- The result of a computation that may fail. -/
def ofExcept : Except EvalError α → Evaluation σ α
  | .ok a => pure a
  | .error e => fail e

/-- Binds a name to a new cell in front of an environment. -/
def bind (env : Environment) (name : String) (value : Value) : Evaluation σ Environment :=
  modifyGet fun m => m.bind env name value

/-- Binds names to new cells one after the other. -/
def bindAll (env : Environment) : List (String × Value) → Evaluation σ Environment
  | [] => return env
  | (name, value) :: rest => do bindAll (← bind env name value) rest

/-- The value of a name, and of any other value the value itself. -/
def resolve (value : Value) (env : Environment) (context : String) : Evaluation σ Value := do
  ofExcept ((← get).resolve value env context)

/-- Makes a closure. -/
def capture (literal : FunctionLiteral) (env : Environment) : Evaluation σ Value :=
  modifyGet fun m =>
    (.closure m.closures.size, { m with closures := m.closures.push ⟨literal, env⟩, captures := m.captures + 1 })

/-- Gives a closure another environment; other values have none. -/
def recapture (value : Value) (env : Environment) : Evaluation σ Unit :=
  match value with
  | .closure number => modify fun m =>
    { m with closures := m.closures.modify number ({ · with env }), captures := m.captures + 1 }
  | _ => return ()

/-- Changes the value in the cell of a name. -/
def store (name : String) (slot : Nat) (value : Value) : Evaluation σ Unit := fun m =>
  match m.store.set? slot value with
  | some store => .ok () { m with store }
  | none => .error (.failed (.vanished name "Assign")) m

/-- Hands a text to the sink, or fails if it is not taken. -/
def write [Sink σ] (s : String) : Evaluation σ Unit := fun m =>
  match Sink.write m.output s with
  | (output, true) => .ok () { m with output }
  | (output, false) => .error (.failed .output) { m with output }

/-- Prints a line: the text, unless it is empty, and then the end of the line. -/
def printLine [Sink σ] (s : String) : Evaluation σ Unit := do
  if s ≠ "" then write s
  write "\n"

end Evaluation

end ExprLang
