/-!
# Frames

A frame has a slot for each declaration of a function, numbered in the order of the declarations. Declaring a name again takes a new
slot, and from then on the name stands for the new one. Each frame keeps an index from names to their latest slots. While a function
is generated, the frames of the functions around it are kept too, so that a name of theirs can be told from a name of none.
-/

namespace ExprLang.Code

/-- A slot of a frame. -/
structure FrameSlot where
  /-- The name that was declared. -/
  name : String
  /-- The last constant seen before the declaration, if there was one. -/
  initial : Option Int32
deriving DecidableEq, Repr

/-- The slots of a function. -/
structure Frame where
  /-- The slots in their order. -/
  slots : Array FrameSlot
  /-- Declared names and their slots, the latest declaration first. -/
  index : List (String × Nat)
deriving DecidableEq, Repr

namespace Frame

/-- Nothing is declared. -/
def empty : Frame := ⟨#[], []⟩

/-- The number of slots. -/
def size (f : Frame) : Nat := f.slots.size

/-- Declares a name and gives its slot. -/
def declare (f : Frame) (name : String) (initial : Option Int32) : Nat × Frame :=
  (f.size, ⟨f.slots.push ⟨name, initial⟩, (name, f.size) :: f.index⟩)

/-- The slot of the latest declaration of a name. -/
def slot? (f : Frame) (name : String) : Option Nat := f.index.lookup name

/-- The names of the slots in their order. -/
def names (f : Frame) : List String := f.slots.toList.map FrameSlot.name

/-- The constant noted for a slot. -/
def initial? (f : Frame) (slot : Nat) : Option Int32 := f.slots[slot]?.bind FrameSlot.initial

/-- A declaration takes the first slot that is not used. -/
@[simp] theorem fst_declare (f : Frame) (name : String) (initial : Option Int32) : (f.declare name initial).1 = f.size := rfl

/-- A declaration adds a slot. -/
@[simp] theorem size_declare (f : Frame) (name : String) (initial : Option Int32) :
    (f.declare name initial).2.size = f.size + 1 := by
  simp [declare, size]

/-- The new slot has the declared name. -/
@[simp] theorem names_declare (f : Frame) (name : String) (initial : Option Int32) :
    (f.declare name initial).2.names = f.names ++ [name] := by
  simp [declare, names]

/-- A declared name stands for the new slot; every other name stands for what it stood for. -/
theorem slot?_declare (f : Frame) (name other : String) (initial : Option Int32) :
    (f.declare name initial).2.slot? other = if other = name then some f.size else f.slot? other := by
  by_cases h : other = name <;> simp [declare, slot?, List.lookup_cons, h, beq_false_of_ne]

/-- The constants noted for earlier slots stay. -/
theorem initial?_declare (f : Frame) (name : String) (initial : Option Int32) (slot : Nat) :
    (f.declare name initial).2.initial? slot = if slot = f.size then initial else f.initial? slot := by
  by_cases h : slot = f.slots.size <;> simp [declare, initial?, size, Array.getElem?_push, h]

/-- The type of a frame: the frame around, a number, and the slots. -/
def typeText (f : Frame) : String := "\x7b%eframe*, i32, [" ++ toString f.size ++ " x i32]\x7d"

end Frame

/-- Where a name is declared. -/
inductive Place where
  /-- In this slot of the current frame. -/
  | own (slot : Nat)
  /-- In a frame around the current one. -/
  | enclosing
deriving DecidableEq, Repr

/-- The current frame and the frames around it. -/
structure FrameChain where
  /-- The current frame. -/
  current : Frame
  /-- The frames around it, the nearest first. -/
  outer : List Frame
deriving DecidableEq, Repr

namespace FrameChain

/-- An empty frame with none around it. -/
def empty : FrameChain := ⟨Frame.empty, []⟩

/-- Declares a name in the current frame and gives its slot. -/
def declare (c : FrameChain) (name : String) (initial : Option Int32) : Nat × FrameChain :=
  let (slot, current) := c.current.declare name initial
  (slot, { c with current })

/-- Where a name is declared. -/
def resolve? (c : FrameChain) (name : String) : Option Place :=
  match c.current.slot? name with
  | some slot => some (.own slot)
  | none => if c.outer.any fun f => (f.slot? name).isSome then some .enclosing else none

/-- Opens an empty frame inside the current one. -/
def enclose (c : FrameChain) : FrameChain := ⟨Frame.empty, c.current :: c.outer⟩

/-- Leaves the current frame for the one around it. -/
def leave? (c : FrameChain) : Option FrameChain :=
  match c.outer with
  | [] => none
  | f :: rest => some ⟨f, rest⟩

/-- Leaving a frame that was opened gives back the chain in which it was opened. -/
@[simp] theorem leave?_enclose (c : FrameChain) : c.enclose.leave? = some c := rfl

/-- Whatever the current frame is, leaving it gives back the frames around it. -/
theorem leave?_of_outer {c c' : FrameChain} (h : c.outer = c'.current :: c'.outer) : c.leave? = some c' := by
  rw [leave?, h]

end FrameChain

end ExprLang.Code
