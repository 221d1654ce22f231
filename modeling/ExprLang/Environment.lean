import ExprLang.Text.Quoted

/-!
# Environments

An environment says which cell of the store a name stands for; the cell is known by its number, its slot. An environment is a chain
of bindings: binding a name puts a new one in front, so every other holder of the old chain keeps seeing what it saw, and a name
stands for the cell of its innermost binding (`find?_bind`).
-/

namespace ExprLang

/-- A chain of bindings. -/
structure Environment where
  /-- Names and the cells they stand for, the innermost first. -/
  bindings : List (String × Nat)
deriving DecidableEq, Repr

namespace Environment

/-- No name is bound. -/
def empty : Environment := ⟨[]⟩

/-- Whether no name is bound. -/
def isEmpty (env : Environment) : Bool := env.bindings.isEmpty

/-- Binds a name in front of an environment. -/
def bind (env : Environment) (name : String) (slot : Nat) : Environment := ⟨(name, slot) :: env.bindings⟩

/-- The cell that a name stands for. -/
def find? (env : Environment) (name : String) : Option Nat := env.bindings.lookup name

/-- The bound names, innermost first, once for each binding. -/
def names (env : Environment) : List String := env.bindings.map Prod.fst

/-- The number of bindings. -/
def depth (env : Environment) : Nat := env.bindings.length

/-- A name that is bound anew stands for the new cell; every other name stands for what it stood for. -/
theorem find?_bind (env : Environment) (name other : String) (slot : Nat) :
    (env.bind name slot).find? other = if other = name then some slot else env.find? other := by
  by_cases h : other = name <;> simp [bind, find?, List.lookup_cons, h, beq_false_of_ne]

/-- A new binding is the innermost one. -/
@[simp] theorem names_bind (env : Environment) (name : String) (slot : Nat) :
    (env.bind name slot).names = name :: env.names := rfl

/-- A new binding is one more binding. -/
@[simp] theorem depth_bind (env : Environment) (name : String) (slot : Nat) :
    (env.bind name slot).depth = env.depth + 1 := rfl

/-- A name stands for a cell exactly if it is bound. -/
theorem isSome_find?_iff (env : Environment) (name : String) : (env.find? name).isSome ↔ name ∈ env.names := by
  simp [find?, names, List.lookup_isSome_iff]

/-- The names in quotes and brackets. -/
def text (env : Environment) : String := Text.quotedList env.names

end Environment

end ExprLang
