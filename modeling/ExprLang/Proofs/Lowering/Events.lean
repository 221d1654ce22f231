import Mathlib.Data.List.Induction
import ExprLang.Code.Module
import ExprLang.Expression.Basic

/-!
# What lowering does with slots

Lowering declares names, computes addresses of slots and finishes functions. `events` says in which order it does so for an expression,
given the names that the function around has declared before: no state of a generator and no instruction is needed for that. A name
stands for the position of its latest declaration (`latest?`). What an assignment assigns to is looked up before its value is lowered,
so a declaration of the same name inside of the value does not count.
-/

namespace ExprLang

namespace Lowering

/-- The position at which a name was declared last. -/
def latest? (name : String) (names : List String) : Option Nat := names.zipIdx.reverse.lookup name

theorem latest?_nil (name : String) : latest? name [] = none := rfl

/-- The latest declaration of a name is a new one if it is of that name, else the one that was the latest before. -/
theorem latest?_concat (name new : String) (names : List String) :
    latest? name (names ++ [new]) = if name = new then some names.length else latest? name names := by
  by_cases h : name = new <;> simp [latest?, List.zipIdx_append, List.lookup_cons, h, beq_false_of_ne]

/-- At the position of the latest declaration the name is declared, and it is not declared at a later one. -/
theorem latest?_eq_some_iff {name : String} {names : List String} {i : Nat} :
    latest? name names = some i ↔ names[i]? = some name ∧ ∀ j, i < j → names[j]? ≠ some name := by
  induction names using List.reverseRecOn with
  | nil => simp [latest?_nil]
  | append_singleton names new ih =>
    have hget : ∀ k, (names ++ [new])[k]? = if k = names.length then some new else names[k]? := by
      intro k
      split
      case isTrue hk => rw [hk, List.getElem?_concat_length]
      case isFalse hk => grind
    rw [latest?_concat]
    split
    case isTrue h =>
      subst h
      simp only [Option.some.injEq, hget]
      grind
    case isFalse h =>
      rw [ih]
      simp only [hget]
      grind

/-- A name has no latest declaration exactly if it is not declared. -/
theorem latest?_eq_none_iff {name : String} {names : List String} : latest? name names = none ↔ name ∉ names := by
  induction names using List.reverseRecOn with
  | nil => simp [latest?_nil]
  | append_singleton names new ih =>
    rw [latest?_concat]
    by_cases h : name = new <;> simp [h, ih]

/-- A declaration has a position. -/
theorem lt_of_latest? {name : String} {names : List String} {i : Nat} (h : latest? name names = some i) : i < names.length :=
  (List.getElem?_eq_some_iff.1 (latest?_eq_some_iff.1 h).1).1

/-- What lowering does that concerns slots. -/
inductive Event where
  /-- A name gets the next slot. -/
  | declare (name : String)
  /-- The address of a slot is computed. -/
  | address (slot : Nat)
  /-- A function is finished. -/
  | define (name : String) (function : FunctionLiteral)

namespace Event

/-- The name that is declared. -/
def name? : Event → Option String
  | declare name => some name
  | _ => none

/-- The slot whose address is computed. -/
def slot? : Event → Option Nat
  | address slot => some slot
  | _ => none

/-- The function that is finished. -/
def function? : Event → Option (String × FunctionLiteral)
  | define name function => some (name, function)
  | _ => none

end Event

/-- The names that are declared. -/
def declaredNames (events : List Event) : List String := events.filterMap Event.name?

/-- The slots whose addresses are computed. -/
def addressedSlots (events : List Event) : List Nat := events.filterMap Event.slot?

/-- The functions that are finished. -/
def finishedFunctions (events : List Event) : List (String × FunctionLiteral) := events.filterMap Event.function?

@[simp] theorem declaredNames_append (events later : List Event) :
    declaredNames (events ++ later) = declaredNames events ++ declaredNames later := List.filterMap_append

@[simp] theorem addressedSlots_append (events later : List Event) :
    addressedSlots (events ++ later) = addressedSlots events ++ addressedSlots later := List.filterMap_append

@[simp] theorem finishedFunctions_append (events later : List Event) :
    finishedFunctions (events ++ later) = finishedFunctions events ++ finishedFunctions later := List.filterMap_append

/-- That functions are finished. -/
def finishing (functions : List (String × FunctionLiteral)) : List Event := functions.map fun f => .define f.1 f.2

@[simp] theorem declaredNames_finishing (functions : List (String × FunctionLiteral)) : declaredNames (finishing functions) = [] := by
  simp [declaredNames, finishing, Event.name?]

@[simp] theorem addressedSlots_finishing (functions : List (String × FunctionLiteral)) : addressedSlots (finishing functions) = [] := by
  simp [addressedSlots, finishing, Event.slot?]

@[simp] theorem finishedFunctions_finishing (functions : List (String × FunctionLiteral)) :
    finishedFunctions (finishing functions) = functions := by
  simp [finishedFunctions, finishing, List.filterMap_map, Function.comp_def, Event.function?]

/-- What happens, given the names that are declared before. -/
abbrev Course := List String → List Event

/-- One thing happens after another. -/
def Course.andThen (first next : Course) : Course := fun names => first names ++ next (names ++ declaredNames (first names))

@[simp] theorem Course.andThen_nothing (course : Course) : (course.andThen fun _ => []) = course :=
  funext fun _ => List.append_nil _

/-- The address of the slot that a name stands for is computed, if there is one. -/
def Course.resolve (name : String) : Course := fun names => ((latest? name names).map .address).toList

/-- A name is declared, and the address of its slot is computed. -/
def Course.introduce (name : String) : Course := fun names => [.declare name, .address names.length]

mutual

/-- What happens when an expression is lowered. Functions are finished from the inside out, and each has names and slots of its own,
the first of which are those of its parameters. -/
def events : Expression → Course
  | .identifier name => .resolve name
  | .varDecl name => fun _ => [.declare name]
  | .funcDecl name ⟨identity, parameters, body⟩ => fun _ =>
    finishing (finishedFunctions (events body parameters)) ++ [.define name ⟨identity, parameters, body⟩]
  | .scope a => events a
  | .sequence as => eventsAll as
  | .binary a _ b => (events a).andThen (events b)
  | .assign (.varDecl name) a => (events a).andThen (.introduce name)
  | .assign (.identifier name) a => fun names => events a names ++ Course.resolve name names
  | .call (.identifier _) as => eventsAll as
  | .conditional a b none => (events a).andThen (events b)
  | .conditional a b (some c) => (events a).andThen ((events b).andThen (events c))
  | .loop a b => (events a).andThen (events b)
  | .ret a => events a
  | _ => fun _ => []
termination_by structural e => e

/-- What happens when expressions are lowered one after the other. -/
def eventsAll : List Expression → Course
  | [] => fun _ => []
  | e :: rest => (events e).andThen (eventsAll rest)
termination_by structural es => es

end

/-- The value of an assignment declares the name anew: the assignment still goes to the slot from before, a later one to the new
slot. -/
example : events (.sequence [.declare "x" (.integer 1), .assign (.identifier "x") (.declare "x" (.integer 2)), .identifier "x"]) [] =
    [.declare "x", .address 0, .declare "x", .address 1, .address 0, .address 1] := by
  rfl

end Lowering

end ExprLang
