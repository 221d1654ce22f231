import ExprLang.Proofs.Evaluation.Journal
import ExprLang.Proofs.Lowering.Linking

/-!
# The functions of a module in their order

A module lists its functions in the order in which they were finished. That is the post-order of the program: an expression comes behind
all expressions inside of it, and those come from the left to the right, the body of a function being inside of its literal. The nodes
of an expression are listed in this order whatever their kind (`postOrder`), one entry for each occurrence, and the functions of a
module are what is left of the list if only the declarations are kept (`compile?_functions_eq_postOrder`).

`declarations` collects the same functions kind by kind, the way lowering goes through an expression, so the two lists are compared
first (`filterMap_postOrder`).
-/

namespace ExprLang

open Code

namespace Expression

/-! ## Nodes in post-order -/

/-- The expressions directly inside of an expression from the left to the right, also the body of a function. -/
def inside : Expression → List Expression
  | .funcDecl _ f | .function f | .closure f => [f.body]
  | e => e.children

/-- What stands inside an expression is smaller. -/
theorem sizeOf_lt_of_mem_inside {a e : Expression} (h : a ∈ e.inside) : sizeOf a < sizeOf e := by
  cases e with
  | funcDecl name f =>
    obtain ⟨identity, parameters, body⟩ := f
    rcases List.mem_singleton.1 h with rfl
    simp only [funcDecl.sizeOf_spec, Abstraction.mk.sizeOf_spec]
    omega
  | function f | closure f =>
    obtain ⟨identity, parameters, body⟩ := f
    rcases List.mem_singleton.1 h with rfl
    simp only [function.sizeOf_spec, closure.sizeOf_spec, Abstraction.mk.sizeOf_spec]
    omega
  | _ => exact sizeOf_lt_of_mem_children h

/-- All nodes of an expression, each behind the nodes inside of it. -/
def postOrder (e : Expression) : List Expression :=
  (e.inside.attach.flatMap fun a => postOrder a.1) ++ [e]
termination_by sizeOf e
decreasing_by exact sizeOf_lt_of_mem_inside a.2

/-- In post-order an expression comes after all that stands inside it. -/
theorem postOrder_eq (e : Expression) : e.postOrder = e.inside.flatMap postOrder ++ [e] := by
  rw [postOrder]
  simp only [List.flatMap_subtype, List.unattach_attach]

/-- The function that an expression declares itself. -/
def declared? : Expression → Option (String × FunctionLiteral)
  | .funcDecl name f => some (name, f)
  | _ => none

/-! ## Declarations in post-order -/

/-- The declarations of a list are those of its expressions, in their order. -/
theorem declarationsOfAll_eq (es : List Expression) : declarationsOfAll es = es.flatMap declarations := by
  induction es with
  | nil => rfl
  | cons a rest ih => rw [declarationsOfAll, ih, List.flatMap_cons]

/-- The declarations of fields are those of their values, in their order. -/
theorem declarationsOfFields_eq (fs : List (String × Expression)) :
    declarationsOfFields fs = (fs.map Prod.snd).flatMap declarations := by
  induction fs with
  | nil => rfl
  | cons f rest ih => rw [declarationsOfFields, ih, List.map_cons, List.flatMap_cons]

/-- What an expression declares is what is declared inside of it, and then what it declares itself. -/
theorem declarations_eq (e : Expression) : e.declarations = e.inside.flatMap declarations ++ e.declared?.toList := by
  cases e with
  | sequence es => simp [declarations, inside, children, declared?, declarationsOfAll_eq]
  | call f as => simp [declarations, inside, children, declared?, declarationsOfAll_eq]
  | object fs => simp [declarations, inside, children, declared?, declarationsOfFields_eq]
  | conditional a b c => cases c <;> simp [declarations, inside, children, declared?]
  | _ => simp [declarations, inside, children, declared?]

/-- The declarations among the nodes in post-order are the functions that the expression declares, in their order. -/
theorem filterMap_postOrder (e : Expression) : e.postOrder.filterMap declared? = e.declarations := by
  have hself : [e].filterMap declared? = e.declared?.toList := by cases h : e.declared? <;> simp [h]
  rw [postOrder_eq, declarations_eq, List.filterMap_append, List.filterMap_flatMap, hself]
  congr 1
  exact List.flatMap_congr fun a ha => filterMap_postOrder a
termination_by sizeOf e
decreasing_by exact sizeOf_lt_of_mem_inside ha

end Expression

open Lowering

/-- The functions of a module have the names and parameters of the declarations among the nodes of the program, in post-order: there is
one function for each of these nodes, wherever it is, and no other. -/
theorem compile?_functions_eq_postOrder {mode : Signedness} {program : Expression} {m : Module}
    (h : program.compile? mode = .ok m) :
    m.functions.map (fun d => (d.name, d.parameters)) =
      (program.postOrder.filterMap Expression.declared?).map fun f => (f.1, f.2.parameters) := by
  rw [Expression.filterMap_postOrder]
  exact map_name_parameters_of_implements (implements_of_compile? h).1

/-- A program that declares functions in an initialiser, a test, both outcomes, a loop, an argument and another function, two of them
with one name. -/
def declaredEverywhere : Expression :=
  .sequence [.assign (.varDecl "x") (.sequence [.funcDecl "a" ⟨0, [], .void⟩, .integer 1]),
    .conditional (.sequence [.funcDecl "b" ⟨1, ["p"], .void⟩, .boolean true])
      (.funcDecl "c" ⟨2, [],
        .sequence [.funcDecl "d" ⟨3, ["q", "r"], .funcDecl "e" ⟨4, [], .void⟩⟩, .funcDecl "a" ⟨5, ["s"], .void⟩]⟩)
      (some (.funcDecl "f" ⟨6, [], .void⟩)),
    .loop (.sequence [.funcDecl "g" ⟨7, [], .void⟩, .boolean false]) (.funcDecl "h" ⟨8, [], .void⟩),
    .call (.identifier "b") [.sequence [.funcDecl "i" ⟨9, [], .void⟩, .integer 2]]]

/-- Its module has all of them, those inside of others first. -/
theorem compile?_functions_eq_postOrder_declaredEverywhere :
    ∃ m, declaredEverywhere.compile? .signed = .ok m ∧ m.functions.map (fun d => (d.name, d.parameters)) =
      [("a", []), ("b", ["p"]), ("e", []), ("d", ["q", "r"]), ("a", ["s"]), ("c", []), ("f", []), ("g", []), ("h", []), ("i", [])] := by
  have h : (declaredEverywhere.compile? .signed).toOption.isSome := by decide +kernel
  obtain ⟨m, hm⟩ := Option.isSome_iff_exists.1 h
  have hok := ok_of_mem_toOption hm
  refine ⟨m, hok, (compile?_functions_eq_postOrder hok).trans ?_⟩
  rw [Expression.filterMap_postOrder]
  decide

end ExprLang
