import Mathlib.Logic.Function.Basic
import ExprLang.Expression.Basic
import ExprLang.Proofs.Environment
import ExprLang.Proofs.Lowering.Tag

/-!
# Imperative programs

Programs that compute with integers: declarations and assignments of arithmetic expressions, choices and loops over comparisons, and an
arithmetic expression at the end (`IsProgram`). What such a program means can be said without an interpreter and without a machine:
names have values, statements change them (`Executes`), and the last expression is the result (`Yields`). Quotients and comparisons mean
something only if their operands fit.

Both the interpreter and the machine keep the value of a name in a cell, and which one it is says an environment: that of the
interpreter, or the index of the frame (`KeptIn`).
-/

namespace ExprLang

open Code

namespace Imperative

/-! ## Syntax -/

/-- An integer, one of the names, or an operator between such expressions; division needs signed numbers. -/
inductive IsArithmetic (mode : Signedness) (names : List String) : Expression → Prop where
  | integer (n : Int32) : IsArithmetic mode names (.integer n)
  | identifier {x : String} (hx : x ∈ names) : IsArithmetic mode names (.identifier x)
  | binary {a b : Expression} {o : Arithmetic} (ha : IsArithmetic mode names a) (hb : IsArithmetic mode names b)
      (ho : o = .div → mode = .signed) : IsArithmetic mode names (.binary a (.arithmetic o) b)

/-- A truth value or a comparison of arithmetic expressions. -/
inductive IsTest (mode : Signedness) (names : List String) : Expression → Prop where
  | boolean (b : Bool) : IsTest mode names (.boolean b)
  | comparison {a b : Expression} (o : Comparison) (ha : IsArithmetic mode names a) (hb : IsArithmetic mode names b) :
      IsTest mode names (.binary a (.comparison o) b)

/-- What changes the values of names: an assignment, a choice, a loop, or such statements one after the other. -/
inductive IsStatement (mode : Signedness) (names : List String) : Expression → Prop where
  | assign {x : String} {a : Expression} (hx : x ∈ names) (ha : IsArithmetic mode names a) :
      IsStatement mode names (.assign (.identifier x) a)
  | choice {c a : Expression} (hc : IsTest mode names c) (ha : IsStatement mode names a) :
      IsStatement mode names (.conditional c a none)
  | alternative {c a b : Expression} (hc : IsTest mode names c) (ha : IsStatement mode names a)
      (hb : IsStatement mode names b) : IsStatement mode names (.conditional c a (some b))
  | loop {c a : Expression} (hc : IsTest mode names c) (ha : IsStatement mode names a) :
      IsStatement mode names (.loop c a)
  | sequence {es : List Expression} (hes : ∀ e ∈ es, IsStatement mode names e) : IsStatement mode names (.sequence es)

/-- The names in an arithmetic expression. -/
def occurring : Expression → List String
  | .identifier x => [x]
  | .binary a _ b => occurring a ++ occurring b
  | _ => []

/-- Declarations and statements one after the other, and at the end an arithmetic expression; names are declared before they occur. -/
inductive IsProgram (mode : Signedness) : List String → List Expression → Prop where
  | result {names : List String} {a : Expression} (ha : IsArithmetic mode names a) : IsProgram mode names [a]
  | declare {names : List String} {x : String} {a : Expression} {rest : List Expression} (ha : IsArithmetic mode names a)
      (hx : x ∉ occurring a) (hrest : IsProgram mode (x :: names) rest) : IsProgram mode names (.declare x a :: rest)
  | statement {names : List String} {e : Expression} {rest : List Expression} (he : IsStatement mode names e)
      (hrest : IsProgram mode names rest) : IsProgram mode names (e :: rest)

/-! ## Meaning -/

/-- The values of names; a name that was not declared has none. -/
abbrev Values := String → Option Int32

/-- No name is declared. -/
def Values.none : Values := fun _ => Option.none

/-- Gives a name a value. -/
def Values.set (values : Values) (x : String) (n : Int32) : Values := Function.update values x (some n)

/-- The value of an arithmetic expression, if it has one. -/
def arithmetic? (values : Values) : Expression → Option Int32
  | .integer n => some n
  | .identifier x => values x
  | .binary a (.arithmetic o) b => do o.compute? (← arithmetic? values a) (← arithmetic? values b)
  | _ => none

/-- The outcome of a test, if it has one; a comparison has one only if both operands fit. -/
def test? (values : Values) : Expression → Option Bool
  | .boolean b => some b
  | .binary a (.comparison o) b => do
    let l ← arithmetic? values a
    let r ← arithmetic? values b
    if Fits l ∧ Fits r then some (o.holds (compareIntegers l r)) else none
  | _ => none

/-- What a loop does whose test and whose body are given: the body is executed as long as the test has the outcome `true`. -/
inductive Turns (test : Values → Option Bool) (body : Values → Values → Prop) : Values → Values → Prop where
  | done {values : Values} (ht : test values = some false) : Turns test body values values
  | again {values values₁ values₂ : Values} (ht : test values = some true) (hb : body values values₁)
      (hrest : Turns test body values₁ values₂) : Turns test body values values₂

mutual

/-- What a statement does to the values of names. -/
def Executes : Expression → Values → Values → Prop
  | .assign (.identifier x) a, values, values' => ∃ n, arithmetic? values a = some n ∧ values' = values.set x n
  | .conditional c a none, values, values' =>
    test? values c = some true ∧ Executes a values values' ∨ test? values c = some false ∧ values' = values
  | .conditional c a (some b), values, values' =>
    test? values c = some true ∧ Executes a values values' ∨ test? values c = some false ∧ Executes b values values'
  | .loop c a, values, values' => Turns (test? · c) (Executes a) values values'
  | .sequence es, values, values' => ExecutesAll es values values'
  | _, _, _ => False
termination_by structural e => e

/-- What statements one after the other do to the values of names. -/
def ExecutesAll : List Expression → Values → Values → Prop
  | [], values, values' => values' = values
  | e :: rest, values, values' => ∃ values₁, Executes e values values₁ ∧ ExecutesAll rest values₁ values'
termination_by structural es => es

end

/-- The result of a program, given the values of names before it. -/
inductive Yields : List Expression → Values → Int32 → Prop where
  | result {a : Expression} {values : Values} {n : Int32} (ha : arithmetic? values a = some n) : Yields [a] values n
  | declare {x : String} {a : Expression} {rest : List Expression} {values : Values} {n v : Int32}
      (ha : arithmetic? values a = some n) (hrest : Yields rest (values.set x n) v) : Yields (.declare x a :: rest) values v
  | statement {e : Expression} {rest : List Expression} {values values' : Values} {v : Int32}
      (he : Executes e values values') (hrest : Yields rest values' v) : Yields (e :: rest) values v

/-- The value of an arithmetic expression does not depend on a name that does not occur in it. -/
theorem IsArithmetic.value_update {mode : Signedness} {names : List String} {a : Expression} (h : IsArithmetic mode names a)
    (values : Values) {x : String} (o : Option Int32) (hx : x ∉ occurring a) :
    arithmetic? (Function.update values x o) a = arithmetic? values a := by
  induction h with
  | integer n => rfl
  | @identifier y _ =>
    have hne : y ≠ x := fun he => hx (he ▸ List.mem_singleton_self y)
    exact Function.update_of_ne hne o values
  | binary _ _ _ iha ihb =>
    rw [occurring, List.mem_append, not_or] at hx
    rw [arithmetic?, arithmetic?, iha hx.1, ihb hx.2]

/-- An expression in which a name does not occur is one over the other names. -/
theorem IsArithmetic.filter {mode : Signedness} {names : List String} {a : Expression} (h : IsArithmetic mode names a)
    {x : String} (hx : x ∉ occurring a) : IsArithmetic mode (names.filter (· ≠ x)) a := by
  induction h with
  | integer n => exact .integer n
  | @identifier y hy =>
    have hne : y ≠ x := fun he => hx (he ▸ List.mem_singleton_self y)
    exact .identifier (List.mem_filter.2 ⟨hy, decide_eq_true hne⟩)
  | binary _ _ ho iha ihb =>
    rw [occurring, List.mem_append, not_or] at hx
    exact .binary (iha hx.1) (ihb hx.2) ho

/-! ## Cells -/

variable {β : Type} {values : Values} {env : Environment} {cell? cell?' : Nat → Option β} {encode : Int32 → β}

/-- Every value of a name is in the cell that the name stands for. -/
def KeptIn (values : Values) (env : Environment) (cell? : Nat → Option β) (encode : Int32 → β) : Prop :=
  ∀ x n, values x = some n → ∃ slot, env.find? x = some slot ∧ cell? slot = some (encode n)

namespace KeptIn

/-- No name has a value. -/
theorem none (env : Environment) (cell? : Nat → Option β) (encode : Int32 → β) : KeptIn Values.none env cell? encode :=
  fun _ _ h => nomatch h

/-- A name is given a value by writing its cell. -/
theorem set (h : KeptIn values env cell? encode) {size : Nat} (hw : env.WellFormed size) {x : String} {slot : Nat}
    (hx : env.find? x = some slot) {n : Int32}
    (hcell : ∀ other, cell?' other = if other = slot then some (encode n) else cell? other) :
    KeptIn (values.set x n) env cell?' encode := by
  intro y k hy
  by_cases hyx : y = x
  · subst hyx
    rw [Values.set, Function.update_self] at hy
    cases hy
    exact ⟨slot, hx, by rw [hcell, if_pos rfl]⟩
  · rw [Values.set, Function.update_of_ne hyx] at hy
    obtain ⟨other, hother, hk⟩ := h y k hy
    have hne : other ≠ slot := fun he => hyx (hw.eq_of_find? hother (he ▸ hx))
    exact ⟨other, hother, by rw [hcell, if_neg hne, hk]⟩

/-- A name that is bound to a new cell has no value for now; the others keep theirs. -/
theorem bind (h : KeptIn values env cell? encode) {size : Nat} (hw : env.WellFormed size) (x : String)
    (hcell : ∀ slot, slot < size → cell?' slot = cell? slot) :
    KeptIn (Function.update values x Option.none) (env.bind x size) cell?' encode := by
  intro y k hy
  have hyx : y ≠ x := by
    rintro rfl
    rw [Function.update_self] at hy
    cases hy
  rw [Function.update_of_ne hyx] at hy
  obtain ⟨slot, hslot, hk⟩ := h y k hy
  exact ⟨slot, by rw [Environment.find?_bind, if_neg hyx, hslot], by rw [hcell slot (hw.find?_lt hslot), hk]⟩

end KeptIn

end Imperative

end ExprLang
