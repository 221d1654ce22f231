import ExprLang.Proofs.Lowering.Patterns
import ExprLang.Proofs.Lowering.Results

/-!
# Operators on tagged values

The code of an operator works on the tagged forms of its operands. It comes to the tagged form of what the interpreter computes: for sums,
differences and products of any integers, since both sides count modulo `2 ^ 32`; for quotients and comparisons where nothing of the
operands was lost. Whatever its operands are, they leave cells whose registers are used (`leaves_lower`), so that reading the one does not
overwrite the address of the other.
-/

namespace ExprLang

open Code

namespace Arithmetic

/-- What an operator computes of integers of any size; a quotient is rounded towards zero. -/
def exact : Arithmetic → Int → Int → Int
  | add, a, b => a + b
  | sub, a, b => a - b
  | mul, a, b => a * b
  | div, a, b => a.tdiv b

/-- The integer of 32 bits that differs from what an operator computes by a multiple of `2 ^ 32`. -/
def wrapped (op : Arithmetic) (a b : Int32) : Int32 := Int32.ofInt (op.exact a.toInt b.toInt)

/-- The interpreter computes with 32 bits. -/
theorem onIntegers_eq_wrapped {op : Arithmetic} {a b : Int32} (h : op = .div → b ≠ 0) : op.onIntegers a b = .ok (op.wrapped a b) := by
  have hwrap : ∀ {n : Int32} {k : Int}, n.toInt = k.bmod (2 ^ 32) → n = Int32.ofInt k := fun hn =>
    Int32.toInt_inj.1 (hn.trans Int32.toInt_ofInt.symm)
  cases op with
  | add => exact congrArg Except.ok (hwrap (Int32.toInt_add a b))
  | sub => exact congrArg Except.ok (hwrap (Int32.toInt_sub a b))
  | mul => exact congrArg Except.ok (hwrap (Int32.toInt_mul a b))
  | div => exact (if_neg (h rfl)).trans (congrArg Except.ok (hwrap (Int32.toInt_div a b)))

end Arithmetic

namespace Lowering

variable {mode : Signedness} {left right : Expression} {l r : Nat} {g g₁ g₂ : Generator}

/-- Wherever the code of `g'` stands, the machine comes from its state at the end of the code of `g`, if `before` holds of it, to the end
of the code of `g'`, and then `after` holds; whatever was written before is what it was. -/
def Transforms (g g' : Generator) (before after : Machine → Prop) : Prop :=
  ∀ body s, Begins body g' → s.position = position g → before s → ∃ s', Computes body g g' s s' ∧ after s'

/-- An operator computes the tagged result; its operands must fit for a quotient. -/
theorem exists_transforms_arithmetic {op : Arithmetic} (hsigned : op = .div → mode = .signed)
    (hleft : lower mode left g = .ok (.boxed l) g₁) (hright : lower mode right g₁ = .ok (.boxed r) g₂) :
    ∃ c g₃, lower mode (.binary left (.arithmetic op) right) g = .ok (.boxed c) g₃ ∧
      ∀ a b n, (op = .div → Fits a ∧ Fits b) → op.onIntegers a b = .ok n →
        Transforms g₂ g₃ (fun s => Holds s l (tagInteger a) ∧ Holds s r (tagInteger b)) fun s => Holds s c (tagInteger n) := by
  obtain ⟨c, g₃, h⟩ := exists_combines hsigned l r g₂
  refine ⟨c, g₃, (bind_of_ok hleft _).trans ((bind_of_ok hright _).trans (h.ok _ _)), fun a b n hfit hn body s hb hs hcells => ?_⟩
  have hused := (Stored.register (leaves_lower mode right hright)).2
  obtain ⟨s', hcomputes, hcell⟩ := h.computes hb hs hused hcells.1 hcells.2 (compute?_of_ok hfit hn)
  exact ⟨s', hcomputes, hcell.holds⟩

/-- A comparison computes its outcome for operands that fit. -/
theorem exists_transforms_comparison (op : Comparison) (hleft : lower mode left g = .ok (.boxed l) g₁)
    (hright : lower mode right g₁ = .ok (.boxed r) g₂) :
    ∃ flag g₃, lower mode (.binary left (.comparison op) right) g = .ok (.flag flag) g₃ ∧
      ∀ a b, Fits a → Fits b →
        Transforms g₂ g₃ (fun s => Holds s l (tagInteger a) ∧ Holds s r (tagInteger b)) fun s =>
          s.registers flag = some (.truth (op.holds (compareIntegers a b))) := by
  refine ⟨_, _, (bind_of_ok hleft _).trans ((bind_of_ok hright _).trans (comparison_of_boxed op l r _ _ g₂)), ?_⟩
  intro a b hfa hfb body s hb hs hcells
  have hused := (Stored.register (leaves_lower mode right hright)).2
  exact computes_compared hb hs hused hcells.1 hcells.2 hfa hfb

/-- The test of an expression tells the truth value `true` from all other tagged values. -/
theorem exists_transforms_test (hleft : lower mode left g = .ok (.boxed l) g₁) :
    ∃ flag g₂, (do test (← lower mode left) left.kind) g = .ok flag g₂ ∧
      ∀ n, Transforms g₁ g₂ (fun s => Holds s l n) fun s => s.registers flag = some (.truth (n == tagBoolean true)) :=
  ⟨_, _, (bind_of_ok hleft _).trans (test_of_boxed l _ g₁), fun _ _ _ hb hs hcell => computes_tested hb hs hcell⟩

end Lowering

open Lowering

/-- Let the code of two expressions leave cells. In whichever state there are two tagged integers in these cells, the code of an operator
comes to the tagged form of its result, which is what the interpreter computes: that of any sum, difference and product, and with signs
that of a quotient of integers that fit. The code of a comparison comes to the outcome that it has for the interpreter, if both integers
fit. The code of a test comes to the truth value in the cell, and to `false` for every integer: no integer has the tagged form of a truth
value. -/
theorem operators_act_on_tagged {mode : Signedness} {left right : Expression} {l r : Nat} {g g₁ g₂ : Generator}
    (hleft : lower mode left g = .ok (.boxed l) g₁) (hright : lower mode right g₁ = .ok (.boxed r) g₂) :
    (∀ op : Arithmetic, (op = .div → mode = .signed) →
      ∃ c g₃, lower mode (.binary left (.arithmetic op) right) g = .ok (.boxed c) g₃ ∧
        ∀ a b, (op = .div → Fits a ∧ Fits b ∧ b ≠ 0) → op.apply (.int a) (.int b) = .ok (.int (op.wrapped a b)) ∧
          Transforms g₂ g₃ (fun s => Holds s l (tagInteger a) ∧ Holds s r (tagInteger b)) fun s =>
            Holds s c (tagInteger (op.wrapped a b))) ∧
      (∀ op : Comparison, ∃ flag g₃, lower mode (.binary left (.comparison op) right) g = .ok (.flag flag) g₃ ∧
        ∀ a b, Fits a → Fits b → ∃ outcome, op.apply (.int a) (.int b) = .ok outcome ∧
          Transforms g₂ g₃ (fun s => Holds s l (tagInteger a) ∧ Holds s r (tagInteger b)) fun s =>
            s.registers flag = some (.truth outcome)) ∧
      (∃ flag g₃, (do test (← lower mode left) left.kind) g = .ok flag g₃ ∧
        (∀ b, Transforms g₁ g₃ (fun s => Holds s l (tagBoolean b)) fun s => s.registers flag = some (.truth b)) ∧
        ∀ a, Transforms g₁ g₃ (fun s => Holds s l (tagInteger a)) fun s => s.registers flag = some (.truth false)) ∧
      ∀ a b, tagInteger a ≠ tagBoolean b := by
  refine ⟨fun op hsigned => ?_, fun op => ?_, ?_, tagInteger_ne_tagBoolean⟩
  · obtain ⟨c, g₃, hlower, htransforms⟩ := exists_transforms_arithmetic hsigned hleft hright
    refine ⟨c, g₃, hlower, fun a b hfit => ?_⟩
    have hresult : op.onIntegers a b = .ok (op.wrapped a b) := Arithmetic.onIntegers_eq_wrapped fun h => (hfit h).2.2
    exact ⟨congrArg (Except.map Value.int) hresult, htransforms a b _ (fun h => ⟨(hfit h).1, (hfit h).2.1⟩) hresult⟩
  · obtain ⟨flag, g₃, hlower, htransforms⟩ := exists_transforms_comparison op hleft hright
    exact ⟨flag, g₃, hlower, fun a b hfa hfb => ⟨_, rfl, htransforms a b hfa hfb⟩⟩
  · obtain ⟨flag, g₃, htest, htransforms⟩ := exists_transforms_test hleft
    refine ⟨flag, g₃, htest, fun b => ?_, fun a => ?_⟩
    · have hb := htransforms (tagBoolean b)
      rwa [tagBoolean_beq_true] at hb
    · have ha := htransforms (tagInteger a)
      rwa [beq_false_of_ne (tagInteger_ne_tagBoolean a true)] at ha

/-- The code of an integer makes a cell for its tagged form. -/
theorem lower_integer (mode : Signedness) (v : Int32) (g : Generator) :
    lower mode (.integer v) g = .ok (.boxed g.nextRegister)
      (Generator.boxed { g with lastConstant := some (tagInteger v) } (.constant (tagInteger v))) := rfl

/-- The machine at the end of the code of `g`, with two cells and their addresses in the registers 2 and 3. -/
def twoCells (g : Generator) (m n : Int32) : Machine :=
  ⟨position g, fun r => some (.address (r - 2) 0), [], ⟨#[#[some m], #[some n]]⟩⟩

theorem holds_twoCells (g : Generator) (m n : Int32) : Holds (twoCells g m n) 2 m ∧ Holds (twoCells g m n) 3 n :=
  ⟨⟨0, 0, rfl, rfl⟩, 1, 0, rfl, rfl⟩

/-- The least integer that fits is divided by minus one: the quotient does not fit, and its tagged form is the least integer of all. -/
theorem operators_act_on_tagged_leastDivided :
    ∃ g₁ g₂ c g₃ body s s', lower .signed (.integer (-536870912)) Generator.initial = .ok (.boxed 2) g₁ ∧
      lower .signed (.integer (-1)) g₁ = .ok (.boxed 3) g₂ ∧
      lower .signed (.binary (.integer (-536870912)) (.arithmetic .div) (.integer (-1))) Generator.initial = .ok (.boxed c) g₃ ∧
      Fits (-536870912) ∧ Fits (-1) ∧ Begins body g₃ ∧ s.position = position g₂ ∧ Holds s 2 (tagInteger (-536870912)) ∧
      Holds s 3 (tagInteger (-1)) ∧ Computes body g₂ g₃ s s' ∧ Holds s' c Int32.minValue := by
  obtain ⟨g₁, hleft, hnext⟩ : ∃ g₁, lower .signed (.integer (-536870912)) Generator.initial = .ok (.boxed 2) g₁ ∧
      g₁.nextRegister = 3 := ⟨_, rfl, rfl⟩
  obtain ⟨g₂, hright⟩ : ∃ g₂, lower .signed (.integer (-1)) g₁ = .ok (.boxed 3) g₂ := ⟨_, by rw [lower_integer, hnext]⟩
  have hfits : Fits (-536870912) ∧ Fits (-1) ∧ (-1 : Int32) ≠ 0 := by decide
  obtain ⟨c, g₃, hlower, htransforms⟩ := (operators_act_on_tagged hleft hright).1 .div fun _ => rfl
  obtain ⟨-, htransforms⟩ := htransforms (-536870912) (-1) fun _ => hfits
  have hbegins : Begins (Generator.prologue Frame.empty 0 1 ++ (g₃.instructions.toList ++ [])) g₃ := ⟨_, _, _, _, rfl⟩
  have hcells := holds_twoCells g₂ (tagInteger (-536870912)) (tagInteger (-1))
  obtain ⟨s', hcomputes, hcell⟩ := htransforms _ _ hbegins rfl hcells
  have hquotient : tagInteger (Arithmetic.div.wrapped (-536870912) (-1)) = Int32.minValue := by decide
  rw [hquotient] at hcell
  exact ⟨g₁, g₂, c, g₃, _, _, s', hleft, hright, hlower, hfits.1, hfits.2.1, hbegins, rfl, hcells.1, hcells.2, hcomputes, hcell⟩

end ExprLang
