import ExprLang.Proofs.Lowering.Growth

/-!
# What lowering leaves behind

Lowering says what the code of an expression leaves: a cell, the outcome of a comparison or nothing. The end of a function does not
look at this, but at the last instruction and at the cell that the generator remembers. Both agree, because every expression that leaves
a cell ends with making its address and storing a value there (`Stored`), and one that leaves an outcome ends with the comparison
(`Compared`); expressions whose code ends otherwise leave nothing. What comes before in the same code only adds to it
(`LeftBehind.after`).
-/

namespace ExprLang

open Code

/-- The instruction writes to the register `cell` the address of a new cell, or that of a slot of the frame. -/
inductive Code.Instruction.Addresses (frame cell : Nat) : Instruction → Prop where
  /-- A cell is made. -/
  | fresh : Addresses frame cell (.malloc cell "i32")
  /-- The address of a slot is computed. -/
  | slot (slot : Nat) : Addresses frame cell (.slotAddress cell frame slot)

namespace Lowering

open Generator

/-- The code made from `g` to `g'` ends by writing an address to a new register and storing a value there, and the generator remembers
the cell. -/
structure Stored (g g' : Generator) (cell : Nat) : Prop where
  /-- The last two instructions make the address and store. -/
  code : ∃ code address value, address.Addresses g.framePointer cell ∧
    g'.instructions.toList = g.instructions.toList ++ code ++ [address, .store value cell]
  /-- It is the last cell that was written. -/
  remembered : g'.lastBoxed = some cell
  /-- The register was taken meanwhile. -/
  register : g.nextRegister ≤ cell ∧ cell < g'.nextRegister

/-- The code made from `g` to `g'` ends with a comparison that writes a new register. -/
structure Compared (g g' : Generator) (flag : Nat) : Prop where
  /-- The last instruction compares. -/
  code : ∃ code predicate left right,
    g'.instructions.toList = g.instructions.toList ++ code ++ [.compare flag predicate left right]
  /-- The register was taken meanwhile. -/
  register : g.nextRegister ≤ flag ∧ flag < g'.nextRegister

/-- The code made from `g` to `g'` ends with the instructions that make what is said to be left behind. -/
def LeftBehind (g g' : Generator) : Lowered → Prop
  | .boxed cell => Stored g g' cell
  | .flag register => Compared g g' register
  | .nothing => True

/-- Any code may leave nothing behind. -/
theorem leftBehind_nothing (g g' : Generator) : LeftBehind g g' .nothing := trivial

variable {α : Type} {g g₁ g' : Generator} {l : Lowered} {c r : Nat}

/-! ## Code that comes before -/

/-- A cell that is left behind later is left behind from the beginning. -/
theorem Stored.after (h : g.Extends g₁) (h' : Stored g₁ g' c) : Stored g g' c := by
  obtain ⟨code, address, value, haddress, hcode⟩ := h'.code
  obtain ⟨before, hbefore⟩ := h.instructions
  refine ⟨⟨before ++ code, address, value, h.framePointer ▸ haddress, ?_⟩, h'.remembered,
    Nat.le_trans h.register h'.register.1, h'.register.2⟩
  rw [hcode, ← hbefore, List.append_assoc _ before code]

/-- So is an outcome. -/
theorem Compared.after (h : g.Extends g₁) (h' : Compared g₁ g' r) : Compared g g' r := by
  obtain ⟨code, predicate, left, right, hcode⟩ := h'.code
  obtain ⟨before, hbefore⟩ := h.instructions
  refine ⟨⟨before ++ code, predicate, left, right, ?_⟩, Nat.le_trans h.register h'.register.1, h'.register.2⟩
  rw [hcode, ← hbefore, List.append_assoc _ before code]

/-- So is whatever is left behind. -/
theorem LeftBehind.after (h : g.Extends g₁) (h' : LeftBehind g₁ g' l) : LeftBehind g g' l := by
  cases l with
  | boxed cell => exact Stored.after h h'
  | flag register => exact Compared.after h h'
  | nothing => trivial

/-- Where code leaves a cell, the last instruction writes it. -/
theorem Stored.back? (h : Stored g g' c) : ∃ value, g'.instructions.back? = some (.store value c) := by
  obtain ⟨code, address, value, -, hcode⟩ := h.code
  exact ⟨value, by simp [← Array.getLast?_toList, hcode]⟩

/-! ## Steps -/

/-- If the computation succeeds, its code leaves behind what its result says. -/
def Leaves (x : Lowering Lowered) : Prop := ∀ ⦃g l g'⦄, x g = .ok l g' → LeftBehind g g' l

/-- What comes last says what is left behind. -/
theorem Leaves.after {x : Lowering α} {f : α → Lowering Lowered} (hx : Throughout Extends x) (hf : ∀ a, Leaves (f a)) :
    Leaves (x >>= f) := by
  intro g l g' h
  obtain ⟨a, g₁, ha, hl⟩ := bind_ok_iff.1 h
  have hextends := hx g
  rw [ha] at hextends
  exact (hf a hl).after hextends

/-- Nothing can be left behind without any code. -/
theorem leaves_nothing : Leaves (pure .nothing) := by
  intro g l g' h
  cases h
  trivial

/-- What fails leaves nothing to be said. -/
theorem leaves_throw (e : LoweringError) : Leaves (throw e) := by
  intro g l g' h
  cases h

/-- A value that is put into a cell leaves the cell. -/
theorem leaves_box (value : Operand) : Leaves (box value) := by
  intro g l g' h
  cases h
  exact ⟨⟨[], _, value, .fresh, by simp⟩, rfl, Nat.le_refl _, Nat.lt_succ_self _⟩

/-- A slot that is written is left as the cell. -/
theorem leaves_storeSlot (slot : Nat) (value : Operand) : Leaves (storeSlot slot value) := by
  intro g l g' h
  cases h
  exact ⟨⟨[], _, value, .slot slot, by simp⟩, rfl, Nat.le_refl _, Nat.lt_succ_self _⟩

/-- The elementary steps before the last one lose nothing. -/
theorem elementary_extends : Elementary (Throughout Extends) := stepwise_extends.elementary

/-- Nor do the others. -/
theorem compositional_extends : Compositional (Throughout Extends) := stepwise_extends.compositional

/-- A constant is put into a cell. -/
theorem leaves_constant (tagged : Int32) : Leaves (constant tagged) := by
  refine .after (elementary_extends.noteConstant tagged) fun _ => ?_
  exact leaves_box (.constant tagged)

/-- What is read of a variable is put into a cell of its own. -/
theorem leaves_readName (name : String) : Leaves (readName name) := by
  refine .after (elementary_extends.ownSlot name "Identifier") fun slot => ?_
  refine .after (compositional_extends.slotAddress slot) fun pointer => ?_
  refine .after (compositional_extends.emitTo (.load · pointer) fun _ => ⟨rfl, rfl, rfl⟩) fun value => ?_
  exact leaves_box (.register value)

/-- A result of arithmetic is put into a cell. -/
theorem leaves_arithmetic (mode : Signedness) (op : Arithmetic) (l : Lowered) (leftKind : String) (r : Lowered) (rightKind : String) :
    Leaves (arithmetic mode op l leftKind r rightKind) := by
  have hbinary (op : BinaryOp) (a b : Operand) : Throughout Extends (emitTo (.binary op · a b)) :=
    compositional_extends.emitTo _ fun _ => ⟨rfl, rfl, rfl⟩
  have hshift (raw : Nat) : Throughout Extends (emitTo (.shift · .left (.register raw) tagBits)) :=
    compositional_extends.emitTo _ fun _ => ⟨rfl, rfl, rfl⟩
  cases op with
  | add =>
    refine .after (elementary_extends.load l leftKind) fun a => ?_
    refine .after (elementary_extends.load r rightKind) fun b => ?_
    refine .after (hbinary .add a b) fun sum => ?_
    exact leaves_box (.register sum)
  | sub | mul | div =>
    refine .after (elementary_extends.unbox mode l leftKind) fun a => ?_
    refine .after (elementary_extends.unbox mode r rightKind) fun b => ?_
    refine .after (hbinary _ a b) fun raw => ?_
    refine .after (hshift raw) fun value => ?_
    exact leaves_box (.register value)

/-- A comparison leaves its outcome. -/
theorem leaves_comparison (op : Comparison) (l : Lowered) (leftKind : String) (r : Lowered) (rightKind : String) :
    Leaves (comparison op l leftKind r rightKind) := by
  refine .after (elementary_extends.load l leftKind) fun a => ?_
  refine .after (elementary_extends.load r rightKind) fun b => ?_
  intro g l g' h
  cases h
  exact ⟨⟨[], predicate op, a, b, by simp⟩, Nat.le_refl _, Nat.lt_succ_self _⟩

/-- A choice leaves nothing behind. -/
theorem leaves_conditional (test : Lowering Nat) (consequence alternative : Lowering Unit) :
    Leaves (conditional test consequence alternative) := by
  intro g l g' h
  obtain ⟨-, -, -, -, -, -, -, rfl, -⟩ := conditional_ok_iff.1 h
  trivial

/-- Nor does a loop. -/
theorem leaves_loop (test : Lowering Nat) (body : Lowering Unit) : Leaves (loop test body) := by
  intro g l g' h
  obtain ⟨-, -, -, -, -, rfl, -⟩ := loop_ok_iff.1 h
  trivial

/-- Nor does a return: its block has ended. -/
theorem leaves_ret (value : Operand) : Leaves (ret value) := by
  intro g l g' h
  cases h
  trivial

/-- The definition of a function leaves nothing behind in the function around it. -/
theorem leaves_define (name : String) (parameters : List String) (body : Lowering Lowered) : Leaves (define name parameters body) := by
  intro g l g' h
  unfold define at h
  split at h
  · cases h
    trivial
  · cases h

/-! ## Everything -/

mutual

/-- Lowering an expression leaves behind what its result says. -/
theorem leaves_lower (mode : Signedness) : ∀ e : Expression, Leaves (lower mode e)
  | .integer v => leaves_constant (tagInteger v)
  | .boolean v => leaves_constant (tagBoolean v)
  | .identifier name => leaves_readName name
  | .void => leaves_nothing
  | .varDecl name => by
    refine .after elementary_extends.get fun g => ?_
    refine .after (compositional_extends.declare name g.lastConstant) fun _ => ?_
    exact leaves_nothing
  | .funcDecl name ⟨_, parameters, body⟩ => leaves_define name parameters (lower mode body)
  | .scope a => leaves_lower mode a
  | .sequence as => fun g _ _ h => leftBehind_lowerSequence mode as (.refl g) (leftBehind_nothing g g) h
  | .binary a (.arithmetic o) b => by
    refine .after (extends_lower mode a) fun l => ?_
    refine .after (extends_lower mode b) fun r => ?_
    exact leaves_arithmetic mode o l a.kind r b.kind
  | .binary a (.comparison o) b => by
    refine .after (extends_lower mode a) fun l => ?_
    refine .after (extends_lower mode b) fun r => ?_
    exact leaves_comparison o l a.kind r b.kind
  | .binary _ .and _ | .binary _ .or _ | .binary _ .stringEqual _ | .binary _ .stringLess _ => leaves_throw _
  | .assign place a => by
    cases place with
    | varDecl name =>
      refine .after (extends_lower mode a) fun l => ?_
      refine .after (elementary_extends.load l a.kind) fun value => ?_
      refine .after elementary_extends.get fun g => ?_
      refine .after (compositional_extends.declare name g.lastConstant) fun slot => ?_
      exact leaves_storeSlot slot value
    | identifier name =>
      refine .after (elementary_extends.ownSlot name "Assign") fun slot => ?_
      refine .after (extends_lower mode a) fun l => ?_
      refine .after (elementary_extends.load l a.kind) fun value => ?_
      exact leaves_storeSlot slot value
    | _ => exact leaves_throw _
  | .call f as => by
    cases f with
    | identifier name =>
      refine .after (compositional_extends.lowerArguments mode as) fun operands => ?_
      refine .after (compositional_extends.emitTo (.call · name operands) fun _ => ⟨rfl, rfl, rfl⟩) fun value => ?_
      exact leaves_box (.register value)
    | _ => exact leaves_throw _
  | .conditional _ _ none | .conditional _ _ (some _) => leaves_conditional _ _ _
  | .loop _ _ => leaves_loop _ _
  | .ret a => by
    refine .after (extends_lower mode a) fun l => ?_
    refine .after (elementary_extends.load l a.kind) fun value => ?_
    exact leaves_ret value
  | .float _ | .string _ | .function _ | .closure _ | .not _ | .print _ | .isType _ _ | .stringLength _ | .substring _ _ _
  | .object _ | .field _ _ => leaves_throw _

/-- Of expressions one after the other, the last one leaves behind what the result says. -/
theorem leftBehind_lowerSequence (mode : Signedness) : ∀ (es : List Expression) {g g₁ g' : Generator} {last l : Lowered},
    g.Extends g₁ → LeftBehind g g₁ last → lowerSequence mode es last g₁ = .ok l g' → LeftBehind g g' l
  | [], _, _, _, _, _, _, hlast, h => by
    obtain ⟨rfl, rfl⟩ := pure_ok_iff.1 h
    exact hlast
  | a :: rest, _, g₁, _, _, _, hextends, _, h => by
    obtain ⟨l₁, g₂, ha, hrest⟩ := bind_ok_iff.1 h
    have hgrown := extends_lower mode a g₁
    rw [ha] at hgrown
    exact leftBehind_lowerSequence mode rest (hextends.trans hgrown) ((leaves_lower mode a ha).after hextends) hrest

end

/-! ## Ends of functions -/

/-- The instructions that return what is in a cell. -/
def returning (value cell : Nat) : List Instruction := [.load value cell, .ret (.register value)]

/-- Where code leaves a cell, the end of a function returns what is in this cell, and nothing else is changed. -/
theorem Stored.close (h : Stored g g' c) :
    g'.close.frames = g'.frames ∧ g'.close.instructions.toList = g'.instructions.toList ++ returning g'.nextRegister c := by
  obtain ⟨value, hlast⟩ := h.back?
  rw [close_of_stored hlast]
  exact ⟨rfl, by simp [returning]⟩

/-- A program whose code leaves a cell has a module, and the entry returns what is in this cell. -/
theorem compile?_of_boxed {mode : Signedness} {program : Expression} (h : lower mode program initial = .ok (.boxed c) g) :
    ∃ m, program.compile? mode = .ok m ∧
      m.entry.body = prologue g.frames.current rootAllocation rootFramePointer ++ g.instructions.toList ++ returning g.nextRegister c := by
  obtain ⟨hframes, hcode⟩ := Stored.close (leaves_lower mode program h)
  refine ⟨g.toModule, compile?_ok_iff.2 ⟨_, _, h, rfl⟩, ?_⟩
  show prologue g.close.frames.current rootAllocation rootFramePointer ++ g.close.instructions.toList = _
  rw [hframes, hcode, List.append_assoc]

/-- A function whose body leaves a cell is defined, and it returns what is in this cell. -/
theorem funcDecl_of_boxed {mode : Signedness} {function : FunctionLiteral} (name : String)
    (h : (spill function.parameters >>= fun _ => lower mode function.body) g.nested.begun = .ok (.boxed c) g₁) :
    ∃ g', lower mode (.funcDecl name function) g = .ok .nothing g' ∧
      g'.functions.back? = some ⟨name, function.parameters,
        prologue g₁.frames.current g.nextRegister (g.nextRegister + 1) ++ g₁.instructions.toList ++
          returning g₁.nextRegister c⟩ := by
  obtain ⟨identity, parameters, body⟩ := function
  have hextends := extends_body mode parameters body
  have hleaves : Leaves (spill parameters >>= fun _ => lower mode body) :=
    .after (compositional_extends.spill parameters) fun _ => leaves_lower mode body
  obtain ⟨hframes, hcode⟩ := Stored.close (hleaves h)
  refine ⟨_, define_of_ok hextends (definition_ok_iff.2 ⟨_, _, h, rfl, rfl⟩), ?_⟩
  rw [Array.back?_push, hframes, hcode, List.append_assoc]
  rfl

end Lowering

open Lowering

/-- Whatever is lowered in whichever state: if a cell is left, the last two instructions, made meanwhile, write the address of a new cell
or of a slot to a new register and store a value through it, and it is the cell that the generator remembers; if an outcome is left, the
last instruction is a comparison that writes it. So where the code of a program or of a function's body leaves a cell, the entry or the
function ends by reading exactly this cell and returning what was read. -/
theorem lowered_value_returned (mode : Signedness) :
    (∀ e g l g', lower mode e g = .ok l g' → LeftBehind g g' l) ∧
      (∀ program c g, lower mode program Generator.initial = .ok (.boxed c) g → ∃ m, program.compile? mode = .ok m ∧
        m.entry.body = Generator.prologue g.frames.current Generator.rootAllocation Generator.rootFramePointer ++
          g.instructions.toList ++ returning g.nextRegister c) ∧
      ∀ name function g c g₁,
        (spill function.parameters >>= fun _ => lower mode function.body) g.nested.begun = .ok (.boxed c) g₁ →
          ∃ g', lower mode (.funcDecl name function) g = .ok .nothing g' ∧ g'.functions.back? = some ⟨name, function.parameters,
            Generator.prologue g₁.frames.current g.nextRegister (g.nextRegister + 1) ++ g₁.instructions.toList ++
              returning g₁.nextRegister c⟩ :=
  ⟨fun e _ _ _ h => leaves_lower mode e h, fun _ _ _ h => compile?_of_boxed h, fun name _ _ _ _ h => funcDecl_of_boxed name h⟩

/-- The body of a function that compares its parameter and then doubles it. -/
def doublingBody : Expression :=
  .scope (.sequence [.binary (.identifier "n") (.comparison .less) (.integer 0),
    .binary (.identifier "n") (.arithmetic .add) (.identifier "n")])

/-- A name is assigned to, in whose value the function is declared and called. -/
def doubling : Expression :=
  .sequence [.declare "x" (.integer 2), .assign (.identifier "x")
    (.sequence [.funcDecl "double" ⟨0, ["n"], doublingBody⟩, .call (.identifier "double") [.identifier "x"]])]

/-- The entry returns what is in the slot that was assigned to, and the function what is in the cell of the sum. -/
theorem lowered_value_returned_doubled :
    ∃ g m, lower .signed doubling Generator.initial = .ok (.boxed 33) g ∧ Stored Generator.initial g 33 ∧
      doubling.compile? .signed = .ok m ∧
      m.entry.body = Generator.prologue g.frames.current 0 1 ++ g.instructions.toList ++ [.load 34 33, .ret (.register 34)] ∧
      ∃ g₁ g', (spill ["n"] >>= fun _ => lower .signed doublingBody) Generator.initial.nested.begun = .ok (.boxed 21) g₁ ∧
        lower .signed (.funcDecl "double" ⟨0, ["n"], doublingBody⟩) Generator.initial = .ok .nothing g' ∧
        g'.functions.back? = some ⟨"double", ["n"],
          Generator.prologue g₁.frames.current 2 3 ++ g₁.instructions.toList ++ [.load 22 21, .ret (.register 22)]⟩ := by
  have hprogram : (match lower .signed doubling Generator.initial with
      | .ok (.boxed c) g => some (c, g.nextRegister)
      | _ => none) = some (33, 34) := by decide +kernel
  have hbody : (match (spill ["n"] >>= fun _ => lower .signed doublingBody) Generator.initial.nested.begun with
      | .ok (.boxed c) g => some (c, g.nextRegister)
      | _ => none) = some (21, 22) := by decide +kernel
  obtain ⟨hleft, hentry, hfunction⟩ := lowered_value_returned .signed
  split at hprogram
  · rename_i c g hg
    obtain ⟨rfl, hnext⟩ := Prod.mk.inj (Option.some.inj hprogram)
    obtain ⟨m, hm, hmain⟩ := hentry _ _ _ hg
    split at hbody
    · rename_i c₁ g₁ hg₁
      obtain ⟨rfl, hnext₁⟩ := Prod.mk.inj (Option.some.inj hbody)
      obtain ⟨g', hg', hdefined⟩ := hfunction "double" ⟨0, ["n"], doublingBody⟩ Generator.initial _ _ hg₁
      rw [hnext] at hmain
      rw [hnext₁] at hdefined
      exact ⟨g, m, hg, hleft _ _ _ _ hg, hm, hmain, g₁, g', hg₁, hg', hdefined⟩
    · cases hbody
  · cases hprogram

end ExprLang
