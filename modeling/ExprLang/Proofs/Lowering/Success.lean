import ExprLang.Lowering.Lower
import ExprLang.Proofs.Computation

/-!
# When lowering succeeds

Which states a choice and a loop go through: each piece of their code is made from the state that the piece before left, with a branch
and a label in between (`Generator.block`).
-/

namespace ExprLang

open Code

/-- Ends a block with a branch and begins the block of a label. -/
def Generator.block (g : Generator) (branch : Instruction) (label : Nat) : Generator :=
  { g with instructions := (g.instructions.push branch).push (.label label) }

/-- The beginning of a function's code: two registers are taken for its frame. -/
def Generator.begun (g : Generator) : Generator := { g with nextRegister := g.nextRegister + 2, framePointer := g.nextRegister + 1 }

namespace Lowering

variable {g g' : Generator}

/-- The position of the next instruction in the definition that is being made, behind its prologue. -/
def position (g : Generator) : Nat := g.instructions.size + 2

/-! ## What always succeeds -/

/-- An instruction is added at the end. -/
theorem emit_ok_iff {i : Instruction} {u : Unit} :
    emit i g = .ok u g' ↔ { g with instructions := g.instructions.push i } = g' :=
  modify_ok_iff

/-- Labels are reserved from the next free one on. -/
theorem reserveLabels_ok_iff {count first : Nat} :
    reserveLabels count g = .ok first g' ↔ g.nextLabel = first ∧ { g with nextLabel := g.nextLabel + count } = g' := by
  change EStateM.Result.ok g.nextLabel { g with nextLabel := g.nextLabel + count } = _ ↔ _
  rw [EStateM.Result.ok.injEq]

/-! ## Names -/

/-- The slot of a name in the current frame is found. -/
theorem ownSlot_of_slot? {name : String} {slot : Nat} (h : g.frames.current.slot? name = some slot) (kind : String) :
    ownSlot name kind g = .ok slot g := by
  refine bind_ok_iff.2 ⟨g, g, rfl, ?_⟩
  simp only [FrameChain.resolve?, h]
  rfl

/-- A name without a slot in the current frame is one of a frame around or of none, and neither will do. -/
theorem ownSlot_of_slot?_eq_none {name : String} (h : g.frames.current.slot? name = none) (kind : String) :
    ∃ e, ownSlot name kind g = .error e g := by
  by_cases houter : (g.frames.outer.any fun f => (f.slot? name).isSome) = true
  · exact ⟨.captured name, (bind_of_ok (x := get) rfl _).trans (by simp only [FrameChain.resolve?, h, if_pos houter]; rfl)⟩
  · exact ⟨.unbound name kind, (bind_of_ok (x := get) rfl _).trans (by simp only [FrameChain.resolve?, h, if_neg houter]; rfl)⟩

/-! ## Branching code -/

/-- The states that a choice goes through. -/
theorem conditional_ok_iff {test : Lowering Nat} {consequence alternative : Lowering Unit} {r : Lowered} :
    conditional test consequence alternative g = .ok r g' ↔ ∃ flag g₁ g₂ g₃,
      test ({ g with nextLabel := g.nextLabel + 4 }.block (.branch none g.nextLabel none) g.nextLabel) = .ok flag g₁ ∧
      consequence (g₁.block (.branch (some flag) (g.nextLabel + 1) (some (g.nextLabel + 2))) (g.nextLabel + 1)) = .ok () g₂ ∧
      alternative (g₂.block (.branch none (g.nextLabel + 3) none) (g.nextLabel + 2)) = .ok () g₃ ∧
      r = .nothing ∧
      g' = { g₃.block (.branch none (g.nextLabel + 3) none) (g.nextLabel + 3) with lastBoxed := g.lastBoxed } := by
  simp only [conditional, branching, jump, branch, bind_ok_iff, get_ok_iff, modify_ok_iff, emit_ok_iff, reserveLabels_ok_iff,
    pure_ok_iff, and_assoc, exists_and_left, exists_eq_left', Generator.block]
  grind

/-- The states that a loop goes through. -/
theorem loop_ok_iff {test : Lowering Nat} {body : Lowering Unit} {r : Lowered} :
    loop test body g = .ok r g' ↔ ∃ flag g₁ g₂,
      test ({ g with nextLabel := g.nextLabel + 3 }.block (.branch none g.nextLabel none) g.nextLabel) = .ok flag g₁ ∧
      body (g₁.block (.branch (some flag) (g.nextLabel + 1) (some (g.nextLabel + 2))) (g.nextLabel + 1)) = .ok () g₂ ∧
      r = .nothing ∧
      g' = { g₂.block (.branch none g.nextLabel none) (g.nextLabel + 2) with lastBoxed := g.lastBoxed } := by
  simp only [loop, branching, jump, branch, bind_ok_iff, get_ok_iff, modify_ok_iff, emit_ok_iff, reserveLabels_ok_iff,
    pure_ok_iff, and_assoc, exists_and_left, exists_eq_left', Generator.block]
  grind

/-! ## Programs -/

/-- A program has a module if it can be lowered from the beginning. -/
theorem compile?_ok_iff {mode : Signedness} {program : Expression} {m : Module} :
    program.compile? mode = .ok m ↔ ∃ l g, lower mode program Generator.initial = .ok l g ∧ g.toModule = m := by
  unfold Expression.compile?
  cases lower mode program Generator.initial <;> simp [and_assoc]

/-! ## Functions -/

/-- The cell that a function reads at its end: the one that the last instruction stored to, else the last that was written. -/
def cellAtEnd (g : Generator) : Option Nat :=
  match g.instructions.back? with
  | some (.store _ pointer) => some pointer
  | _ => g.lastBoxed

theorem close_eq (g : Generator) :
    g.close = match cellAtEnd g with
      | some pointer => { g with
          nextRegister := g.nextRegister + 1
          instructions := (g.instructions.push (.load g.nextRegister pointer)).push (.ret (.register g.nextRegister)) }
      | none => { g with instructions := g.instructions.push (.ret (.constant 0)) } := rfl

/-- Where the last instruction writes a cell, a function ends by reading this cell and returning what is in it. -/
theorem close_of_stored {value : Operand} {pointer : Nat} (h : g.instructions.back? = some (.store value pointer)) :
    g.close = { g with
      nextRegister := g.nextRegister + 1
      instructions := (g.instructions.push (.load g.nextRegister pointer)).push (.ret (.register g.nextRegister)) } := by
  rw [close_eq, cellAtEnd, h]

/-- A function ends by reading a cell and returning what is in it, or by returning zero. The cell is the one that the last
instruction stored to or the last that was written. -/
theorem close_cases (g : Generator) :
    (∃ pointer, ((∃ value, g.instructions.back? = some (.store value pointer)) ∨ g.lastBoxed = some pointer) ∧
      g.close = { g with
        nextRegister := g.nextRegister + 1
        instructions := (g.instructions.push (.load g.nextRegister pointer)).push (.ret (.register g.nextRegister)) }) ∨
    g.close = { g with instructions := g.instructions.push (.ret (.constant 0)) } := by
  rw [close_eq]
  cases h : cellAtEnd g with
  | some pointer =>
    refine .inl ⟨pointer, ?_, rfl⟩
    unfold cellAtEnd at h
    split at h
    · cases h
      exact .inl ⟨_, ‹_›⟩
    · exact .inr h
  | none => exact .inr rfl

/-- Ending a function finishes no other. -/
@[simp] theorem functions_close (g : Generator) : g.close.functions = g.functions := by
  rcases close_cases g with ⟨pointer, -, h⟩ | h <;> rw [h]

/-- A definition is made of the code that the parameters and the body leave, behind two registers that are taken first. -/
theorem definition_eq (name : String) (parameters : List String) (body : Lowering Lowered) (g : Generator) :
    definition name parameters body g =
      match (spill parameters >>= fun _ => body) g.begun with
      | .ok _ g' => .ok ⟨name, parameters,
          Generator.prologue g'.close.frames.current g.nextRegister (g.nextRegister + 1) ++ g'.close.instructions.toList⟩ g'.close
      | .error e g' => .error e g' := by
  have hstart : definition name parameters body g =
      ((spill parameters >>= fun _ => body) >>= fun _ => epilogue >>= fun _ => get >>= fun g₁ => pure
        (⟨name, parameters, Generator.prologue g₁.frames.current g.nextRegister (g.nextRegister + 1) ++
          g₁.instructions.toList⟩ : Definition)) g.begun := by
    rw [bind_assoc]
    rfl
  rw [hstart]
  generalize spill parameters >>= _ = code
  cases h : code g.begun with
  | ok l g' =>
    rw [bind_of_ok h]
    rfl
  | error e g' => rw [bind_of_error h]

/-- A definition succeeds if its parameters and its body do. -/
theorem definition_ok_iff {name : String} {parameters : List String} {body : Lowering Lowered} {d : Definition} :
    definition name parameters body g = .ok d g' ↔ ∃ l g₁,
      (spill parameters >>= fun _ => body) g.begun = .ok l g₁ ∧ g₁.close = g' ∧
      ⟨name, parameters, Generator.prologue g₁.close.frames.current g.nextRegister (g.nextRegister + 1) ++
        g₁.close.instructions.toList⟩ = d := by
  rw [definition_eq]
  cases (spill parameters >>= fun _ => body) g.begun with
  | ok l g₁ => grind
  | error e g₁ => simp

/-- A definition fails where its parameters or its body do. -/
theorem definition_error_iff {name : String} {parameters : List String} {body : Lowering Lowered} {e : LoweringError} :
    definition name parameters body g = .error e g' ↔ (spill parameters >>= fun _ => body) g.begun = .error e g' := by
  rw [definition_eq]
  cases (spill parameters >>= fun _ => body) g.begun <;> simp

end Lowering

end ExprLang
