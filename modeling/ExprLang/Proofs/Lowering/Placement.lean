import ExprLang.Proofs.Code.Machine
import ExprLang.Proofs.Lowering.Success

/-!
# Where the code that is made stands

Lowering appends instructions to those made before (`Appends`), and in the end they all stand in the body of a definition behind its
prologue (`Begins`). So the code made between two states of the generator is found in the body from the position of the first state up
to that of the second (`Begins.getElem?`), and a label that is placed once is found where it was placed (`reaches_block`).
-/

namespace ExprLang

open Code

namespace Generator

/-- Adds an instruction that writes a new register. -/
def emitted (g : Generator) (i : Nat → Instruction) : Generator :=
  { g with nextRegister := g.nextRegister + 1, instructions := g.instructions.push (i g.nextRegister) }

/-- Makes a cell for a value. -/
def boxed (g : Generator) (value : Operand) : Generator :=
  { g with
    nextRegister := g.nextRegister + 1
    instructions := (g.instructions.push (.malloc g.nextRegister "i32")).push (.store value g.nextRegister)
    lastBoxed := some g.nextRegister }

end Generator

namespace Lowering

variable {body : List Instruction} {g g' g'' : Generator} {first l : Nat} {i : Instruction} {s s' : Machine}

/-! ## Where code stands -/

/-- The body of a definition begins with a prologue and the code made so far. -/
def Begins (body : List Instruction) (g : Generator) : Prop :=
  ∃ frame allocation pointer rest, body = Generator.prologue frame allocation pointer ++ (g.instructions.toList ++ rest)

/-- The code made from `g` to `g'` comes behind the code made before. Its labels are from `first` on, and registers and labels are used
up; frames stay as they are. -/
structure Appends (first : Nat) (g g' : Generator) : Prop where
  /-- Instructions come behind those made before, and they have no other labels. -/
  code : ∃ code, g'.instructions.toList = g.instructions.toList ++ code ∧
    ∀ l, .label l ∈ code → first ≤ l ∧ l < g'.nextLabel
  /-- Labels are used up. -/
  label : g.nextLabel ≤ g'.nextLabel
  /-- Registers are used up. -/
  register : g.nextRegister ≤ g'.nextRegister
  /-- The frame stays where it is. -/
  framePointer : g'.framePointer = g.framePointer
  /-- No name is declared. -/
  frames : g'.frames = g.frames

namespace Appends

theorem refl (first : Nat) (g : Generator) : Appends first g g :=
  ⟨⟨[], (List.append_nil _).symm, fun _ h => nomatch h⟩, Nat.le_refl _, Nat.le_refl _, rfl, rfl⟩

/-- Code may be appended in several steps. -/
theorem trans (h : Appends first g g') (h' : Appends first g' g'') : Appends first g g'' := by
  obtain ⟨code, hcode, hlabels⟩ := h.code
  obtain ⟨code', hcode', hlabels'⟩ := h'.code
  refine ⟨⟨code ++ code', by rw [hcode', hcode, List.append_assoc], fun l hl => ?_⟩, Nat.le_trans h.label h'.label,
    Nat.le_trans h.register h'.register, h'.framePointer.trans h.framePointer, h'.frames.trans h.frames⟩
  rcases List.mem_append.1 hl with hl | hl
  · exact ⟨(hlabels l hl).1, Nat.lt_of_lt_of_le (hlabels l hl).2 h'.label⟩
  · exact hlabels' l hl

/-- Labels that are new from some number on are new from a smaller one on. -/
theorem mono {lower : Nat} (h : Appends first g g') (hle : lower ≤ first) : Appends lower g g' := by
  obtain ⟨code, hcode, hlabels⟩ := h.code
  exact ⟨⟨code, hcode, fun l hl => ⟨Nat.le_trans hle (hlabels l hl).1, (hlabels l hl).2⟩⟩, h.label, h.register, h.framePointer,
    h.frames⟩

/-- A label of the code is one of the code before or one from `first` on. -/
theorem label_mem (h : Appends first g g') (hl : .label l ∈ g'.instructions) :
    .label l ∈ g.instructions ∨ first ≤ l ∧ l < g'.nextLabel := by
  obtain ⟨code, hcode, hlabels⟩ := h.code
  rw [← Array.mem_toList_iff, hcode, List.mem_append, Array.mem_toList_iff] at hl
  exact hl.imp_right (hlabels l)

/-- A label that the code before does not have and that is used is not in the code either. -/
theorem fresh (h : Appends first g g') (hl : .label l ∉ g.instructions) (hlt : l < first) : .label l ∉ g'.instructions :=
  fun hmem => (h.label_mem hmem).elim hl fun hle => absurd hle.1 (Nat.not_le.2 hlt)

/-- A body that begins with all the code begins with the code before. -/
theorem begins (h : Appends first g g') (hb : Begins body g') : Begins body g := by
  obtain ⟨code, hcode, -⟩ := h.code
  obtain ⟨frame, allocation, pointer, rest, rfl⟩ := hb
  exact ⟨frame, allocation, pointer, code ++ rest, by rw [hcode, List.append_assoc]⟩

end Appends

/-- An instruction that is no label is appended. -/
theorem appends_emitted (first : Nat) (g : Generator) {i : Nat → Instruction} (hi : ∀ r l, i r ≠ .label l) :
    Appends first g (g.emitted i) := by
  refine ⟨⟨[i g.nextRegister], Array.toList_push, fun l hl => ?_⟩, Nat.le_refl _, Nat.le_succ _, rfl, rfl⟩
  exact absurd (List.mem_singleton.1 hl).symm (hi _ l)

/-- The code that makes a cell is appended. -/
theorem appends_boxed (first : Nat) (g : Generator) (value : Operand) : Appends first g (g.boxed value) := by
  refine ⟨⟨[.malloc g.nextRegister "i32", .store value g.nextRegister], ?_, fun l hl => ?_⟩, Nat.le_refl _, Nat.le_succ _,
    rfl, rfl⟩
  · simp [Generator.boxed]
  · simp at hl

/-- A branch and a label are appended. -/
theorem appends_block (g : Generator) (hi : ∀ l, i ≠ .label l) (hle : first ≤ l) (hlt : l < g.nextLabel) :
    Appends first g (g.block i l) := by
  refine ⟨⟨[i, .label l], ?_, fun k hk => ?_⟩, Nat.le_refl _, Nat.le_refl _, rfl, rfl⟩
  · simp [Generator.block]
  · rcases List.mem_cons.1 hk with hk | hk
    · exact absurd hk.symm (hi k)
    · cases List.mem_singleton.1 hk
      exact ⟨hle, hlt⟩

/-- A block has no label but its own. -/
theorem fresh_block {k : Nat} (hl : .label l ∉ g.instructions) (hi : i ≠ .label l) (hne : l ≠ k) :
    .label l ∉ (g.block i k).instructions := by
  simp [Generator.block, hl, hi.symm, hne]

/-- The instructions that were appended stand where the code before ended. -/
theorem Begins.getElem? {code : List Instruction} (h : Begins body g')
    (hg : g'.instructions.toList = g.instructions.toList ++ code) {k : Nat} (hk : code[k]? = some i) :
    body[position g + k]? = some i := by
  obtain ⟨frame, allocation, pointer, rest, rfl⟩ := h
  obtain ⟨hlt, -⟩ := List.getElem?_eq_some_iff.1 hk
  have hlength : (Generator.prologue frame allocation pointer).length = 2 := rfl
  have hposition : position g + k = 2 + (g.instructions.toList.length + k) := by
    rw [position, Array.length_toList]
    omega
  rw [hposition, ← hlength, List.getElem?_append_right (Nat.le_add_right _ _), Nat.add_sub_cancel_left, hg, List.append_assoc,
    List.getElem?_append_right (Nat.le_add_right _ _), Nat.add_sub_cancel_left, List.getElem?_append_left hlt]
  exact hk

/-- A body that begins with a block begins with the code before. -/
theorem Begins.of_block (h : Begins body (g.block i l)) : Begins body g := by
  obtain ⟨frame, allocation, pointer, rest, rfl⟩ := h
  exact ⟨frame, allocation, pointer, [i, .label l] ++ rest, by simp [Generator.block]⟩

/-! ## Going to where code stands -/

/-- The machine executes the instruction at its position. -/
theorem reaches_of_execute (hi : body[s.position]? = some i) (he : s.execute body i = some s') : s.Reaches body s' := by
  refine .single ?_
  rw [Machine.step, hi]
  exact he

/-- A label that is in none of the instructions before is where it was placed. -/
theorem goto?_append {before rest : List Instruction} (h : .label l ∉ before) (s : Machine) :
    s.goto? (before ++ .label l :: rest) l = some { s with position := before.length } := by
  have hbefore : before.findIdx? (· = .label l) = none := by
    rw [List.findIdx?_eq_none_iff]
    exact fun j hj => decide_eq_false fun he => h (he ▸ hj)
  simp [Machine.goto?, List.findIdx?_append, hbefore, List.findIdx?_cons]

/-- Who goes to a new label comes to the end of the code that places it. -/
theorem reaches_block (hb : Begins body (g.block i l)) (hi : i ≠ .label l) (hl : .label l ∉ g.instructions)
    (hgoto : s.step body = s.goto? body l) : s.Reaches body { s with position := position (g.block i l) } := by
  have hcode : (g.block i l).instructions.toList = g.instructions.toList ++ [i, .label l] := by
    simp [Generator.block]
  have hlabel := hb.getElem? hcode (k := 1) rfl
  obtain ⟨frame, allocation, pointer, rest, rfl⟩ := hb
  have hbody : Generator.prologue frame allocation pointer ++ ((g.block i l).instructions.toList ++ rest) =
      (Generator.prologue frame allocation pointer ++ g.instructions.toList ++ [i]) ++ .label l :: rest := by
    simp [hcode]
  rw [hbody] at hgoto hlabel ⊢
  rw [goto?_append ?_ s] at hgoto
  · have hposition : (Generator.prologue frame allocation pointer ++ g.instructions.toList ++ [i]).length = position g + 1 := by
      simp [Generator.prologue, position]
    rw [hposition] at hgoto
    have hend : position g + 1 + 1 = position (g.block i l) := by simp [position, Generator.block]
    refine (Machine.Reaches.single hgoto).trans ?_
    rw [← hend]
    exact reaches_of_execute hlabel rfl
  · simp [Generator.prologue, hi.symm, hl]

end Lowering

end ExprLang
