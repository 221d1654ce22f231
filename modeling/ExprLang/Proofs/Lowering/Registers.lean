import ExprLang.Proofs.Numbering
import ExprLang.Proofs.Lowering.Composition

/-!
# Registers are numbered through the whole module

Whether a computation succeeds or fails, the registers that are written by the code it adds, to the function being made and to the
finished ones, are those that were taken meanwhile, each once (`Takes`). A function that cannot be lowered leaves nothing behind, and
one that can takes the registers of its prologue before those of its body; so no register is lost and none is used twice, however many
expressions are lowered on one generator and however each of them ends.
-/

namespace ExprLang

open Code

namespace Code

/-- The registers that instructions write, in the order of the instructions. -/
def destinations (code : List Instruction) : List Nat := code.filterMap Instruction.dest?

/-- The registers that the code of definitions writes. -/
def destinationsOf (definitions : List Definition) : List Nat := definitions.flatMap fun d => destinations d.body

/-- The registers that the code of a module writes. -/
def Module.destinations (m : Module) : List Nat := destinationsOf (m.functions ++ [m.entry])

/-- What two pieces of code write is written one after the other. -/
theorem destinations_append (code code' : List Instruction) :
    destinations (code ++ code') = destinations code ++ destinations code' := by
  unfold destinations
  rw [List.filterMap_append]

theorem destinations_nil : destinations [] = [] := rfl

theorem destinationsOf_singleton (d : Definition) : destinationsOf [d] = destinations d.body := List.flatMap_singleton _ d

/-- What the code of definitions writes is written definition by definition. -/
theorem destinationsOf_append (ds ds' : List Definition) :
    destinationsOf (ds ++ ds') = destinationsOf ds ++ destinationsOf ds' := by
  unfold destinationsOf
  rw [List.flatMap_append]

/-- A prologue writes two registers. -/
theorem destinations_prologue (frame : Frame) (allocation pointer : Nat) (code : List Instruction) :
    destinations (Generator.prologue frame allocation pointer ++ code) = [allocation] ++ [pointer] ++ destinations code := rfl

end Code

/-- Lowers expressions one after the other on one generator, the next one also where one cannot be lowered. -/
def lowerEach (mode : Signedness) (es : List Expression) (g : Generator) : Generator :=
  es.foldl (fun g e => finalState (lower mode e g)) g

namespace Lowering

variable {g g' g'' : Generator}

/-- From one state to another the added code writes the registers that were taken, each once. -/
def Takes (g g' : Generator) : Prop :=
  ∃ code functions, g'.instructions.toList = g.instructions.toList ++ code ∧ g'.functions.toList = g.functions.toList ++ functions ∧
    Numbers g.nextRegister g'.nextRegister (destinations code ++ destinationsOf functions)

namespace Takes

/-- A change that concerns neither code nor registers. -/
theorem of_eq (hi : g'.instructions = g.instructions) (hf : g'.functions = g.functions) (hr : g'.nextRegister = g.nextRegister) :
    Takes g g' := by
  refine ⟨[], [], ?_, ?_, ?_⟩
  · rw [hi, List.append_nil]
  · rw [hf, List.append_nil]
  · rw [hr]
    exact .nil g.nextRegister

theorem refl (g : Generator) : Takes g g := of_eq rfl rfl rfl

/-- Registers that are taken one after the other are taken together. -/
theorem trans (h : Takes g g') (h' : Takes g' g'') : Takes g g'' := by
  obtain ⟨code, functions, hcode, hfunctions, hn⟩ := h
  obtain ⟨code', functions', hcode', hfunctions', hn'⟩ := h'
  refine ⟨code ++ code', functions ++ functions', ?_, ?_, ?_⟩
  · rw [hcode', hcode, List.append_assoc]
  · rw [hfunctions', hfunctions, List.append_assoc]
  · -- the code of functions stands apart, so the registers are the same ones in another order
    refine (hn.append hn').perm (List.perm_iff_count.2 ?_)
    intro r
    simp only [destinations_append, destinationsOf_append, List.count_append]
    omega

/-- More instructions that write no register. -/
theorem silent (code : List Instruction) (hi : g'.instructions.toList = g.instructions.toList ++ code)
    (hcode : destinations code = []) (hf : g'.functions = g.functions) (hr : g'.nextRegister = g.nextRegister) : Takes g g' := by
  refine ⟨code, [], hi, ?_, ?_⟩
  · rw [hf, List.append_nil]
  · rw [hcode, hr]
    exact .nil g.nextRegister

end Takes

/-- However the computation ends, the code it adds writes the registers that it takes, each once. -/
def TakesRegisters ⦃α : Type⦄ (x : Lowering α) : Prop := ∀ g, Takes g (finalState (x g))

/-- What ends a function writes a register if it reads a cell. -/
theorem takes_close (g : Generator) : Takes g g.close := by
  rcases close_cases g with ⟨pointer, -, h⟩ | h
  · rw [h]
    refine ⟨[.load g.nextRegister pointer, .ret (.register g.nextRegister)], [], ?_, ?_, ?_⟩
    · simp
    · simp
    · exact .singleton g.nextRegister
  · rw [h]
    have hadded : (g.instructions.push (.ret (.constant 0))).toList = g.instructions.toList ++ [.ret (.constant 0)] :=
      Array.toList_push
    exact .silent [.ret (.constant 0)] hadded rfl rfl rfl

/-- A definition takes the registers of its prologue first and those of its end last; one that fails takes none. -/
theorem takesRegisters_define (name : String) (parameters : List String) {body : Lowering Lowered}
    (h : TakesRegisters (spill parameters >>= fun _ => body)) : TakesRegisters (define name parameters body) := by
  intro g
  unfold define
  cases hd : definition name parameters body g.nested with
  | error e inner => exact .of_eq rfl rfl rfl
  | ok d inner =>
    obtain ⟨l, g₁, hcode, rfl, rfl⟩ := definition_ok_iff.1 hd
    have hg₁ := h g.nested.begun
    rw [hcode] at hg₁
    obtain ⟨code, functions, hcode, hfunctions, hn⟩ := hg₁.trans (takes_close g₁)
    have hcode' : g₁.close.instructions.toList = code := hcode
    generalize hbody : Generator.prologue _ _ _ ++ g₁.close.instructions.toList = all
    refine ⟨[], functions ++ [⟨name, parameters, all⟩], (List.append_nil _).symm, ?_, ?_⟩
    · simp only [finalState, Array.toList_push, Array.toList_append, hfunctions, List.append_assoc]
      rfl
    · -- functions inside of it are finished before it, but the registers of its prologue are taken first
      have hprologue := (Numbers.singleton g.nextRegister).append (.singleton (g.nextRegister + 1))
      refine (hprologue.append hn).perm (List.perm_iff_count.2 ?_)
      intro r
      have hnested : g.nested.nextRegister = g.nextRegister := rfl
      rw [destinations_nil, destinationsOf_append, destinationsOf_singleton, ← hbody, destinations_prologue, hcode', hnested]
      simp only [List.count_append, List.count_nil]
      omega

/-- An instruction that writes a new register takes it. -/
theorem takes_write (g : Generator) (i : Instruction) (hi : i.dest? = some g.nextRegister) :
    Takes g { g with nextRegister := g.nextRegister + 1, instructions := g.instructions.push i } := by
  have hwritten : destinations [i] = [g.nextRegister] := List.filterMap_cons_some hi
  refine ⟨[i], [], Array.toList_push, (List.append_nil _).symm, ?_⟩
  rw [hwritten]
  exact .singleton g.nextRegister

/-- Every step of lowering takes the registers that it writes, each once. -/
theorem stepwise_takes : Stepwise Takes where
  refl := Takes.refl
  trans := Takes.trans
  write g i hi _ := takes_write g i hi.dest
  compute g i hi := takes_write g i hi.dest
  push _ i hi := .silent [i] Array.toList_push (List.filterMap_cons_none hi) rfl rfl
  label _ _ := .of_eq rfl rfl rfl
  boxed _ _ := .of_eq rfl rfl rfl
  constant _ _ := .of_eq rfl rfl rfl
  declare _ _ _ := .of_eq rfl rfl rfl
  define := takesRegisters_define

/-- So lowering takes the registers that it writes, whatever is lowered. -/
theorem compositional_takesRegisters : Compositional TakesRegisters := stepwise_takes.compositional

/-- The same holds of expressions that are lowered one after the other, however each of them ends. -/
theorem takes_lowerEach (mode : Signedness) (es : List Expression) (g : Generator) : Takes g (lowerEach mode es g) := by
  induction es generalizing g with
  | nil => exact .refl g
  | cons e es ih =>
    have hfirst : Takes g (finalState (lower mode e g)) := compositional_takesRegisters.lower mode e g
    exact hfirst.trans (ih (finalState (lower mode e g)))

/-- What was lowered from the beginning and the entry around it write all registers up to the first that is free, each once. -/
theorem Takes.numbers_toModule (h : Takes Generator.initial g) : Numbers 0 g.close.nextRegister g.toModule.destinations := by
  obtain ⟨code, functions, hcode, hfunctions, hn⟩ := h.trans (takes_close g)
  have hprologue := (Numbers.singleton Generator.rootAllocation).append (.singleton Generator.rootFramePointer)
  have hcode' : g.close.instructions.toList = code := hcode
  have hfunctions' : g.close.functions.toList = functions := hfunctions
  refine (hprologue.append hn).perm (List.perm_iff_count.2 ?_)
  intro r
  unfold Module.destinations Generator.toModule
  dsimp only
  rw [destinationsOf_append, destinationsOf_singleton, destinations_prologue, hcode', hfunctions']
  simp only [List.count_append]
  omega

end Lowering

open Lowering

/-- Lower any expressions one after the other on a new generator, each of which may be lowered or fail anywhere, and make a module of
the code: the registers that are written in the module are numbered from zero on without a gap, and each is written once. -/
theorem perm_range_destinations_toModule (mode : Signedness) (es : List Expression) :
    ∃ count, (lowerEach mode es Generator.initial).toModule.destinations.Perm (List.range count) := by
  have htakes : Takes Generator.initial (lowerEach mode es Generator.initial) := takes_lowerEach mode es Generator.initial
  exact ⟨_, htakes.numbers_toModule.perm_range⟩

end ExprLang
