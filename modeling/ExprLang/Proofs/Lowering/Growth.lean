import ExprLang.Proofs.Lowering.Linking
import ExprLang.Proofs.Lowering.Registers

/-!
# Lowering only adds

Whatever is lowered, and wherever it fails, the code, the functions and the slots that were there before come first in what is there
afterwards, and neither registers nor labels are given back (`Extends`). The frames of the functions around are not touched. This is
why a function leaves the frames as it found them: its own generator holds them behind the frame of the function, whether the function
is finished or not, and they are taken back from there (`define_of_ok`, `define_of_error`).
-/

namespace ExprLang

open Code

namespace Generator

/-- A state in which nothing of another one is lost: it has all that was made there, in the same order and at the beginning, and is in
the same function. -/
structure Extends (g g' : Generator) : Prop where
  /-- The code is kept. -/
  instructions : g.instructions.toList <+: g'.instructions.toList
  /-- The finished functions are kept. -/
  functions : g.functions.toList <+: g'.functions.toList
  /-- The slots of the frame are kept. -/
  slots : g.frames.current.slots.toList <+: g'.frames.current.slots.toList
  /-- No register is given back. -/
  register : g.nextRegister ≤ g'.nextRegister
  /-- No label is given back. -/
  label : g.nextLabel ≤ g'.nextLabel
  /-- The address of the frame is the same. -/
  framePointer : g'.framePointer = g.framePointer
  /-- The frames around are the same. -/
  outer : g'.frames.outer = g.frames.outer

namespace Extends

variable {g g' g'' : Generator}

theorem refl (g : Generator) : g.Extends g :=
  ⟨List.prefix_rfl, List.prefix_rfl, List.prefix_rfl, Nat.le_refl _, Nat.le_refl _, rfl, rfl⟩

/-- What was there stays there throughout. -/
theorem trans (h : g.Extends g') (h' : g'.Extends g'') : g.Extends g'' where
  instructions := h.instructions.trans h'.instructions
  functions := h.functions.trans h'.functions
  slots := h.slots.trans h'.slots
  register := Nat.le_trans h.register h'.register
  label := Nat.le_trans h.label h'.label
  framePointer := h'.framePointer.trans h.framePointer
  outer := h'.outer.trans h.outer

/-- More code, which may take registers. -/
theorem push (g : Generator) (i : Instruction) (count : Nat) :
    g.Extends { g with nextRegister := g.nextRegister + count, instructions := g.instructions.push i } :=
  { refl g with
    instructions := by
      rw [Array.toList_push]
      exact List.prefix_append _ _
    register := Nat.le_add_right _ _ }

/-- What ends a function is more code. -/
theorem close (g : Generator) : g.Extends g.close := by
  rcases Lowering.close_cases g with ⟨pointer, -, h⟩ | h <;> rw [h]
  · exact (push g _ 1).trans (push _ _ 0)
  · exact push g _ 0

end Extends

end Generator

namespace Lowering

open Generator

variable {g inner : Generator} {name : String} {parameters : List String} {body : Lowering Lowered} {d : Definition}
  {e : LoweringError}

/-! ## Functions -/

/-- The frames around a function are left as they were found, also if the function cannot be finished. -/
theorem leave?_definition (h : Throughout Extends (spill parameters >>= fun _ => body)) (name : String) (g : Generator) :
    (finalState (definition name parameters body g.nested)).frames.leave? = some g.frames := by
  have hbody := h g.nested.begun
  refine FrameChain.leave?_of_outer ?_
  cases hd : definition name parameters body g.nested with
  | ok d inner =>
    obtain ⟨l, g₁, hcode, rfl, -⟩ := definition_ok_iff.1 hd
    rw [hcode] at hbody
    exact (hbody.trans (.close g₁)).outer
  | error e inner =>
    rw [definition_error_iff.1 hd] at hbody
    exact hbody.outer

/-- A function that is finished is added behind those inside of it, and takes registers; nothing else is changed. -/
theorem define_of_ok (h : Throughout Extends (spill parameters >>= fun _ => body))
    (hd : definition name parameters body g.nested = .ok d inner) :
    define name parameters body g = .ok .nothing
      { g with nextRegister := inner.nextRegister, functions := (g.functions ++ inner.functions).push d } := by
  have hframes := leave?_definition h name g
  rw [hd] at hframes
  have hleave : inner.frames.leave? = some g.frames := hframes
  simp only [define, hd, hleave, Option.getD_some]

/-- A function that cannot be finished changes nothing. -/
theorem define_of_error (h : Throughout Extends (spill parameters >>= fun _ => body))
    (hd : definition name parameters body g.nested = .error e inner) : define name parameters body g = .error e g := by
  have hframes := leave?_definition h name g
  rw [hd] at hframes
  have hleave : inner.frames.leave? = some g.frames := hframes
  simp only [define, hd, hleave, Option.getD_some]

/-- A definition adds one function behind those of its body, or leaves everything as it is. -/
theorem extends_define (name : String) (parameters : List String) {body : Lowering Lowered}
    (h : Throughout Extends (spill parameters >>= fun _ => body)) : Throughout Extends (define name parameters body) := by
  intro g
  cases hd : definition name parameters body g.nested with
  | error e inner =>
    rw [define_of_error h hd]
    exact .refl g
  | ok d inner =>
    have hinner := h g.nested.begun
    obtain ⟨l, g₁, hcode, rfl, -⟩ := definition_ok_iff.1 hd
    rw [hcode] at hinner
    have hregister : g.nextRegister + 2 ≤ g₁.close.nextRegister := (hinner.trans (.close g₁)).register
    rw [define_of_ok h hd]
    refine { Extends.refl g with functions := ?_, register := Nat.le_trans (Nat.le_add_right _ 2) hregister }
    show g.functions.toList <+: ((g.functions ++ g₁.close.functions).push d).toList
    rw [Array.toList_push, Array.toList_append, List.append_assoc]
    exact List.prefix_append _ _

/-! ## Everything -/

/-- Every change that a step of lowering makes loses nothing. -/
theorem stepwise_extends : Stepwise Extends where
  refl := .refl
  trans := .trans
  write g i _ _ := .push g i 1
  compute g i _ := .push g i 1
  push g i _ := .push g i 0
  label g count := { Extends.refl g with label := Nat.le_add_right _ _ }
  boxed g _ := { Extends.refl g with }
  constant g _ := { Extends.refl g with }
  declare g name initial := by
    refine { Extends.refl g with slots := ?_ }
    show g.frames.current.slots.toList <+: (g.frames.current.slots.push ⟨name, initial⟩).toList
    rw [Array.toList_push]
    exact List.prefix_append _ _
  define := extends_define

/-- Lowering loses nothing, however it ends. -/
theorem extends_lower (mode : Signedness) (e : Expression) : Throughout Extends (lower mode e) :=
  stepwise_extends.compositional.lower mode e

/-- The body of a function takes nothing away. -/
theorem extends_body (mode : Signedness) (parameters : List String) (body : Expression) :
    Throughout Extends (spill parameters >>= fun _ => lower mode body) :=
  stepwise_extends.bind (stepwise_extends.compositional.spill parameters) fun _ => extends_lower mode body

/-- A declaration that fails changes nothing. -/
theorem funcDecl_error {mode : Signedness} {function : FunctionLiteral} {g' : Generator}
    (h : lower mode (.funcDecl name function) g = .error e g') : g' = g := by
  obtain ⟨identity, parameters, body⟩ := function
  have hbody := extends_body mode parameters body
  cases hd : definition name parameters (lower mode body) g.nested with
  | error e inner =>
    have herror : lower mode (.funcDecl name ⟨identity, parameters, body⟩) g = .error e g := define_of_error hbody hd
    rw [herror] at h
    cases h
    rfl
  | ok d inner =>
    have hok : lower mode (.funcDecl name ⟨identity, parameters, body⟩) g = _ := define_of_ok hbody hd
    rw [hok] at h
    cases h

/-- A declaration that succeeds adds definitions of the functions declared in it, and takes the registers that these write. -/
theorem exists_definitions_of_funcDecl {mode : Signedness} {function : FunctionLiteral} {l : Lowered} {g' : Generator}
    (h : lower mode (.funcDecl name function) g = .ok l g') :
    l = .nothing ∧ ∃ definitions,
      g' = { g with functions := g.functions ++ definitions.toArray, nextRegister := g'.nextRegister } ∧
      List.Forall₂ Implements definitions (Expression.funcDecl name function).declarations ∧
      Numbers g.nextRegister g'.nextRegister (destinationsOf definitions) := by
  obtain ⟨definitions, hf, hdefinitions⟩ := (compiles_lower mode (.funcDecl name function) h).functions
  obtain ⟨code, functions, hcode, hfunctions, hnumbers⟩ := compositional_takesRegisters.lower mode (.funcDecl name function) g
  rw [h] at hcode hfunctions hnumbers
  obtain ⟨identity, parameters, body⟩ := function
  have hbody := extends_body mode parameters body
  -- a definition that fails makes the declaration fail
  cases hd : definition name parameters (lower mode body) g.nested with
  | error e inner =>
    have herror : lower mode (.funcDecl name ⟨identity, parameters, body⟩) g = .error e g := define_of_error hbody hd
    rw [herror] at h
    cases h
  | ok d inner =>
    have hok : lower mode (.funcDecl name ⟨identity, parameters, body⟩) g = _ := define_of_ok hbody hd
    rw [hok] at h
    cases h
    have hadded : (g.functions ++ inner.functions).push d = g.functions ++ definitions.toArray := by
      refine Array.toList_inj.1 (hf.trans ?_)
      rw [Array.toList_append]
    refine ⟨rfl, definitions, ?_, hdefinitions, ?_⟩
    · dsimp only
      rw [hadded]
    · -- No code is added where the function is declared, so the registers are those of its definitions.
      have hnone : code = [] := List.append_right_eq_self.1 hcode.symm
      have hsame : functions = definitions := List.append_cancel_left (hfunctions.symm.trans hf)
      rw [hnone, hsame] at hnumbers
      exact hnumbers

end Lowering

open Lowering

/-- Whatever is lowered in whichever state, and whether it succeeds or fails: the code, the functions and the slots that were there come
first in what is there afterwards, registers and labels only grow, and the address of the frame and the frames around are the same.
The declaration of a function that fails, anywhere in its body and however deep, leaves the state exactly as it was. One that succeeds
adds the definitions of the functions declared in its body, in the order of `declarations`, and then its own; the registers that these
write are the ones that are taken, and nothing else is changed. -/
theorem lowering_only_adds (mode : Signedness) :
    (∀ e g, Generator.Extends g (finalState (lower mode e g))) ∧
      ∀ name function g, match lower mode (.funcDecl name function) g with
        | .error _ g' => g' = g
        | .ok l g' => l = .nothing ∧ ∃ definitions,
            g' = { g with functions := g.functions ++ definitions.toArray, nextRegister := g'.nextRegister } ∧
            List.Forall₂ Implements definitions (Expression.funcDecl name function).declarations ∧
            Numbers g.nextRegister g'.nextRegister (destinationsOf definitions) := by
  refine ⟨extends_lower mode, fun name function g => ?_⟩
  cases h : lower mode (.funcDecl name function) g with
  | error e g' => exact funcDecl_error h
  | ok l g' => exact exists_definitions_of_funcDecl h

/-- A function is left unfinished because of a function inside of it, after code was made and a cell was written. -/
example :
    finalState (lower .signed (.funcDecl "f" ⟨0, ["a"], .sequence [.integer 1, .funcDecl "g" ⟨1, [], .identifier "a"⟩]⟩)
      Generator.initial) = Generator.initial := by
  decide +kernel

end ExprLang
