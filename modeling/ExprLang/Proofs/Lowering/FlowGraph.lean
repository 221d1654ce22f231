import ExprLang.Proofs.Code.Blocks
import ExprLang.Proofs.Lowering.Composition

/-!
# Generated code is a control-flow graph

The code that a computation adds when it succeeds is a piece whose labels are those that were reserved meanwhile, and the functions it
adds are flow graphs (`Lays`). Every step of lowering does so. In a choice and in a loop the labels are reserved before the parts are
lowered and written down in between, so the order of the labels in the code is not that of their numbers.
-/

namespace ExprLang

open Code

namespace Lowering

variable {g g' g'' : Generator}

/-- From one state to another a piece of code with the labels reserved meanwhile was added, and flow graphs. -/
structure Lays (g g' : Generator) : Prop where
  /-- A piece of code was added. -/
  code : ∃ code, g'.instructions.toList = g.instructions.toList ++ code ∧ Piece g.nextLabel g'.nextLabel code
  /-- Flow graphs were added to the functions. -/
  functions : (∀ d ∈ g.functions, d.IsFlowGraph) → ∀ d ∈ g'.functions, d.IsFlowGraph

namespace Lays

/-- A change that concerns neither code nor labels nor functions. -/
theorem of_eq (hi : g'.instructions = g.instructions) (hl : g'.nextLabel = g.nextLabel) (hf : g'.functions = g.functions) :
    Lays g g' :=
  ⟨⟨[], by rw [hi, List.append_nil], hl ▸ Piece.nil _⟩, by rw [hf]; exact id⟩

theorem trans (h : Lays g g') (h' : Lays g' g'') : Lays g g'' := by
  obtain ⟨code, hcode, hpiece⟩ := h.code
  obtain ⟨code', hcode', hpiece'⟩ := h'.code
  exact ⟨⟨code ++ code', by rw [hcode', hcode, List.append_assoc], hpiece.append hpiece'⟩, h'.functions ∘ h.functions⟩

/-- One more instruction that neither ends a block nor begins one. -/
theorem push {i : Instruction} (hterminator : i.isTerminator = false) (hlabel : i.isLabel = false)
    (hi : g'.instructions = g.instructions.push i) (hl : g'.nextLabel = g.nextLabel) (hf : g'.functions = g.functions) :
    Lays g g' :=
  ⟨⟨[i], by rw [hi, Array.toList_push], hl ▸ (Piece.nil _).cons hterminator hlabel⟩, by rw [hf]; exact id⟩

end Lays

/-- Whenever the computation succeeds it adds a piece of code and flow graphs. -/
def LaysOut ⦃α : Type⦄ (x : Lowering α) : Prop := ∀ ⦃g : Generator⦄ ⦃a : α⦄ ⦃g' : Generator⦄, x g = .ok a g' → Lays g g'

theorem laysOut_conditional {test : Lowering Nat} {consequence alternative : Lowering Unit} (ht : LaysOut test)
    (hc : LaysOut consequence) (ha : LaysOut alternative) : LaysOut (conditional test consequence alternative) := by
  intro g r g' h
  obtain ⟨flag, g₁, g₂, g₃, h₁, h₂, h₃, -, rfl⟩ := conditional_ok_iff.1 h
  obtain ⟨⟨t, ht, htp⟩, htf⟩ := ht h₁
  obtain ⟨⟨c, hc, hcp⟩, hcf⟩ := hc h₂
  obtain ⟨⟨a, ha, hap⟩, haf⟩ := ha h₃
  refine ⟨⟨_, ?_, Piece.conditional flag htp hcp hap⟩, haf ∘ hcf ∘ htf⟩
  simp only [Generator.block, Array.toList_push] at ht hc ha ⊢
  rw [ha, hc, ht]
  simp only [List.append_assoc, List.cons_append, List.nil_append]

theorem laysOut_loop {test : Lowering Nat} {body : Lowering Unit} (ht : LaysOut test) (hb : LaysOut body) :
    LaysOut (loop test body) := by
  intro g r g' h
  obtain ⟨flag, g₁, g₂, h₁, h₂, -, rfl⟩ := loop_ok_iff.1 h
  obtain ⟨⟨t, ht, htp⟩, htf⟩ := ht h₁
  obtain ⟨⟨b, hb, hbp⟩, hbf⟩ := hb h₂
  refine ⟨⟨_, ?_, Piece.loop flag htp hbp⟩, hbf ∘ htf⟩
  simp only [Generator.block, Array.toList_push] at ht hb ⊢
  rw [hb, ht]
  simp only [List.append_assoc, List.cons_append, List.nil_append]

/-- What ends a function is a return, behind instructions that neither end a block nor begin one. -/
theorem toList_close (g : Generator) : ∃ code value, g.close.instructions.toList = g.instructions.toList ++ code ++ [.ret value] ∧
    ∀ i ∈ code, i.isTerminator = false ∧ i.isLabel = false := by
  rcases close_cases g with ⟨pointer, -, h⟩ | h
  · refine ⟨[.load g.nextRegister pointer], .register g.nextRegister, by simp [h], fun i hi => ?_⟩
    cases List.mem_singleton.1 hi
    exact ⟨rfl, rfl⟩
  · exact ⟨[], .constant 0, by simp [h], fun i hi => nomatch hi⟩

/-- Code made from nothing is, between a prologue and the end of a function, a flow graph. -/
theorem Lays.isFlowGraph (h : Lays g g') (hi : g.instructions = #[]) (hl : g.nextLabel = 0) (name : String)
    (parameters : List String) (frame : Frame) (allocation pointer : Nat) :
    Definition.IsFlowGraph ⟨name, parameters, Generator.prologue frame allocation pointer ++ g'.close.instructions.toList⟩ := by
  obtain ⟨code, hcode, hpiece⟩ := h.code
  rw [hi, List.nil_append] at hcode
  rw [hl] at hpiece
  obtain ⟨rest, value, hclose, hrest⟩ := toList_close g'
  have hpiece' : Piece 0 g'.nextLabel (code ++ rest) := by
    refine hpiece.append ?_
    clear hclose
    induction rest with
    | nil => exact .nil _
    | cons i rest ih =>
      exact (ih fun j hj => hrest j (List.mem_cons_of_mem _ hj)).cons (hrest i List.mem_cons_self).1 (hrest i List.mem_cons_self).2
  have hbitcast := hpiece'.cons (i := .bitcast pointer (frame.typeText ++ "*") allocation "%eframe*") rfl rfl
  have hbody : Generator.prologue frame allocation pointer ++ g'.close.instructions.toList =
      .malloc allocation frame.typeText :: (.bitcast pointer (frame.typeText ++ "*") allocation "%eframe*" :: (code ++ rest)) ++
        [.ret value] := by
    rw [hclose, hcode]
    rfl
  exact Piece.isFlowGraph hbody hbitcast

theorem laysOut_bind {α β : Type} {x : Lowering α} {f : α → Lowering β} (hx : LaysOut x) (hf : ∀ a, LaysOut (f a)) :
    LaysOut (x >>= f) := by
  intro g b g' h
  obtain ⟨a, g₁, ha, hb⟩ := bind_ok_iff.1 h
  exact (hx ha).trans (hf a hb)

/-- The definition of a function adds flow graphs and no code. -/
theorem laysOut_define (name : String) (parameters : List String) {body : Lowering Lowered}
    (h : LaysOut (spill parameters >>= fun _ => body)) : LaysOut (define name parameters body) := by
  intro g r g' hg
  unfold define at hg
  cases hd : definition name parameters body g.nested with
  | error e inner =>
    rw [hd] at hg
    cases hg
  | ok d inner =>
    rw [hd] at hg
    cases hg
    obtain ⟨l, g₁, hcode, rfl, rfl⟩ := definition_ok_iff.1 hd
    have hlays := h hcode
    refine ⟨⟨[], (List.append_nil _).symm, .nil _⟩, fun hg d hd => ?_⟩
    rcases Array.mem_push.1 hd with hd | rfl
    · rcases Array.mem_append.1 hd with hd | hd
      · exact hg d hd
      · rw [functions_close] at hd
        exact hlays.functions (fun d h => absurd h (Array.not_mem_empty d)) d hd
    · exact hlays.isFlowGraph rfl rfl name parameters _ _ _

/-- Every step of lowering adds a piece of code and flow graphs. -/
theorem compositional_laysOut : Compositional LaysOut where
  pure a := fun g _ g' h => by
    obtain ⟨-, rfl⟩ := pure_ok_iff.1 h
    exact .of_eq rfl rfl rfl
  throw e := fun g _ g' h => nomatch h
  bind := laysOut_bind
  get := fun g _ g' h => by
    obtain ⟨-, rfl⟩ := get_ok_iff.1 h
    exact .of_eq rfl rfl rfl
  emitTo i hi := fun g r g' h => by
    cases h
    exact .push (hi _).goesOn (hi _).plain rfl rfl rfl
  store value pointer := fun g _ g' h => by
    cases h
    exact .push (i := .store value pointer) rfl rfl rfl rfl rfl
  noteBoxed cell := fun g _ g' h => by
    cases h
    exact .of_eq rfl rfl rfl
  noteConstant tagged := fun g _ g' h => by
    cases h
    exact .of_eq rfl rfl rfl
  declare name initial := fun g _ g' h => by
    cases h
    exact .of_eq rfl rfl rfl
  conditional := laysOut_conditional
  loop := laysOut_loop
  ret value := fun g _ g' h => by
    cases h
    exact ⟨⟨[.ret value, .label g.nextLabel], by simp, Piece.ret g.nextLabel value⟩, id⟩
  define := laysOut_define

end Lowering

open Lowering

/-- In the code of a program, in the entry as in every function, the labels are numbered from zero on without a gap, branches go only
to labels of the same function and name a second one exactly under a condition, blocks begin at labels and end before the next one,
and the code runs from the allocation of the frame to a return. This holds however choices, loops, returns and functions are nested. -/
theorem compile?_isFlowGraph {mode : Signedness} {program : Expression} {m : Module} (h : program.compile? mode = .ok m) :
    m.entry.IsFlowGraph ∧ m.entry.body.head? = some (.malloc Generator.rootAllocation m.rootFrame.typeText) ∧
      ∀ d ∈ m.functions, d.IsFlowGraph := by
  unfold Expression.compile? at h
  cases hg : lower mode program Generator.initial with
  | error e g =>
    rw [hg] at h
    cases h
  | ok l g =>
    rw [hg] at h
    cases h
    have hlays := compositional_laysOut.lower mode program hg
    refine ⟨hlays.isFlowGraph rfl rfl _ _ _ _ _, rfl, fun d hd => ?_⟩
    refine hlays.functions (fun d h => absurd h (Array.not_mem_empty d)) d ?_
    rw [← functions_close]
    exact Array.mem_toList_iff.1 hd

/-- A function with a return in a choice in a loop, and a return of its value. -/
def nestedReturns : Expression :=
  .sequence [.funcDecl "f" ⟨0, ["n"], .loop (.identifier "n") (.conditional (.boolean true) (.ret (.identifier "n")) none)⟩,
    .ret (.call (.identifier "f") [.integer 3])]

/-- The labels of the function stand in another order than that of their numbers, and begin anew in the entry. -/
theorem compile?_isFlowGraph_nestedReturns :
    ∃ m, nestedReturns.compile? .signed = .ok m ∧ labelsIn m.entry.body = [0] ∧
      m.functions.map (fun d => labelsIn d.body) = [[0, 1, 3, 4, 7, 5, 6, 2]] ∧ m.entry.IsFlowGraph ∧
      ∀ d ∈ m.functions, d.IsFlowGraph := by
  have h : ((nestedReturns.compile? .signed).toOption.map fun m =>
      (labelsIn m.entry.body, m.functions.map fun d => labelsIn d.body)) = some ([0], [[0, 1, 3, 4, 7, 5, 6, 2]]) := by
    decide +kernel
  cases hm : nestedReturns.compile? .signed with
  | error e =>
    rw [hm] at h
    cases h
  | ok m =>
    rw [hm] at h
    obtain ⟨hentry, hfunctions⟩ := Prod.mk.inj (Option.some.inj h)
    have hgraph := compile?_isFlowGraph hm
    exact ⟨m, rfl, hentry, hfunctions, hgraph.1, hgraph.2.2⟩

end ExprLang
