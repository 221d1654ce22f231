import ExprLang.Proofs.Code.Flow
import ExprLang.Proofs.Lowering.Success

/-!
# Generated code is in SSA form

Lowering appends checked code (`Runs`): what is known before an expression's code is known after it, and so are the registers of its
result. What is known at a label is chosen when the code that branches there is made: at the label before a test what is known before
the whole choice or loop, and at the other labels what is known after the test. The last cell that was written need not be known while
a choice or loop is being generated, but afterwards the generator remembers the one from before it.
-/

namespace ExprLang

open Code

/-- What the code of an expression leaves behind is known. -/
def Lowered.IsKnown (A : Known) : Lowered → Prop
  | .boxed r | .flag r => Knows A r
  | .nothing => True

/-- A result that is known stays known where more is. -/
theorem Lowered.IsKnown.mono {A B : Known} {l : Lowered} (h : l.IsKnown A) (hs : A ⊆ B) : l.IsKnown B := by
  cases l with
  | boxed r => exact Knows.mono h hs
  | flag r => exact Knows.mono h hs
  | nothing => trivial

namespace Lowering

variable {parameters : List String} {labels : Nat → Known} {g g' g'' : Generator} {A B C : Known}

/-- The code made between two states is checked; what is known before it is `A`, and what is known after it `B`. -/
def Coded (parameters : List String) (labels : Nat → Known) (g : Generator) (A : Known) (g' : Generator) (B : Known) : Prop :=
  ∃ code, g'.instructions.toList = g.instructions.toList ++ code ∧ Checked parameters labels (position g) A code ∧
    known labels (position g) A code = B

/-- At the labels from `first` up to `next` is known what `f` says. -/
def Agrees (labels f : Nat → Known) (first next : Nat) : Prop := ∀ l, first ≤ l → l < next → labels l = f l

/-- What is known at labels, said by `f` below the label `next` and by `f'` from there on. -/
def glue (next : Nat) (f f' : Nat → Known) : Nat → Known := fun l => if l < next then f l else f' l

/-- What is known on both sides of a label is known at the labels of each side. -/
theorem Agrees.glue {f f' : Nat → Known} {first next last : Nat} (h : Agrees labels (glue next f f') first last)
    (hle : first ≤ next) (hle' : next ≤ last) : Agrees labels f first next ∧ Agrees labels f' next last := by
  refine ⟨fun l hl hlt => ?_, fun l hl hlt => ?_⟩
  · exact (h l hl (Nat.lt_of_lt_of_le hlt hle')).trans (if_pos hlt)
  · exact (h l (Nat.le_trans hle hl) hlt).trans (if_neg (Nat.not_lt.2 hl))

/-- What is known at the labels of a choice or a loop: `A` at the first one and `B` at the others. -/
def testing (first : Nat) (A B : Known) : Nat → Known := fun l => if l = first then A else B

/-- At the label before a test less may be known than at those after it. -/
theorem Agrees.testing {first next : Nat} (h : Agrees labels (testing first A B) first next) (hlt : first < next) :
    labels first = A ∧ ∀ l, first < l → l < next → labels l = B :=
  ⟨(h first (Nat.le_refl _) hlt).trans (if_pos rfl),
    fun l hl hlt => (h l (Nat.le_of_lt hl) hlt).trans (if_neg (Nat.ne_of_gt hl))⟩

/-- The code made between two states is checked if what is known at its labels is chosen well, and other functions are in SSA form. -/
structure Runs (parameters : List String) (g : Generator) (A : Known) (g' : Generator) (B : Known) : Prop where
  /-- The code is checked. -/
  code : ∃ f, ∀ labels, Agrees labels f g.nextLabel g'.nextLabel → Coded parameters labels g A g' B
  /-- Labels are used up. -/
  label : g.nextLabel ≤ g'.nextLabel
  /-- The frame stays where it is. -/
  framePointer : g'.framePointer = g.framePointer
  /-- What was known stays known. -/
  subset : A ⊆ B
  /-- The last cell that was written is known if it was before. -/
  boxed : (∀ r, g.lastBoxed = some r → Knows A r) → ∀ r, g'.lastBoxed = some r → Knows B r
  /-- Functions are in SSA form. -/
  functions : (∀ d ∈ g.functions, d.IsSSA) → ∀ d ∈ g'.functions, d.IsSSA

/-! ## Code -/

namespace Coded

theorem refl (labels : Nat → Known) (h : g'.instructions = g.instructions) : Coded parameters labels g A g' A :=
  ⟨[], by rw [h, List.append_nil], trivial, rfl⟩

/-- Checked code may be put behind checked code. -/
theorem trans (h : Coded parameters labels g A g' B) (h' : Coded parameters labels g' B g'' C) :
    Coded parameters labels g A g'' C := by
  obtain ⟨code, hcode, hchecked, rfl⟩ := h
  obtain ⟨code', hcode', hchecked', rfl⟩ := h'
  have hpos : position g' = position g + code.length := by
    have := congrArg List.length hcode
    rw [List.length_append, Array.length_toList, Array.length_toList] at this
    simp only [position]
    omega
  rw [hpos] at hchecked'
  refine ⟨code ++ code', by rw [hcode', hcode, List.append_assoc], (checked_append _ _ _ _).2 ⟨hchecked, hchecked'⟩, ?_⟩
  rw [known_append, hpos]

/-- One more instruction. -/
theorem push {i : Instruction} (h : g'.instructions = g.instructions.push i) (hi : Allowed parameters labels A i) :
    Coded parameters labels g A g' (after labels (position g) A i) :=
  ⟨[i], by rw [h, Array.toList_push], ⟨hi, trivial⟩, rfl⟩

/-- The end of a block and the label of the next one. -/
theorem block {i : Instruction} {l : Nat} (hi : Allowed parameters labels A i) (hafter : after labels (position g) A i = A)
    (hlabel : labels l = B) (hB : B ⊆ A) : Coded parameters labels g A (g.block i l) B := by
  refine ⟨[i, .label l], by simp [Generator.block], ⟨hi, ⟨fun o ho => (nomatch ho), fun t ht => ?_⟩, trivial⟩, hlabel⟩
  cases List.mem_singleton.1 ht
  rw [hafter, hlabel]
  exact hB

/-- A jump and the label of the next block. -/
theorem jump {target l : Nat} (htarget : labels target ⊆ A) (hlabel : labels l = B) (hB : B ⊆ A) :
    Coded parameters labels g A (g.block (.branch none target none) l) B := by
  refine block ⟨fun o ho => (nomatch ho), fun t ht => ?_⟩ rfl hlabel hB
  cases List.mem_singleton.1 ht
  exact htarget

/-- A branch under a condition and the label of the next block. -/
theorem branch {condition target otherwise l : Nat} (hcondition : Knows A condition) (htarget : labels target ⊆ A)
    (hotherwise : labels otherwise ⊆ A) (hlabel : labels l = B) (hB : B ⊆ A) :
    Coded parameters labels g A (g.block (.branch (some condition) target (some otherwise)) l) B := by
  refine block ⟨fun o ho => ?_, fun t ht => ?_⟩ rfl hlabel hB
  · cases List.mem_singleton.1 ho
    exact hcondition
  · rcases List.mem_cons.1 ht with rfl | ht
    · exact htarget
    · cases List.mem_singleton.1 ht
      exact hotherwise

end Coded

namespace Runs

theorem refl (parameters : List String) (g : Generator) (A : Known) : Runs parameters g A g A :=
  ⟨⟨fun _ => A, fun labels _ => Coded.refl labels rfl⟩, Nat.le_refl _, rfl, subset_rfl, id, id⟩

/-- The parts choose what is known at different labels. -/
theorem trans (h : Runs parameters g A g' B) (h' : Runs parameters g' B g'' C) : Runs parameters g A g'' C := by
  obtain ⟨f, hf⟩ := h.code
  obtain ⟨f', hf'⟩ := h'.code
  refine ⟨⟨glue g'.nextLabel f f', fun labels hl => ?_⟩, Nat.le_trans h.label h'.label,
    h'.framePointer.trans h.framePointer, h.subset.trans h'.subset, h'.boxed ∘ h.boxed, h'.functions ∘ h.functions⟩
  obtain ⟨hl, hl'⟩ := hl.glue h.label h'.label
  exact (hf labels hl).trans (hf' labels hl')

/-- The frame's address stays known. -/
theorem knows (h : Runs parameters g A g' B) (hg : Knows A g.framePointer) : Knows B g'.framePointer := by
  rw [h.framePointer]
  exact hg.mono h.subset

/-- A change that concerns neither code nor labels. -/
theorem of_eq (hi : g'.instructions = g.instructions) (hl : g'.nextLabel = g.nextLabel)
    (hp : g'.framePointer = g.framePointer) (hb : (∀ r, g.lastBoxed = some r → Knows A r) →
      ∀ r, g'.lastBoxed = some r → Knows A r)
    (hf : (∀ d ∈ g.functions, d.IsSSA) → ∀ d ∈ g'.functions, d.IsSSA) : Runs parameters g A g' A :=
  ⟨⟨fun _ => A, fun labels _ => Coded.refl labels hi⟩, Nat.le_of_eq hl.symm, hp, subset_rfl, hb, hf⟩

/-- A plain instruction that reads only what is known. -/
theorem emit {i : Instruction} (hplain : i.IsPlain) (hreads : ∀ o ∈ i.reads, o.Readable parameters A)
    (hi : g'.instructions = g.instructions.push i) (hl : g'.nextLabel = g.nextLabel) (hp : g'.framePointer = g.framePointer)
    (hb : g'.lastBoxed = g.lastBoxed) (hf : g'.functions = g.functions) :
    Runs parameters g A g' (written (position g) A i) := by
  have hsubset := subset_written (position g) A i
  refine ⟨⟨fun _ => A, fun labels _ => ?_⟩, Nat.le_of_eq hl.symm, hp, hsubset, ?_, ?_⟩
  · have hallowed : Allowed parameters labels A i := ⟨hreads, fun l hl => by rw [hplain] at hl; cases hl⟩
    rw [← after_eq_written hplain labels]
    exact Coded.push hi hallowed
  · rw [hb]
    exact fun h r hr => (h r hr).mono hsubset
  · rw [hf]
    exact id

end Runs

/-! ## Computations -/

variable {α β : Type} {P : Known → α → Prop} {Q : Known → β → Prop}

/-- If the computation succeeds, its code runs from what is known, and `P` holds of its result and what is known afterwards. -/
def Emits (parameters : List String) (g : Generator) (A : Known) (P : Known → α → Prop) :
    EStateM.Result LoweringError Generator α → Prop
  | .ok a g' => ∃ B, Runs parameters g A g' B ∧ P B a
  | .error _ _ => True

/-- Computations one after the other. -/
theorem Emits.bind {x : Lowering α} {f : α → Lowering β} (hx : Emits parameters g A P (x g))
    (hf : ∀ a g' B, Runs parameters g A g' B → P B a → Emits parameters g' B Q (f a g')) :
    Emits parameters g A Q ((x >>= f) g) := by
  cases hb : (x >>= f) g with
  | error e g'' => trivial
  | ok b g'' =>
    obtain ⟨a, g', ha, hb⟩ := bind_ok_iff.1 hb
    rw [ha] at hx
    obtain ⟨B, hB, hP⟩ := hx
    have hb' := hf a g' B hB hP
    rw [hb] at hb'
    obtain ⟨C, hC, hQ⟩ := hb'
    exact ⟨C, hB.trans hC, hQ⟩

/-- A computation that adds no code leaves what is known. -/
theorem emits_pure {a : α} (h : P A a) : Emits parameters g A P ((pure a : Lowering α) g) :=
  ⟨A, Runs.refl parameters g A, h⟩

/-- A computation that makes no code. -/
theorem emits_ok {a : α} (hg : Runs parameters g A g' A) (h : P A a) : Emits parameters g A P (.ok a g') := ⟨A, hg, h⟩

/-- What is said of the result may be weakened. -/
theorem Emits.imp {R : Known → α → Prop} {o : EStateM.Result LoweringError Generator α} (h : Emits parameters g A P o)
    (hp : ∀ B a, P B a → R B a) : Emits parameters g A R o := by
  cases o with
  | ok a g' =>
    obtain ⟨B, hB, hP⟩ := h
    exact ⟨B, hB, hp B a hP⟩
  | error e g' => trivial

/-- An instruction that writes a new register. -/
theorem emits_emitTo (i : Nat → Instruction) (hdest : ∀ r, (i r).dest? = some r) (hplain : ∀ r, (i r).IsPlain)
    (hreads : ∀ r, ∀ o ∈ (i r).reads, o.Readable parameters A) : Emits parameters g A Knows (emitTo i g) := by
  refine ⟨written (position g) A (i g.nextRegister), Runs.emit (hplain _) (hreads _) rfl rfl rfl rfl rfl, position g, ?_⟩
  simp only [written, hdest]
  exact Set.mem_insert _ _

/-- An instruction that writes no register. -/
theorem emits_emit (i : Instruction) (hplain : i.IsPlain) (hdest : i.dest? = none)
    (hreads : ∀ o ∈ i.reads, o.Readable parameters A) : Emits parameters g A (fun B _ => A = B) (emit i g) := by
  refine ⟨_, Runs.emit hplain hreads rfl rfl rfl rfl rfl, ?_⟩
  simp only [written, hdest]

/-- A cell that is remembered has to be known. -/
theorem emits_noteBoxed {cell : Nat} (h : Knows A cell) :
    Emits parameters g A (fun B l => l.IsKnown B) (noteBoxed cell g) := by
  refine emits_ok (Runs.of_eq rfl rfl rfl (fun _ r hr => ?_) id) h
  cases hr
  exact h

/-- A boxed value is known from the code that boxes it on. -/
theorem emits_box {value : Operand} (h : value.Readable parameters A) :
    Emits parameters g A (fun B l => l.IsKnown B) (box value g) := by
  refine (emits_emitTo (.malloc · "i32") (fun _ => rfl) (fun _ => rfl) fun r o ho => by cases ho).bind fun cell g₁ B hB hcell => ?_
  refine (emits_emit (.store value cell) rfl rfl ?_).bind fun _ g₂ C hC hBC => ?_
  · intro o ho
    rcases List.mem_cons.1 ho with rfl | ho
    · exact h.mono hB.subset
    · cases List.mem_singleton.1 ho
      exact hcell
  · exact emits_noteBoxed (hcell.mono hC.subset)

/-- A constant is boxed without reading a register. -/
theorem emits_constant (tagged : Int32) : Emits parameters g A (fun B l => l.IsKnown B) (constant tagged g) := by
  refine Emits.bind (P := fun B _ => A = B) (emits_ok (Runs.of_eq rfl rfl rfl id id) rfl) fun _ g₁ B _ _ => ?_
  exact emits_box trivial

/-- A result that is known can be loaded. -/
theorem emits_load {l : Lowered} (h : l.IsKnown A) (kind : String) :
    Emits parameters g A (fun B o => o.Readable parameters B) (load l kind g) := by
  cases l with
  | boxed pointer =>
    refine (emits_emitTo (.load · pointer) (fun _ => rfl) (fun _ => rfl) fun r o ho => ?_).bind fun value g₁ B _ hvalue =>
      emits_pure hvalue
    cases List.mem_singleton.1 ho
    exact h
  | flag r => trivial
  | nothing => trivial

/-- A result that is known can be unboxed; the register for it is new. -/
theorem emits_unbox {l : Lowered} (h : l.IsKnown A) (mode : Signedness) (kind : String) :
    Emits parameters g A (fun B o => o.Readable parameters B) (unbox mode l kind g) := by
  refine (emits_load h kind).bind fun value g₁ B hB hvalue => ?_
  refine (emits_emitTo (.shift · _ value tagBits) (fun _ => rfl) (fun _ => rfl) fun r o ho => ?_).bind fun value g₂ C _ hvalue =>
    emits_pure hvalue
  cases List.mem_singleton.1 ho
  exact hvalue

/-- The address of a slot needs the frame pointer only. -/
theorem emits_slotAddress (h : Knows A g.framePointer) (slot : Nat) : Emits parameters g A Knows (slotAddress slot g) := by
  refine emits_emitTo (.slotAddress · g.framePointer slot) (fun _ => rfl) (fun _ => rfl) fun r o ho => ?_
  cases List.mem_singleton.1 ho
  exact h

/-- A slot that is stored to is known as a result. -/
theorem emits_storeSlot (hg : Knows A g.framePointer) (slot : Nat) {value : Operand} (h : value.Readable parameters A) :
    Emits parameters g A (fun B l => l.IsKnown B) (storeSlot slot value g) := by
  refine (emits_slotAddress hg slot).bind fun pointer g₁ B hB hpointer => ?_
  refine (emits_emit (.store value pointer) rfl rfl ?_).bind fun _ g₂ C hC _ => emits_noteBoxed (hpointer.mono hC.subset)
  intro o ho
  rcases List.mem_cons.1 ho with rfl | ho
  · exact h.mono hB.subset
  · cases List.mem_singleton.1 ho
    exact hpointer

/-- Looking up a name makes no code. -/
theorem emits_ownSlot (name kind : String) : Emits parameters g A (fun B _ => A = B) (ownSlot name kind g) := by
  have hget : Emits parameters g A (fun B _ => A = B) ((get : Lowering Generator) g) := emits_pure rfl
  refine hget.bind fun g' g₁ B _ hB => ?_
  subst hB
  cases g'.frames.resolve? name with
  | none => trivial
  | some place =>
    cases place with
    | own slot => exact emits_pure rfl
    | enclosing => trivial

/-- A name is read from a slot or is a constant; either way its result is known. -/
theorem emits_readName (hg : Knows A g.framePointer) (name : String) :
    Emits parameters g A (fun B l => l.IsKnown B) (readName name g) := by
  refine (emits_ownSlot name "Identifier").bind fun slot g₁ B hB _ => ?_
  refine (emits_slotAddress (hB.knows hg) slot).bind fun pointer g₂ C hC hpointer => ?_
  refine (emits_emitTo (.load · pointer) (fun _ => rfl) (fun _ => rfl) fun r o ho => ?_).bind fun value g₃ D _ hvalue => ?_
  · cases List.mem_singleton.1 ho
    exact hpointer
  · exact emits_box hvalue

/-- Declaring a name makes no code. -/
theorem emits_declare (name : String) (initial : Option Int32) :
    Emits parameters g A (fun B _ => A = B) (declare name initial g) :=
  emits_ok (Runs.of_eq rfl rfl rfl id id) rfl

/-- The code of a test. -/
theorem emits_test {l : Lowered} (h : l.IsKnown A) (kind : String) : Emits parameters g A Knows (test l kind g) := by
  cases l with
  | flag flag => exact emits_pure h
  | boxed cell =>
    refine (emits_load (l := .boxed cell) h kind).bind fun value g₁ B _ hvalue => ?_
    refine emits_emitTo (.compare · .equal value (.constant (tagBoolean true))) (fun _ => rfl) (fun _ => rfl) fun r o ho => ?_
    rcases List.mem_cons.1 ho with rfl | ho
    · exact hvalue
    · cases List.mem_singleton.1 ho
      trivial
  | nothing => trivial

/-- Arithmetic needs both of its operands. -/
theorem emits_arithmetic (mode : Signedness) (op : Arithmetic) {l r : Lowered} (hl : l.IsKnown A) (hr : r.IsKnown A)
    (leftKind rightKind : String) :
    Emits parameters g A (fun B l => l.IsKnown B) (arithmetic mode op l leftKind r rightKind g) := by
  have hpair : ∀ {B : Known} {a b o : Operand}, a.Readable parameters B → b.Readable parameters B → o ∈ [a, b] →
      o.Readable parameters B := by
    intro B a b o ha hb ho
    rcases List.mem_cons.1 ho with rfl | ho
    · exact ha
    · cases List.mem_singleton.1 ho
      exact hb
  have hnumbers : ∀ opcode : BinaryOp, Emits parameters g A (fun B l => l.IsKnown B) ((do
      let l ← unbox mode l leftKind
      let r ← unbox mode r rightKind
      let raw ← emitTo (.binary opcode · l r)
      box (.register (← emitTo (.shift · .left (.register raw) tagBits))) : Lowering Lowered) g) := by
    intro opcode
    refine (emits_unbox hl mode leftKind).bind fun a g₁ B hB ha => ?_
    refine (emits_unbox (hr.mono hB.subset) mode rightKind).bind fun b g₂ C hC hb => ?_
    refine (emits_emitTo (.binary opcode · a b) (fun _ => rfl) (fun _ => rfl) fun r o ho =>
      hpair (ha.mono hC.subset) hb ho).bind fun raw g₃ D _ hraw => ?_
    refine (emits_emitTo (.shift · .left (.register raw) tagBits) (fun _ => rfl) (fun _ => rfl) fun r o ho => ?_).bind
      fun value g₄ E _ hvalue => emits_box hvalue
    cases List.mem_singleton.1 ho
    exact hraw
  cases op with
  | add =>
    refine (emits_load hl leftKind).bind fun a g₁ B hB ha => ?_
    refine (emits_load (hr.mono hB.subset) rightKind).bind fun b g₂ C hC hb => ?_
    exact (emits_emitTo (.binary .add · a b) (fun _ => rfl) (fun _ => rfl) fun r o ho =>
      hpair (ha.mono hC.subset) hb ho).bind fun sum g₃ D _ hsum => emits_box hsum
  | sub => exact hnumbers _
  | mul => exact hnumbers _
  | div => exact hnumbers _

/-- A comparison needs both of its operands. -/
theorem emits_comparison (op : Comparison) {l r : Lowered} (hl : l.IsKnown A) (hr : r.IsKnown A)
    (leftKind rightKind : String) :
    Emits parameters g A (fun B l => l.IsKnown B) (comparison op l leftKind r rightKind g) := by
  refine (emits_load hl leftKind).bind fun a g₁ B hB ha => ?_
  refine (emits_load (hr.mono hB.subset) rightKind).bind fun b g₂ C hC hb => ?_
  refine (emits_emitTo (.compare · (predicate op) a b) (fun _ => rfl) (fun _ => rfl) fun r o ho => ?_).bind
    fun flag g₃ D _ hflag => emits_pure hflag
  rcases List.mem_cons.1 ho with rfl | ho
  · exact ha.mono hC.subset
  · cases List.mem_singleton.1 ho
    exact hb

/-- A return, and a label at which nothing arrives. There is known what was known before. -/
theorem emits_ret {value : Operand} (h : value.Readable parameters A) :
    Emits parameters g A (fun B l => l.IsKnown B) (ret value g) := by
  refine ⟨A, ⟨⟨fun _ => A, fun labels hl => ?_⟩, Nat.le_succ _, rfl, subset_rfl, id, id⟩, trivial⟩
  have hlabel : labels g.nextLabel = A := hl _ (Nat.le_refl _) (Nat.lt_succ_self _)
  show Coded parameters labels g A (g.block (.ret value) g.nextLabel) A
  refine Coded.block ⟨fun o ho => ?_, fun l hl => nomatch hl⟩ rfl hlabel subset_rfl
  cases List.mem_singleton.1 ho
  exact h

/-! ## Branching code -/

/-- Wherever the frame's address is known, the computation emits code. -/
def Emitter (parameters : List String) (x : Lowering α) (P : Known → α → Prop) : Prop :=
  ∀ (g : Generator) (A : Known), Knows A g.framePointer → Emits parameters g A P (x g)

/-- An emitter that succeeds gives checked code. -/
theorem Emitter.run {x : Lowering α} (h : Emitter parameters x P) {a : α} (hx : x g = .ok a g')
    (hg : Knows A g.framePointer) : ∃ B, Runs parameters g A g' B ∧ P B a := by
  have := h g A hg
  rwa [hx] at this

/-- A choice. What is known at its first label is what is known before it, at the others what is known after the test. -/
theorem emits_conditional {test : Lowering Nat} {consequence alternative : Lowering Unit} (hg : Knows A g.framePointer)
    (ht : Emitter parameters test Knows) (hc : Emitter parameters consequence fun _ _ => True)
    (ha : Emitter parameters alternative fun _ _ => True) :
    Emits parameters g A (fun B l => l.IsKnown B) (conditional test consequence alternative g) := by
  cases h : conditional test consequence alternative g with
  | error e g' => trivial
  | ok r g' =>
    obtain ⟨flag, g₁, g₂, g₃, h₁, h₂, h₃, rfl, rfl⟩ := conditional_ok_iff.1 h
    -- the test, then both branches from what is known after it: neither branch knows what the other one writes
    obtain ⟨B, hB, hflag⟩ := ht.run h₁ hg
    have hgB : Knows B g₁.framePointer := hB.knows hg
    obtain ⟨C, hC, -⟩ := hc.run h₂ hgB
    have hgB' : Knows B g₂.framePointer := by
      rw [hC.framePointer]
      exact hgB
    obtain ⟨D, hD, -⟩ := ha.run h₃ hgB'
    obtain ⟨f₁, hf₁⟩ := hB.code
    obtain ⟨f₂, hf₂⟩ := hC.code
    obtain ⟨f₃, hf₃⟩ := hD.code
    have hl₁ : g.nextLabel + 4 ≤ g₁.nextLabel := hB.label
    have hl₂ : g₁.nextLabel ≤ g₂.nextLabel := hC.label
    have hl₃ : g₂.nextLabel ≤ g₃.nextLabel := hD.label
    refine ⟨B, ⟨⟨glue (g.nextLabel + 4) (testing g.nextLabel A B) (glue g₁.nextLabel f₁ (glue g₂.nextLabel f₂ f₃)),
      fun labels (hl : Agrees labels _ _ g₃.nextLabel) => ?_⟩, by show _ ≤ g₃.nextLabel; omega,
      hD.framePointer.trans (hC.framePointer.trans hB.framePointer), hB.subset, fun h r hr => (h r hr).mono hB.subset,
      hD.functions ∘ hC.functions ∘ hB.functions⟩, trivial⟩
    -- the choice of what is known at the labels is taken apart into those of the blocks and those of each piece
    obtain ⟨hs, hl⟩ := hl.glue (by omega) (by omega)
    obtain ⟨hl₁, hl⟩ := hl.glue hl₁ (by omega)
    obtain ⟨hl₂, hl₃⟩ := hl.glue hl₂ hl₃
    obtain ⟨hs, hlabel⟩ := hs.testing (by omega)
    have hsubset : ∀ l, g.nextLabel < l → l < g.nextLabel + 4 → labels l ⊆ B := fun l hlt hlt' =>
      subset_of_eq (hlabel l hlt hlt')
    -- the blocks that lead into the pieces and from one to the next
    have hstart : Coded parameters labels g A (g.block (.branch none g.nextLabel none) g.nextLabel) A :=
      Coded.jump (subset_of_eq hs) hs subset_rfl
    have hbranch := @Coded.branch parameters labels g₁ B B flag (g.nextLabel + 1) (g.nextLabel + 2) (g.nextLabel + 1) hflag
      (hsubset _ (by omega) (by omega)) (hsubset _ (by omega) (by omega)) (hlabel _ (by omega) (by omega)) subset_rfl
    have hjump := @Coded.jump parameters labels g₂ C B (g.nextLabel + 3) (g.nextLabel + 2)
      ((hsubset _ (by omega) (by omega)).trans hC.subset) (hlabel _ (by omega) (by omega)) hC.subset
    have hend := @Coded.jump parameters labels g₃ D B (g.nextLabel + 3) (g.nextLabel + 3)
      ((hsubset _ (by omega) (by omega)).trans hD.subset) (hlabel _ (by omega) (by omega)) hD.subset
    exact (((((hstart.trans (hf₁ labels hl₁)).trans hbranch).trans (hf₂ labels hl₂)).trans hjump).trans
      (hf₃ labels hl₃)).trans hend

/-- A loop. What is known at its first label is what is known before it, at the others what is known after the test. -/
theorem emits_loop {test : Lowering Nat} {body : Lowering Unit} (hg : Knows A g.framePointer)
    (ht : Emitter parameters test Knows) (hb : Emitter parameters body fun _ _ => True) :
    Emits parameters g A (fun B l => l.IsKnown B) (loop test body g) := by
  cases h : loop test body g with
  | error e g' => trivial
  | ok r g' =>
    obtain ⟨flag, g₁, g₂, h₁, h₂, rfl, rfl⟩ := loop_ok_iff.1 h
    obtain ⟨B, hB, hflag⟩ := ht.run h₁ hg
    obtain ⟨C, hC, -⟩ := hb.run h₂ (hB.knows hg)
    obtain ⟨f₁, hf₁⟩ := hB.code
    obtain ⟨f₂, hf₂⟩ := hC.code
    have hl₁ : g.nextLabel + 3 ≤ g₁.nextLabel := hB.label
    have hl₂ : g₁.nextLabel ≤ g₂.nextLabel := hC.label
    refine ⟨B, ⟨⟨glue (g.nextLabel + 3) (testing g.nextLabel A B) (glue g₁.nextLabel f₁ f₂),
      fun labels (hl : Agrees labels _ _ g₂.nextLabel) => ?_⟩, by show _ ≤ g₂.nextLabel; omega,
      hC.framePointer.trans hB.framePointer, hB.subset, fun h r hr => (h r hr).mono hB.subset,
      hC.functions ∘ hB.functions⟩, trivial⟩
    obtain ⟨hs, hl⟩ := hl.glue (by omega) (by omega)
    obtain ⟨hl₁, hl₂⟩ := hl.glue hl₁ hl₂
    obtain ⟨hs, hlabel⟩ := hs.testing (by omega)
    have hsubset : ∀ l, g.nextLabel < l → l < g.nextLabel + 3 → labels l ⊆ B := fun l hlt hlt' =>
      subset_of_eq (hlabel l hlt hlt')
    -- the end of the body leads back to the first label, where no more is known than before the loop
    have hstart : Coded parameters labels g A (g.block (.branch none g.nextLabel none) g.nextLabel) A :=
      Coded.jump (subset_of_eq hs) hs subset_rfl
    have hbranch := @Coded.branch parameters labels g₁ B B flag (g.nextLabel + 1) (g.nextLabel + 2) (g.nextLabel + 1) hflag
      (hsubset _ (by omega) (by omega)) (hsubset _ (by omega) (by omega)) (hlabel _ (by omega) (by omega)) subset_rfl
    have hend := @Coded.jump parameters labels g₂ C B g.nextLabel (g.nextLabel + 2)
      ((subset_of_eq hs).trans (hB.subset.trans hC.subset)) (hlabel _ (by omega) (by omega)) hC.subset
    exact (((hstart.trans (hf₁ labels hl₁)).trans hbranch).trans (hf₂ labels hl₂)).trans hend

/-! ## Functions -/

/-- The parameters of a function may be read throughout its body. -/
theorem emitter_spill {names : List String} (h : ∀ p ∈ names, p ∈ parameters) :
    Emitter parameters (spill names) fun _ _ => True := by
  induction names with
  | nil => exact fun g A _ => emits_pure trivial
  | cons p rest ih =>
    intro g A hg
    have hp : p ∈ parameters := h p List.mem_cons_self
    refine (emits_declare p none).bind fun slot g₁ B hB _ => ?_
    have hstore := @emits_storeSlot parameters g₁ B (hB.knows hg) slot (.named p) hp
    refine hstore.bind fun _ g₂ C hC _ => ?_
    exact ih (fun q hq => h q (List.mem_cons_of_mem _ hq)) g₂ C (hC.knows (hB.knows hg))

/-- If the last instruction of all code writes a cell, the address of the cell is known. -/
theorem Coded.knows_of_back? (h : Coded parameters labels g A g' B) (hg : g.instructions = #[]) {value : Operand}
    {pointer : Nat} (hb : g'.instructions.back? = some (.store value pointer)) : Knows B pointer := by
  obtain ⟨code, hcode, hchecked, rfl⟩ := h
  rw [hg, List.nil_append] at hcode
  rw [← Array.getLast?_toList, hcode] at hb
  obtain ⟨pre, rfl⟩ := List.getLast?_eq_some_iff.1 hb
  rw [known_append]
  exact ((checked_append _ _ _ _).1 hchecked).2.1.reads (.register pointer) (List.mem_cons_of_mem _ List.mem_cons_self)

/-- What ends a function reads only a cell whose address is known. -/
theorem coded_close (labels : Nat → Known)
    (hlast : ∀ value pointer, g.instructions.back? = some (.store value pointer) → Knows A pointer)
    (hboxed : ∀ r, g.lastBoxed = some r → Knows A r) : ∃ B, Coded parameters labels g A g.close B := by
  rcases close_cases g with ⟨pointer, hfrom, h⟩ | h
  · have hpointer : Knows A pointer := by
      rcases hfrom with ⟨value, hback⟩ | hcell
      · exact hlast value pointer hback
      · exact hboxed pointer hcell
    rw [h]
    refine ⟨_, [.load g.nextRegister pointer, .ret (.register g.nextRegister)], by simp,
      ⟨⟨?_, fun l hl => absurd hl List.not_mem_nil⟩, ⟨?_, fun l hl => absurd hl List.not_mem_nil⟩, trivial⟩, rfl⟩
    · intro o ho
      cases List.mem_singleton.1 ho
      exact hpointer
    · intro o ho
      cases List.mem_singleton.1 ho
      exact ⟨_, Set.mem_insert _ _⟩
  · rw [h]
    refine ⟨_, [.ret (.constant 0)], by simp, ⟨⟨?_, fun l hl => absurd hl List.not_mem_nil⟩, trivial⟩, rfl⟩
    intro o ho
    cases List.mem_singleton.1 ho
    trivial

/-- What is known after the prologue of a function. -/
def framed (allocation pointer : Nat) : Known := {(1, pointer), (0, allocation)}

theorem knows_framed (allocation pointer : Nat) : Knows (framed allocation pointer) pointer := ⟨1, Set.mem_insert _ _⟩

/-- A definition whose code runs from its prologue is in SSA form. -/
theorem Runs.isSSA {allocation pointer : Nat} (h : Runs parameters g (framed allocation pointer) g' B)
    (hg : g.instructions = #[]) (hboxed : g.lastBoxed = none) (name : String) (frame : Frame) :
    Definition.IsSSA ⟨name, parameters, Generator.prologue frame allocation pointer ++ g'.close.instructions.toList⟩ := by
  obtain ⟨f, hf⟩ := h.code
  have hcoded := hf f fun _ _ _ => rfl
  have hb : ∀ r, g'.lastBoxed = some r → Knows B r := h.boxed fun r hr => by
    rw [hboxed] at hr
    cases hr
  obtain ⟨C, hclose⟩ := coded_close f (fun value pointer => hcoded.knows_of_back? hg) hb
  obtain ⟨code, hcode, hchecked, -⟩ := hcoded.trans hclose
  rw [hg, List.nil_append] at hcode
  have hposition : position g = 2 := by rw [position, hg]; rfl
  rw [hposition] at hchecked
  refine @isSSA_of_checked f _ ?_
  rw [hcode]
  refine (checked_append _ _ _ _).2 ⟨⟨⟨fun o ho => (nomatch ho), fun l hl => nomatch hl⟩, ⟨fun o ho => ?_,
    fun l hl => nomatch hl⟩, trivial⟩, ?_⟩
  · cases List.mem_singleton.1 ho
    exact ⟨0, Set.mem_insert _ _⟩
  · have hframed : known f 0 ∅ (Generator.prologue frame allocation pointer) = framed allocation pointer := by
      simp [Generator.prologue, known, after, written, Instruction.dest?, framed]
    rw [hframed]
    exact hchecked

/-- A function is in SSA form if its body emits code. -/
theorem definition_isSSA {name : String} {body : Lowering Lowered} {d : Definition}
    (hbody : Emitter parameters body fun B l => l.IsKnown B) (hg : g.instructions = #[]) (hboxed : g.lastBoxed = none)
    (h : definition name parameters body g = .ok d g') :
    d.IsSSA ∧ ((∀ d ∈ g.functions, d.IsSSA) → ∀ d ∈ g'.functions, d.IsSSA) := by
  obtain ⟨l, g₁, hcode, rfl, rfl⟩ := definition_ok_iff.1 h
  have hemits : Emitter parameters (spill parameters >>= fun _ => body) fun _ _ => True := fun g A hg =>
    (emitter_spill (fun _ => id) g A hg).bind fun _ g₁ B hB _ => (hbody g₁ B (hB.knows hg)).imp fun _ _ _ => trivial
  obtain ⟨B, hB, -⟩ := hemits.run hcode (knows_framed g.nextRegister (g.nextRegister + 1))
  refine ⟨hB.isSSA hg hboxed name _, ?_⟩
  rw [functions_close]
  exact hB.functions

/-- Adding a definition makes no code in the function around. -/
theorem emits_define {name : String} {inner : List String} {body : Lowering Lowered}
    (hbody : Emitter inner body fun B l => l.IsKnown B) :
    Emits parameters g A (fun B l => l.IsKnown B) (define name inner body g) := by
  unfold define
  cases h : definition name inner body g.nested with
  | error e g' => trivial
  | ok d g' =>
    obtain ⟨hd, hfunctions⟩ := definition_isSSA hbody rfl rfl h
    refine emits_ok (Runs.of_eq rfl rfl rfl id fun hg d' hd' => ?_) trivial
    rcases Array.mem_push.1 hd' with hd' | rfl
    · rcases Array.mem_append.1 hd' with hd' | hd'
      · exact hg d' hd'
      · exact hfunctions (fun d h => absurd h (Array.not_mem_empty d)) d' hd'
    · exact hd

/-! ## Expressions -/

mutual

/-- The code of every expression is checked wherever the frame's address is known. -/
theorem emitter_lower (mode : Signedness) (parameters : List String) :
    ∀ e : Expression, Emitter parameters (lower mode e) fun B l => l.IsKnown B
  | .integer v => fun _ _ _ => emits_constant _
  | .boolean v => fun _ _ _ => emits_constant _
  | .identifier name => fun _ _ hg => emits_readName hg name
  | .void => fun _ _ _ => emits_pure trivial
  | .varDecl name => fun g A _ => by
    show Emits parameters g A _ ((declare name g.lastConstant >>= fun _ => pure Lowered.nothing) g)
    exact (emits_declare name g.lastConstant).bind fun _ _ _ _ _ => emits_pure trivial
  | .funcDecl name ⟨_, inner, body⟩ => fun _ _ _ => emits_define (emitter_lower mode inner body)
  | .scope a => emitter_lower mode parameters a
  | .sequence as => fun g A hg => emits_lowerSequence mode parameters as hg trivial
  | .binary a (.arithmetic o) b => fun g A hg => by
    refine (emitter_lower mode parameters a g A hg).bind fun l g₁ B hB hl => ?_
    refine (emitter_lower mode parameters b g₁ B (hB.knows hg)).bind fun r g₂ C hC hr => ?_
    exact emits_arithmetic mode o (hl.mono hC.subset) hr a.kind b.kind
  | .binary a (.comparison o) b => fun g A hg => by
    refine (emitter_lower mode parameters a g A hg).bind fun l g₁ B hB hl => ?_
    refine (emitter_lower mode parameters b g₁ B (hB.knows hg)).bind fun r g₂ C hC hr => ?_
    exact emits_comparison o (hl.mono hC.subset) hr a.kind b.kind
  | .binary _ .stringEqual _ | .binary _ .stringLess _ | .binary _ .and _ | .binary _ .or _ => fun _ _ _ => trivial
  | .assign place a => fun g A hg => by
    cases place with
    | varDecl name =>
      refine (emitter_lower mode parameters a g A hg).bind fun l g₁ B hB hl => ?_
      refine (emits_load hl a.kind).bind fun value g₂ C hC hvalue => ?_
      show Emits parameters g₂ C _ ((declare name g₂.lastConstant >>= fun slot => storeSlot slot value) g₂)
      refine (emits_declare name g₂.lastConstant).bind fun slot g₃ D hD _ => ?_
      exact emits_storeSlot (hD.knows (hC.knows (hB.knows hg))) slot (hvalue.mono hD.subset)
    | identifier name =>
      refine (emits_ownSlot name "Assign").bind fun slot g₁ B hB _ => ?_
      refine (emitter_lower mode parameters a g₁ B (hB.knows hg)).bind fun l g₂ C hC hl => ?_
      refine (emits_load hl a.kind).bind fun value g₃ D hD hvalue => ?_
      exact emits_storeSlot (hD.knows (hC.knows (hB.knows hg))) slot hvalue
    | _ => trivial
  | .call f as => fun g A hg => by
    cases f with
    | identifier name =>
      refine (emits_lowerArguments mode parameters as hg).bind fun operands g₁ B hB ho => ?_
      refine (emits_emitTo (.call · name operands) (fun _ => rfl) (fun _ => rfl) fun r => ho).bind
        fun value g₂ C _ hvalue => ?_
      exact emits_box hvalue
    | _ => trivial
  | .conditional a b none => fun g A hg => by
    refine emits_conditional hg (fun g A hg => ?_) (fun g A hg => ?_) fun g A hg => emits_pure trivial
    · exact (emitter_lower mode parameters a g A hg).bind fun l g₁ B _ hl => emits_test hl a.kind
    · exact (emitter_lower mode parameters b g A hg).bind fun l g₁ B _ _ => emits_pure trivial
  | .conditional a b (some c) => fun g A hg => by
    refine emits_conditional hg (fun g A hg => ?_) (fun g A hg => ?_) fun g A hg => ?_
    · exact (emitter_lower mode parameters a g A hg).bind fun l g₁ B _ hl => emits_test hl a.kind
    · exact (emitter_lower mode parameters b g A hg).bind fun l g₁ B _ _ => emits_pure trivial
    · exact (emitter_lower mode parameters c g A hg).bind fun l g₁ B _ _ => emits_pure trivial
  | .loop a b => fun g A hg => by
    refine emits_loop hg (fun g A hg => ?_) fun g A hg => ?_
    · exact (emitter_lower mode parameters a g A hg).bind fun l g₁ B _ hl => emits_test hl a.kind
    · exact (emitter_lower mode parameters b g A hg).bind fun l g₁ B _ _ => emits_pure trivial
  | .ret a => fun g A hg => by
    refine (emitter_lower mode parameters a g A hg).bind fun l g₁ B _ hl => ?_
    exact (emits_load hl a.kind).bind fun value g₂ C _ hvalue => emits_ret hvalue
  | .float _ | .string _ | .function _ | .closure _ | .not _ | .print _ | .isType _ _ | .stringLength _ | .substring _ _ _
  | .object _ | .field _ _ => fun _ _ _ => trivial

/-- What was known before a sequence is known in each of its expressions. -/
theorem emits_lowerSequence (mode : Signedness) (parameters : List String) {g : Generator} {A : Known} {last : Lowered} :
    ∀ (es : List Expression), Knows A g.framePointer → last.IsKnown A →
      Emits parameters g A (fun B l => l.IsKnown B) (lowerSequence mode es last g)
  | [], _, hlast => emits_pure hlast
  | a :: rest, hg, _ =>
    (emitter_lower mode parameters a g A hg).bind fun _ _ _ hB hl =>
      emits_lowerSequence mode parameters rest (hB.knows hg) hl

/-- Arguments stay known while further ones are computed. -/
theorem emits_lowerArguments (mode : Signedness) (parameters : List String) {g : Generator} {A : Known} :
    ∀ (es : List Expression), Knows A g.framePointer →
      Emits parameters g A (fun B os => ∀ o ∈ os, o.Readable parameters B) (lowerArguments mode es g)
  | [], _ => emits_pure fun o ho => nomatch ho
  | a :: rest, hg => by
    refine (emitter_lower mode parameters a g A hg).bind fun l g₁ B hB hl => ?_
    refine (emits_load hl a.kind).bind fun operand g₂ C hC ho => ?_
    refine (emits_lowerArguments mode parameters rest (hC.knows (hB.knows hg))).bind fun os g₃ D hD hos => emits_pure ?_
    intro o hmem
    rcases List.mem_cons.1 hmem with rfl | hmem
    · exact ho.mono hD.subset
    · exact hos o hmem

end

/-- Every definition of a module is in SSA form. -/
theorem isSSA_of_compile? {mode : Signedness} {program : Expression} {m : Module} (h : program.compile? mode = .ok m) :
    ∀ d ∈ m.functions ++ [m.entry], d.IsSSA := by
  obtain ⟨l, g, hg, rfl⟩ := compile?_ok_iff.1 h
  have hlower := emitter_lower mode [] program Generator.initial _
    (knows_framed Generator.rootAllocation Generator.rootFramePointer)
  rw [hg] at hlower
  obtain ⟨B, hB, -⟩ := hlower
  intro d hd
  rcases List.mem_append.1 hd with hd | hd
  · have hfunctions := hB.functions fun d h => absurd h (Array.not_mem_empty d)
    refine hfunctions d ?_
    rw [← functions_close]
    exact Array.mem_toList_iff.1 hd
  · rw [List.mem_singleton.1 hd]
    exact hB.isSSA rfl rfl _ _

end Lowering

open Lowering

/-- In the code of a program, in the entry as in every function, whatever an instruction reads is a constant, a parameter of that
function, or a register that one and the same instruction of that function writes before on every path. This holds of the cell that
the end of a function reads too, whatever choices, loops and returns come last. -/
theorem compile?_isSSA {mode : Signedness} {program : Expression} {m : Module} (h : program.compile? mode = .ok m) :
    m.entry.IsSSA ∧ ∀ d ∈ m.functions, d.IsSSA :=
  ⟨isSSA_of_compile? h _ (List.mem_append_right _ (List.mem_singleton_self _)),
    fun d hd => isSSA_of_compile? h d (List.mem_append_left _ hd)⟩

/-- A function and a declared name, and then a choice of which one outcome gives the name another value. -/
def trailingChoice : Expression :=
  .sequence [.funcDecl "f" ⟨0, ["n"], .ret (.identifier "n")⟩, .declare "x" (.integer 1),
    .conditional (.boolean true) (.assign (.identifier "x") (.call (.identifier "f") [.identifier "x"])) none]

/-- The end of the entry reads the cell that was written before the choice. -/
theorem compile?_isSSA_trailingChoice :
    ∃ m, trailingChoice.compile? .signed = .ok m ∧ m.entry.body.drop 30 = [.load 24 12, .ret (.register 24)] ∧
      m.functions.length = 1 ∧ m.entry.IsSSA ∧ ∀ d ∈ m.functions, d.IsSSA := by
  have h : ((trailingChoice.compile? .signed).toOption.map fun m => (m.entry.body.drop 30, m.functions.length)) =
      some ([.load 24 12, .ret (.register 24)], 1) := by decide +kernel
  cases hm : trailingChoice.compile? .signed with
  | error e =>
    rw [hm] at h
    cases h
  | ok m =>
    rw [hm] at h
    obtain ⟨hbody, hfunctions⟩ := Prod.mk.inj (Option.some.inj h)
    exact ⟨m, rfl, hbody, hfunctions, compile?_isSSA hm⟩

end ExprLang
