import ExprLang.Proofs.Imperative.Expression

/-!
# Executing statements

The code of a statement does to the slots of the frame what the statement does to the values of names (`Does`). For choices and loops
this is said of whatever code stands for their parts, and then of all statements by induction (`does_lower`). A loop is executed by
induction on its turns, each of which begins and ends behind the label before the test.
-/

namespace ExprLang

open Code Lowering

namespace Imperative

variable {body : List Instruction} {mode : Signedness} {names : List String} {values values' : Values} {size first : Nat}
  {g g' : Generator} {s : Machine}

/-- The code of `x` does to the slots of names what `P` says of their values. -/
structure Does {α : Type} (x : Lowering α) (g : Generator) (r : α) (g' : Generator) (P : Values → Values → Prop) : Prop where
  /-- There is code. -/
  ok : x g = .ok r g'
  /-- It comes behind the code before. -/
  appends : Appends g.nextLabel g g'
  /-- The machine comes to its end with the values changed. -/
  acts : ∀ {body values values' size s}, Begins body g' → Stands values size g s → P values values' →
    ∃ s', s.Reaches body s' ∧ Stands values' size g' s'

/-! ## Assignments -/

/-- The generator after the code that writes a slot. -/
def slotStored (g : Generator) (slot : Nat) (value : Operand) : Generator :=
  { g.emitted (.slotAddress · g.framePointer slot) with
    instructions := (g.emitted (.slotAddress · g.framePointer slot)).instructions.push (.store value g.nextRegister)
    lastBoxed := some g.nextRegister }

/-- The instruction that writes the slot comes behind the one that computes its address. -/
theorem appends_store (first : Nat) (g : Generator) (slot : Nat) (value : Operand) :
    Appends first (g.emitted (.slotAddress · g.framePointer slot)) (slotStored g slot value) := by
  refine ⟨⟨[.store value g.nextRegister], Array.toList_push, fun l hl => ?_⟩, Nat.le_refl _, Nat.le_refl _, rfl, rfl⟩
  cases List.mem_singleton.1 hl

theorem appends_slotStored (first : Nat) (g : Generator) (slot : Nat) (value : Operand) :
    Appends first g (slotStored g slot value) := by
  have haddress : Appends first g (g.emitted (.slotAddress · g.framePointer slot)) := appends_emitted _ _ fun _ _ => nofun
  exact haddress.trans (appends_store first g slot value)

/-- The code that writes a slot leaves the address of the slot in a new register. -/
theorem exists_slotStored {slot r : Nat} {n : Int32} (hg : Ready names g) (hb : Begins body (slotStored g slot (.register r)))
    (hs : Stands values size g s) (hslot : slot < size) (hr : s.registers r = some (.integer n)) (hlt : r < g.nextRegister) :
    ∃ s', s.Reaches body s' ∧ s'.position = position (slotStored g slot (.register r)) ∧
      (∀ r, r < g.nextRegister → s'.registers r = s.registers r) ∧ s'.registers g.nextRegister = some (.address 0 slot) ∧
      s.memory.write? 0 slot n = some s'.memory := by
  have hstore := appends_store 0 g slot (.register r)
  obtain ⟨s₁, hc₁, hw₁, hm₁⟩ := computes_slotAddress hg (hstore.begins hb) hs
  have hwrite := Memory.write?_eq_some hs.frame hslot n
  rw [← hm₁] at hwrite
  have hv := operand?_register ((hc₁.registers r hlt).trans hr)
  have hposition : body[s₁.position]? = some (.store (.register r) g.nextRegister) := by
    rw [hc₁.position]
    exact hb.getElem? Array.toList_push (k := 0) rfl
  refine ⟨_, hc₁.reaches.trans (reaches_of_execute hposition (Machine.execute_store hw₁ hv hwrite)), ?_, hc₁.registers, hw₁,
    by rw [← hm₁]; exact hwrite⟩
  show s₁.position + 1 = position (slotStored g slot (.register r))
  simp [hc₁.position, position, slotStored]

/-- Writing the slot of a name gives the name the value. -/
theorem stands_slotStored {x : String} {slot r : Nat} {n : Int32} (hg : Ready names g)
    (hb : Begins body (slotStored g slot (.register r))) (hs : Stands values size g s)
    (hx : g.frames.current.slot? x = some slot) (hr : s.registers r = some (.integer (tagInteger n))) (hlt : r < g.nextRegister) :
    ∃ s', s.Reaches body s' ∧ Stands (values.set x n) size (slotStored g slot (.register r)) s' := by
  have hslot : slot < size := Nat.lt_of_lt_of_le (hg.wellFormed.find?_lt hx) hs.bound
  obtain ⟨s', hreaches, hposition, hregisters, -, hwrite⟩ := exists_slotStored hg hb hs hslot hr hlt
  refine ⟨s', hreaches, hposition, (hregisters _ hg.register).trans hs.pointer, ?_, hs.bound, ?_⟩
  · rw [Memory.size?_of_write? hwrite]
    exact hs.frame
  · refine hs.kept.set hg.wellFormed hx fun other => ?_
    rw [Memory.read?_of_write? hwrite]
    simp

/-- An assignment writes the slot of the name. -/
theorem does_assign {x : String} {a : Expression} (hx : x ∈ names) (ha : IsArithmetic mode names a) (hg : Ready names g) :
    ∃ r g', Does (lower mode (.assign (.identifier x) a)) g r g' (Executes (.assign (.identifier x) a)) := by
  obtain ⟨slot, hslot, hown⟩ := hg.ownSlot hx "Assign"
  obtain ⟨r, g₁, h₁⟩ := exists_loads ha hg
  obtain ⟨c, g₀, hlower, hload⟩ := h₁.ok
  have h₂ : Appends g.nextLabel g₁ (slotStored g₁ slot (.register r)) := appends_slotStored _ _ _ _
  refine ⟨.boxed g₁.nextRegister, slotStored g₁ slot (.register r), ?_, h₁.appends.trans h₂, ?_⟩
  · exact (bind_of_ok hown _).trans ((bind_of_ok hlower _).trans ((bind_of_ok hload _).trans rfl))
  rintro body values _ size s hb hs ⟨n, hn, rfl⟩
  obtain ⟨s₁, hr₁, hs₁, hw₁⟩ := h₁.loads (h₂.begins hb) hs hn
  have hslot₁ : g₁.frames.current.slot? x = some slot := by
    rw [h₁.appends.frames]
    exact hslot
  obtain ⟨s₂, hr₂, hs₂⟩ := stands_slotStored (hg.of_appends h₁.appends) hb hs₁ hslot₁ hw₁ h₁.register
  exact ⟨s₂, hr₁.trans hr₂, hs₂⟩

/-! ## Branches -/

/-- The next labels are taken. -/
def reserved (g : Generator) (count : Nat) : Generator := { g with nextLabel := g.nextLabel + count }

theorem Ready.reserved (h : Ready names g) (count : Nat) : Ready names (reserved g count) :=
  ⟨h.framePointer, h.register, fun l hl => Nat.lt_of_lt_of_le (h.labels l hl) (Nat.le_add_right _ _), h.wellFormed, h.declared⟩

theorem Stands.reserved (h : Stands values size g s) (count : Nat) : Stands values size (reserved g count) s :=
  ⟨h.position, h.pointer, h.frame, h.bound, h.kept⟩

theorem appends_of_reserved {count : Nat} (h : Appends first (reserved g count) g') : Appends first g g' :=
  ⟨h.code, Nat.le_trans (Nat.le_add_right _ _) h.label, h.register, h.framePointer, h.frames⟩

/-- Another cell is remembered. -/
def remembering (g : Generator) (cell : Option Nat) : Generator := { g with lastBoxed := cell }

theorem Stands.remembering (h : Stands values size g s) (cell : Option Nat) : Stands values size (remembering g cell) s :=
  ⟨h.position, h.pointer, h.frame, h.bound, h.kept⟩

theorem appends_remembering (h : Appends first g g') (cell : Option Nat) : Appends first g (remembering g' cell) :=
  ⟨h.code, h.label, h.register, h.framePointer, h.frames⟩

/-- Who goes to a new label stands behind it with the values unchanged. -/
theorem Stands.goto {g₁ : Generator} {i : Instruction} {l : Nat} (hs : Stands values size g s) (hb : Begins body (g₁.block i l))
    (hi : i ≠ .label l) (hl : .label l ∉ g₁.instructions) (hframes : g₁.frames = g.frames)
    (hgoto : s.step body = s.goto? body l) : ∃ s', s.Reaches body s' ∧ Stands values size (g₁.block i l) s' := by
  have hframe : (g₁.block i l).frames.current = g.frames.current := congrArg FrameChain.current hframes
  refine ⟨_, reaches_block hb hi hl hgoto, rfl, hs.pointer, hs.frame, ?_, ?_⟩
  · rw [hframe]
    exact hs.bound
  · rw [hframe]
    exact hs.kept

/-- A jump goes to its label. -/
theorem step_jump {t : Nat} {o : Option Nat} {l : Nat} (hb : Begins body (g.block (.branch none t o) l))
    (hs : s.position = position g) : s.step body = s.goto? body t := by
  have hcode : (g.block (.branch none t o) l).instructions.toList = g.instructions.toList ++ [.branch none t o, .label l] := by
    simp [Generator.block]
  have hi := hb.getElem? hcode (k := 0) rfl
  rw [Nat.add_zero, ← hs] at hi
  rw [Machine.step, hi]
  rfl

/-- A branch goes to the label that the truth value in its register chooses. -/
theorem step_branch {flag t e l : Nat} {b : Bool} (hb : Begins body (g.block (.branch (some flag) t (some e)) l))
    (hs : s.position = position g) (hflag : s.registers flag = some (.truth b)) :
    s.step body = s.goto? body (if b then t else e) := by
  have hcode : (g.block (.branch (some flag) t (some e)) l).instructions.toList =
      g.instructions.toList ++ [.branch (some flag) t (some e), .label l] := by
    simp [Generator.block]
  have hi := hb.getElem? hcode (k := 0) rfl
  rw [Nat.add_zero, ← hs] at hi
  rw [Machine.step, hi]
  cases b <;> simp [Machine.execute, Machine.truth?, hflag]

/-- A jump to a new label comes to stand behind it. -/
theorem Stands.jump {g₁ : Generator} {i : Instruction} {t l : Nat} {o : Option Nat} (hs : Stands values size g s)
    (hb : Begins body (g.block (.branch none t o) l)) (hb₁ : Begins body (g₁.block i t)) (hi : i ≠ .label t)
    (ht : .label t ∉ g₁.instructions) (hframes : g₁.frames = g.frames) :
    ∃ s', s.Reaches body s' ∧ Stands values size (g₁.block i t) s' :=
  hs.goto hb₁ hi ht hframes (step_jump hb hs.position)

/-- A test and the branch behind it come to stand behind the new label that the outcome chooses. -/
theorem Decides.branch {x : Lowering Nat} {flag : Nat} {outcome? : Values → Option Bool} (h : Decides x g flag g' outcome?)
    (hg : Ready names g) (hs : Stands values size g s) {b : Bool} (hout : outcome? values = some b) {t e l : Nat}
    (hb : Begins body (g'.block (.branch (some flag) t (some e)) l)) {g₁ : Generator} {i : Instruction} {chosen : Nat}
    (hchosen : (if b then t else e) = chosen) (hb₁ : Begins body (g₁.block i chosen)) (hi : i ≠ .label chosen)
    (hfresh : .label chosen ∉ g₁.instructions) (hframes : g₁.frames = g'.frames) :
    ∃ s', s.Reaches body s' ∧ Stands values size (g₁.block i chosen) s' := by
  obtain ⟨s₁, hc₁, hflag⟩ := h.computes hb.of_block hs hout
  have hs₁ := hs.of_computes hg h.appends hc₁
  have hgoto := step_branch hb hs₁.position hflag
  rw [hchosen] at hgoto
  obtain ⟨s₂, hr₂, hs₂⟩ := hs₁.goto hb₁ hi hfresh hframes hgoto
  exact ⟨s₂, hc₁.reaches.trans hr₂, hs₂⟩

/-! ## Choices and loops -/

/-- The generator behind the label before a test, when the next labels are taken. -/
def opening (g : Generator) (count : Nat) : Generator := (reserved g count).block (.branch none g.nextLabel none) g.nextLabel

/-- The generator behind the branch on the outcome of a test and its first label. -/
def branched (g : Generator) (flag start : Nat) : Generator :=
  g.block (.branch (some flag) (start + 1) (some (start + 2))) (start + 1)

section

variable {test : Lowering Nat} {outcome? : Values → Option Bool} {P Q : Values → Values → Prop} {count flag : Nat}

/-- The code of a test stands between a label and a branch to two more; `count` labels are taken for these and others to come. -/
structure Opens (test : Lowering Nat) (names : List String) (count : Nat) (g : Generator) (flag : Nat) (g' : Generator)
    (outcome? : Values → Option Bool) : Prop where
  /-- The generator is ready for the test. -/
  opened : Ready names (opening g count)
  /-- The test has code. -/
  decides : Decides test (opening g count) flag g' outcome?
  /-- The code of the test and the branch is appended. -/
  appends : Appends g.nextLabel (reserved g count) (branched g' flag g.nextLabel)
  /-- The code of the test has labels of its own. -/
  label : g.nextLabel + count ≤ g'.nextLabel
  /-- The labels to come are not in the code of the test. -/
  fresh : ∀ l, g.nextLabel < l → l < g.nextLabel + count → .label l ∉ g'.instructions

/-- Where the test has code, it has code between a label and a branch. -/
theorem exists_opens (htest : ∀ {g}, Ready names g → ∃ flag g', Decides test g flag g' outcome?) (hg : Ready names g)
    (hcount : 2 < count) : ∃ flag g', Opens test names count g flag g' outcome? := by
  have h₀ : Appends g.nextLabel (reserved g count) (opening g count) :=
    appends_block _ (fun _ => nofun) (Nat.le_refl _) (Nat.lt_add_of_pos_right (Nat.zero_lt_of_lt hcount))
  have hg₀ := (hg.reserved count).of_appends h₀
  obtain ⟨flag, g', h⟩ := htest hg₀
  have hlabel : g.nextLabel + count ≤ g'.nextLabel := h.appends.label
  have h₁ : Appends g.nextLabel (opening g count) g' := h.appends.mono (Nat.le_add_right _ _)
  have h₂ : Appends g.nextLabel g' (branched g' flag g.nextLabel) := appends_block _ (fun _ => nofun) (by omega) (by omega)
  refine ⟨flag, g', hg₀, h, (h₀.trans h₁).trans h₂, hlabel, fun l hgt hlt => ?_⟩
  exact h.appends.fresh (fresh_block (hg.fresh (Nat.le_of_lt hgt)) nofun (Nat.ne_of_gt hgt)) hlt

/-- Code comes to the label before a test from the code before it. -/
theorem Stands.open (hs : Stands values size g s) (hg : Ready names g) (hb : Begins body (opening g count)) :
    ∃ s', s.Reaches body s' ∧ Stands values size (opening g count) s' :=
  (hs.reserved count).jump hb hb nofun (hg.fresh (Nat.le_refl _)) rfl

namespace Opens

variable (h : Opens test names count g flag g' outcome?)

include h

theorem ready (hg : Ready names g) : Ready names (branched g' flag g.nextLabel) := (hg.reserved count).of_appends h.appends

theorem begins (hb : Begins body (branched g' flag g.nextLabel)) : Begins body (opening g count) :=
  h.decides.appends.begins hb.of_block

/-- The labels behind the first one of the branch are still to come. -/
theorem fresh_branched {l : Nat} (hgt : g.nextLabel + 1 < l) (hlt : l < g.nextLabel + count) :
    .label l ∉ (branched g' flag g.nextLabel).instructions :=
  fresh_block (h.fresh l (Nat.lt_of_succ_lt hgt) hlt) nofun (Nat.ne_of_gt hgt)

/-- Where the outcome is `true`, the machine comes behind the branch. -/
theorem enter (hcount : 2 < count) (hs : Stands values size (opening g count) s) (hout : outcome? values = some true)
    (hb : Begins body (branched g' flag g.nextLabel)) :
    ∃ s', s.Reaches body s' ∧ Stands values size (branched g' flag g.nextLabel) s' := by
  have hfresh : .label (g.nextLabel + 1) ∉ g'.instructions := h.fresh _ (by omega) (by omega)
  exact h.decides.branch h.opened hs hout hb rfl hb nofun hfresh rfl

/-- Where the outcome is `false`, the machine comes to the second label of the branch. -/
theorem skip (hs : Stands values size (opening g count) s) (hout : outcome? values = some false)
    (hb : Begins body (branched g' flag g.nextLabel)) {g₁ : Generator} {i : Instruction}
    (hb₁ : Begins body (g₁.block i (g.nextLabel + 2))) (hi : i ≠ .label (g.nextLabel + 2))
    (hfresh : .label (g.nextLabel + 2) ∉ g₁.instructions) (hframes : g₁.frames = g'.frames) :
    ∃ s', s.Reaches body s' ∧ Stands values size (g₁.block i (g.nextLabel + 2)) s' :=
  h.decides.branch h.opened hs hout hb rfl hb₁ hi hfresh hframes

end Opens

/-- The code of a choice does what the outcome of the test says. -/
theorem does_conditional {consequence alternative : Lowering Unit}
    (htest : ∀ {g}, Ready names g → ∃ flag g', Decides test g flag g' outcome?)
    (hconsequence : ∀ {g}, Ready names g → ∃ g', Does consequence g () g' P)
    (halternative : ∀ {g}, Ready names g → ∃ g', Does alternative g () g' Q) (hg : Ready names g) :
    ∃ r g', Does (conditional test consequence alternative) g r g' fun values values' =>
      outcome? values = some true ∧ P values values' ∨ outcome? values = some false ∧ Q values values' := by
  let start := g.nextLabel
  have hcount : 2 < 4 := by decide
  obtain ⟨flag, g₁, h₁⟩ := exists_opens htest hg hcount
  have hnext₁ : start + 4 ≤ g₁.nextLabel := h₁.label
  let g₂ := branched g₁ flag start
  have hg₂ : Ready names g₂ := h₁.ready hg
  obtain ⟨g₃, hthen⟩ := hconsequence hg₂
  have h₃ : Appends (start + 4) g₂ g₃ := hthen.appends.mono hnext₁
  have hnext₃ : start + 4 ≤ g₃.nextLabel := Nat.le_trans hnext₁ h₃.label
  let g₄ := g₃.block (.branch none (start + 3) none) (start + 2)
  have h₄ : Appends start g₃ g₄ := appends_block _ (fun _ => nofun) (by omega) (by omega)
  obtain ⟨g₅, helse⟩ := halternative ((hg₂.of_appends h₃).of_appends h₄)
  have h₅ : Appends (start + 4) g₄ g₅ := helse.appends.mono hnext₃
  have hnext₅ : start + 4 ≤ g₅.nextLabel := Nat.le_trans hnext₃ h₅.label
  let g₆ := g₅.block (.branch none (start + 3) none) (start + 3)
  have h₆ : Appends start g₅ g₆ := appends_block _ (fun _ => nofun) (by omega) (by omega)
  have hall := (((h₁.appends.trans (h₃.mono (by omega))).trans h₄).trans (h₅.mono (by omega))).trans h₆
  refine ⟨.nothing, remembering g₆ g.lastBoxed, ?_, appends_remembering (appends_of_reserved hall) _, ?_⟩
  · exact conditional_ok_iff.2 ⟨flag, g₁, g₃, g₅, h₁.decides.ok, hthen.ok, helse.ok, rfl, rfl⟩
  -- a label that is still to come is in none of the code before
  have hfresh₃ : ∀ l, start + 1 < l → l < start + 4 → .label l ∉ g₃.instructions := fun l hgt hlt =>
    h₃.fresh (h₁.fresh_branched hgt hlt) hlt
  have hfresh₅ : .label (start + 3) ∉ g₅.instructions :=
    h₅.fresh (fresh_block (hfresh₃ _ (by omega) (by omega)) nofun (by omega)) (by omega)
  intro body values values' size s hb hs hacts
  have hb₆ : Begins body g₆ := hb
  have hb₄ := h₅.begins hb₆.of_block
  have hb₂ := h₃.begins hb₄.of_block
  obtain ⟨s₀, hr₀, hs₀⟩ := hs.open hg (h₁.begins hb₂)
  rcases hacts with ⟨hout, hacts⟩ | ⟨hout, hacts⟩
  · obtain ⟨s₂, hr₂, hs₂⟩ := h₁.enter hcount hs₀ hout hb₂
    obtain ⟨s₃, hr₃, hs₃⟩ := hthen.acts hb₄.of_block hs₂ hacts
    obtain ⟨s₆, hr₆, hs₆⟩ := hs₃.jump hb₄ hb₆ nofun hfresh₅ h₅.frames
    exact ⟨s₆, ((hr₀.trans hr₂).trans hr₃).trans hr₆, hs₆.remembering _⟩
  · obtain ⟨s₄, hr₄, hs₄⟩ := h₁.skip hs₀ hout hb₂ hb₄ nofun (hfresh₃ _ (by omega) (by omega)) h₃.frames
    obtain ⟨s₅, hr₅, hs₅⟩ := helse.acts hb₆.of_block hs₄ hacts
    obtain ⟨s₆, hr₆, hs₆⟩ := hs₅.jump hb₆ hb₆ nofun hfresh₅ rfl
    exact ⟨s₆, ((hr₀.trans hr₄).trans hr₅).trans hr₆, hs₆.remembering _⟩

/-- The code of a loop takes its turns. -/
theorem does_loop {repeated : Lowering Unit} (htest : ∀ {g}, Ready names g → ∃ flag g', Decides test g flag g' outcome?)
    (hrepeated : ∀ {g}, Ready names g → ∃ g', Does repeated g () g' P) (hg : Ready names g) :
    ∃ r g', Does (loop test repeated) g r g' (Turns outcome? P) := by
  let start := g.nextLabel
  have hcount : 2 < 3 := by decide
  obtain ⟨flag, g₁, h₁⟩ := exists_opens htest hg hcount
  have hnext₁ : start + 3 ≤ g₁.nextLabel := h₁.label
  let g₂ := branched g₁ flag start
  obtain ⟨g₃, hturn⟩ := hrepeated (h₁.ready hg)
  have h₃ : Appends (start + 3) g₂ g₃ := hturn.appends.mono hnext₁
  have hnext₃ : start + 3 ≤ g₃.nextLabel := Nat.le_trans hnext₁ h₃.label
  let g₄ := g₃.block (.branch none start none) (start + 2)
  have h₄ : Appends start g₃ g₄ := appends_block _ (fun _ => nofun) (by omega) (by omega)
  have hall := (h₁.appends.trans (h₃.mono (by omega))).trans h₄
  refine ⟨.nothing, remembering g₄ g.lastBoxed, ?_, appends_remembering (appends_of_reserved hall) _, ?_⟩
  · exact loop_ok_iff.2 ⟨flag, g₁, g₃, h₁.decides.ok, hturn.ok, rfl, rfl⟩
  have hfresh : .label start ∉ g.instructions := hg.fresh (Nat.le_refl _)
  have hfresh₃ : .label (start + 2) ∉ g₃.instructions := h₃.fresh (h₁.fresh_branched (by omega) (by omega)) (by omega)
  intro body values values' size s hb hs hturns
  have hb₄ : Begins body g₄ := hb
  have hb₂ := h₃.begins hb₄.of_block
  have hb₀ := h₁.begins hb₂
  -- each turn begins behind the label before the test
  have hfrom : ∀ {values values' s₀}, Turns outcome? P values values' → Stands values size (opening g 3) s₀ →
      ∃ s₄, s₀.Reaches body s₄ ∧ Stands values' size g₄ s₄ := by
    intro values values' s₀ hturns hs₀
    induction hturns generalizing s₀ with
    | done hout => exact h₁.skip hs₀ hout hb₂ hb₄ nofun hfresh₃ h₃.frames
    | again hout hacts _ ih =>
      obtain ⟨s₂, hr₂, hs₂⟩ := h₁.enter hcount hs₀ hout hb₂
      obtain ⟨s₃, hr₃, hs₃⟩ := hturn.acts hb₄.of_block hs₂ hacts
      have hframes : g.frames = g₃.frames := (h₃.frames.trans h₁.appends.frames).symm
      obtain ⟨s₀', hr₀, hs₀'⟩ := hs₃.jump hb₄ hb₀ nofun hfresh hframes
      obtain ⟨s₄, hr₄, hs₄⟩ := ih hs₀'
      exact ⟨s₄, ((hr₂.trans hr₃).trans hr₀).trans hr₄, hs₄⟩
  obtain ⟨s₀, hr₀, hs₀⟩ := hs.open hg hb₀
  obtain ⟨s₄, hr₄, hs₄⟩ := hfrom hturns hs₀
  exact ⟨s₄, hr₀.trans hr₄, hs₄.remembering _⟩

end

/-! ## Statements -/

/-- Code that makes nothing changes nothing. -/
theorem does_pure {α : Type} (a : α) (g : Generator) : Does (pure a) g a g fun values values' => values' = values := by
  refine ⟨rfl, .refl _ _, ?_⟩
  rintro body values _ size s _ hs rfl
  exact ⟨s, .refl _ _, hs⟩

/-- Pieces of code one after the other do one after the other what they do. -/
theorem Does.bind {α β : Type} {x : Lowering α} {f : α → Lowering β} {a : α} {b : β} {g₁ g₂ : Generator}
    {P Q : Values → Values → Prop} (h : Does x g a g₁ P) (h' : Does (f a) g₁ b g₂ Q) :
    Does (x >>= f) g b g₂ fun values values' => ∃ values₁, P values values₁ ∧ Q values₁ values' := by
  refine ⟨(bind_of_ok h.ok f).trans h'.ok, h.appends.trans (h'.appends.mono h.appends.label), ?_⟩
  rintro body values values' size s hb hs ⟨values₁, hp, hq⟩
  obtain ⟨s₁, hr₁, hs₁⟩ := h.acts (h'.appends.begins hb) hs hp
  obtain ⟨s₂, hr₂, hs₂⟩ := h'.acts hb hs₁ hq
  exact ⟨s₂, hr₁.trans hr₂, hs₂⟩

/-- What the code leaves behind is dropped. -/
theorem Does.discard {α : Type} {x : Lowering α} {r : α} {P : Values → Values → Prop} (h : Does x g r g' P) :
    Does (Functor.discard x) g () g' P :=
  ⟨bind_of_ok h.ok fun _ => pure (), h.appends, h.acts⟩

/-- Statements one after the other have code if each of them has. -/
theorem does_lowerSequence {es : List Expression} (hes : ∀ e ∈ es, ∀ {g}, Ready names g →
    ∃ r g', Does (lower mode e) g r g' (Executes e)) (hg : Ready names g) (last : Lowered) :
    ∃ r g', Does (lowerSequence mode es last) g r g' (ExecutesAll es) := by
  induction es generalizing g last with
  | nil => exact ⟨last, g, does_pure last g⟩
  | cons e rest ih =>
    obtain ⟨r₁, g₁, h₁⟩ := hes e List.mem_cons_self hg
    obtain ⟨r₂, g₂, h₂⟩ := ih (fun e he => hes e (List.mem_cons_of_mem _ he)) (hg.of_appends h₁.appends) r₁
    exact ⟨r₂, g₂, h₁.bind h₂⟩

/-- Every statement has code that does what the statement does. -/
theorem does_lower {e : Expression} (h : IsStatement mode names e) (hg : Ready names g) :
    ∃ r g', Does (lower mode e) g r g' (Executes e) := by
  induction h generalizing g with
  | assign hx ha => exact does_assign hx ha hg
  | choice hc _ iha =>
    refine does_conditional (fun hg => decides_lower hc hg) (fun hg => ?_) (fun {g} _ => ⟨g, does_pure () g⟩) hg
    obtain ⟨r, g', h⟩ := iha hg
    exact ⟨g', h.discard⟩
  | alternative hc _ _ iha ihb =>
    refine does_conditional (fun hg => decides_lower hc hg) (fun hg => ?_) (fun hg => ?_) hg
    · obtain ⟨r, g', h⟩ := iha hg
      exact ⟨g', h.discard⟩
    · obtain ⟨r, g', h⟩ := ihb hg
      exact ⟨g', h.discard⟩
  | loop hc _ iha =>
    refine does_loop (fun hg => decides_lower hc hg) (fun hg => ?_) hg
    obtain ⟨r, g', h⟩ := iha hg
    exact ⟨g', h.discard⟩
  | sequence _ ih => exact does_lowerSequence (fun e he _ hg => ih e he hg) hg .nothing

end Imperative

end ExprLang
