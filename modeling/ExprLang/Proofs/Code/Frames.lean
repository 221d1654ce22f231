import ExprLang.Proofs.Lowering.Events

/-!
# Frames inside one another

A frame notes a declaration twice, as a slot and in the index. The index of a frame leads from each name to the latest slot of the name
and knows no other names (`Frame.Indexed`), and so it stays in the current frame and in all the frames around it, whatever is declared,
opened and left (`FrameChain.Indexed.after?`). Where a name is declared can therefore be told from the names of the slots alone.

A frame is known by what was declared in it: if everything that was opened after it is left again, the chain is what it was
(`FrameChain.Balanced.exists_after?`).
-/

namespace ExprLang.Code

open Lowering

namespace Frame

/-- The slot is that of the latest declaration of the name. -/
def LatestSlot (f : Frame) (name : String) (slot : Nat) : Prop :=
  f.names[slot]? = some name ∧ ∀ later, slot < later → f.names[later]? ≠ some name

/-- The index of a frame leads from each name to its latest declaration. -/
def Indexed (f : Frame) : Prop := ∀ name, f.slot? name = latest? name f.names

theorem length_names (f : Frame) : f.names.length = f.size := by
  simp [names, size]

/-- An empty frame has an empty index. -/
theorem indexed_empty : empty.Indexed := fun _ => rfl

/-- A declaration is entered in the index. -/
theorem Indexed.declare {f : Frame} (h : f.Indexed) (name : String) (initial : Option Int32) : (f.declare name initial).2.Indexed := by
  intro other
  rw [slot?_declare, names_declare, latest?_concat, length_names, h other]

namespace Indexed

variable {f : Frame} {name : String}

/-- The index of a frame gives the slot of the latest declaration. -/
theorem slot?_eq_some_iff (h : f.Indexed) {slot : Nat} : f.slot? name = some slot ↔ f.LatestSlot name slot := by
  rw [h name]
  exact latest?_eq_some_iff

/-- The index of a frame has no slot for a name that was not declared in it. -/
theorem slot?_eq_none_iff (h : f.Indexed) : f.slot? name = none ↔ name ∉ f.names := by
  rw [h name]
  exact latest?_eq_none_iff

theorem isSome_slot?_iff (h : f.Indexed) : (f.slot? name).isSome ↔ name ∈ f.names := by
  rw [← not_iff_not, Option.not_isSome_iff_eq_none, h.slot?_eq_none_iff]

end Indexed

end Frame

/-- What is done to a chain of frames. -/
inductive FrameStep where
  /-- A name is declared in the current frame. -/
  | declare (name : String) (initial : Option Int32)
  /-- A frame is opened inside the current one. -/
  | enclose
  /-- The current frame is left for the one around it. -/
  | leave
deriving DecidableEq

namespace FrameChain

/-- The chain after a step. A frame with none around it cannot be left. -/
def step? (c : FrameChain) : FrameStep → Option FrameChain
  | .declare name initial => some (c.declare name initial).2
  | .enclose => some c.enclose
  | .leave => c.leave?

/-- The chain after steps one after the other. -/
def after? (c : FrameChain) (steps : List FrameStep) : Option FrameChain := steps.foldlM step? c

@[simp] theorem after?_nil (c : FrameChain) : c.after? [] = some c := rfl

@[simp] theorem after?_cons (c : FrameChain) (s : FrameStep) (steps : List FrameStep) :
    c.after? (s :: steps) = (c.step? s).bind fun c => c.after? steps := List.foldlM_cons

@[simp] theorem after?_append (c : FrameChain) (steps later : List FrameStep) :
    c.after? (steps ++ later) = (c.after? steps).bind fun c => c.after? later := List.foldlM_append

/-! ## The index in all frames -/

/-- The current frame and the frames around it, the nearest first. -/
def frames (c : FrameChain) : List Frame := c.current :: c.outer

/-- Every frame is indexed. -/
def Indexed (c : FrameChain) : Prop := ∀ f ∈ c.frames, f.Indexed

theorem indexed_empty : empty.Indexed := by
  intro f hf
  rw [List.mem_singleton.1 hf]
  exact Frame.indexed_empty

namespace Indexed

variable {c c' : FrameChain}

/-- A declaration enters its slot in the index. -/
theorem declare (h : c.Indexed) (name : String) (initial : Option Int32) : (c.declare name initial).2.Indexed := by
  obtain ⟨hcurrent, houter⟩ := List.forall_mem_cons.1 h
  exact List.forall_mem_cons.2 ⟨hcurrent.declare name initial, houter⟩

theorem enclose (h : c.Indexed) : c.enclose.Indexed := List.forall_mem_cons.2 ⟨Frame.indexed_empty, h⟩

/-- Leaving a frame leaves the frames around it. -/
theorem leave? (h : c.Indexed) (hleave : c.leave? = some c') : c'.Indexed := by
  obtain ⟨current, outer⟩ := c
  cases outer with
  | nil => cases hleave
  | cons f rest =>
    cases hleave
    exact (List.forall_mem_cons.1 h).2

/-- Whatever is done to frames, their indices stay right. -/
theorem step? (h : c.Indexed) {s : FrameStep} (hs : c.step? s = some c') : c'.Indexed := by
  cases s with
  | declare name initial =>
    cases hs
    exact h.declare name initial
  | enclose =>
    cases hs
    exact h.enclose
  | leave => exact h.leave? hs

/-- Whatever is done, every frame is indexed. -/
theorem after? (h : c.Indexed) {steps : List FrameStep} (hsteps : c.after? steps = some c') : c'.Indexed := by
  induction steps generalizing c with
  | nil =>
    cases hsteps
    exact h
  | cons s rest ih =>
    rw [after?_cons] at hsteps
    obtain ⟨c₁, hs, hrest⟩ := Option.bind_eq_some_iff.1 hsteps
    exact ih (h.step? hs) hrest

/-! ## Where a name is declared -/

variable {name : String}

/-- Whether a frame around the current one has the name. -/
theorem any_isSome_iff (h : c.Indexed) :
    (c.outer.any fun f => (f.slot? name).isSome) = true ↔ ∃ f ∈ c.outer, name ∈ f.names := by
  rw [List.any_eq_true]
  exact exists_congr fun f => and_congr_right fun hf => (h f (List.mem_cons_of_mem _ hf)).isSome_slot?_iff

/-- A name is resolved to a slot of the current frame if it was declared there. -/
theorem resolve?_eq_own_iff (h : c.Indexed) {slot : Nat} :
    c.resolve? name = some (.own slot) ↔ c.current.LatestSlot name slot := by
  rw [← (h c.current List.mem_cons_self).slot?_eq_some_iff]
  unfold FrameChain.resolve?
  cases c.current.slot? name <;> simp

/-- A name is captured if it was declared in an outer frame only. -/
theorem resolve?_eq_enclosing_iff (h : c.Indexed) :
    c.resolve? name = some .enclosing ↔ name ∉ c.current.names ∧ ∃ f ∈ c.outer, name ∈ f.names := by
  rw [← (h c.current List.mem_cons_self).slot?_eq_none_iff, ← h.any_isSome_iff]
  unfold FrameChain.resolve?
  generalize (c.outer.any fun f => (f.slot? name).isSome) = around
  cases c.current.slot? name <;> cases around <;> simp

/-- A name is unknown if it was declared in no frame. -/
theorem resolve?_eq_none_iff (h : c.Indexed) : c.resolve? name = none ↔ ∀ f ∈ c.frames, name ∉ f.names := by
  have houter : (∀ f ∈ c.outer, name ∉ f.names) ↔ ¬(c.outer.any fun f => (f.slot? name).isSome) = true := by
    rw [h.any_isSome_iff]
    simp only [not_exists, not_and]
  rw [frames, List.forall_mem_cons, ← (h c.current List.mem_cons_self).slot?_eq_none_iff, houter]
  unfold FrameChain.resolve?
  generalize (c.outer.any fun f => (f.slot? name).isSome) = around
  cases c.current.slot? name <;> cases around <;> simp

end Indexed

/-! ## What is left again -/

/-- Every frame that is opened is left, and no other. -/
inductive Balanced : List FrameStep → Prop where
  /-- Nothing is done. -/
  | nil : Balanced []
  /-- A name is declared first. -/
  | declare (name : String) (initial : Option Int32) {rest : List FrameStep} :
      Balanced rest → Balanced (.declare name initial :: rest)
  /-- A frame is opened first and left later. -/
  | nested {inside rest : List FrameStep} : Balanced inside → Balanced rest → Balanced (.enclose :: inside ++ .leave :: rest)

/-- A frame that was opened and that stays the innermost one is left for the chain in which it was opened. -/
theorem after?_enclosed {c : FrameChain} {inner : Frame} {inside : List FrameStep}
    (h : c.enclose.after? inside = some ⟨inner, c.enclose.outer⟩) (rest : List FrameStep) :
    c.after? (.enclose :: inside ++ .leave :: rest) = c.after? rest := by
  have hleave : (⟨inner, c.enclose.outer⟩ : FrameChain).leave? = some c := leave?_of_outer rfl
  rw [List.cons_append, after?_cons, step?, Option.bind_some, after?_append, h, Option.bind_some, after?_cons, step?, hleave,
    Option.bind_some]

namespace Balanced

/-- The current frame gets more slots, and those it had stay as they are; the frames around it are the same. -/
theorem exists_after? {steps : List FrameStep} (h : Balanced steps) (c : FrameChain) :
    ∃ current, c.after? steps = some ⟨current, c.outer⟩ ∧ c.current.slots.toList <+: current.slots.toList := by
  induction h generalizing c with
  | nil => exact ⟨c.current, rfl, List.prefix_rfl⟩
  | declare name initial _ ih =>
    obtain ⟨current, hafter, hslots⟩ := ih (c.declare name initial).2
    refine ⟨current, hafter, .trans ?_ hslots⟩
    exact ⟨[⟨name, initial⟩], Array.toList_push.symm⟩
  | nested _ _ ihinside ihrest =>
    obtain ⟨inner, hinside, -⟩ := ihinside c.enclose
    obtain ⟨current, hrest, hslots⟩ := ihrest c
    exact ⟨current, (after?_enclosed hinside _).trans hrest, hslots⟩

/-- What is opened and left again leaves no trace. -/
theorem after?_enclosed {inside : List FrameStep} (h : Balanced inside) (c : FrameChain) :
    c.after? (.enclose :: inside ++ [.leave]) = some c := by
  obtain ⟨inner, hinside, -⟩ := h.exists_after? c.enclose
  exact FrameChain.after?_enclosed hinside []

end Balanced

/-- Whatever is declared, opened and left, in the current frame and in the frames around it the index leads from each name to the latest
slot of the name, and to nothing from a name that has no slot. So a name is declared in the latest slot of the current frame that has
this name; if there is none, in a frame around it if any of these has a slot of the name; and else nowhere.

A declaration takes the next slot and leaves the slots before it as they are. What is opened and left again leaves no trace. -/
theorem resolve?_finds_latest {steps : List FrameStep} {c : FrameChain} (h : empty.after? steps = some c) :
    (∀ f ∈ c.frames, ∀ name,
      (∀ slot, f.slot? name = some slot ↔ f.LatestSlot name slot) ∧ (f.slot? name = none ↔ name ∉ f.names)) ∧
    (∀ name,
      (∀ slot, c.resolve? name = some (.own slot) ↔ c.current.LatestSlot name slot) ∧
      (c.resolve? name = some .enclosing ↔ name ∉ c.current.names ∧ ∃ f ∈ c.outer, name ∈ f.names) ∧
      (c.resolve? name = none ↔ ∀ f ∈ c.frames, name ∉ f.names)) ∧
    (∀ name initial slot c', c.declare name initial = (slot, c') →
      slot = c.current.size ∧ c'.outer = c.outer ∧ c'.current.names = c.current.names ++ [name] ∧
      ∀ other, c'.current.initial? other = if other = slot then initial else c.current.initial? other) ∧
    (∀ inside, Balanced inside →
      (∃ current, c.after? inside = some ⟨current, c.outer⟩ ∧ c.current.slots.toList <+: current.slots.toList) ∧
      c.after? (.enclose :: inside ++ [.leave]) = some c) := by
  have hindexed : c.Indexed := indexed_empty.after? h
  refine ⟨fun f hf name => ⟨fun slot => (hindexed f hf).slot?_eq_some_iff, (hindexed f hf).slot?_eq_none_iff⟩, ?_, ?_, ?_⟩
  · exact fun name => ⟨fun slot => hindexed.resolve?_eq_own_iff, hindexed.resolve?_eq_enclosing_iff, hindexed.resolve?_eq_none_iff⟩
  · rintro name initial slot c' ⟨⟩
    exact ⟨rfl, rfl, Frame.names_declare .., fun other => Frame.initial?_declare ..⟩
  · exact fun inside hinside => ⟨hinside.exists_after? c, hinside.after?_enclosed c⟩

/-- A function in a function: the outer one declares `a` and `x`, the inner one `p` and, twice, `x`. -/
def redeclared : List FrameStep :=
  [.declare "a" (some 4), .declare "x" none, .enclose, .declare "p" none, .declare "x" none, .declare "x" (some 8)]

/-- The frames of both functions. -/
def redeclaredFrames : FrameChain where
  current := ⟨#[⟨"p", none⟩, ⟨"x", none⟩, ⟨"x", some 8⟩], [("x", 2), ("x", 1), ("p", 0)]⟩
  outer := [⟨#[⟨"a", some 4⟩, ⟨"x", none⟩], [("x", 1), ("a", 0)]⟩]

/-- The inner function sees its own second `x`, sees that `a` is not its own, and sees no `q`; and a third function inside it, with an
`a` of its own, changes nothing. -/
theorem resolve?_finds_latest_redeclared :
    empty.after? redeclared = some redeclaredFrames ∧
      redeclaredFrames.resolve? "x" = some (.own 2) ∧ redeclaredFrames.resolve? "a" = some .enclosing ∧
      redeclaredFrames.resolve? "q" = none ∧
      redeclaredFrames.after? (.enclose :: [.declare "a" none, .enclose, .leave] ++ [.leave]) = some redeclaredFrames := by
  have h : empty.after? redeclared = some redeclaredFrames := rfl
  obtain ⟨-, hresolve, -, hinside⟩ := resolve?_finds_latest h
  have hx : redeclaredFrames.current.LatestSlot "x" 2 := by
    refine ⟨rfl, fun later hlater => ?_⟩
    rw [List.getElem?_eq_none hlater]
    exact (Option.some_ne_none _).symm
  refine ⟨h, ((hresolve "x").1 2).2 hx, (hresolve "a").2.1.2 ⟨by decide, _, List.mem_cons_self, by decide⟩,
    (hresolve "q").2.2.2 (by decide), ?_⟩
  exact (hinside _ (.declare "a" none (.nested .nil .nil))).2

end FrameChain

end ExprLang.Code
