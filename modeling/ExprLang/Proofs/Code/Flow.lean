import Mathlib.Data.Set.Insert
import ExprLang.Code.Module

/-!
# Control flow

The instructions of a function are executed one after the other, except where one branches to a label or ends the function. A
definition is in SSA form (`Definition.IsSSA`) if whatever an instruction reads was written before it on every path from the first
instruction, always by the same instruction, or is a parameter or a constant.

To show this of code, one goes through it from the first instruction to the last and keeps account of what was written for sure.
`known` does so and `Checked` says that no instruction reads anything else; both are told what is known at each label, and where the
code branches to a label this much must be known. `isSSA_of_checked` says that checked code is in SSA form.
-/

namespace ExprLang.Code

namespace Instruction

/-- What an instruction reads. -/
def reads : Instruction → List Operand
  | load _ pointer => [.register pointer]
  | store value pointer => [value, .register pointer]
  | malloc .. | label _ => []
  | binary _ _ left right | compare _ _ left right => [left, right]
  | shift _ _ value _ | ret value => [value]
  | branch condition .. => condition.toList.map .register
  | slotAddress _ frame _ => [.register frame]
  | call _ _ arguments => arguments
  | bitcast _ _ value _ => [.register value]

/-- The labels at which an instruction goes on. A label goes on behind itself. -/
def targets : Instruction → List Nat
  | branch _ target otherwise => target :: otherwise.toList
  | label l => [l]
  | _ => []

/-- Whether an instruction goes on with the next one. -/
def goesOn : Instruction → Bool
  | branch .. | ret _ => false
  | _ => true

/-- Whether an instruction is neither a label nor branches to one. -/
def IsPlain (i : Instruction) : Prop := i.targets = []

end Instruction

/-- After the instruction at position `i` the one at position `j` may be executed. -/
def Goes (body : List Instruction) (i j : Nat) : Prop :=
  ∃ instruction, body[i]? = some instruction ∧
    (instruction.goesOn = true ∧ j = i + 1 ∨ ∃ l ∈ instruction.targets, body[j]? = some (.label l))

/-- Execution may arrive at a position after it has executed the instructions at the positions listed, the latest first. -/
inductive Arrives (body : List Instruction) : Nat → List Nat → Prop where
  | start : Arrives body 0 []
  | step {i j : Nat} {executed : List Nat} : Arrives body i executed → Goes body i j → Arrives body j (i :: executed)

/-- The instruction at position `w` writes the register `r`. -/
def Writes (body : List Instruction) (w r : Nat) : Prop := ∃ i, body[w]? = some i ∧ i.dest? = some r

/-- Whatever an instruction reads is a constant, a parameter, or a register that an instruction writes which is executed before on
every path. -/
def Definition.IsSSA (d : Definition) : Prop :=
  ∀ (u : Nat) (i : Instruction), d.body[u]? = some i → ∀ o ∈ i.reads,
    match o with
    | .register r => ∃ w, Writes d.body w r ∧ ∀ executed, Arrives d.body u executed → w ∈ executed
    | .named name => name ∈ d.parameters
    | .constant _ => True

/-! ## What is known -/

/-- Positions of instructions that were executed for sure, with the registers they write. -/
abbrev Known := Set (Nat × Nat)

/-- A register was written for sure. -/
def Knows (A : Known) (r : Nat) : Prop := ∃ w, (w, r) ∈ A

theorem Knows.mono {A B : Known} {r : Nat} (h : Knows A r) (hs : A ⊆ B) : Knows B r := by
  obtain ⟨w, hw⟩ := h
  exact ⟨w, hs hw⟩

/-- What may be read of an operand is known. -/
def Operand.Readable (parameters : List String) (A : Known) : Operand → Prop
  | register r => Knows A r
  | named name => name ∈ parameters
  | constant _ => True

theorem Operand.Readable.mono {parameters : List String} {A B : Known} {o : Operand} (h : o.Readable parameters A)
    (hs : A ⊆ B) : o.Readable parameters B := by
  cases o with
  | register r => exact Knows.mono h hs
  | named name => exact h
  | constant v => trivial

/-- What is known after an instruction at position `p` that is no label, given what is known before it. -/
def written (p : Nat) (A : Known) (i : Instruction) : Known :=
  match i.dest? with
  | some r => insert (p, r) A
  | none => A

/-- What is known after an instruction at position `p`, given what is known before it and at the labels. -/
def after (labels : Nat → Known) (p : Nat) (A : Known) (i : Instruction) : Known :=
  match i with
  | .label l => labels l
  | i => written p A i

/-- What is known after instructions of which the first is at position `p`. -/
def known (labels : Nat → Known) (p : Nat) (A : Known) : List Instruction → Known
  | [] => A
  | i :: rest => known labels (p + 1) (after labels p A i) rest

/-- What was known before is known after. -/
theorem subset_written (p : Nat) (A : Known) (i : Instruction) : A ⊆ written p A i := by
  unfold written
  split
  · exact Set.subset_insert _ _
  · exact subset_rfl

theorem after_eq_written {i : Instruction} (h : i.IsPlain) (labels : Nat → Known) (p : Nat) (A : Known) :
    after labels p A i = written p A i := by
  cases i with
  | label l => cases h
  | _ => rfl

/-- An instruction reads only what is known, and goes on only at labels at which no more is known. -/
structure Allowed (parameters : List String) (labels : Nat → Known) (A : Known) (i : Instruction) : Prop where
  /-- What it reads is known. -/
  reads : ∀ o ∈ i.reads, o.Readable parameters A
  /-- What is known at the labels is known. -/
  targets : ∀ l ∈ i.targets, labels l ⊆ A

/-- Each of the instructions is allowed. -/
def Checked (parameters : List String) (labels : Nat → Known) (p : Nat) (A : Known) : List Instruction → Prop
  | [] => True
  | i :: rest => Allowed parameters labels A i ∧ Checked parameters labels (p + 1) (after labels p A i) rest

variable {parameters : List String} {labels : Nat → Known}

theorem known_append (p : Nat) (A : Known) (xs ys : List Instruction) :
    known labels p A (xs ++ ys) = known labels (p + xs.length) (known labels p A xs) ys := by
  induction xs generalizing p A with
  | nil => rfl
  | cons x xs ih =>
    rw [List.cons_append, known, known, ih, List.length_cons, Nat.add_right_comm, Nat.add_assoc p]

theorem checked_append (p : Nat) (A : Known) (xs ys : List Instruction) :
    Checked parameters labels p A (xs ++ ys) ↔
      Checked parameters labels p A xs ∧ Checked parameters labels (p + xs.length) (known labels p A xs) ys := by
  induction xs generalizing p A with
  | nil => simp [Checked, known]
  | cons x xs ih =>
    rw [List.cons_append, Checked, Checked, known, ih, and_assoc, List.length_cons, Nat.add_right_comm, Nat.add_assoc p]

/-- What is known before an instruction on whatever path one arrives at it. -/
def entering (labels : Nat → Known) (A : Known) : Instruction → Known
  | .label l => labels l
  | _ => A

namespace Allowed

variable {A : Known} {i : Instruction}

theorem entering_subset (h : Allowed parameters labels A i) : entering labels A i ⊆ A := by
  cases i with
  | label l => exact h.targets l (List.mem_singleton_self l)
  | _ => exact subset_rfl

/-- What is known at a label is known on whatever path one arrives at an instruction that goes on there. -/
theorem labels_subset (h : Allowed parameters labels A i) {l : Nat} (hl : l ∈ i.targets) :
    labels l ⊆ entering labels A i := by
  cases i with
  | label k =>
    cases List.mem_singleton.1 hl
    exact subset_rfl
  | _ => exact h.targets l hl

end Allowed

/-- What is known after an instruction was known before it, unless it was written by it. -/
theorem mem_after {p : Nat} {A : Known} {i : Instruction} {x : Nat × Nat} (hx : x ∈ after labels p A i) :
    x ∈ entering labels A i ∨ x.1 = p ∧ i.dest? = some x.2 := by
  cases i with
  | label l => exact .inl hx
  | load dest _ | malloc dest _ | binary _ dest _ _ | shift dest _ _ _ | compare dest _ _ _ | slotAddress dest _ _
  | call dest _ _ | bitcast dest _ _ _ =>
    rcases hx with rfl | hx
    · exact .inr ⟨rfl, rfl⟩
    · exact .inl hx
  | store _ _ | branch _ _ _ | ret _ => exact .inl hx

/-! ## Checked code is in SSA form -/

/-- What is known after checked code was known before or is written by the code. -/
theorem mem_known {p : Nat} {A : Known} {code : List Instruction} (h : Checked parameters labels p A code) {x : Nat × Nat}
    (hx : x ∈ known labels p A code) :
    x ∈ A ∨ ∃ k i, code[k]? = some i ∧ x.1 = p + k ∧ i.dest? = some x.2 := by
  induction code generalizing p A with
  | nil => exact .inl hx
  | cons i rest ih =>
    obtain ⟨hi, hrest⟩ := h
    rcases ih hrest hx with hx | ⟨k, j, hj, hp, hd⟩
    · rcases mem_after hx with hx | ⟨hp, hd⟩
      · exact .inl (hi.entering_subset hx)
      · exact .inr ⟨0, i, rfl, hp, hd⟩
    · exact .inr ⟨k + 1, j, hj, by omega, hd⟩

section

variable {body : List Instruction} (h : Checked parameters labels 0 ∅ body)

include h

/-- An instruction of checked code is allowed after the instructions before it. -/
theorem Checked.allowed {u : Nat} {i : Instruction} (hi : body[u]? = some i) :
    Allowed parameters labels (known labels 0 ∅ (body.take u)) i := by
  obtain ⟨hlt, rfl⟩ := List.getElem?_eq_some_iff.1 hi
  rw [← List.take_append_drop u body, List.drop_eq_getElem_cons hlt, checked_append] at h
  exact h.2.1

/-- What is known before an instruction is written by instructions before it. -/
theorem Checked.writes {u : Nat} {x : Nat × Nat} (hx : x ∈ known labels 0 ∅ (body.take u)) : Writes body x.1 x.2 := by
  rw [← List.take_append_drop u body, checked_append] at h
  rcases mem_known h.1 hx with hx | ⟨k, i, hi, hk, hd⟩
  · cases hx
  · rw [Nat.zero_add] at hk
    obtain ⟨hlt, rfl⟩ := List.getElem?_eq_some_iff.1 hi
    rw [List.length_take] at hlt
    exact ⟨_, by rw [hk, List.getElem?_eq_getElem (by omega), List.getElem_take], hd⟩

/-- On whatever path one arrives at an instruction, what is known before it was executed. -/
theorem Checked.executed {u : Nat} {executed : List Nat} (hu : Arrives body u executed) {i : Instruction}
    (hi : body[u]? = some i) {x : Nat × Nat} (hx : x ∈ entering labels (known labels 0 ∅ (body.take u)) i) :
    x.1 ∈ executed := by
  induction hu generalizing i with
  | start => cases (h.allowed hi).entering_subset hx
  | @step v u executed _ hgoes ih =>
    obtain ⟨j, hj, hgoes⟩ := hgoes
    suffices hs : x ∈ entering labels (known labels 0 ∅ (body.take v)) j ∨ x.1 = v ∧ j.dest? = some x.2 by
      rcases hs with hx | ⟨rfl, -⟩
      · exact List.mem_cons_of_mem _ (ih hj hx)
      · exact List.mem_cons_self
    rcases hgoes with ⟨-, rfl⟩ | ⟨l, hl, hlabel⟩
    · -- one comes from the instruction before
      have hx' := (h.allowed hi).entering_subset hx
      rw [List.take_add_one, hj, Option.toList_some, known_append] at hx'
      obtain ⟨hlt, -⟩ := List.getElem?_eq_some_iff.1 hj
      rw [List.length_take, Nat.zero_add, Nat.min_eq_left (Nat.le_of_lt hlt)] at hx'
      exact mem_after hx'
    · -- one comes from an instruction that goes on at this label
      obtain rfl : i = .label l := Option.some.inj (hi.symm.trans hlabel)
      exact .inl ((h.allowed hj).labels_subset hl hx)

end

/-- Checked code is in SSA form. -/
theorem isSSA_of_checked {d : Definition} (h : Checked d.parameters labels 0 ∅ d.body) : d.IsSSA := by
  intro u i hi o ho
  have hread := (h.allowed hi).reads o ho
  cases o with
  | register r =>
    obtain ⟨w, hw⟩ := hread
    refine ⟨w, h.writes hw, fun executed hu => @Checked.executed _ _ _ h u executed hu i hi (w, r) ?_⟩
    cases i with
    | label l => cases ho
    | _ => exact hw
  | named name => exact hread
  | constant v => trivial

end ExprLang.Code
