import ExprLang.Code.Module
import ExprLang.Proofs.Numbering

/-!
# Blocks

The instructions of a function fall into blocks: a block begins at a label and ends with a branch or a return, and the next label
follows at once. `Definition.IsFlowGraph` says this, and that the labels are numbered from zero on and are the only ones that are
branched to.

Code that is made piece by piece is a `Piece`: it is in `Blocks`, its labels are the numbers of a range, and it branches only to labels of
this range. Pieces with neighbouring ranges are put together; a choice and a loop put labels of their own around pieces. Behind the
prologue of a function and before its return a piece makes a flow graph (`Piece.isFlowGraph`).
-/

namespace ExprLang.Code

namespace Instruction

/-- The number of a label. -/
def label? : Instruction → Option Nat
  | label l => some l
  | _ => none

/-- The labels to which a branch goes. -/
def branches : Instruction → List Nat
  | branch _ target otherwise => target :: otherwise.toList
  | _ => []

/-- A branch names a second label if it has a condition, and only then. -/
def IsProper : Instruction → Prop
  | branch condition _ otherwise => otherwise.isSome = condition.isSome
  | _ => True

end Instruction

/-- The labels of a piece of code in their order. -/
def labelsIn (code : List Instruction) : List Nat := code.filterMap Instruction.label?

/-- The code of a function is a control-flow graph whose nodes are numbered blocks. -/
structure Definition.IsFlowGraph (d : Definition) : Prop where
  /-- The labels are the numbers below some number, each once. -/
  numbered : ∃ count, (labelsIn d.body).Perm (List.range count)
  /-- Every label that a branch names is there. -/
  closed : ∀ i ∈ d.body, ∀ l ∈ i.branches, .label l ∈ d.body
  /-- A branch names a second label if it has a condition, and only then. -/
  proper : ∀ i ∈ d.body, i.IsProper
  /-- What ends a block is the last instruction, or a label follows. -/
  ends {p : Nat} {i : Instruction} : d.body[p]? = some i → i.isTerminator = true →
    p + 1 = d.body.length ∨ ∃ l, d.body[p + 1]? = some (.label l)
  /-- What ends a block stands before every label. -/
  begins {p l : Nat} : d.body[p]? = some (.label l) → ∃ q i, p = q + 1 ∧ d.body[q]? = some i ∧ i.isTerminator = true
  /-- First the frame is made. -/
  first : ∃ (dest : Nat) (frame : Frame), d.body.head? = some (.malloc dest frame.typeText)
  /-- The last instruction is a return. -/
  last : ∃ value, d.body.getLast? = some (.ret value)

/-- The label of a block follows where the block before it ends, and there are no other labels. -/
inductive Blocks : List Instruction → Prop where
  | nil : Blocks []
  | plain {i : Instruction} {code : List Instruction} :
    i.isTerminator = false → i.isLabel = false → Blocks code → Blocks (i :: code)
  | block {i : Instruction} {l : Nat} {code : List Instruction} :
    i.isTerminator = true → Blocks code → Blocks (i :: .label l :: code)

/-- Every branch is proper and goes to labels from `first` up to but not including `next`. -/
def BranchesWithin (first next : Nat) (code : List Instruction) : Prop :=
  ∀ i ∈ code, i.IsProper ∧ ∀ l ∈ i.branches, first ≤ l ∧ l < next

/-- A piece of code in blocks, whose labels are the numbers from `first` up to but not including `next` and which branches only to
them. -/
structure Piece (first next : Nat) (code : List Instruction) : Prop where
  /-- It falls into blocks. -/
  blocks : Blocks code
  /-- Its labels are the numbers of the range. -/
  labels : Numbers first next (labelsIn code)
  /-- It branches only to labels of the range. -/
  branches : BranchesWithin first next code

/-! ## Pieces put together -/

variable {first next last : Nat} {code code' : List Instruction} {i : Instruction}

theorem labelsIn_append (code code' : List Instruction) : labelsIn (code ++ code') = labelsIn code ++ labelsIn code' :=
  List.filterMap_append

/-- Of a branch and a label, the label counts. -/
theorem labelsIn_block (condition : Option Nat) (target : Nat) (otherwise : Option Nat) (l : Nat) :
    labelsIn [.branch condition target otherwise, .label l] = [l] := rfl

/-- The labels of code are what its label instructions say. -/
theorem mem_labelsIn {l : Nat} : l ∈ labelsIn code ↔ .label l ∈ code := by
  refine List.mem_filterMap.trans ⟨fun ⟨i, hi, hl⟩ => ?_, fun h => ⟨_, h, rfl⟩⟩
  cases i with
  | label k => cases hl; exact hi
  | _ => cases hl

/-- An instruction that does not end a block is no branch. -/
theorem branches_of_not_isTerminator (h : i.isTerminator = false) : i.branches = [] ∧ i.IsProper := by
  cases i with
  | branch c t o => cases h
  | _ => exact ⟨rfl, trivial⟩

/-- An instruction that does not begin a block has no number. -/
theorem label?_of_not_isLabel (h : i.isLabel = false) : i.label? = none := by
  cases i with
  | label l => cases h
  | _ => rfl

theorem Blocks.append (h : Blocks code) (h' : Blocks code') : Blocks (code ++ code') := by
  induction h with
  | nil => exact h'
  | plain hterminator hlabel _ ih => exact .plain hterminator hlabel ih
  | block hterminator _ ih => exact .block hterminator ih

namespace BranchesWithin

theorem append (h : BranchesWithin first next code) (h' : BranchesWithin first next code') :
    BranchesWithin first next (code ++ code') := by
  intro i hi
  rcases List.mem_append.1 hi with hi | hi
  · exact h i hi
  · exact h' i hi

/-- A wider range. -/
theorem mono (h : BranchesWithin first next code) {first' next' : Nat} (hfirst : first' ≤ first) (hnext : next ≤ next') :
    BranchesWithin first' next' code := fun i hi =>
  ⟨(h i hi).1, fun l hl => ⟨Nat.le_trans hfirst ((h i hi).2 l hl).1, Nat.lt_of_lt_of_le ((h i hi).2 l hl).2 hnext⟩⟩

/-- An instruction that is no branch. -/
theorem cons (h : i.branches = []) (hproper : i.IsProper) (hcode : BranchesWithin first next code) :
    BranchesWithin first next (i :: code) := by
  intro j hj
  rcases List.mem_cons.1 hj with rfl | hj
  · exact ⟨hproper, fun l hl => by rw [h] at hl; cases hl⟩
  · exact hcode j hj

theorem nil (first next : Nat) : BranchesWithin first next [] := fun _ hi => nomatch hi

/-- A jump, and the label of the next block. -/
theorem jump {target : Nat} (l : Nat) (htarget : first ≤ target ∧ target < next) :
    BranchesWithin first next [.branch none target none, .label l] := by
  intro i hi
  rcases List.mem_cons.1 hi with rfl | hi
  · refine ⟨rfl, fun k hk => ?_⟩
    cases List.mem_singleton.1 hk
    exact htarget
  · exact cons (i := .label l) rfl trivial (nil first next) i hi

/-- A branch with a condition, and the label of the next block. -/
theorem fork {target otherwise : Nat} (condition l : Nat) (htarget : first ≤ target ∧ target < next)
    (hotherwise : first ≤ otherwise ∧ otherwise < next) :
    BranchesWithin first next [.branch (some condition) target (some otherwise), .label l] := by
  intro i hi
  rcases List.mem_cons.1 hi with rfl | hi
  · refine ⟨rfl, fun k hk => ?_⟩
    rcases List.mem_cons.1 hk with rfl | hk
    · exact htarget
    · cases List.mem_singleton.1 hk
      exact hotherwise
  · exact cons (i := .label l) rfl trivial (nil first next) i hi

end BranchesWithin

namespace Piece

theorem nil (n : Nat) : Piece n n [] := ⟨.nil, .nil n, .nil n n⟩

theorem append (h : Piece first next code) (h' : Piece next last code') : Piece first last (code ++ code') := by
  refine ⟨h.blocks.append h'.blocks, ?_, ?_⟩
  · rw [labelsIn_append]
    exact h.labels.append h'.labels
  · exact (h.branches.mono (Nat.le_refl _) h'.labels.le).append (h'.branches.mono h.labels.le (Nat.le_refl _))

/-- An instruction that neither ends a block nor begins one. -/
theorem cons (hterminator : i.isTerminator = false) (hlabel : i.isLabel = false) (h : Piece first next code) :
    Piece first next (i :: code) := by
  obtain ⟨hbranches, hproper⟩ := branches_of_not_isTerminator hterminator
  refine ⟨.plain hterminator hlabel h.blocks, ?_, .cons hbranches hproper h.branches⟩
  rw [labelsIn, List.filterMap_cons_none (label?_of_not_isLabel hlabel)]
  exact h.labels

/-- A return, and the label of a block at which nothing arrives. -/
theorem ret (n : Nat) (value : Operand) : Piece n (n + 1) [.ret value, .label n] :=
  ⟨.block rfl .nil, .singleton n, .cons (i := .ret value) rfl trivial (.cons (i := .label n) rfl trivial (.nil _ _))⟩

/-- A choice: its four labels are reserved before those of its parts. -/
theorem conditional {b n₁ n₂ n₃ : Nat} {test consequence alternative : List Instruction} (flag : Nat) (ht : Piece (b + 4) n₁ test)
    (hc : Piece n₁ n₂ consequence) (ha : Piece n₂ n₃ alternative) :
    Piece b n₃ ([.branch none b none, .label b] ++ test ++
      ([.branch (some flag) (b + 1) (some (b + 2)), .label (b + 1)] ++ consequence) ++
      ([.branch none (b + 3) none, .label (b + 2)] ++ alternative) ++ [.branch none (b + 3) none, .label (b + 3)]) := by
  have ht' := ht.labels.le
  have hc' := hc.labels.le
  have ha' := ha.labels.le
  refine ⟨?_, ?_, ?_⟩
  · exact (((Blocks.block rfl ht.blocks).append (.block rfl hc.blocks)).append (.block rfl ha.blocks)).append (.block rfl .nil)
  · have hown := (((Numbers.singleton b).append (.singleton (b + 1))).append (.singleton (b + 2))).append (.singleton (b + 3))
    refine (hown.append ((ht.labels.append hc.labels).append ha.labels)).perm (List.perm_iff_count.2 fun n => ?_)
    simp only [labelsIn_append, labelsIn_block, List.count_append]
    omega
  · have hlabel : ∀ k, k < 4 → b ≤ b + k ∧ b + k < n₃ := fun k hk => by omega
    have htest := (BranchesWithin.jump b (hlabel 0 (by omega))).append (ht.branches.mono (by omega) (by omega))
    have hconsequence := (BranchesWithin.fork flag (b + 1) (hlabel 1 (by omega)) (hlabel 2 (by omega))).append
      (hc.branches.mono (by omega) (by omega))
    have halternative := (BranchesWithin.jump (b + 2) (hlabel 3 (by omega))).append (ha.branches.mono (by omega) (by omega))
    exact ((htest.append hconsequence).append halternative).append (.jump (b + 3) (hlabel 3 (by omega)))

/-- A loop: its three labels are reserved before those of its parts. -/
theorem loop {b n₁ n₂ : Nat} {test body : List Instruction} (flag : Nat) (ht : Piece (b + 3) n₁ test) (hb : Piece n₁ n₂ body) :
    Piece b n₂ ([.branch none b none, .label b] ++ test ++
      ([.branch (some flag) (b + 1) (some (b + 2)), .label (b + 1)] ++ body) ++ [.branch none b none, .label (b + 2)]) := by
  have ht' := ht.labels.le
  have hb' := hb.labels.le
  refine ⟨?_, ?_, ?_⟩
  · exact ((Blocks.block rfl ht.blocks).append (.block rfl hb.blocks)).append (.block rfl .nil)
  · have hown := ((Numbers.singleton b).append (.singleton (b + 1))).append (.singleton (b + 2))
    refine (hown.append (ht.labels.append hb.labels)).perm (List.perm_iff_count.2 fun n => ?_)
    simp only [labelsIn_append, labelsIn_block, List.count_append]
    omega
  · have hlabel : ∀ k, k < 3 → b ≤ b + k ∧ b + k < n₂ := fun k hk => by omega
    have htest := (BranchesWithin.jump b (hlabel 0 (by omega))).append (ht.branches.mono (by omega) (by omega))
    have hbody := (BranchesWithin.fork flag (b + 1) (hlabel 1 (by omega)) (hlabel 2 (by omega))).append
      (hb.branches.mono (by omega) (by omega))
    exact (htest.append hbody).append (.jump (b + 2) (hlabel 0 (by omega)))

end Piece

/-! ## Flow graphs -/

/-- In blocks before a return, a label or the end follows whatever ends a block. -/
theorem Blocks.ends (h : Blocks code) (value : Operand) {p : Nat} (hp : (code ++ [Instruction.ret value])[p]? = some i)
    (hi : i.isTerminator = true) :
    p + 1 = (code ++ [Instruction.ret value]).length ∨ ∃ l, (code ++ [Instruction.ret value])[p + 1]? = some (.label l) := by
  induction h generalizing p with
  | nil =>
    cases p with
    | zero => exact .inl rfl
    | succ p => cases hp
  | plain hterminator _ _ ih =>
    cases p with
    | zero =>
      cases hp
      rw [hi] at hterminator
      cases hterminator
    | succ p =>
      rcases ih hp with h | h
      · exact .inl (congrArg (· + 1) h)
      · exact .inr h
  | block _ _ ih =>
    match p with
    | 0 => exact .inr ⟨_, rfl⟩
    | 1 => cases hp; cases hi
    | p + 2 =>
      rcases ih hp with h | h
      · exact .inl (congrArg (· + 2) h)
      · exact .inr h

/-- In blocks before a return, something that ends a block stands before every label. -/
theorem Blocks.begins (h : Blocks code) (value : Operand) {p l : Nat}
    (hp : (code ++ [Instruction.ret value])[p]? = some (.label l)) :
    ∃ q i, p = q + 1 ∧ (code ++ [Instruction.ret value])[q]? = some i ∧ i.isTerminator = true := by
  induction h generalizing p with
  | nil =>
    cases p with
    | zero => cases hp
    | succ p => cases hp
  | plain _ hlabel _ ih =>
    cases p with
    | zero => cases hp; cases hlabel
    | succ p =>
      obtain ⟨q, i, rfl, hq, hi⟩ := ih hp
      exact ⟨q + 1, i, rfl, hq, hi⟩
  | block hterminator _ ih =>
    match p with
    | 0 => cases hp; cases hterminator
    | 1 => exact ⟨0, _, rfl, rfl, hterminator⟩
    | p + 2 =>
      obtain ⟨q, i, rfl, hq, hi⟩ := ih hp
      exact ⟨q + 2, i, rfl, hq, hi⟩

/-- A piece whose labels are numbered from zero on makes, behind the allocation of a frame and before a return, a flow graph. -/
theorem Piece.isFlowGraph {d : Definition} {count dest : Nat} {frame : Frame} {value : Operand}
    (hd : d.body = .malloc dest frame.typeText :: code ++ [.ret value]) (h : Piece 0 count code) : d.IsFlowGraph := by
  have hblocks : Blocks (.malloc dest frame.typeText :: code) := .plain rfl rfl h.blocks
  have hlabels : labelsIn d.body = labelsIn code := by
    rw [hd, labelsIn_append]
    exact List.append_nil _
  -- neither the allocation nor the return branches
  have hbranches : BranchesWithin 0 count d.body := by
    rw [hd]
    exact (BranchesWithin.cons (i := .malloc dest frame.typeText) rfl trivial h.branches).append
      (.cons (i := .ret value) rfl trivial (.nil _ _))
  refine ⟨⟨count, ?_⟩, fun i hi l hl => ?_, fun i hi => (hbranches i hi).1, ?_, ?_, ⟨dest, frame, by rw [hd]; rfl⟩,
    ⟨value, by rw [hd, List.getLast?_concat]⟩⟩
  · rw [hlabels]
    exact h.labels.perm_range
  · rw [← mem_labelsIn, hlabels, h.labels.perm_range.mem_iff, List.mem_range]
    exact ((hbranches i hi).2 l hl).2
  · rw [hd]
    exact hblocks.ends value
  · rw [hd]
    exact hblocks.begins value

end ExprLang.Code
