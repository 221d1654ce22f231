import ExprLang.Proofs.Lowering.Placement
import ExprLang.Proofs.Lowering.Tag

/-!
# Code that computes

Code without branches leaves what was written before as it was: registers used before hold what they held, and so do cells
(`Computes`). There is one lemma for each pattern of code that makes a register or a cell, up to the operators on tagged integers
(`Combines`), the comparisons of them (`computes_compared`) and the test of a truth value (`computes_tested`).
-/

namespace ExprLang

open Code

/-- The operand is no register from `next` on. -/
def Code.Operand.Below (next : Nat) : Operand → Prop
  | .register r => r < next
  | _ => True

/-- What an operand stands for does not depend on registers that are written later. -/
theorem Code.Machine.operand?_congr {s s' : Machine} {next : Nat} (hr : ∀ r, r < next → s'.registers r = s.registers r)
    (ha : s'.arguments = s.arguments) {value : Operand} (hv : value.Below next) : s'.operand? value = s.operand? value := by
  cases value with
  | register r => simp only [Machine.operand?, Machine.integer?, hr r hv]
  | named name => simp only [Machine.operand?, ha]
  | constant n => rfl

namespace Lowering

variable {body : List Instruction} {mode : Signedness} {g g' g'' : Generator} {s s' s'' : Machine}

/-- The machine comes from `s` at the end of the code of `g` to `s'` at the end of the code of `g'`, and whatever was written before is
what it was. -/
structure Computes (body : List Instruction) (g g' : Generator) (s s' : Machine) : Prop where
  /-- The machine comes there. -/
  reaches : s.Reaches body s'
  /-- It stands at the end of the code. -/
  position : s'.position = position g'
  /-- Registers are used up. -/
  used : g.nextRegister ≤ g'.nextRegister
  /-- Registers that were used before hold what they held. -/
  registers : ∀ r, r < g.nextRegister → s'.registers r = s.registers r
  /-- Cells hold what they held. -/
  memory : s.memory.Extends s'.memory

/-- The register has the address of a cell with this integer. -/
def Holds (s : Machine) (c : Nat) (n : Int32) : Prop :=
  ∃ block cell, s.registers c = some (.address block cell) ∧ s.memory.read? block cell = some n

/-- The register has the address of a cell with this integer, and the cell is in a block that was made after the state `s`. -/
def HoldsAnew (s s' : Machine) (c : Nat) (n : Int32) : Prop :=
  ∃ block cell, s.memory.blocks.size ≤ block ∧ s'.registers c = some (.address block cell) ∧
    s'.memory.read? block cell = some n

/-- A cell that was just written holds what was written. -/
theorem HoldsAnew.holds {c : Nat} {n : Int32} (h : HoldsAnew s s' c n) : Holds s' c n := by
  obtain ⟨block, cell, -, hr, hm⟩ := h
  exact ⟨block, cell, hr, hm⟩

namespace Computes

/-- Code that computes may be put behind code that does. -/
theorem trans (h : Computes body g g' s s') (h' : Computes body g' g'' s' s'') : Computes body g g'' s s'' :=
  ⟨h.reaches.trans h'.reaches, h'.position, Nat.le_trans h.used h'.used,
    fun r hr => (h'.registers r (Nat.lt_of_lt_of_le hr h.used)).trans (h.registers r hr), h.memory.trans h'.memory⟩

/-- Cells from before keep what they hold. -/
theorem holds (h : Computes body g g' s s') {c : Nat} {n : Int32} (hc : Holds s c n) (hlt : c < g.nextRegister) :
    Holds s' c n := by
  obtain ⟨block, cell, hr, hm⟩ := hc
  exact ⟨block, cell, (h.registers c hlt).trans hr, h.memory.read hm⟩

/-- What was made later was made since then. -/
theorem holdsAnew (h : Computes body g g' s s') {c : Nat} {n : Int32} (hc : HoldsAnew s' s'' c n) : HoldsAnew s s'' c n := by
  obtain ⟨block, cell, hle, hr, hm⟩ := hc
  exact ⟨block, cell, Nat.le_trans h.memory.blocks_le hle, hr, hm⟩

end Computes

/-- An instruction that writes a new register computes what it writes. -/
theorem computes_emitted {i : Nat → Instruction} {w : Word} (hb : Begins body (g.emitted i)) (hs : s.position = position g)
    (he : s.execute body (i g.nextRegister) = some (s.assign g.nextRegister w)) :
    ∃ s', Computes body g (g.emitted i) s s' ∧ s'.registers g.nextRegister = some w ∧ s'.memory = s.memory := by
  refine ⟨_, ⟨reaches_of_execute ?_ he, ?_, Nat.le_succ _, fun r hr => ?_, .refl _⟩, s.registers_assign_self _ _, rfl⟩
  · rw [hs]
    exact hb.getElem? Array.toList_push (k := 0) rfl
  · simp [Machine.assign, position, Generator.emitted, hs]
  · exact s.registers_assign_of_ne (Nat.ne_of_lt hr) w

/-- Reading a cell computes the integer in it. -/
theorem computes_load {c : Nat} {n : Int32} (hb : Begins body (g.emitted (.load · c))) (hs : s.position = position g)
    (hc : Holds s c n) :
    ∃ s', Computes body g (g.emitted (.load · c)) s s' ∧ s'.registers g.nextRegister = some (.integer n) ∧
      s'.memory = s.memory := by
  obtain ⟨block, cell, hr, hm⟩ := hc
  exact computes_emitted hb hs (Machine.execute_load hr hm _)

/-- The integer in a register. -/
theorem operand?_register {r : Nat} {n : Int32} (h : s.registers r = some (.integer n)) : s.operand? (.register r) = some n := by
  simp [Machine.operand?, Machine.integer?, h]

/-- An operation on two registers computes what it computes of the integers in them. -/
theorem computes_binary {op : BinaryOp} {l r : Nat} {a b n : Int32}
    (hb : Begins body (g.emitted (.binary op · (.register l) (.register r)))) (hs : s.position = position g)
    (hl : s.registers l = some (.integer a)) (hr : s.registers r = some (.integer b)) (hn : op.result? a b = some n) :
    ∃ s', Computes body g (g.emitted (.binary op · (.register l) (.register r))) s s' ∧
      s'.registers g.nextRegister = some (.integer n) := by
  obtain ⟨s', hc, hw, -⟩ := computes_emitted (w := .integer n) hb hs
    (by simp [Machine.execute, operand?_register hl, operand?_register hr, hn])
  exact ⟨s', hc, hw⟩

/-- A shift of a register computes the shifted integer. -/
theorem computes_shift {op : Shift} {r amount : Nat} {a n : Int32}
    (hb : Begins body (g.emitted (.shift · op (.register r) amount))) (hs : s.position = position g)
    (hr : s.registers r = some (.integer a)) (hn : op.result? a amount = some n) :
    ∃ s', Computes body g (g.emitted (.shift · op (.register r) amount)) s s' ∧
      s'.registers g.nextRegister = some (.integer n) := by
  obtain ⟨s', hc, hw, -⟩ := computes_emitted (w := .integer n) hb hs
    (by simp [Machine.execute, operand?_register hr, hn])
  exact ⟨s', hc, hw⟩

/-- A comparison of two operands computes its outcome. -/
theorem computes_compare {p : Predicate} {l r : Operand} {a b : Int32} (hb : Begins body (g.emitted (.compare · p l r)))
    (hs : s.position = position g) (hl : s.operand? l = some a) (hr : s.operand? r = some b) :
    ∃ s', Computes body g (g.emitted (.compare · p l r)) s s' ∧ s'.registers g.nextRegister = some (.truth (p.holds a b)) := by
  obtain ⟨s', hc, hw, -⟩ := computes_emitted (w := .truth (p.holds a b)) hb hs (by simp [Machine.execute, hl, hr])
  exact ⟨s', hc, hw⟩

/-- The generator after the code that reads two cells. -/
def loaded (g : Generator) (l r : Nat) : Generator := (g.emitted (.load · l)).emitted (.load · r)

theorem appends_loaded (first : Nat) (g : Generator) (l r : Nat) : Appends first g (loaded g l r) := by
  have hleft : Appends first g (g.emitted (.load · l)) := appends_emitted _ _ fun _ _ => nofun
  exact hleft.trans (appends_emitted _ _ fun _ _ => nofun)

/-- Reading two cells computes the integers in them. -/
theorem computes_loaded {l r : Nat} {a b : Int32} (hb : Begins body (loaded g l r)) (hs : s.position = position g)
    (hlt : r < g.nextRegister) (hl : Holds s l a) (hr : Holds s r b) :
    ∃ s', Computes body g (loaded g l r) s s' ∧ s'.registers g.nextRegister = some (.integer a) ∧
      s'.registers (g.nextRegister + 1) = some (.integer b) := by
  have hright : Appends 0 (g.emitted (.load · l)) (loaded g l r) := appends_emitted _ _ fun _ _ => nofun
  obtain ⟨s₁, hc₁, hw₁, -⟩ := computes_load (hright.begins hb) hs hl
  obtain ⟨s₂, hc₂, hw₂, -⟩ := computes_load hb hc₁.position (hc₁.holds hr hlt)
  exact ⟨s₂, hc₁.trans hc₂, (hc₂.registers _ (Nat.lt_succ_self g.nextRegister)).trans hw₁, hw₂⟩

/-! ## Cells and tags -/

/-- Boxing ends with a store to the new cell. -/
theorem back?_boxed (g : Generator) (o : Operand) : (g.boxed o).instructions.back? = some (.store o g.nextRegister) := by
  simp [Generator.boxed]

/-- A value is written to a new cell. -/
theorem computes_boxed {value : Operand} {n : Int32} (hb : Begins body (g.boxed value)) (hs : s.position = position g)
    (hv : s.operand? value = some n) (hbelow : value.Below g.nextRegister) :
    ∃ s', Computes body g (g.boxed value) s s' ∧ HoldsAnew s s' g.nextRegister n := by
  have hcode : (g.boxed value).instructions.toList =
      g.instructions.toList ++ [.malloc g.nextRegister "i32", .store value g.nextRegister] := by
    simp [Generator.boxed]
  obtain ⟨memory, hwrite, hextends, hread⟩ := Memory.exists_write?_allocate s.memory n
  let s₁ : Machine := { s.assign g.nextRegister (.address s.memory.blocks.size 0) with memory := s.memory.allocate 1 }
  have hregisters : ∀ r, r < g.nextRegister → s₁.registers r = s.registers r := fun r hr =>
    s.registers_assign_of_ne (Nat.ne_of_lt hr) _
  have hself : s₁.registers g.nextRegister = some (.address s.memory.blocks.size 0) :=
    s.registers_assign_self _ _
  have hmalloc : s.Reaches body s₁ := by
    refine reaches_of_execute (i := .malloc g.nextRegister "i32") ?_ rfl
    rw [hs]
    exact hb.getElem? hcode (k := 0) rfl
  have hstore : s₁.Reaches body { s₁ with memory, position := s₁.position + 1 } := by
    refine reaches_of_execute (i := .store value g.nextRegister) ?_ ?_
    · show body[s.position + 1]? = _
      rw [hs]
      exact hb.getElem? hcode (k := 1) rfl
    · exact Machine.execute_store hself ((Machine.operand?_congr hregisters rfl hbelow).trans hv) hwrite
  refine ⟨_, ⟨hmalloc.trans hstore, ?_, Nat.le_succ _, hregisters, hextends⟩, _, _, Nat.le_refl _, hself, hread⟩
  show s.position + 1 + 1 = position (g.boxed value)
  simp [position, Generator.boxed, hs]

/-- The generator after the code that reads a cell and drops the tag. -/
def unboxed (mode : Signedness) (g : Generator) (c : Nat) : Generator :=
  (g.emitted (.load · c)).emitted (.shift · mode.untagging (.register g.nextRegister) tagBits)

/-- To unbox a cell its value is loaded and shifted. -/
theorem unbox_ok (mode : Signedness) (g : Generator) (c : Nat) (kind : String) :
    unbox mode (.boxed c) kind g = .ok (.register (g.nextRegister + 1)) (unboxed mode g c) := by
  cases mode <;> rfl

theorem appends_unboxed (first : Nat) (mode : Signedness) (g : Generator) (c : Nat) : Appends first g (unboxed mode g c) := by
  have hload : Appends first g (g.emitted (.load · c)) := appends_emitted _ _ fun _ _ => nofun
  exact hload.trans (appends_emitted _ _ fun _ _ => nofun)

/-- Of a tagged integer without its tag is computed what may be left of it. -/
theorem computes_unboxed {c : Nat} {n : Int32} (hb : Begins body (unboxed mode g c)) (hs : s.position = position g)
    (hc : Holds s c (tagInteger n)) :
    ∃ s' n', Computes body g (unboxed mode g c) s s' ∧ s'.registers (g.nextRegister + 1) = some (.integer n') ∧
      Untags mode n n' := by
  obtain ⟨n', hn', huntags⟩ := exists_untags mode n
  have ha : Appends 0 (g.emitted (.load · c)) (unboxed mode g c) := appends_emitted _ _ fun _ _ => nofun
  obtain ⟨s₁, hc₁, hw₁, -⟩ := computes_load (ha.begins hb) hs hc
  obtain ⟨s₂, hc₂, hw₂⟩ := computes_shift hb hc₁.position hw₁ hn'
  exact ⟨s₂, n', hc₁.trans hc₂, hw₂, huntags⟩

/-- The code of an operator on two cells computes a cell with the tagged result. -/
structure Combines (mode : Signedness) (o : Arithmetic) (l r : Nat) (g : Generator) (c : Nat) (g' : Generator) : Prop where
  /-- There is code. -/
  ok : ∀ leftKind rightKind, arithmetic mode o (.boxed l) leftKind (.boxed r) rightKind g = .ok (.boxed c) g'
  /-- It comes behind the code before. -/
  appends : Appends g.nextLabel g g'
  /-- The register of the cell is used. -/
  register : c < g'.nextRegister
  /-- The last instruction writes the cell. -/
  stored : ∃ o, g'.instructions.back? = some (.store o c)
  /-- The code computes the result. -/
  computes : ∀ {body s a b n}, Begins body g' → s.position = position g → r < g.nextRegister → Holds s l (tagInteger a) →
    Holds s r (tagInteger b) → o.compute? a b = some n → ∃ s', Computes body g g' s s' ∧ HoldsAnew s s' c (tagInteger n)

/-- Tagged integers are added as they are. -/
theorem combines_add (mode : Signedness) (l r : Nat) (g : Generator) : ∃ c g', Combines mode .add l r g c g' := by
  let g₁ := loaded g l r
  let g₂ := g₁.emitted (.binary .add · (.register g.nextRegister) (.register (g.nextRegister + 1)))
  let g₃ := g₂.boxed (.register g₁.nextRegister)
  have h₁ : Appends g.nextLabel g g₁ := appends_loaded _ _ _ _
  have h₂ : Appends g.nextLabel g₁ g₂ := appends_emitted _ _ fun _ _ => nofun
  have h₃ : Appends g.nextLabel g₂ g₃ := appends_boxed _ _ _
  refine ⟨g₂.nextRegister, g₃, fun _ _ => rfl, (h₁.trans h₂).trans h₃, Nat.lt_succ_self _, ⟨_, back?_boxed _ _⟩, ?_⟩
  intro body s a b n hb hs hlt hl hr hn
  cases hn
  have hb₂ := h₃.begins hb
  obtain ⟨s₁, hc₁, hw, hw'⟩ := computes_loaded (h₂.begins hb₂) hs hlt hl hr
  obtain ⟨s₂, hc₂, hw₂⟩ := computes_binary hb₂ hc₁.position hw hw' rfl
  obtain ⟨s₃, hc₃, hh⟩ := computes_boxed hb hc₂.position (operand?_register hw₂) (Nat.lt_succ_self _)
  rw [tagInteger_add]
  exact ⟨s₃, (hc₁.trans hc₂).trans hc₃, (hc₁.trans hc₂).holdsAnew hh⟩

/-- Without tags the other operators compute what has the tagged form of the result. -/
theorem combines_untagged {o : Arithmetic} (hadd : o ≠ .add) (hdiv : o = .div → mode = .signed) (l r : Nat) (g : Generator) :
    ∃ c g', Combines mode o l r g c g' := by
  -- both operands without tags, the operation, the tag, and the cell for the result
  let g₁ := unboxed mode g l
  let g₂ := unboxed mode g₁ r
  let g₃ := g₂.emitted (.binary (arithmetic.opcode mode o) · (.register (g.nextRegister + 1)) (.register (g₁.nextRegister + 1)))
  let g₄ := g₃.emitted (.shift · .left (.register g₂.nextRegister) tagBits)
  let g₅ := g₄.boxed (.register g₃.nextRegister)
  have h₁ : Appends g.nextLabel g g₁ := appends_unboxed _ _ _ _
  have h₂ : Appends g.nextLabel g₁ g₂ := appends_unboxed _ _ _ _
  have h₃ : Appends g.nextLabel g₂ g₃ := appends_emitted _ _ fun _ _ => nofun
  have h₄ : Appends g.nextLabel g₃ g₄ := appends_emitted _ _ fun _ _ => nofun
  have h₅ : Appends g.nextLabel g₄ g₅ := appends_boxed _ _ _
  refine ⟨g₄.nextRegister, g₅, fun leftKind rightKind => ?_, (((h₁.trans h₂).trans h₃).trans h₄).trans h₅, Nat.lt_succ_self _,
    ⟨_, back?_boxed _ _⟩, ?_⟩
  · cases o with
    | add => exact absurd rfl hadd
    | sub | mul | div =>
      exact (bind_of_ok (unbox_ok mode g l leftKind) _).trans ((bind_of_ok (unbox_ok mode g₁ r rightKind) _).trans rfl)
  intro body s a b n hb₅ hs hlt hl hr hn
  have hb₄ := h₅.begins hb₅
  have hb₃ := h₄.begins hb₄
  have hb₂ := h₃.begins hb₃
  obtain ⟨s₁, a', hc₁, hw₁, ha'⟩ := computes_unboxed (h₂.begins hb₂) hs hl
  obtain ⟨s₂, b', hc₂, hw₂, hb'⟩ := computes_unboxed hb₂ hc₁.position (hc₁.holds hr hlt)
  -- unboxing the right operand leaves the left one in its register
  have hw₁' := (hc₂.registers _ (Nat.lt_succ_self (g.nextRegister + 1))).trans hw₁
  obtain ⟨n', hn', htag⟩ := exists_opcode_result? hadd hdiv ha' hb' hn
  obtain ⟨s₃, hc₃, hw₃⟩ := computes_binary hb₃ hc₂.position hw₁' hw₂ hn'
  obtain ⟨s₄, hc₄, hw₄⟩ := computes_shift hb₄ hc₃.position hw₃ (result?_left n')
  obtain ⟨s₅, hc₅, hh⟩ := computes_boxed hb₅ hc₄.position (operand?_register hw₄) (Nat.lt_succ_self _)
  rw [htag] at hh
  have hc := ((hc₁.trans hc₂).trans hc₃).trans hc₄
  exact ⟨s₅, hc.trans hc₅, hc.holdsAnew hh⟩

/-- Every operator has code that computes the tagged result; a quotient needs the signs of its operands. -/
theorem exists_combines {o : Arithmetic} (hdiv : o = .div → mode = .signed) (l r : Nat) (g : Generator) :
    ∃ c g', Combines mode o l r g c g' := by
  by_cases hadd : o = .add
  · subst hadd
    exact combines_add mode l r g
  · exact combines_untagged hadd hdiv l r g

/-! ## Outcomes -/

/-- The generator after the code that compares what is in two cells. -/
def compared (g : Generator) (o : Comparison) (l r : Nat) : Generator :=
  (loaded g l r).emitted (.compare · (predicate o) (.register g.nextRegister) (.register (g.nextRegister + 1)))

/-- A comparison of two cells loads both and compares them; it gives a flag. -/
theorem comparison_of_boxed (o : Comparison) (l r : Nat) (leftKind rightKind : String) (g : Generator) :
    comparison o (.boxed l) leftKind (.boxed r) rightKind g = .ok (.flag (g.nextRegister + 2)) (compared g o l r) := rfl

theorem appends_compared (first : Nat) (g : Generator) (o : Comparison) (l r : Nat) : Appends first g (compared g o l r) :=
  (appends_loaded first g l r).trans (appends_emitted _ _ fun _ _ => nofun)

/-- Integers that fit are compared in their tagged form. -/
theorem computes_compared {o : Comparison} {l r : Nat} {a b : Int32} (hb : Begins body (compared g o l r)) (hs : s.position = position g)
    (hlt : r < g.nextRegister) (hl : Holds s l (tagInteger a)) (hr : Holds s r (tagInteger b)) (hfa : Fits a) (hfb : Fits b) :
    ∃ s', Computes body g (compared g o l r) s s' ∧
      s'.registers (g.nextRegister + 2) = some (.truth (o.holds (compareIntegers a b))) := by
  have happends : Appends 0 (loaded g l r) (compared g o l r) := appends_emitted _ _ fun _ _ => nofun
  obtain ⟨s₁, hc₁, hw, hw'⟩ := computes_loaded (happends.begins hb) hs hlt hl hr
  obtain ⟨s₂, hc₂, hw₂⟩ := computes_compare hb hc₁.position (operand?_register hw) (operand?_register hw')
  rw [holds_tagInteger (predicate o) hfa hfb, ← holds_compareIntegers] at hw₂
  exact ⟨s₂, hc₁.trans hc₂, hw₂⟩

/-- The generator after the code that compares what is in a cell with the truth value `true`. -/
def tested (g : Generator) (c : Nat) : Generator :=
  (g.emitted (.load · c)).emitted (.compare · .equal (.register g.nextRegister) (.constant (tagBoolean true)))

/-- A test of a cell loads it and compares it with the tagged truth value. -/
theorem test_of_boxed (c : Nat) (kind : String) (g : Generator) : test (.boxed c) kind g = .ok (g.nextRegister + 1) (tested g c) := rfl

theorem appends_tested (first : Nat) (g : Generator) (c : Nat) : Appends first g (tested g c) := by
  have hload : Appends first g (g.emitted (.load · c)) := appends_emitted _ _ fun _ _ => nofun
  exact hload.trans (appends_emitted _ _ fun _ _ => nofun)

/-- A test holds of the tagged form of `true` and of no other. -/
theorem computes_tested {c : Nat} {n : Int32} (hb : Begins body (tested g c)) (hs : s.position = position g) (hc : Holds s c n) :
    ∃ s', Computes body g (tested g c) s s' ∧ s'.registers (g.nextRegister + 1) = some (.truth (n == tagBoolean true)) := by
  have happends : Appends 0 (g.emitted (.load · c)) (tested g c) := appends_emitted _ _ fun _ _ => nofun
  obtain ⟨s₁, hc₁, hw₁, -⟩ := computes_load (happends.begins hb) hs hc
  obtain ⟨s₂, hc₂, hw₂⟩ := computes_compare hb hc₁.position (operand?_register hw₁) rfl
  exact ⟨s₂, hc₁.trans hc₂, hw₂⟩

end Lowering

end ExprLang
