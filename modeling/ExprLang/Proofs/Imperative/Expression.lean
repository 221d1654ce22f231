import ExprLang.Proofs.Imperative.Program
import ExprLang.Proofs.Lowering.Patterns

/-!
# Executing expressions

Between two pieces of code the machine stands at the end of the first one, and its frame holds the values of names (`Stands`). From there
the code of an arithmetic expression computes a cell with the tagged value (`Evaluates`), and that of a test a register with the outcome
(`Decides`). Lowering succeeds on both (`evaluates_lower`, `decides_lower`).
-/

namespace ExprLang

open Code Lowering

namespace Imperative

/-! ## The machine between two pieces of code -/

/-- The slots of names as an environment. -/
def slots (f : Frame) : Environment := ⟨f.index⟩

/-- The generator of an entry in which these names are declared. -/
structure Ready (names : List String) (g : Generator) : Prop where
  /-- The frame is that of the entry. -/
  framePointer : g.framePointer = Generator.rootFramePointer
  /-- The register with its address is used. -/
  register : Generator.rootFramePointer < g.nextRegister
  /-- Labels in the code are used. -/
  labels : ∀ l, .label l ∈ g.instructions → l < g.nextLabel
  /-- Each name has a slot of its own. -/
  wellFormed : (slots g.frames.current).WellFormed g.frames.current.size
  /-- The names are declared. -/
  declared : ∀ x ∈ names, ∃ slot, g.frames.current.slot? x = some slot

/-- The machine stands at the end of the code of `g`, and its frame of `size` slots holds the values of names. -/
structure Stands (values : Values) (size : Nat) (g : Generator) (s : Machine) : Prop where
  /-- It stands at the end of the code. -/
  position : s.position = Lowering.position g
  /-- The first block is the frame. -/
  pointer : s.registers Generator.rootFramePointer = some (.address 0 0)
  /-- The frame has `size` slots. -/
  frame : s.memory.size? 0 = some size
  /-- Each slot declared so far is one of them. -/
  bound : g.frames.current.size ≤ size
  /-- The slots of names hold their values. -/
  kept : KeptIn values (slots g.frames.current) (s.memory.read? 0) tagInteger

variable {body : List Instruction} {mode : Signedness} {names : List String} {values : Values} {size first : Nat}
  {g g' : Generator} {s s' : Machine}

/-- Code that declares no name leaves the generator ready. -/
theorem Ready.of_appends (h : Ready names g) (ha : Appends first g g') : Ready names g' := by
  have hframe : g'.frames.current = g.frames.current := by rw [ha.frames]
  refine ⟨ha.framePointer.trans h.framePointer, Nat.lt_of_lt_of_le h.register ha.register, fun l hl => ?_, ?_, ?_⟩
  · rcases ha.label_mem hl with hl | ⟨-, hlt⟩
    · exact Nat.lt_of_lt_of_le (h.labels l hl) ha.label
    · exact hlt
  · rw [hframe]
    exact h.wellFormed
  · rw [hframe]
    exact h.declared

/-- A label that is not used yet is in none of the code. -/
theorem Ready.fresh (h : Ready names g) {l : Nat} (hle : g.nextLabel ≤ l) : .label l ∉ g.instructions := fun hl =>
  absurd (h.labels l hl) (Nat.not_lt.2 hle)

/-- Code that computes leaves the frame as it was. -/
theorem Stands.of_computes (h : Stands values size g s) (hg : Ready names g) (ha : Appends first g g')
    (hc : Computes body g g' s s') : Stands values size g' s' := by
  have hframe : g'.frames.current = g.frames.current := by rw [ha.frames]
  refine ⟨hc.position, (hc.registers _ hg.register).trans h.pointer, hc.memory.size h.frame, by rw [hframe]; exact h.bound, ?_⟩
  rw [hframe]
  intro x n hx
  obtain ⟨slot, hslot, hn⟩ := h.kept x n hx
  exact ⟨slot, hslot, hc.memory.read hn⟩

/-! ## Arithmetic expressions -/

/-- The code of `x` computes a cell with a tagged value, where there is one; the last instruction writes this cell. -/
structure Evaluates (x : Lowering Lowered) (g : Generator) (c : Nat) (g' : Generator) (tagged? : Values → Option Int32) :
    Prop where
  /-- There is code. -/
  ok : x g = .ok (.boxed c) g'
  /-- It comes behind the code before. -/
  appends : Appends g.nextLabel g g'
  /-- The register of the cell is used. -/
  register : c < g'.nextRegister
  /-- The last instruction writes the cell. -/
  stored : ∃ o, g'.instructions.back? = some (.store o c)
  /-- The code computes the tagged value. -/
  computes : ∀ {body values size s n}, Begins body g' → Stands values size g s → tagged? values = some n →
    ∃ s', Computes body g g' s s' ∧ HoldsAnew s s' c n

/-- A constant is written to a new cell. -/
theorem evaluates_constant (g : Generator) (n : Int32) : ∃ c g', Evaluates (constant n) g c g' fun _ => some n := by
  have ha := appends_boxed g.nextLabel { g with lastConstant := some n } (.constant n)
  refine ⟨g.nextRegister, Generator.boxed { g with lastConstant := some n } (.constant n), rfl,
    ⟨ha.code, ha.label, ha.register, ha.framePointer, ha.frames⟩, Nat.lt_succ_self _, ⟨_, back?_boxed _ _⟩, ?_⟩
  intro body values size s k hb hs hk
  cases hk
  obtain ⟨s', hc, hh⟩ := computes_boxed (n := n) hb hs.position rfl trivial
  exact ⟨s', ⟨hc.reaches, hc.position, hc.used, hc.registers, hc.memory⟩, hh⟩

/-- The slot of a declared name is found. -/
theorem Ready.ownSlot (hg : Ready names g) {x : String} (hx : x ∈ names) (kind : String) :
    ∃ slot, g.frames.current.slot? x = some slot ∧ Lowering.ownSlot x kind g = .ok slot g := by
  obtain ⟨slot, hslot⟩ := hg.declared x hx
  exact ⟨slot, hslot, ownSlot_of_slot? hslot kind⟩

/-- The address of a slot is computed. -/
theorem computes_slotAddress {slot : Nat} (hg : Ready names g) (hb : Begins body (g.emitted (.slotAddress · g.framePointer slot)))
    (hs : Stands values size g s) :
    ∃ s', Computes body g (g.emitted (.slotAddress · g.framePointer slot)) s s' ∧
      s'.registers g.nextRegister = some (.address 0 slot) ∧ s'.memory = s.memory := by
  refine computes_emitted hb hs.position ?_
  rw [hg.framePointer]
  simp [Machine.execute, Machine.address?, hs.pointer]

/-- A name is read into a new cell. -/
theorem evaluates_readName (hg : Ready names g) {x : String} (hx : x ∈ names) :
    ∃ c g', Evaluates (readName x) g c g' fun values => (values x).map tagInteger := by
  obtain ⟨slot, hslot, hok⟩ := hg.ownSlot hx "Identifier"
  let g₁ := g.emitted (.slotAddress · g.framePointer slot)
  let g₂ := g₁.emitted (.load · g.nextRegister)
  let g₃ := g₂.boxed (.register g₁.nextRegister)
  have h₁ : Appends g.nextLabel g g₁ := appends_emitted _ _ fun _ _ => nofun
  have h₂ : Appends g.nextLabel g₁ g₂ := appends_emitted _ _ fun _ _ => nofun
  have h₃ : Appends g.nextLabel g₂ g₃ := appends_boxed _ _ _
  refine ⟨g₂.nextRegister, g₃, (bind_of_ok hok _).trans rfl, (h₁.trans h₂).trans h₃, Nat.lt_succ_self _,
    ⟨_, back?_boxed _ _⟩, ?_⟩
  intro body values size s v hb hs hv
  obtain ⟨n, hn, rfl⟩ := Option.map_eq_some_iff.1 hv
  obtain ⟨slot', hslot', hcell⟩ := hs.kept x n hn
  obtain rfl : slot = slot' := Option.some.inj (hslot.symm.trans hslot')
  have hb₂ := h₃.begins hb
  obtain ⟨s₁, hc₁, hw₁, hm₁⟩ := computes_slotAddress hg (h₂.begins hb₂) hs
  obtain ⟨s₂, hc₂, hw₂, -⟩ := computes_load hb₂ hc₁.position ⟨0, slot, hw₁, by rw [hm₁]; exact hcell⟩
  obtain ⟨s₃, hc₃, hh⟩ := computes_boxed hb hc₂.position (operand?_register hw₂) (Nat.lt_succ_self _)
  exact ⟨s₃, (hc₁.trans hc₂).trans hc₃, (hc₁.trans hc₂).holdsAnew hh⟩

/-- Every arithmetic expression has code that computes its value. -/
theorem evaluates_lower {a : Expression} (h : IsArithmetic mode names a) (hg : Ready names g) :
    ∃ c g', Evaluates (lower mode a) g c g' fun values => (arithmetic? values a).map tagInteger := by
  induction h generalizing g with
  | integer n => exact evaluates_constant g (tagInteger n)
  | identifier hx => exact evaluates_readName hg hx
  | @binary a b o ha hb ho iha ihb =>
    obtain ⟨l, g₁, hl⟩ := iha hg
    obtain ⟨r, g₂, hr⟩ := ihb (hg.of_appends hl.appends)
    obtain ⟨c, g₃, hc⟩ := exists_combines ho l r g₂
    have h₂ := hr.appends.mono hl.appends.label
    have h₃ := hc.appends.mono (Nat.le_trans hl.appends.label hr.appends.label)
    refine ⟨c, g₃, ?_, (hl.appends.trans h₂).trans h₃, hc.register, hc.stored, ?_⟩
    · exact (bind_of_ok hl.ok _).trans ((bind_of_ok hr.ok _).trans (hc.ok _ _))
    intro body values size s v hbegins hs hv
    obtain ⟨n, hn, rfl⟩ := Option.map_eq_some_iff.1 hv
    obtain ⟨x, hx, hn⟩ := Option.bind_eq_some_iff.1 hn
    obtain ⟨y, hy, hn⟩ := Option.bind_eq_some_iff.1 hn
    have hbegins₂ := hc.appends.begins hbegins
    obtain ⟨s₁, hc₁, hh₁⟩ := hl.computes (hr.appends.begins hbegins₂) hs (congrArg (Option.map tagInteger) hx)
    have hs₁ := hs.of_computes hg hl.appends hc₁
    obtain ⟨s₂, hc₂, hh₂⟩ := hr.computes hbegins₂ hs₁ (congrArg (Option.map tagInteger) hy)
    obtain ⟨s₃, hc₃, hh₃⟩ := hc.computes hbegins hc₂.position hr.register (hc₂.holds hh₁.holds hl.register) hh₂.holds hn
    exact ⟨s₃, (hc₁.trans hc₂).trans hc₃, (hc₁.trans hc₂).holdsAnew hh₃⟩

/-- The code that reads the value of an arithmetic expression leaves the tagged value in a register. -/
structure Loads (mode : Signedness) (a : Expression) (g : Generator) (r : Nat) (g' : Generator) : Prop where
  /-- There is code for the expression, and for reading its value. -/
  ok : ∃ c g₁, lower mode a g = .ok (.boxed c) g₁ ∧ load (.boxed c) a.kind g₁ = .ok (.register r) g'
  /-- It comes behind the code before. -/
  appends : Appends g.nextLabel g g'
  /-- The register is used. -/
  register : r < g'.nextRegister
  /-- The code computes the tagged value. -/
  loads : ∀ {body values size s n}, Begins body g' → Stands values size g s → arithmetic? values a = some n →
    ∃ s', s.Reaches body s' ∧ Stands values size g' s' ∧ s'.registers r = some (.integer (tagInteger n))

/-- The value of every arithmetic expression can be read. -/
theorem exists_loads {a : Expression} (h : IsArithmetic mode names a) (hg : Ready names g) : ∃ r g', Loads mode a g r g' := by
  obtain ⟨c, g₁, h₁⟩ := evaluates_lower h hg
  let g₂ := g₁.emitted (.load · c)
  have h₂ : Appends g.nextLabel g₁ g₂ := appends_emitted _ _ fun _ _ => nofun
  refine ⟨g₁.nextRegister, g₂, ⟨c, g₁, h₁.ok, rfl⟩, h₁.appends.trans h₂, Nat.lt_succ_self _, ?_⟩
  intro body values size s n hb hs hn
  obtain ⟨s₁, hc₁, hh₁⟩ := h₁.computes (h₂.begins hb) hs (congrArg (Option.map tagInteger) hn)
  obtain ⟨s₂, hc₂, hw₂, -⟩ := computes_load hb hc₁.position hh₁.holds
  have hc := hc₁.trans hc₂
  exact ⟨s₂, hc.reaches, hs.of_computes hg (h₁.appends.trans h₂) hc, hw₂⟩

/-! ## Tests -/

/-- The code of `x` computes a truth value, where there is one. -/
structure Decides (x : Lowering Nat) (g : Generator) (flag : Nat) (g' : Generator) (outcome? : Values → Option Bool) :
    Prop where
  /-- There is code. -/
  ok : x g = .ok flag g'
  /-- It comes behind the code before. -/
  appends : Appends g.nextLabel g g'
  /-- The code computes the truth value. -/
  computes : ∀ {body values size s t}, Begins body g' → Stands values size g s → outcome? values = some t →
    ∃ s', Computes body g g' s s' ∧ s'.registers flag = some (.truth t)

/-- A truth value is compared with the one that is true. -/
theorem decides_boolean (mode : Signedness) (g : Generator) (b : Bool) :
    ∃ flag g', Decides (do test (← lower mode (.boolean b)) "Boolean") g flag g' fun _ => some b := by
  obtain ⟨c, g₁, h₁⟩ := evaluates_constant g (tagBoolean b)
  have h₂ := appends_tested g.nextLabel g₁ c
  refine ⟨g₁.nextRegister + 1, tested g₁ c, (bind_of_ok h₁.ok _).trans (test_of_boxed c _ g₁), h₁.appends.trans h₂, ?_⟩
  intro body values size s t hb hs ht
  cases ht
  obtain ⟨s₁, hc₁, hh⟩ := h₁.computes (h₂.begins hb) hs rfl
  obtain ⟨s₂, hc₂, hw₂⟩ := computes_tested hb hc₁.position hh.holds
  rw [tagBoolean_beq_true] at hw₂
  exact ⟨s₂, hc₁.trans hc₂, hw₂⟩

/-- Every test has code that computes its outcome. -/
theorem decides_lower {c : Expression} (h : IsTest mode names c) (hg : Ready names g) :
    ∃ flag g', Decides (do test (← lower mode c) c.kind) g flag g' (test? · c) := by
  cases h with
  | boolean b => exact decides_boolean mode g b
  | @comparison a b o ha hb =>
    obtain ⟨l, g₁, hl⟩ := evaluates_lower ha hg
    obtain ⟨r, g₂, hr⟩ := evaluates_lower hb (hg.of_appends hl.appends)
    have h₂ := hr.appends.mono hl.appends.label
    have h₃ := appends_compared g.nextLabel g₂ o l r
    refine ⟨g₂.nextRegister + 2, compared g₂ o l r, ?_, (hl.appends.trans h₂).trans h₃, ?_⟩
    · have hlower : lower mode (.binary a (.comparison o) b) g = .ok (.flag (g₂.nextRegister + 2)) (compared g₂ o l r) :=
        (bind_of_ok hl.ok _).trans ((bind_of_ok hr.ok _).trans (comparison_of_boxed o l r _ _ g₂))
      exact (bind_of_ok hlower _).trans rfl
    intro body values size s t hb hs ht
    obtain ⟨x, hx, ht⟩ := Option.bind_eq_some_iff.1 ht
    obtain ⟨y, hy, ht⟩ := Option.bind_eq_some_iff.1 ht
    obtain ⟨⟨hfx, hfy⟩, ht⟩ := Option.ite_none_right_eq_some.1 ht
    cases ht
    have hb₂ := h₃.begins hb
    obtain ⟨s₁, hc₁, hh₁⟩ := hl.computes (h₂.begins hb₂) hs (congrArg (Option.map tagInteger) hx)
    have hs₁ := hs.of_computes hg hl.appends hc₁
    obtain ⟨s₂, hc₂, hh₂⟩ := hr.computes hb₂ hs₁ (congrArg (Option.map tagInteger) hy)
    have hleft := hc₂.holds hh₁.holds hl.register
    obtain ⟨s₃, hc₃, hw₃⟩ := computes_compared hb hc₂.position hr.register hleft hh₂.holds hfx hfy
    exact ⟨s₃, (hc₁.trans hc₂).trans hc₃, hw₃⟩

end Imperative

end ExprLang
