import ExprLang.Proofs.Imperative.Agreement
import ExprLang.Proofs.Slots.Program

/-!
# The code of programs without branches

Lowering a program without branches succeeds exactly if its meaning by slots is defined, and then the code does to the slots of the
frame what the program does to those of the table (`together_lower`). A value that is in a cell of its own stays there, since code writes
no cell but new ones and slots (`Moves`); the address of a slot stays as well, but not what is in it.

So the entry of a program returns the tagged form of the integer that the meaning by slots gives, if it gives one (`compile?_cases`).
-/

namespace ExprLang

open Code Lowering

namespace Slots

open Imperative (slotStored slotDeclared)

/-! ## The machine and the table -/

/-- The values that names stand for. -/
def Table.values (t : Table) : Imperative.Values := fun x => do t.cells[← t.env.find? x]?

/-- The frame of the generator has the names and the slots of the table. -/
structure Fits (g : Generator) (t : Table) : Prop where
  /-- The names are declared. -/
  ready : Imperative.Ready t.env.names g
  /-- They have the same slots. -/
  env : Imperative.slots g.frames.current = t.env
  /-- There are as many slots. -/
  size : g.frames.current.size = t.cells.length

/-- The machine stands at the end of the code of `g`, and its frame of `size` slots holds what is in the slots of the table. -/
structure Stands (t : Table) (size : Nat) (g : Generator) (s : Machine) : Prop where
  /-- It stands at the end of the code. -/
  position : s.position = Lowering.position g
  /-- The first block is the frame. -/
  pointer : s.registers Generator.rootFramePointer = some (.address 0 0)
  /-- The frame has `size` slots. -/
  frame : s.memory.size? 0 = some size
  /-- Each slot of the table is one of them. -/
  bound : t.cells.length ≤ size
  /-- The slots hold what is in those of the table. -/
  kept : ∀ i n, t.cells[i]? = some n → s.memory.read? 0 i = some (tagInteger n)

/-- The machine goes from `s` at the end of the code of `g` to `s'`, and only new registers, new cells and slots are written. -/
structure Moves (body : List Instruction) (g : Generator) (s s' : Machine) : Prop where
  /-- The machine comes there. -/
  reaches : s.Reaches body s'
  /-- Registers that were used before hold what they held. -/
  registers : ∀ r, r < g.nextRegister → s'.registers r = s.registers r
  /-- Cells of other blocks than the frame hold what they held. -/
  memory : ∀ {block cell : Nat} {n : Int32}, block ≠ 0 → s.memory.read? block cell = some n →
    s'.memory.read? block cell = some n

/-- What lowering left can be what the code leaves, and its register is used. -/
def Usable (g : Generator) (t : Table) : Lowered → Result → Prop
  | .nothing, .nothing => True
  | .boxed c, .value _ => c < g.nextRegister
  | .boxed c, .slot i => c < g.nextRegister ∧ i < t.cells.length
  | _, _ => False

/-- The register has the address of a cell with the value, or that of the slot. -/
def Located (s : Machine) : Lowered → Result → Prop
  | .nothing, .nothing => True
  | .boxed c, .value n =>
    ∃ block cell, block ≠ 0 ∧ s.registers c = some (.address block cell) ∧ s.memory.read? block cell = some (tagInteger n)
  | .boxed c, .slot i => s.registers c = some (.address 0 i)
  | _, _ => False

variable {body : List Instruction} {mode : Signedness} {operators : Arithmetic → Prop} {g g' g₁ : Generator} {t t' t₁ : Table}
  {s s' s₁ : Machine} {size : Nat} {l : Lowered} {r : Result}

/-- The values of names are in their slots. -/
theorem Stands.values (h : Stands t size g s) (hg : Fits g t) : Imperative.Stands t.values size g s := by
  refine ⟨h.position, h.pointer, h.frame, by rw [hg.size]; exact h.bound, fun x n hx => ?_⟩
  obtain ⟨i, hi, hn⟩ := Option.bind_eq_some_iff.1 hx
  exact ⟨i, by rw [hg.env]; exact hi, h.kept i n hn⟩

/-- Code that computes leaves the slots as they were. -/
theorem Stands.of_computes (h : Stands t size g s) (hg : Fits g t) (hc : Computes body g g' s s') : Stands t size g' s' :=
  ⟨hc.position, (hc.registers _ hg.ready.register).trans h.pointer, hc.memory.size h.frame, h.bound,
    fun i n hi => hc.memory.read (h.kept i n hi)⟩

/-- Code that declares no name leaves the frame as it was. -/
theorem Fits.of_appends {first : Nat} (h : Fits g t) (ha : Appends first g g') : Fits g' t := by
  have hframe : g'.frames.current = g.frames.current := by rw [ha.frames]
  exact ⟨h.ready.of_appends ha, by rw [hframe, h.env], by rw [hframe, h.size]⟩

theorem Moves.trans (h : Moves body g s s₁) (h' : Moves body g₁ s₁ s') (hle : g.nextRegister ≤ g₁.nextRegister) :
    Moves body g s s' :=
  ⟨h.reaches.trans h'.reaches, fun r hr => (h'.registers r (Nat.lt_of_lt_of_le hr hle)).trans (h.registers r hr),
    fun hb hn => h'.memory hb (h.memory hb hn)⟩

theorem moves_of_computes (hc : Computes body g g' s s') : Moves body g s s' :=
  ⟨hc.reaches, hc.registers, fun _ => hc.memory.read⟩

theorem Usable.mono (h : Usable g t l r) (hg : g.nextRegister ≤ g'.nextRegister) (ht : t.cells.length ≤ t'.cells.length) :
    Usable g' t' l r := by
  match l, r, h with
  | .nothing, .nothing, _ => trivial
  | .boxed c, .value _, h => exact Nat.lt_of_lt_of_le h hg
  | .boxed c, .slot i, ⟨hc, hi⟩ => exact ⟨Nat.lt_of_lt_of_le hc hg, Nat.lt_of_lt_of_le hi ht⟩

/-- Either no value is left or one that can be read. -/
theorem Usable.cases (h : Usable g t l r) :
    l = .nothing ∧ r = .nothing ∨ ∃ c n, l = .boxed c ∧ c < g.nextRegister ∧ t.read? r = some n := by
  match l, r, h with
  | .nothing, .nothing, _ => exact .inl ⟨rfl, rfl⟩
  | .boxed c, .value n, h => exact .inr ⟨c, n, rfl, h, rfl⟩
  | .boxed c, .slot i, ⟨hc, hi⟩ => exact .inr ⟨c, t.cells[i], rfl, hc, List.getElem?_eq_getElem hi⟩

/-- What the code left stays where it is. -/
theorem Located.moves (h : Located s l r) (hu : Usable g t l r) (hm : Moves body g s s') : Located s' l r := by
  match l, r, h, hu with
  | .nothing, .nothing, _, _ => trivial
  | .boxed c, .value _, ⟨block, cell, hb, hr, hn⟩, hc =>
    exact ⟨block, cell, hb, (hm.registers c hc).trans hr, hm.memory hb hn⟩
  | .boxed c, .slot i, h, ⟨hc, _⟩ => exact (hm.registers c hc).trans h

/-- What the code left is read as the table says. -/
theorem Located.holds {c : Nat} {n : Int32} (h : Located s (.boxed c) r) (hs : Stands t size g s) (hn : t.read? r = some n) :
    Holds s c (tagInteger n) := by
  cases r with
  | nothing => exact h.elim
  | value k =>
    cases hn
    obtain ⟨block, cell, -, hr, hk⟩ := h
    exact ⟨block, cell, hr, hk⟩
  | slot i => exact ⟨0, i, h, hs.kept i n hn⟩

/-- A cell that was made anew is not a slot. -/
theorem located_of_holdsAnew {c : Nat} {n : Int32} (hs : s.memory.size? 0 = some size) (h : HoldsAnew s s' c (tagInteger n)) :
    Located s' (.boxed c) (.value n) := by
  obtain ⟨block, cell, hle, hr, hn⟩ := h
  have hpos := Memory.lt_of_size? hs
  exact ⟨block, cell, by omega, hr, hn⟩

/-! ## Lowering and the table -/

/-- The code made from `g` to `g'` does to the slots what leads from `t` to `t'`, and leaves what `l` and `r` say. -/
structure Carries (g : Generator) (t : Table) (l : Lowered) (r : Result) (g' : Generator) (t' : Table) : Prop where
  /-- It comes behind the code before. -/
  begins : ∀ {body}, Begins body g' → Begins body g
  /-- Registers are used up. -/
  register : g.nextRegister ≤ g'.nextRegister
  /-- Slots are added. -/
  length : t.cells.length ≤ t'.cells.length
  /-- The frame has the names and the slots of the table. -/
  fits : Fits g' t'
  /-- What is left can be used. -/
  usable : Usable g' t' l r
  /-- If it is a cell, the last instruction writes it. -/
  stored : ∀ c, l = .boxed c → ∃ o, g'.instructions.back? = some (.store o c)
  /-- The machine comes to the end of the code. -/
  acts : ∀ {body size s}, Begins body g' → t'.cells.length ≤ size → Stands t size g s →
    ∃ s', Moves body g s s' ∧ Stands t' size g' s' ∧ Located s' l r

/-- Lowering and the table succeed or fail together. -/
inductive Together (g : Generator) (t : Table) :
    EStateM.Result LoweringError Generator Lowered → Option (Result × Table) → Prop where
  | ok {l : Lowered} {r : Result} {g' : Generator} {t' : Table} (h : Carries g t l r g' t') :
      Together g t (.ok l g') (some (r, t'))
  | error (e : LoweringError) (g' : Generator) : Together g t (.error e g') none

/-- Code that writes a new cell and nothing else carries the value of the cell. -/
theorem Carries.of_evaluates {x : Lowering Lowered} {c : Nat} {tagged? : Imperative.Values → Option Int32} {n : Int32}
    (hg : Fits g t) (h : Imperative.Evaluates x g c g' tagged?) (hn : tagged? t.values = some (tagInteger n)) :
    Carries g t (.boxed c) (.value n) g' t := by
  refine ⟨h.appends.begins, h.appends.register, Nat.le_refl _, hg.of_appends h.appends, h.register, ?_, ?_⟩
  · rintro _ ⟨⟩
    exact h.stored
  · intro body size s hb _ hs
    obtain ⟨s', hc, hh⟩ := h.computes hb (hs.values hg) hn
    exact ⟨s', moves_of_computes hc, hs.of_computes hg hc, located_of_holdsAnew hs.frame hh⟩

/-- The code made from `g` to `g'` does to the slots what leads from `t` to `t'`, and leaves the tagged form of `n` in a register. -/
structure Loads (g : Generator) (t : Table) (ρ : Nat) (n : Int32) (g' : Generator) (t' : Table) : Prop where
  /-- It comes behind the code before. -/
  begins : ∀ {body}, Begins body g' → Begins body g
  /-- Registers are used up. -/
  register : g.nextRegister ≤ g'.nextRegister
  /-- Slots are added. -/
  length : t.cells.length ≤ t'.cells.length
  /-- The frame has the names and the slots of the table. -/
  fits : Fits g' t'
  /-- The register is used. -/
  used : ρ < g'.nextRegister
  /-- The machine comes to the end of the code. -/
  acts : ∀ {body size s}, Begins body g' → t'.cells.length ≤ size → Stands t size g s →
    ∃ s', Moves body g s s' ∧ Stands t' size g' s' ∧ s'.registers ρ = some (.integer (tagInteger n))

/-- What is left either is no value and cannot be read, or is read into a register. -/
theorem Carries.load (h : Carries g t l r g₁ t₁) (kind : String) :
    (Lowering.load l kind g₁ = .error (.notAValue kind) g₁ ∧ t₁.read? r = none) ∨
    ∃ ρ n g₂, Lowering.load l kind g₁ = .ok (.register ρ) g₂ ∧ t₁.read? r = some n ∧ Loads g t ρ n g₂ t₁ := by
  rcases h.usable.cases with ⟨rfl, rfl⟩ | ⟨c, n, rfl, -, hn⟩
  · exact .inl ⟨rfl, rfl⟩
  let g₂ := g₁.emitted (.load · c)
  have h₂ : Appends 0 g₁ g₂ := appends_emitted _ _ fun _ _ => nofun
  refine .inr ⟨g₁.nextRegister, n, g₂, rfl, hn, fun hb => h.begins (h₂.begins hb), Nat.le_trans h.register h₂.register,
    h.length, h.fits.of_appends h₂, Nat.lt_succ_self _, ?_⟩
  intro body size s hb hsize hs
  obtain ⟨s₁, hm₁, hs₁, hl₁⟩ := h.acts (h₂.begins hb) hsize hs
  obtain ⟨s₂, hc₂, hw₂, -⟩ := computes_load hb hs₁.position (hl₁.holds hs₁ hn)
  exact ⟨s₂, hm₁.trans (moves_of_computes hc₂) h.register, hs₁.of_computes h.fits hc₂, hw₂⟩

/-- Nothing is done. -/
theorem Carries.refl (hg : Fits g t) : Carries g t .nothing .nothing g t :=
  ⟨id, Nat.le_refl _, Nat.le_refl _, hg, trivial, fun _ h => (nomatch h),
    fun _ _ hs => ⟨_, ⟨.refl _ _, fun _ _ => rfl, fun _ => id⟩, hs, trivial⟩⟩

/-- Of pieces of code one after the other, the last one says what is left. -/
theorem Carries.trans {l' : Lowered} {r' : Result} (h : Carries g t l r g₁ t₁) (h' : Carries g₁ t₁ l' r' g' t') :
    Carries g t l' r' g' t' := by
  refine ⟨fun hb => h.begins (h'.begins hb), Nat.le_trans h.register h'.register, Nat.le_trans h.length h'.length, h'.fits,
    h'.usable, h'.stored, ?_⟩
  intro body size s hb hsize hs
  obtain ⟨s₁, hm₁, hs₁, -⟩ := h.acts (h'.begins hb) (Nat.le_trans h'.length hsize) hs
  obtain ⟨s₂, hm₂, hs₂, hl₂⟩ := h'.acts hb hsize hs₁
  exact ⟨s₂, hm₁.trans hm₂ h.register, hs₂, hl₂⟩

namespace Together

/-- Two computations one after the other; the second may be seen from another beginning. -/
theorem bind {g₀ : Generator} {t₀ : Table} {x : Lowering Lowered} {p : Option (Result × Table)}
    {f : Lowered → Lowering Lowered} {q : Result × Table → Option (Result × Table)} (h : Together g t (x g) p)
    (hf : ∀ l r g₁ t₁, Carries g t l r g₁ t₁ → Together g₀ t₀ (f l g₁) (q (r, t₁))) :
    Together g₀ t₀ ((x >>= f) g) (p >>= q) := by
  show Together g₀ t₀ (EStateM.bind x f g) (p.bind q)
  unfold EStateM.bind
  generalize x g = o at h
  cases h with
  | ok h => exact hf _ _ _ _ h
  | error e g' => exact .error e g'

end Together

/-! ## Operators -/

theorem arithmetic_nothing_left (mode : Signedness) (o : Arithmetic) (leftKind : String) (r : Lowered) (rightKind : String)
    (g : Generator) : arithmetic mode o .nothing leftKind r rightKind g = .error (.notAValue leftKind) g := by
  cases o <;> rfl

theorem arithmetic_nothing_right (mode : Signedness) (o : Arithmetic) (c : Nat) (leftKind rightKind : String)
    (g : Generator) : ∃ g', arithmetic mode o (.boxed c) leftKind .nothing rightKind g = .error (.notAValue rightKind) g' := by
  cases o with
  | add => exact ⟨_, rfl⟩
  | sub | mul | div =>
    refine ⟨unboxed mode g c, ?_⟩
    exact (bind_of_ok (unbox_ok mode g c leftKind) _).trans rfl

/-- Operators other than division always have a result. -/
theorem exists_compute? {o : Arithmetic} (ho : o ≠ .div) (a b : Int32) : ∃ n, o.compute? a b = some n := by
  cases o with
  | div => exact absurd rfl ho
  | add | sub | mul => exact ⟨_, rfl⟩

/-- Both operands are read after both were computed. -/
theorem together_arithmetic {o : Arithmetic} (ho : o ≠ .div) {l' : Lowered} {r' : Result} (h : Carries g t l r g₁ t₁)
    (h' : Carries g₁ t₁ l' r' g' t') (leftKind rightKind : String) :
    Together g t (arithmetic mode o l leftKind l' rightKind g')
      (do return (.value (← o.compute? (← t'.read? r) (← t'.read? r')), t')) := by
  -- if either side has no operand then neither has the other
  have hu := h.usable.mono h'.register h'.length
  rcases hu.cases with ⟨rfl, rfl⟩ | ⟨c, x, rfl, -, hx⟩
  · rw [arithmetic_nothing_left]
    exact .error _ _
  rcases h'.usable.cases with ⟨rfl, rfl⟩ | ⟨c', y, rfl, hc', hy⟩
  · obtain ⟨g₂, herror⟩ := arithmetic_nothing_right mode o c leftKind rightKind g'
    rw [herror, hx]
    exact .error _ _
  -- both operands are there, and without division there is always a result
  obtain ⟨n, hn⟩ := exists_compute? ho x y
  obtain ⟨d, g₂, h₂⟩ := exists_combines (fun hdiv => absurd hdiv ho) c c' g'
  rw [h₂.ok, hx, hy]
  simp only [Option.bind_eq_bind, Option.bind_some, hn, Option.pure_def]
  refine .ok ⟨fun hb => h.begins (h'.begins (h₂.appends.begins hb)), ?_, Nat.le_trans h.length h'.length,
    h'.fits.of_appends h₂.appends, h₂.register, ?_, ?_⟩
  · exact Nat.le_trans h.register (Nat.le_trans h'.register h₂.appends.register)
  · rintro _ ⟨⟩
    exact h₂.stored
  · intro body size s hb hsize hs
    have hb' := h₂.appends.begins hb
    obtain ⟨s₁, hm₁, hs₁, hl₁⟩ := h.acts (h'.begins hb') (Nat.le_trans h'.length hsize) hs
    obtain ⟨s₂, hm₂, hs₂, hl₂⟩ := h'.acts hb' hsize hs₁
    have hleft := (hl₁.moves h.usable hm₂).holds hs₂ hx
    obtain ⟨s₃, hc₃, hh₃⟩ := h₂.computes hb hs₂.position hc' hleft (hl₂.holds hs₂ hy) hn
    refine ⟨s₃, (hm₁.trans hm₂ h.register).trans (moves_of_computes hc₃) (Nat.le_trans h.register h'.register),
      hs₂.of_computes h'.fits hc₃, located_of_holdsAnew hs₂.frame hh₃⟩

/-! ## Declarations and assignments -/

/-- Writing a slot changes no other cell. -/
theorem moves_slotStored {names : List String} {values : Imperative.Values} {i ρ : Nat} {n : Int32}
    (hg : Imperative.Ready names g) (hb : Begins body (slotStored g i (.register ρ))) (hs : Imperative.Stands values size g s)
    (hi : i < size) (hρ : s.registers ρ = some (.integer n)) (hlt : ρ < g.nextRegister) :
    ∃ s', Moves body g s s' ∧ s'.position = position (slotStored g i (.register ρ)) ∧ s'.memory.size? 0 = some size ∧
      Located s' (.boxed g.nextRegister) (.slot i) ∧
      ∀ j, s'.memory.read? 0 j = if j = i then some n else s.memory.read? 0 j := by
  obtain ⟨s', hreaches, hposition, hregisters, haddress, hwrite⟩ := Imperative.exists_slotStored hg hb hs hi hρ hlt
  refine ⟨s', ⟨hreaches, hregisters, fun {block cell m} hblock hm => ?_⟩, hposition, ?_, haddress, fun j => ?_⟩
  · rw [Memory.read?_of_write? hwrite, if_neg fun h => hblock h.1]
    exact hm
  · rw [Memory.size?_of_write? hwrite]
    exact hs.frame
  · rw [Memory.read?_of_write? hwrite]
    simp

/-- The value that was read is assigned to a name. -/
theorem Loads.assign {ρ i : Nat} {n : Int32} (h : Loads g t ρ n g₁ t₁) (hi : i < t₁.cells.length) :
    Carries g t (.boxed g₁.nextRegister) (.slot i) (slotStored g₁ i (.register ρ)) (t₁.set i n) := by
  have h₂ : Appends 0 g₁ (slotStored g₁ i (.register ρ)) := Imperative.appends_slotStored _ _ _ _
  have hlength : (t₁.set i n).cells.length = t₁.cells.length := by simp [Table.set]
  have hfits := h.fits.of_appends h₂
  refine ⟨fun hb => h.begins (h₂.begins hb), Nat.le_trans h.register h₂.register, by rw [hlength]; exact h.length,
    ⟨hfits.ready, hfits.env, by rw [hlength]; exact hfits.size⟩, ⟨Nat.lt_succ_self _, by rw [hlength]; exact hi⟩, ?_, ?_⟩
  · rintro _ ⟨⟩
    exact ⟨.register ρ, by simp [slotStored]⟩
  · intro body size s hb hsize hs
    rw [hlength] at hsize
    obtain ⟨s₁, hm₁, hs₁, hρ⟩ := h.acts (h₂.begins hb) hsize hs
    obtain ⟨s₂, hm₂, hposition, hframe, hlocated, hread⟩ :=
      moves_slotStored h.fits.ready hb (hs₁.values h.fits) (Nat.lt_of_lt_of_le hi hsize) hρ h.used
    refine ⟨s₂, hm₁.trans hm₂ h.register, ⟨hposition, ?_, hframe, by rw [hlength]; exact hsize, fun j k hk => ?_⟩, hlocated⟩
    · exact (hm₂.registers _ h.fits.ready.register).trans hs₁.pointer
    · rw [hread]
      by_cases hj : j = i
      · subst hj
        rw [Table.set, List.getElem?_set_self hi] at hk
        cases hk
        exact if_pos rfl
      · rw [if_neg hj]
        rw [Table.set, List.getElem?_set_ne (Ne.symm hj)] at hk
        exact hs₁.kept j k hk

/-- The value that was read is the first one of a name. -/
theorem Loads.declare {ρ : Nat} {n : Int32} (h : Loads g t ρ n g₁ t₁) (x : String) :
    Carries g t (.boxed g₁.nextRegister) (.slot t₁.cells.length)
      (slotStored (slotDeclared g₁ x) g₁.frames.current.size (.register ρ)) (t₁.declare x n) := by
  let g₂ := slotDeclared g₁ x
  let g₃ := slotStored g₂ g₁.frames.current.size (.register ρ)
  have h₃ : Appends 0 g₂ g₃ := Imperative.appends_slotStored _ _ _ _
  have hbegins : ∀ {body}, Begins body g₃ → Begins body g₁ := fun hb => h₃.begins hb
  have hlength : (t₁.declare x n).cells.length = t₁.cells.length + 1 := by simp [Table.declare]
  have hsize₂ : g₂.frames.current.size = g₁.frames.current.size + 1 := Frame.size_declare _ _ _
  -- the frame gets a slot where the table gets a cell
  have hfits₂ : Fits g₂ (t₁.declare x n) := by
    refine ⟨h.fits.ready.declare x, ?_, by rw [hsize₂, hlength, h.fits.size]⟩
    show (Imperative.slots g₁.frames.current).bind x g₁.frames.current.size = t₁.env.bind x t₁.cells.length
    rw [h.fits.env, h.fits.size]
  refine ⟨fun hb => h.begins (hbegins hb), Nat.le_trans h.register h₃.register, by rw [hlength]; exact Nat.le_succ_of_le h.length,
    hfits₂.of_appends h₃, ⟨Nat.lt_succ_self _, by rw [hlength]; exact Nat.lt_succ_self _⟩, ?_, ?_⟩
  · rintro _ ⟨⟩
    exact ⟨.register ρ, by simp [slotStored, slotDeclared]⟩
  · intro body size s hb hsize hs
    rw [hlength] at hsize
    obtain ⟨s₁, hm₁, hs₁, hρ⟩ := h.acts (hbegins hb) (Nat.le_of_succ_le hsize) hs
    have hs₂ := (hs₁.values h.fits).declare h.fits.ready x (by rw [hsize₂, h.fits.size]; exact hsize)
    have hi : g₁.frames.current.size < size := by rw [h.fits.size]; exact hsize
    obtain ⟨s₃, hm₃, hposition, hframe, hlocated, hread⟩ :=
      moves_slotStored hfits₂.ready hb hs₂ hi hρ h.used
    rw [h.fits.size] at hlocated hread
    refine ⟨s₃, hm₁.trans hm₃ h.register, ⟨hposition, ?_, hframe, by rw [hlength]; exact hsize, fun j k hk => ?_⟩, hlocated⟩
    · exact (hm₃.registers _ hfits₂.ready.register).trans hs₁.pointer
    · rw [hread]
      by_cases hj : j = t₁.cells.length
      · subst hj
        rw [Table.declare, List.getElem?_concat_length] at hk
        cases hk
        exact if_pos rfl
      · obtain ⟨hlt, -⟩ := List.getElem?_eq_some_iff.1 hk
        rw [hlength] at hlt
        rw [if_neg hj]
        rw [Table.declare, List.getElem?_append_left (by omega)] at hk
        exact hs₁.kept j k hk

/-- A name is found by the generator exactly if the table has it. -/
theorem Fits.ownSlot (hg : Fits g t) (x kind : String) :
    (t.env.find? x = none ∧ ∃ e, Lowering.ownSlot x kind g = .error e g) ∨
    ∃ i, t.env.find? x = some i ∧ i < t.cells.length ∧ Lowering.ownSlot x kind g = .ok i g := by
  have hslot : g.frames.current.slot? x = t.env.find? x := by
    rw [← hg.env]
    rfl
  cases hfind : t.env.find? x with
  | none => exact .inl ⟨rfl, ownSlot_of_slot?_eq_none (hslot.trans hfind) kind⟩
  | some i =>
    refine .inr ⟨i, rfl, ?_, ownSlot_of_slot? (hslot.trans hfind) kind⟩
    rw [← hg.size]
    exact hg.ready.wellFormed.find?_lt (hslot.trans hfind)

/-! ## Programs -/

/-- Expressions one after the other succeed or fail together with their meaning if each of them does. -/
theorem together_lowerSequence {es : List Expression}
    (ih : ∀ e ∈ es, ∀ {g : Generator} {t : Table}, Fits g t → Together g t (lower mode e g) (execute? e t))
    (h : Carries g t l r g₁ t₁) : Together g t (lowerSequence mode es l g₁) (executeAll? es r t₁) := by
  induction es generalizing l r g₁ t₁ with
  | nil => exact .ok h
  | cons e rest hrec =>
    obtain ⟨hfirst, hrest⟩ := List.forall_mem_cons.1 ih
    exact (hfirst h.fits).bind fun l₂ r₂ g₂ t₂ h₂ => hrec hrest (h.trans h₂)

/-- Lowering succeeds exactly where the meaning by slots is defined, and the code does what it says. -/
theorem together_lower {e : Expression} (h : IsStraight operators e) (hop : ∀ o, operators o → o ≠ .div) (hg : Fits g t) :
    Together g t (lower mode e g) (execute? e t) := by
  induction h generalizing g t with
  | integer n =>
    obtain ⟨c, g', h⟩ := Imperative.evaluates_constant g (tagInteger n)
    have hok : lower mode (.integer n) g = .ok (.boxed c) g' := h.ok
    rw [hok]
    exact .ok (.of_evaluates hg h rfl)
  | identifier x =>
    rcases hg.ownSlot x "Identifier" with ⟨hnone, e, herror⟩ | ⟨i, hi, hlt, -⟩
    · have hlower : lower mode (.identifier x) g = .error e g := bind_of_error herror _
      rw [hlower]
      simp only [execute?, hnone]
      exact .error _ _
    · have hx : x ∈ t.env.names := (Environment.isSome_find?_iff t.env x).1 (by rw [hi]; rfl)
      have hn : t.cells[i]? = some t.cells[i] := List.getElem?_eq_getElem hlt
      obtain ⟨c, g', h⟩ := Imperative.evaluates_readName hg.ready hx
      have hok : lower mode (.identifier x) g = .ok (.boxed c) g' := h.ok
      rw [hok]
      simp only [execute?, Option.bind_eq_bind, Option.pure_def, hi, Option.bind_some, hn]
      refine .ok (.of_evaluates hg h ?_)
      simp only [Table.values, Option.bind_eq_bind, hi, Option.bind_some, hn, Option.map_some]
  | binary _ ho _ iha ihb =>
    exact (iha hg).bind fun l r g₁ t₁ hl => (ihb hl.fits).bind fun l' r' g₂ t₂ hr => together_arithmetic (hop _ ho) hl hr _ _
  | scope _ iha => exact iha hg
  | sequence _ ih => exact together_lowerSequence (fun e he => ih e he) (.refl hg)
  | @declare x a _ iha =>
    refine (iha hg).bind fun l r g₁ t₁ hl => ?_
    rcases hl.load a.kind with ⟨herror, hnone⟩ | ⟨ρ, n, g₂, hload, hn, h₂⟩
    · rw [bind_of_error herror]
      simp only [hnone]
      exact .error _ _
    · rw [bind_of_ok hload]
      simp only [hn]
      exact .ok (h₂.declare x)
  | @assign x a _ iha =>
    rcases hg.ownSlot x "Assign" with ⟨hnone, e, herror⟩ | ⟨i, hi, hlt, hown⟩
    · have hlower : lower mode (.assign (.identifier x) a) g = .error e g := bind_of_error herror _
      rw [hlower]
      simp only [execute?, hnone]
      exact .error _ _
    have hlower : lower mode (.assign (.identifier x) a) g =
        (lower mode a >>= fun l => load l a.kind >>= fun value => storeSlot i value) g := bind_of_ok hown _
    rw [hlower]
    simp only [execute?, hi]
    refine (iha hg).bind fun l r g₁ t₁ hl => ?_
    rcases hl.load a.kind with ⟨herror, hnone⟩ | ⟨ρ, n, g₂, hload, hn, h₂⟩
    · rw [bind_of_error herror]
      simp only [hnone]
      exact .error _ _
    · rw [bind_of_ok hload]
      simp only [hn]
      exact .ok (h₂.assign (Nat.lt_of_lt_of_le hlt hl.length))

/-! ## Entries -/

/-- Nothing is declared at first. -/
theorem fits_initial : Fits Generator.initial Table.empty := ⟨Imperative.ready_initial, rfl, rfl⟩

/-- The end of an entry returns what the code left. -/
theorem returns_of_carries {c : Nat} {n : Int32} (h : Carries Generator.initial Table.empty (.boxed c) r g t)
    (hn : t.read? r = some n) : g.toModule.entry.Returns [] (tagInteger n) := by
  refine Imperative.returns_entry (h.stored c rfl) fun {body s} hb hs => ?_
  have hempty : Stands Table.empty g.frames.current.size Generator.initial s :=
    ⟨hs.position, hs.pointer, hs.frame, Nat.zero_le _, fun i n hn => by simp [Table.empty] at hn⟩
  obtain ⟨s', hm, hs', hl⟩ := h.acts hb (Nat.le_of_eq h.fits.size.symm) hempty
  exact ⟨s', hm.reaches, hs'.position, hl.holds hs' hn⟩

/-- A program has code exactly where its meaning by slots is defined. Where this is an integer, the entry returns the tagged form
of it. -/
theorem compile?_cases {e : Expression} (h : IsStraight operators e) (hop : ∀ o, operators o → o ≠ .div) (mode : Signedness) :
    (∃ error, e.compile? mode = .error error ∧ execute? e Table.empty = none) ∨
    ∃ code r t, e.compile? mode = .ok code ∧ execute? e Table.empty = some (r, t) ∧
      ∀ n, t.read? r = some n → code.entry.Returns [] (tagInteger n) := by
  have htogether : Together Generator.initial Table.empty (lower mode e Generator.initial) (execute? e Table.empty) :=
    together_lower h hop fits_initial
  unfold Expression.compile?
  generalize lower mode e Generator.initial = o at htogether
  generalize execute? e Table.empty = p at htogether
  cases htogether with
  | error error g' => exact .inl ⟨error, rfl, rfl⟩
  | @ok l r g t hc =>
    refine .inr ⟨g.toModule, r, t, rfl, rfl, fun n hn => ?_⟩
    rcases hc.usable.cases with ⟨rfl, rfl⟩ | ⟨c, k, rfl, -, hk⟩
    · cases hn
    · exact returns_of_carries hc hn

/-- Where the meaning by slots is an integer, there is code, and the entry returns the tagged form of it. -/
theorem exists_returns {e : Expression} (h : IsStraight operators e) (hop : ∀ o, operators o → o ≠ .div) (mode : Signedness)
    {r : Result} {t : Table} (he : execute? e Table.empty = some (r, t)) {n : Int32} (hn : t.read? r = some n) :
    ∃ code, e.compile? mode = .ok code ∧ code.entry.Returns [] (tagInteger n) := by
  rcases compile?_cases h hop mode with ⟨error, -, hnone⟩ | ⟨code, r', t', hcode, he', hreturns⟩
  · rw [he] at hnone
    cases hnone
  · rw [he] at he'
    cases he'
    exact ⟨code, hcode, hreturns n hn⟩

end Slots

end ExprLang
