import ExprLang.Proofs.Imperative.Interpretation
import ExprLang.Proofs.Imperative.Statement

/-!
# The interpreter and the generated code agree

`compile?_agrees`: where the interpreter ends with an integer, an imperative program has code, and its entry returns the tagged form of
this integer. Both sides are compared with what the program yields: `yields_of_run` says so of the interpreter, and here it is said of
the code (`Results`, `returns_of_yields`).
-/

namespace ExprLang

open Code Lowering

namespace Imperative

variable {body : List Instruction} {mode : Signedness} {names : List String} {values : Values} {size : Nat} {g g' : Generator}
  {s : Machine} {es : List Expression}

/-- The code of a program leads to a cell with the tagged result; the last instruction writes this cell. -/
structure Results (x : Lowering Lowered) (g : Generator) (c : Nat) (g' : Generator) (es : List Expression) : Prop where
  /-- There is code. -/
  ok : x g = .ok (.boxed c) g'
  /-- It comes behind the code before. -/
  begins : ∀ {body}, Begins body g' → Begins body g
  /-- Slots are added. -/
  frame : g.frames.current.size ≤ g'.frames.current.size
  /-- The last instruction writes the cell. -/
  stored : ∃ o, g'.instructions.back? = some (.store o c)
  /-- The code leads to the result. -/
  results : ∀ {body values size s v}, Begins body g' → g'.frames.current.size ≤ size → Stands values size g s → Yields es values v →
    ∃ s', s.Reaches body s' ∧ s'.position = position g' ∧ Holds s' c (tagInteger v)

/-- The generator after a name was declared. -/
def slotDeclared (g : Generator) (x : String) : Generator := { g with frames := (g.frames.declare x g.lastConstant).2 }

/-- A name that was declared has a slot. -/
theorem Ready.declare (h : Ready names g) (x : String) : Ready (x :: names) (slotDeclared g x) := by
  have hsize : (slotDeclared g x).frames.current.size = g.frames.current.size + 1 := Frame.size_declare _ _ _
  refine ⟨h.framePointer, h.register, h.labels, ?_, fun y hy => ?_⟩
  · rw [hsize]
    exact h.wellFormed.bind x
  · show ∃ slot, (g.frames.current.declare x g.lastConstant).2.slot? y = some slot
    rw [Frame.slot?_declare]
    by_cases hyx : y = x
    · exact ⟨_, if_pos hyx⟩
    · obtain ⟨slot, hslot⟩ := h.declared y ((List.mem_cons.1 hy).resolve_left hyx)
      exact ⟨slot, (if_neg hyx).trans hslot⟩

/-- A name that was declared has no value for now. -/
theorem Stands.declare (h : Stands values size g s) (hg : Ready names g) (x : String)
    (hbound : (slotDeclared g x).frames.current.size ≤ size) :
    Stands (Function.update values x none) size (slotDeclared g x) s :=
  ⟨h.position, h.pointer, h.frame, hbound, h.kept.bind hg.wellFormed x fun _ _ => rfl⟩

/-- The code of a declaration writes the value of the expression to the new slot. -/
theorem exists_declare {x : String} {a : Expression} (ha : IsArithmetic mode names a) (hg : Ready names g) :
    ∃ r g', lower mode (.declare x a) g = .ok r g' ∧ (∀ {body}, Begins body g' → Begins body g) ∧ Ready (x :: names) g' ∧
      g.frames.current.size ≤ g'.frames.current.size ∧
      ∀ {body values size s n}, Begins body g' → g'.frames.current.size ≤ size → Stands values size g s →
        arithmetic? values a = some n → ∃ s', s.Reaches body s' ∧ Stands (values.set x n) size g' s' := by
  obtain ⟨r, g₁, h₁⟩ := exists_loads ha hg
  obtain ⟨c, g₀, hlower, hload⟩ := h₁.ok
  let g₂ := slotDeclared g₁ x
  let g₃ := slotStored g₂ g₁.frames.current.size (.register r)
  have h₃ : Appends g.nextLabel g₂ g₃ := appends_slotStored _ _ _ _
  have hg₁ := hg.of_appends h₁.appends
  have hsize₁ : g₁.frames.current.size = g.frames.current.size := by rw [h₁.appends.frames]
  have hsize₃ : g₃.frames.current.size = g₁.frames.current.size + 1 := Frame.size_declare _ _ _
  have hbegins : ∀ {body}, Begins body g₃ → Begins body g₁ := fun hb => h₃.begins hb
  refine ⟨.boxed g₁.nextRegister, g₃, ?_, fun hb => h₁.appends.begins (hbegins hb), (hg₁.declare x).of_appends h₃, by omega, ?_⟩
  · exact (bind_of_ok hlower _).trans ((bind_of_ok hload _).trans rfl)
  intro body values size s n hb hbound hs hn
  obtain ⟨s₁, hr₁, hs₁, hw₁⟩ := h₁.loads (hbegins hb) hs hn
  have hslot : g₂.frames.current.slot? x = some g₁.frames.current.size := (Frame.slot?_declare _ _ _ _).trans (if_pos rfl)
  obtain ⟨s₂, hr₂, hs₂⟩ := stands_slotStored (hg₁.declare x) hb (hs₁.declare hg₁ x hbound) hslot hw₁ h₁.register
  rw [Values.set, Function.update_idem] at hs₂
  exact ⟨s₂, hr₁.trans hr₂, hs₂⟩

/-- Every program has code that leads to its result. -/
theorem results_lowerSequence (h : IsProgram mode names es) (hg : Ready names g) (last : Lowered) :
    ∃ c g', Results (lowerSequence mode es last) g c g' es := by
  -- on the program: its result, a declaration, or a statement in front of the rest
  induction h generalizing g last with
  | @result names a ha =>
    obtain ⟨c, g', he⟩ := evaluates_lower ha hg
    have hframe : g'.frames.current.size = g.frames.current.size := by rw [he.appends.frames]
    refine ⟨c, g', (bind_of_ok he.ok _).trans rfl, he.appends.begins, Nat.le_of_eq hframe.symm, he.stored, ?_⟩
    intro body values size s v hb _ hs hv
    cases hv with
    | result hv =>
      obtain ⟨s', hc, hh⟩ := he.computes hb hs (congrArg (Option.map tagInteger) hv)
      exact ⟨s', hc.reaches, hc.position, hh.holds⟩
    | declare _ hrest => cases hrest
    | statement _ hrest => cases hrest
  | @declare names x a rest ha _ hrest ih =>
    obtain ⟨r, g₁, hok, hbegins, hg₁, hsize, hdeclare⟩ := exists_declare (x := x) ha hg
    obtain ⟨c, g₂, h₂⟩ := ih hg₁ r
    refine ⟨c, g₂, (bind_of_ok hok _).trans h₂.ok, fun hb => hbegins (h₂.begins hb), Nat.le_trans hsize h₂.frame, h₂.stored, ?_⟩
    intro body values size s v hb hbound hs hv
    cases hv with
    | result hv => cases hv
    | declare hn hv =>
      obtain ⟨s₁, hr₁, hs₁⟩ := hdeclare (h₂.begins hb) (Nat.le_trans h₂.frame hbound) hs hn
      obtain ⟨s₂, hr₂, hs₂, hh⟩ := h₂.results hb hbound hs₁ hv
      exact ⟨s₂, hr₁.trans hr₂, hs₂, hh⟩
    | statement he _ => exact he.elim
  | @statement names e rest he hrest ih =>
    obtain ⟨r, g₁, h₁⟩ := does_lower he hg
    obtain ⟨c, g₂, h₂⟩ := ih (hg.of_appends h₁.appends) r
    have hframe : g₁.frames.current.size = g.frames.current.size := by rw [h₁.appends.frames]
    refine ⟨c, g₂, (bind_of_ok h₁.ok _).trans h₂.ok, fun hb => h₁.appends.begins (h₂.begins hb),
      Nat.le_trans (Nat.le_of_eq hframe.symm) h₂.frame, h₂.stored, ?_⟩
    intro body values size s v hb hbound hs hv
    cases hv with
    | result _ => cases hrest
    | declare _ _ => cases he
    | statement hx hv =>
      obtain ⟨s₁, hr₁, hs₁⟩ := h₁.acts (h₂.begins hb) hs hx
      obtain ⟨s₂, hr₂, hs₂, hh⟩ := h₂.results hb hbound hs₁ hv
      exact ⟨s₂, hr₁.trans hr₂, hs₂, hh⟩

/-! ## Whole programs -/

/-- No name is declared at first. -/
theorem ready_initial : Ready [] Generator.initial :=
  ⟨rfl, Nat.lt_succ_self _, fun _ h => absurd h (Array.not_mem_empty _), Environment.wellFormed_empty _, fun _ h => nomatch h⟩

/-- The prologue makes the frame. -/
theorem exists_stands_initial (frame : Frame) (code : List Instruction) :
    ∃ s, (Machine.start []).Reaches
        (Generator.prologue frame Generator.rootAllocation Generator.rootFramePointer ++ code) s ∧
      Stands Values.none frame.size Generator.initial s := by
  let s₀ := Machine.start []
  let s₁ : Machine := { s₀.assign Generator.rootAllocation (.address 0 0) with memory := Memory.empty.allocate frame.size }
  let s₂ := s₁.assign Generator.rootFramePointer (.address 0 0)
  have hmalloc : s₀.execute (Generator.prologue frame Generator.rootAllocation Generator.rootFramePointer ++ code)
      (.malloc Generator.rootAllocation frame.typeText) = some s₁ := by
    simp only [Machine.execute, cellCount?_typeText]
    rfl
  have hpointer : s₂.registers Generator.rootFramePointer = some (.address 0 0) :=
    s₁.registers_assign_self _ _
  refine ⟨s₂, (reaches_of_execute rfl hmalloc).trans (reaches_of_execute rfl rfl), rfl, hpointer, ?_, Nat.zero_le _, .none _ _ _⟩
  exact (Memory.size?_allocate _ _ _).trans (if_pos rfl)

/-- Where the last instruction writes a cell and the code leads to an integer in it, the entry returns this integer. -/
theorem returns_entry {c : Nat} {n : Int32} (hstored : ∃ o, g.instructions.back? = some (.store o c))
    (hleads : ∀ {body s}, Begins body g → Stands Values.none g.frames.current.size Generator.initial s →
      ∃ s', s.Reaches body s' ∧ s'.position = position g ∧ Holds s' c n) : g.toModule.entry.Returns [] n := by
  obtain ⟨o, hstored⟩ := hstored
  have hclose := close_of_stored hstored
  let g₁ := g.emitted (.load · c)
  have hload : Appends 0 g g₁ := appends_emitted _ _ fun _ _ => nofun
  have hcode : g.close.instructions.toList = g₁.instructions.toList ++ [.ret (.register g.nextRegister)] := by
    rw [hclose]
    exact Array.toList_push
  have hframe : g.close.frames.current = g.frames.current := by rw [hclose]
  have hb : Begins g.toModule.entry.body g.close := ⟨_, _, _, [], by rw [List.append_nil]; rfl⟩
  have hb₁ : Begins g.toModule.entry.body g₁ := ⟨_, _, _, _, by rw [← hcode]; rfl⟩
  obtain ⟨s₀, hr₀, hs₀⟩ := exists_stands_initial g.close.frames.current g.close.instructions.toList
  rw [hframe] at hs₀
  obtain ⟨s₁, hr₁, hs₁, hh⟩ := hleads (hload.begins hb₁) hs₀
  obtain ⟨s₂, hc₂, hw₂, -⟩ := computes_load hb₁ hs₁ hh
  have hret : g.toModule.entry.body[s₂.position]? = some (.ret (.register g.nextRegister)) := by
    rw [hc₂.position]
    exact hb.getElem? hcode (k := 0) rfl
  have hreturned : s₂.returned? g.toModule.entry.body = some n := by
    simp only [Machine.returned?, hret]
    exact operand?_register hw₂
  exact ((hr₀.trans hr₁).trans hc₂.reaches).exists_run hreturned

/-- If a program yields an integer, it has code, and the entry returns the tagged form of this integer. -/
theorem returns_of_yields (h : IsProgram mode [] es) {v : Int32} (hv : Yields es Values.none v) :
    ∃ m, (Expression.sequence es).compile? mode = .ok m ∧ m.entry.Returns [] (tagInteger v) := by
  obtain ⟨c, g, hg⟩ := results_lowerSequence h ready_initial .nothing
  refine ⟨g.toModule, ?_, returns_entry hg.stored fun hb hs => hg.results hb (Nat.le_refl _) hs hv⟩
  have hok : lower mode (.sequence es) Generator.initial = .ok (.boxed c) g := hg.ok
  rw [Expression.compile?, hok]

end Imperative

open Imperative

/-- The interpreter and the generated code agree on imperative programs: if the interpreter ends with an integer, and every operand of a
comparison or of a division is one of which nothing is lost when it is tagged, then the program has code, and executing the entry returns
the tagged form of the integer. -/
theorem compile?_agrees {σ : Type} [Sink σ] {mode : Signedness} {es : List Expression} (h : IsProgram mode [] es)
    {reclamation : Reclamation} {steps : Nat} {output : σ} {v : Int32} {m : Interpreter σ}
    (hrun : run reclamation steps (.sequence es) (.initial output) = .ok (.int v) m)
    (hfit : OperandsFit reclamation steps (.sequence es) (.initial output)) :
    ∃ code, (Expression.sequence es).compile? mode = .ok code ∧ code.entry.Returns [] (tagInteger v) :=
  returns_of_yields h (yields_of_run h hrun hfit)

/-- Multiplies the numbers up to five one after the other, and divides the product. -/
def dividedFactorial : List Expression :=
  [.declare "n" (.integer 5), .declare "product" (.integer 1),
    .loop (.binary (.identifier "n") (.comparison .greater) (.integer 0))
      (.sequence [.assign (.identifier "product") (.binary (.identifier "product") (.arithmetic .mul) (.identifier "n")),
        .assign (.identifier "n") (.binary (.identifier "n") (.arithmetic .sub) (.integer 1))]),
    .binary (.identifier "product") (.arithmetic .div) (.integer 7)]

theorem isProgram_dividedFactorial : IsProgram .signed [] dividedFactorial := by
  refine .declare (.integer 5) (by decide) (.declare (.integer 1) (by decide) (.statement (.loop ?_ (.sequence ?_)) (.result ?_)))
  · exact .comparison .greater (.identifier (by decide)) (.integer 0)
  · refine List.forall_mem_cons.2 ⟨?_, List.forall_mem_cons.2 ⟨?_, fun _ h => nomatch h⟩⟩
    · exact .assign (by decide) (.binary (.identifier (by decide)) (.identifier (by decide)) nofun)
    · exact .assign (by decide) (.binary (.identifier (by decide)) (.integer 1) nofun)
  · exact .binary (.identifier (by decide)) (.integer 7) fun _ => rfl

/-- The quotient is rounded towards zero on both sides. -/
theorem compile?_agrees_dividedFactorial :
    ∃ m code, run .onExit 20 (.sequence dividedFactorial) (.initial (Output.empty none)) = .ok (.int 17) m ∧
      OperandsFit .onExit 20 (.sequence dividedFactorial) (.initial (Output.empty none)) ∧
      (Expression.sequence dividedFactorial).compile? .signed = .ok code ∧ code.entry.Returns [] 68 := by
  obtain ⟨m, hrun⟩ := exists_of_integer? (by decide +kernel :
    integer? (run .onExit 20 (.sequence dividedFactorial) (.initial (Output.empty none))) = some 17)
  obtain ⟨_, _, hwithin, -⟩ := exists_of_succeeds (by decide +kernel : succeeds (fun _ _ => true)
    (evaluateWithin .onExit 20 (.sequence dividedFactorial) Environment.empty (.initial (Output.empty none))) = true)
  have hfit := operandsFit_of_ok hwithin
  obtain ⟨code, hcode, hreturns⟩ := compile?_agrees isProgram_dividedFactorial hrun hfit
  exact ⟨m, code, hrun, hfit, hcode, hreturns⟩

end ExprLang
