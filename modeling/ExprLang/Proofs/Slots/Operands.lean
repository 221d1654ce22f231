import ExprLang.Proofs.Slots.Code
import ExprLang.Proofs.Slots.Interpretation

/-!
# Assignments among operands

Programs over integers in which assignments may stand among the operands of operators, and in which names are declared at the top level
before they occur (`IsTopLevel`). If the interpreter ends with an integer, such a program has code, and its entry returns an integer. It
is the same one unless a left operand is an assignment to a name that the right operand assigns to as well: the code reads the slot only
after both operands (`compile?_agrees_unless_overwritten`, `overwritten_returns_last`).
-/

namespace ExprLang

open Code Lowering Evaluation

namespace Slots

/-! ## Syntax -/

/-- Integers, names that are declared, operators other than division, sequences, and assignments to names that are declared; what is
assigned leaves a value. -/
inductive IsOperand (names : List String) : Expression → Prop where
  | integer (n : Int32) : IsOperand names (.integer n)
  | identifier {x : String} (hx : x ∈ names) : IsOperand names (.identifier x)
  | binary {a b : Expression} {o : Arithmetic} (ha : IsOperand names a) (ho : o ≠ .div) (hb : IsOperand names b) :
      IsOperand names (.binary a (.arithmetic o) b)
  | sequence {es : List Expression} (hes : ∀ e ∈ es, IsOperand names e) : IsOperand names (.sequence es)
  | assign {x : String} {a : Expression} (hx : x ∈ names) (ha : IsOperand names a) (hvalue : (final? a).isSome) :
      IsOperand names (.assign (.identifier x) a)

/-- Operands and declarations one after the other, given the names that are declared before and after. -/
inductive IsTopLevel : List String → Expression → List String → Prop where
  | operand {names : List String} {e : Expression} (he : IsOperand names e) : IsTopLevel names e names
  | declare {names : List String} (x : String) {a : Expression} (ha : IsOperand names a) (hvalue : (final? a).isSome) :
      IsTopLevel names (.declare x a) (x :: names)
  | nil (names : List String) : IsTopLevel names (.sequence []) names
  | cons {names names' names'' : List String} {e : Expression} {rest : List Expression} (he : IsTopLevel names e names')
      (hrest : IsTopLevel names' (.sequence rest) names'') : IsTopLevel names (.sequence (e :: rest)) names''

variable {names names' : List String} {e : Expression} {es : List Expression} {needed : Bool}

theorem IsOperand.isStraight (h : IsOperand names e) : IsStraight (· ≠ .div) e := by
  induction h with
  | integer n => exact .integer n
  | identifier _ => exact .identifier _
  | binary _ ho _ iha ihb => exact .binary iha ho ihb
  | sequence _ ih => exact .sequence ih
  | assign _ _ _ iha => exact .assign _ iha

theorem IsTopLevel.isStraight (h : IsTopLevel names e names') : IsStraight (· ≠ .div) e := by
  induction h with
  | operand he => exact he.isStraight
  | declare x ha _ => exact .declare x ha.isStraight
  | nil _ => exact .nil
  | cons _ _ ihe ihrest => exact .cons ihe ihrest

/-! ## No name is stale -/

theorem declaredAll_eq_nil {blocks : Bool} (h : ∀ e ∈ es, declared blocks e = []) : declaredAll blocks es = [] := by
  induction es with
  | nil => rfl
  | cons e rest ih =>
    obtain ⟨hfirst, hrest⟩ := List.forall_mem_cons.1 h
    rw [declaredAll, hfirst, ih hrest, List.append_nil]

/-- Operands declare nothing. -/
theorem IsOperand.declared_eq (h : IsOperand names e) (blocks : Bool) : declared blocks e = [] := by
  induction h with
  | integer _ | identifier _ => rfl
  | binary _ _ _ iha ihb => rw [declared, iha, ihb, List.append_nil]
  | sequence _ ih => exact declaredAll_eq_nil ih
  | assign _ _ _ iha => exact iha

theorem staleAll?_eq (h : ∀ e ∈ es, ∀ needed, stale? e needed [] = some []) : staleAll? es needed [] = some [] := by
  induction es with
  | nil => rfl
  | cons e rest ih =>
    obtain ⟨hfirst, hrest⟩ := List.forall_mem_cons.1 h
    rw [staleAll?, hfirst]
    exact ih hrest

theorem IsOperand.stale?_eq (h : IsOperand names e) (needed : Bool) : stale? e needed [] = some [] := by
  induction h generalizing needed with
  | integer _ => rfl
  | identifier _ => simp [stale?]
  | binary _ _ _ iha ihb => simp [stale?, iha, ihb]
  | sequence _ ih => exact staleAll?_eq ih
  | assign _ ha _ iha => simp [stale?, ha.declared_eq, iha]

/-- No name is ever stale where names are declared at the top level only. -/
theorem IsTopLevel.stale?_eq (h : IsTopLevel names e names') (needed : Bool) : stale? e needed [] = some [] := by
  induction h generalizing needed with
  | operand he => exact he.stale?_eq needed
  | declare x ha _ => simp [Expression.declare, stale?, ha.declared_eq, ha.stale?_eq]
  | nil _ => rfl
  | @cons _ _ _ e rest _ _ ihe ihrest =>
    rw [stale?, staleAll?, ihe]
    exact ihrest needed

/-! ## Meaning -/

section

variable {t t' : Table} {res : Result}

/-- The names have slots. -/
structure Table.Has (t : Table) (names : List String) : Prop where
  /-- Each binding has a slot of its own. -/
  wellFormed : t.env.WellFormed t.cells.length
  /-- The names are bound. -/
  bound : ∀ x ∈ names, ∃ i, t.env.find? x = some i

/-- Names keep having slots. -/
theorem Table.Has.of_execute? {operators : Arithmetic → Prop} (ht : t.Has names) (h : IsStraight operators e)
    (he : execute? e t = some (res, t')) : t'.Has names := by
  have hd := develops_execute? h he
  refine ⟨hd.wellFormed ht.wellFormed, fun x hx => ?_⟩
  by_cases hdeclared : x ∈ declared true e
  · obtain ⟨i, -, hi⟩ := hd.declares.fresh x hdeclared
    exact ⟨i, hi⟩
  · rw [hd.declares.same x hdeclared]
    exact ht.bound x hx

/-- No operator is for operands without a value. -/
theorem ne_void_of_apply {o : Arithmetic} {v w u : Value} (h : o.apply v w = .ok u) : v ≠ .void ∧ w ≠ .void := by
  constructor <;> rintro rfl
  · cases h
  · cases v <;> cases h

variable {σ : Type} [Sink σ] {reclamation : Reclamation} {steps : Nat} {env : Environment} {m m' : Interpreter σ} {r : Evaluated}

/-- Where something has a value for the interpreter, there is an expression that has the result. -/
theorem final?_ne_none {operators : Arithmetic → Prop} (h : IsStraight operators e)
    (he : evaluate reclamation steps e env m = .ok r m') {v : Value} {context : String}
    (hv : m'.resolve r.value r.env context = .ok v) (hne : v ≠ .void) : final? e ≠ none := by
  intro hf
  rw [void_evaluate h hf he] at hv
  cases hv
  exact hne rfl

theorem exists_executeAll? (hes : ∀ e ∈ es, IsOperand names e)
    (ih : ∀ e ∈ es, ∀ {env : Environment} {m m' : Interpreter σ} {r : Evaluated} {t : Table}, t.Has names →
      evaluate reclamation steps e env m = .ok r m' → ∃ res t', execute? e t = some (res, t'))
    (ht : t.Has names) (last : Result) {lastEvaluated : Evaluated}
    (he : sequence (evaluate reclamation steps) es lastEvaluated m = .ok r m') : ∃ res t', executeAll? es last t = some (res, t') := by
  induction es generalizing t last lastEvaluated m with
  | nil => exact ⟨_, _, rfl⟩
  | cons e rest hrec =>
    obtain ⟨hfirst, hrest⟩ := List.forall_mem_cons.1 hes
    obtain ⟨ihfirst, ihrest⟩ := List.forall_mem_cons.1 ih
    obtain ⟨r₁, m₁, he₁, he⟩ := bind_ok_iff.1 he
    obtain ⟨res₁, t₁, ht₁⟩ := ihfirst ht he₁
    obtain ⟨res, t', ht'⟩ := hrec hrest ihrest (ht.of_execute? hfirst.isStraight ht₁) res₁ he
    exact ⟨res, t', by simp [executeAll?, ht₁, ht']⟩

/-- Where the interpreter evaluates an operand, this has a meaning by slots. -/
theorem IsOperand.exists_execute? (h : IsOperand names e) (ht : t.Has names) (he : evaluate reclamation steps e env m = .ok r m') :
    ∃ res t', execute? e t = some (res, t') := by
  induction h generalizing steps env m m' r t with
  | integer n => exact ⟨_, _, rfl⟩
  | identifier hx =>
    obtain ⟨i, hi⟩ := ht.bound _ hx
    have hlt : i < t.cells.length := ht.wellFormed.find?_lt hi
    exact ⟨.value t.cells[i], t, by simp [execute?, hi, hlt]⟩
  | @binary a b o ha ho hb iha ihb =>
    obtain ⟨k, he⟩ := exists_step he
    obtain ⟨l, m₁, v, r₁, w, u, hl, hv, hr, hw, hu, rfl⟩ := binary_ok he
    obtain ⟨left, t₁, hta⟩ := iha ht hl
    have ht₁ := ht.of_execute? ha.isStraight hta
    obtain ⟨right, t₂, htb⟩ := ihb ht₁ hr
    have hle := (develops_execute? hb.isStraight htb).length
    obtain ⟨hv', hw'⟩ := ne_void_of_apply hu
    obtain ⟨x, hx⟩ := exists_read? ha.isStraight ht.wellFormed hta (final?_ne_none ha.isStraight hl hv hv') hle
    obtain ⟨y, hy⟩ := exists_read? hb.isStraight ht₁.wellFormed htb (final?_ne_none hb.isStraight hr hw hw') (Nat.le_refl _)
    obtain ⟨n, hn⟩ := exists_compute? ho x y
    exact ⟨.value n, t₂, by simp [execute?, hta, htb, hx, hy, hn]⟩
  | sequence hes ih =>
    obtain ⟨k, he⟩ := exists_step he
    exact exists_executeAll? hes (fun e hmem => ih e hmem) ht _ he
  | @assign x a hx ha hvalue iha =>
    obtain ⟨k, slot, r₁, m₁, v, -, hr, -, -, rfl⟩ := evaluate_assign_ok he
    obtain ⟨i, hi⟩ := ht.bound _ hx
    obtain ⟨res₁, t₁, hta⟩ := iha ht hr
    obtain ⟨n, hn⟩ := exists_read? ha.isStraight ht.wellFormed hta (Option.isSome_iff_ne_none.1 hvalue) (Nat.le_refl _)
    exact ⟨.slot i, t₁.set i n, by simp [execute?, hi, hta, hn]⟩

/-- Where the interpreter evaluates a program, this has a meaning by slots. -/
theorem IsTopLevel.exists_execute? (h : IsTopLevel names e names') (ht : t.Has names)
    (he : evaluate reclamation steps e env m = .ok r m') : ∃ res t', execute? e t = some (res, t') ∧ t'.Has names' := by
  induction h generalizing steps env m m' r t with
  | operand he' =>
    obtain ⟨res, t', hte⟩ := he'.exists_execute? ht he
    exact ⟨res, t', hte, ht.of_execute? he'.isStraight hte⟩
  | @declare names x a ha hvalue =>
    obtain ⟨k, r₁, m₁, v, hr, -, -, rfl⟩ := evaluate_declare_ok he
    obtain ⟨res₁, t₁, hta⟩ := ha.exists_execute? ht hr
    obtain ⟨n, hn⟩ := exists_read? ha.isStraight ht.wellFormed hta (Option.isSome_iff_ne_none.1 hvalue) (Nat.le_refl _)
    have hte : execute? (.declare x a) t = some (.slot t₁.cells.length, t₁.declare x n) := by
      simp [Expression.declare, execute?, hta, hn]
    have hnames := ht.of_execute? (IsStraight.declare x ha.isStraight) hte
    refine ⟨_, _, hte, hnames.wellFormed, List.forall_mem_cons.2 ⟨⟨t₁.cells.length, ?_⟩, hnames.bound⟩⟩
    exact (Environment.find?_bind _ _ _ _).trans (if_pos rfl)
  | nil _ => exact ⟨_, _, rfl, ht⟩
  | @cons _ _ _ e rest _ hrest ihe ihrest =>
    obtain ⟨k, he⟩ := exists_step he
    obtain ⟨r₁, m₁, he₁, he⟩ := bind_ok_iff.1 he
    obtain ⟨res₁, t₁, hte, ht₁⟩ := ihe ht he₁
    have hcons : execute? (.sequence (e :: rest)) t = executeAll? rest res₁ t₁ := by simp [execute?, executeAll?, hte]
    -- the value before matters only if nothing follows
    cases rest with
    | nil =>
      obtain ⟨res, t', hrest', hnames⟩ := ihrest ht₁ (rfl : evaluate reclamation 1 (.sequence []) env m = .ok ⟨.void, env⟩ m)
      cases hrest'
      exact ⟨res₁, t₁, hcons, hnames⟩
    | cons e' rest =>
      have he' : evaluate reclamation (k + 1) (.sequence (e' :: rest)) r₁.env m₁ = .ok r m' := he
      obtain ⟨res, t', hrest', hnames⟩ := ihrest ht₁ he'
      exact ⟨res, t', hcons.trans hrest', hnames⟩

end

end Slots

open Slots

/-- If the interpreter ends with an integer, a program over integers in which assignments are operands has code, and executing the entry
returns the tagged form of the integer that the program stands for by slots. It is the integer of the interpreter, so each left operand
counts with the value that it had when it was evaluated, unless a left operand is an assignment to a name that the right operand assigns
to as well. -/
theorem compile?_agrees_unless_overwritten {σ : Type} [Sink σ] {mode : Signedness} {e : Expression} {names : List String}
    (h : IsTopLevel [] e names) {reclamation : Reclamation} {steps : Nat} {output : σ} {v : Int32} {m : Interpreter σ}
    (hrun : run reclamation steps e (.initial output) = .ok (.int v) m) :
    ∃ code w, e.compile? mode = .ok code ∧ result? e = some w ∧ code.entry.Returns [] (tagInteger w) ∧
      (overwrites e = false → w = v) := by
  have hempty : Table.empty.Has [] := ⟨Environment.wellFormed_empty _, fun x hx => nomatch hx⟩
  have hop : ∀ o : Arithmetic, o ≠ .div → o ≠ .div := fun _ => id
  obtain ⟨r, he, -⟩ := run_ok hrun
  obtain ⟨res, t, ht, -⟩ := h.exists_execute? hempty he
  obtain ⟨w, hw⟩ := exists_read?_of_run h.isStraight hrun ht
  obtain ⟨code, hcode, hreturns⟩ := exists_returns h.isStraight hop mode ht hw
  have hresult : result? e = some w := by simp [result?, ht, hw]
  exact ⟨code, w, hcode, hresult, hreturns, fun ho => eq_of_run h.isStraight hop ho (by rw [h.stale?_eq]; rfl) hrun ht hw⟩

/-- Changes names in operands behind others that read them. -/
def changedBehind : Expression :=
  .sequence [.declare "x" (.integer 1),
    .declare "y" (.binary (.identifier "x") (.arithmetic .sub) (.assign (.identifier "x") (.integer 5))),
    .binary (.assign (.identifier "y") (.binary (.identifier "y") (.arithmetic .mul) (.identifier "x"))) (.arithmetic .add)
      (.assign (.identifier "x") (.binary (.identifier "x") (.arithmetic .add) (.identifier "y")))]

theorem isTopLevel_changedBehind : IsTopLevel [] changedBehind ["y", "x"] := by
  refine .cons (.declare "x" (.integer 1) rfl) (.cons (.declare "y" ?_ rfl) (.cons (.operand (.binary ?_ nofun ?_)) (.nil _)))
  · exact .binary (.identifier (by decide)) nofun (.assign (by decide) (.integer 5) rfl)
  · exact .assign (by decide) (.binary (.identifier (by decide)) nofun (.identifier (by decide))) rfl
  · exact .assign (by decide) (.binary (.identifier (by decide)) nofun (.identifier (by decide))) rfl

/-- What is read on the left is what was there before. -/
theorem compile?_agrees_unless_overwritten_changedBehind :
    ∃ m code, run .onExit 20 changedBehind (.initial (Output.empty none)) = .ok (.int (-35)) m ∧
      changedBehind.compile? .signed = .ok code ∧ code.entry.Returns [] (-140) := by
  obtain ⟨m, hrun⟩ := exists_of_integer? (by decide +kernel :
    integer? (run .onExit 20 changedBehind (.initial (Output.empty none))) = some (-35))
  obtain ⟨code, w, hcode, -, hreturns, heq⟩ := compile?_agrees_unless_overwritten isTopLevel_changedBehind hrun
  obtain rfl := heq (by decide)
  exact ⟨m, code, hrun, hcode, hreturns⟩

/-- The left operand and the right one assign to the same name. -/
def overwritten : Expression :=
  .sequence [.declare "x" (.integer 0),
    .binary (.assign (.identifier "x") (.integer 1)) (.arithmetic .add) (.assign (.identifier "x") (.integer 2))]

theorem isTopLevel_overwritten : IsTopLevel [] overwritten ["x"] :=
  .cons (.declare "x" (.integer 0) rfl) (.cons (.operand (.binary (.assign (by decide) (.integer 1) rfl) nofun
    (.assign (by decide) (.integer 2) rfl))) (.nil _))

/-- The interpreter adds what the operands assigned, and the code adds the last of it to itself. -/
theorem overwritten_returns_last :
    IsTopLevel [] overwritten ["x"] ∧ ∃ m code, run .onExit 10 overwritten (.initial (Output.empty none)) = .ok (.int 3) m ∧
      overwritten.compile? .signed = .ok code ∧ code.entry.Returns [] 16 ∧ ¬code.entry.Returns [] 12 := by
  obtain ⟨m, hrun⟩ := exists_of_integer? (by decide +kernel :
    integer? (run .onExit 10 overwritten (.initial (Output.empty none))) = some 3)
  have hresult : execute? overwritten Table.empty = some (.value 4, ⟨⟨[("x", 0)]⟩, [2]⟩) := by decide
  obtain ⟨code, hcode, hlast⟩ := exists_returns isTopLevel_overwritten.isStraight (fun _ => id) .signed hresult rfl
  exact ⟨isTopLevel_overwritten, m, code, hrun, hcode, hlast, fun h => absurd (hlast.eq h) (by decide)⟩

end ExprLang
