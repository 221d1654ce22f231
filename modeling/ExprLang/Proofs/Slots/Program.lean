import ExprLang.Expression.Basic
import ExprLang.Proofs.Environment
import ExprLang.Proofs.Lowering.Tag

/-!
# Programs without branches, by slots

Programs that compute with integers, declare and assign names, and do so in any nesting but never branch or call (`IsStraight`). What
their code does can be said without a machine: each declaration takes the next slot of one table, a name stands for the slot of its
latest declaration, whether a block has ended since or not, and the value of an assignment is the slot that was written, not what was
in it then (`execute?`). An operand is read only when both operands are there.

A name keeps its slot where it is not declared (`Develops.same`), and a slot keeps what is in it where no name is assigned that stands
for it (`Develops.untouched`).
-/

namespace ExprLang

namespace Slots

/-! ## Syntax -/

/-- Integers, names, some operators, blocks, sequences, and declarations and assignments with a value, in any nesting. -/
inductive IsStraight (operators : Arithmetic → Prop) : Expression → Prop where
  | integer (n : Int32) : IsStraight operators (.integer n)
  | identifier (x : String) : IsStraight operators (.identifier x)
  | binary {a b : Expression} {o : Arithmetic} (ha : IsStraight operators a) (ho : operators o) (hb : IsStraight operators b) :
      IsStraight operators (.binary a (.arithmetic o) b)
  | scope {a : Expression} (ha : IsStraight operators a) : IsStraight operators (.scope a)
  | sequence {es : List Expression} (hes : ∀ e ∈ es, IsStraight operators e) : IsStraight operators (.sequence es)
  | declare (x : String) {a : Expression} (ha : IsStraight operators a) : IsStraight operators (.assign (.varDecl x) a)
  | assign (x : String) {a : Expression} (ha : IsStraight operators a) : IsStraight operators (.assign (.identifier x) a)

theorem IsStraight.nil {operators : Arithmetic → Prop} : IsStraight operators (.sequence []) := .sequence fun _ h => nomatch h

theorem IsStraight.cons {operators : Arithmetic → Prop} {e : Expression} {rest : List Expression} (he : IsStraight operators e)
    (hrest : IsStraight operators (.sequence rest)) : IsStraight operators (.sequence (e :: rest)) := by
  cases hrest with
  | sequence hrest => exact .sequence (List.forall_mem_cons.2 ⟨he, hrest⟩)

mutual

/-- The names that an expression declares, in blocks as well if these count. -/
def declared (blocks : Bool) : Expression → List String
  | .binary a _ b => declared blocks a ++ declared blocks b
  | .scope a => if blocks then declared blocks a else []
  | .sequence es => declaredAll blocks es
  | .assign (.varDecl x) a => x :: declared blocks a
  | .assign _ a => declared blocks a
  | _ => []
termination_by structural e => e

/-- The names that expressions declare. -/
def declaredAll (blocks : Bool) : List Expression → List String
  | [] => []
  | e :: rest => declared blocks e ++ declaredAll blocks rest
termination_by structural es => es

end

mutual

/-- The names that an expression assigns to; a declaration gives a slot of its own its first value. -/
def assigned : Expression → List String
  | .binary a _ b => assigned a ++ assigned b
  | .scope a => assigned a
  | .sequence es => assignedAll es
  | .assign (.identifier x) a => x :: assigned a
  | .assign _ a => assigned a
  | _ => []
termination_by structural e => e

/-- The names that expressions assign to. -/
def assignedAll : List Expression → List String
  | [] => []
  | e :: rest => assigned e ++ assignedAll rest
termination_by structural es => es

end

mutual

/-- The expression whose result is that of an expression: what is in a block, and the last one of a sequence, if there is one. -/
def final? : Expression → Option Expression
  | .scope a => final? a
  | .sequence es => finalAll? es
  | e => some e
termination_by structural e => e

/-- The expression whose result is that of expressions one after the other. -/
def finalAll? : List Expression → Option Expression
  | [] => none
  | [e] => final? e
  | _ :: rest => finalAll? rest
termination_by structural es => es

end

/-- The name whose slot is the result of an expression. -/
def resultName? (e : Expression) : Option String :=
  match final? e with
  | some (.assign (.varDecl x) _) | some (.assign (.identifier x) _) => some x
  | _ => none

/-! ## Meaning -/

/-- Names, the slots that they stand for, and what is in the slots. -/
structure Table where
  /-- Names and slots. -/
  env : Environment
  /-- What is in the slots. -/
  cells : List Int32
deriving DecidableEq

/-- What the code of an expression leaves. -/
inductive Result where
  /-- No value. -/
  | nothing
  /-- An integer in a cell of its own. -/
  | value (n : Int32)
  /-- A slot. -/
  | slot (i : Nat)
deriving DecidableEq

namespace Table

/-- No name is declared. -/
def empty : Table := ⟨Environment.empty, []⟩

/-- The integer that a result stands for by now. -/
def read? (t : Table) : Result → Option Int32
  | .nothing => none
  | .value n => some n
  | .slot i => t.cells[i]?

/-- A name gets the next slot. -/
def declare (t : Table) (x : String) (n : Int32) : Table := ⟨t.env.bind x t.cells.length, t.cells ++ [n]⟩

/-- A slot is written. -/
def set (t : Table) (i : Nat) (n : Int32) : Table := { t with cells := t.cells.set i n }

end Table

mutual

/-- What the code of an expression leaves, and what it makes of the slots. -/
def execute? : Expression → Table → Option (Result × Table)
  | .integer n, t => some (.value n, t)
  | .identifier x, t => do
    let i ← t.env.find? x
    return (.value (← t.cells[i]?), t)
  | .binary a (.arithmetic o) b, t => do
    let (l, t₁) ← execute? a t
    let (r, t₂) ← execute? b t₁
    return (.value (← o.compute? (← t₂.read? l) (← t₂.read? r)), t₂)
  | .scope a, t => execute? a t
  | .sequence es, t => executeAll? es .nothing t
  | .assign (.varDecl x) a, t => do
    let (r, t₁) ← execute? a t
    return (.slot t₁.cells.length, t₁.declare x (← t₁.read? r))
  | .assign (.identifier x) a, t => do
    let i ← t.env.find? x
    let (r, t₁) ← execute? a t
    return (.slot i, t₁.set i (← t₁.read? r))
  | _, _ => none
termination_by structural e => e

/-- What the code of expressions one after the other leaves. -/
def executeAll? : List Expression → Result → Table → Option (Result × Table)
  | [], last, t => some (last, t)
  | e :: rest, _, t => do
    let (r, t₁) ← execute? e t
    executeAll? rest r t₁
termination_by structural es => es

end

/-- The integer that the code of a program computes. -/
def result? (program : Expression) : Option Int32 := do
  let (r, t) ← execute? program Table.empty
  t.read? r

/-! ## Meanings that are defined -/

section

variable {a b e : Expression} {rest : List Expression} {x : String} {o : Arithmetic} {t t' : Table} {r last : Result}

/-- A name has the value in its cell. -/
theorem of_execute?_identifier (h : execute? (.identifier x) t = some (r, t')) :
    ∃ i n, t.env.find? x = some i ∧ t.cells[i]? = some n ∧ r = .value n ∧ t' = t := by
  simp only [execute?, Option.bind_eq_bind, Option.bind_eq_some_iff] at h
  obtain ⟨i, hi, n, hn, h⟩ := h
  cases h
  exact ⟨i, n, hi, hn, rfl, rfl⟩

/-- Operands are looked at after both were executed. -/
theorem of_execute?_binary (h : execute? (.binary a (.arithmetic o) b) t = some (r, t')) :
    ∃ left t₁ right x y n, execute? a t = some (left, t₁) ∧ execute? b t₁ = some (right, t') ∧ t'.read? left = some x ∧
      t'.read? right = some y ∧ o.compute? x y = some n ∧ r = .value n := by
  simp only [execute?, Option.bind_eq_bind, Option.bind_eq_some_iff, Prod.exists] at h
  obtain ⟨left, t₁, ha, right, t₂, hb, x, hx, y, hy, n, hn, h⟩ := h
  cases h
  exact ⟨left, t₁, right, x, y, n, ha, hb, hx, hy, hn, rfl⟩

/-- The slot of a declaration is the next one. -/
theorem of_execute?_declare (h : execute? (.assign (.varDecl x) a) t = some (r, t')) :
    ∃ r₁ t₁ n, execute? a t = some (r₁, t₁) ∧ t₁.read? r₁ = some n ∧ r = .slot t₁.cells.length ∧ t' = t₁.declare x n := by
  simp only [execute?, Option.bind_eq_bind, Option.bind_eq_some_iff, Prod.exists] at h
  obtain ⟨r₁, t₁, ha, n, hn, h⟩ := h
  cases h
  exact ⟨r₁, t₁, n, ha, hn, rfl, rfl⟩

/-- The slot of an assignment is that of the name. -/
theorem of_execute?_assign (h : execute? (.assign (.identifier x) a) t = some (r, t')) :
    ∃ i r₁ t₁ n, t.env.find? x = some i ∧ execute? a t = some (r₁, t₁) ∧ t₁.read? r₁ = some n ∧ r = .slot i ∧
      t' = t₁.set i n := by
  simp only [execute?, Option.bind_eq_bind, Option.bind_eq_some_iff, Prod.exists] at h
  obtain ⟨i, hi, r₁, t₁, ha, n, hn, h⟩ := h
  cases h
  exact ⟨i, r₁, t₁, n, hi, ha, hn, rfl, rfl⟩

/-- Expressions are executed one after the other. -/
theorem of_executeAll?_cons (h : executeAll? (e :: rest) last t = some (r, t')) :
    ∃ r₁ t₁, execute? e t = some (r₁, t₁) ∧ executeAll? rest r₁ t₁ = some (r, t') := by
  simp only [executeAll?, Option.bind_eq_bind, Option.bind_eq_some_iff, Prod.exists] at h
  exact h

end

end Slots

/-! ## What becomes of names and slots -/

/-- What names stand for when some were declared, in slots of which none is among the first `size`. -/
structure Environment.Declares (names : List String) (size : Nat) (env env' : Environment) : Prop where
  /-- The others stand for what they stood for. -/
  same : ∀ x, x ∉ names → env'.find? x = env.find? x
  /-- Those that were declared stand for new slots. -/
  fresh : ∀ x, x ∈ names → ∃ slot, size ≤ slot ∧ env'.find? x = some slot

namespace Environment.Declares

variable {names names' : List String} {size size' slot : Nat} {env env' env'' : Environment} {x : String}

theorem refl (size : Nat) (env : Environment) : env.Declares [] size env := ⟨fun _ _ => rfl, fun _ h => nomatch h⟩

/-- Declarations follow each other, in cells that are handed out one after the other. -/
theorem trans (h : env.Declares names size env') (h' : env'.Declares names' size' env'') (hle : size ≤ size') :
    env.Declares (names ++ names') size env'' := by
  refine ⟨fun x hx => ?_, fun x hx => ?_⟩
  · rw [List.mem_append, not_or] at hx
    rw [h'.same x hx.2, h.same x hx.1]
  · by_cases hx' : x ∈ names'
    · obtain ⟨slot, hslot, hfind⟩ := h'.fresh x hx'
      exact ⟨slot, Nat.le_trans hle hslot, hfind⟩
    · rw [h'.same x hx']
      exact h.fresh x ((List.mem_append.1 hx).resolve_right hx')

/-- A name is bound behind those that were declared before. -/
theorem bind (h : env.Declares names size env') (hle : size ≤ slot) (x : String) :
    env.Declares (x :: names) size (env'.bind x slot) := by
  refine ⟨fun y hy => ?_, fun y hy => ?_⟩
  · rw [List.mem_cons, not_or] at hy
    rw [find?_bind, if_neg hy.1, h.same y hy.2]
  · rw [find?_bind]
    by_cases hyx : y = x
    · exact ⟨slot, hle, if_pos hyx⟩
    · rw [if_neg hyx]
      exact h.fresh y ((List.mem_cons.1 hy).resolve_left hyx)

/-- What stands for one of the first slots was not declared. -/
theorem not_mem (h : env.Declares names size env') (hx : env'.find? x = some slot) (hlt : slot < size) : x ∉ names := by
  intro hmem
  obtain ⟨slot', hle, hx'⟩ := h.fresh x hmem
  rw [hx] at hx'
  cases hx'
  omega

/-- What stands for one of the first slots stood for it before. -/
theorem find?_eq (h : env.Declares names size env') (hx : env'.find? x = some slot) (hlt : slot < size) :
    env.find? x = some slot :=
  (h.same x (h.not_mem hx hlt)).symm.trans hx

end Environment.Declares

namespace Slots

/-- What becomes of a table where some names are declared and some are assigned to. -/
structure Develops (declared assigned : List String) (t t' : Table) : Prop where
  /-- Slots are added. -/
  length : t.cells.length ≤ t'.cells.length
  /-- Each binding still has a slot of its own. -/
  wellFormed : t.env.WellFormed t.cells.length → t'.env.WellFormed t'.cells.length
  /-- Names that are declared get new slots. -/
  declares : t.env.Declares declared t.cells.length t'.env
  /-- A slot keeps what is in it if none of the names that are assigned to stands for it. -/
  untouched : ∀ i, i < t.cells.length → (∀ x ∈ assigned, t.env.find? x ≠ some i) → t'.cells[i]? = t.cells[i]?

namespace Develops

variable {names names' others others' : List String} {t t' t'' : Table}

theorem refl (t : Table) : Develops [] [] t t :=
  ⟨Nat.le_refl _, id, .refl _ _, fun _ _ _ => rfl⟩

theorem trans (h : Develops names others t t') (h' : Develops names' others' t' t'') :
    Develops (names ++ names') (others ++ others') t t'' := by
  refine ⟨Nat.le_trans h.length h'.length, h'.wellFormed ∘ h.wellFormed, h.declares.trans h'.declares h.length, ?_⟩
  intro i hi hfree
  rw [h'.untouched i (Nat.lt_of_lt_of_le hi h.length) ?_, h.untouched i hi ?_]
  · exact fun x hx => hfree x (List.mem_append_left _ hx)
  · -- a name that stands for an old slot now stood for it before
    exact fun x hx hfind => hfree x (List.mem_append_right _ hx) (h.declares.find?_eq hfind hi)

/-- A name is declared behind the others. -/
theorem declare (h : Develops names others t t') (x : String) (n : Int32) :
    Develops (x :: names) others t (t'.declare x n) := by
  have hlength := h.length
  refine ⟨?_, fun hw => ?_, h.declares.bind h.length x, fun i hi hfree => ?_⟩
  · simp only [Table.declare, List.length_append, List.length_singleton]
    omega
  · simpa [Table.declare] using (h.wellFormed hw).bind x
  · rw [Table.declare, List.getElem?_append_left (Nat.lt_of_lt_of_le hi h.length), h.untouched i hi hfree]

/-- The slot that a name stood for is written. -/
theorem set (h : Develops names others t t') {x : String} {i : Nat} (hx : t.env.find? x = some i) (n : Int32) :
    Develops names (x :: others) t (t'.set i n) := by
  refine ⟨?_, ?_, h.declares, fun j hj hfree => ?_⟩
  · simpa [Table.set] using h.length
  · simpa [Table.set] using h.wellFormed
  · obtain ⟨hx', hfree⟩ := List.forall_mem_cons.1 hfree
    have hne : i ≠ j := by
      rintro rfl
      exact hx' hx
    rw [Table.set, List.getElem?_set_ne hne, h.untouched j hj hfree]

end Develops

/-- The slot in a result belongs to a name: no other stands for it. -/
def BelongsTo (r : Result) (name? : Option String) (t : Table) : Prop :=
  ∀ i, r = .slot i → i < t.cells.length ∧ ∃ x, name? = some x ∧ ∀ y, t.env.find? y = some i → y = x

/-- A result that was not assigned to stands for what it stood for. -/
theorem Develops.read? {names others : List String} {t t' : Table} (h : Develops names others t t') {r : Result}
    {name? : Option String} (hr : BelongsTo r name? t) (hname : ∀ x, name? = some x → x ∉ others) : t'.read? r = t.read? r := by
  cases r with
  | nothing => rfl
  | value n => rfl
  | slot i =>
    obtain ⟨hi, x, hx, hown⟩ := hr i rfl
    refine h.untouched i hi fun y hy hfind => ?_
    cases hown y hfind
    exact hname x hx hy

variable {operators : Arithmetic → Prop} {e : Expression} {es : List Expression} {t t' : Table} {r last : Result}

/-- Expressions one after the other make of a table what each of them does. -/
theorem develops_executeAll?
    (hes : ∀ e ∈ es, ∀ {t t' : Table} {r : Result}, execute? e t = some (r, t') → Develops (declared true e) (assigned e) t t')
    (he : executeAll? es last t = some (r, t')) : Develops (declaredAll true es) (assignedAll es) t t' := by
  induction es generalizing last t with
  | nil =>
    cases he
    exact .refl _
  | cons e rest ih =>
    obtain ⟨hfirst, hrest⟩ := List.forall_mem_cons.1 hes
    obtain ⟨r₁, t₁, he₁, he⟩ := of_executeAll?_cons he
    exact (hfirst he₁).trans (ih hrest he)

/-- What an expression makes of a table. -/
theorem develops_execute? (h : IsStraight operators e) (he : execute? e t = some (r, t')) :
    Develops (declared true e) (assigned e) t t' := by
  induction h generalizing t t' r with
  | integer n =>
    cases he
    exact .refl t
  | identifier x =>
    obtain ⟨i, n, -, -, rfl, rfl⟩ := of_execute?_identifier he
    exact .refl _
  | binary _ _ _ iha ihb =>
    obtain ⟨left, t₁, right, x, y, n, ha, hb, -, -, -, rfl⟩ := of_execute?_binary he
    exact (iha ha).trans (ihb hb)
  | scope _ iha => exact iha he
  | sequence _ ih => exact develops_executeAll? (fun e he' => ih e he') he
  | declare x _ iha =>
    obtain ⟨r₁, t₁, n, ha, -, rfl, rfl⟩ := of_execute?_declare he
    exact (iha ha).declare x n
  | assign x _ iha =>
    obtain ⟨i, r₁, t₁, n, hi, ha, -, rfl, rfl⟩ := of_execute?_assign he
    exact (iha ha).set hi n

/-- The slot in what the last of several expressions leaves belongs to the name that the last one declares or assigns to. -/
theorem belongsTo_executeAll? (hes : ∀ e ∈ es, IsStraight operators e)
    (ih : ∀ e ∈ es, ∀ {t t' r}, t.env.WellFormed t.cells.length → execute? e t = some (r, t') → BelongsTo r (resultName? e) t')
    (hw : t.env.WellFormed t.cells.length) (hlast : last = .nothing ∨ es ≠ []) (he : executeAll? es last t = some (r, t')) :
    BelongsTo r (resultName? (.sequence es)) t' := by
  induction es generalizing last t with
  | nil =>
    cases he
    obtain rfl := hlast.resolve_right fun h => h rfl
    exact fun _ h => nomatch h
  | cons e rest hrec =>
    obtain ⟨hfirst, hrest⟩ := List.forall_mem_cons.1 hes
    obtain ⟨ihfirst, ihrest⟩ := List.forall_mem_cons.1 ih
    obtain ⟨r₁, t₁, he₁, he⟩ := of_executeAll?_cons he
    cases rest with
    | nil =>
      cases he
      exact ihfirst hw he₁
    | cons e' rest =>
      exact hrec hrest ihrest ((develops_execute? hfirst he₁).wellFormed hw) (.inr (List.cons_ne_nil _ _)) he

/-- The slot in what an expression leaves belongs to the name that it declares or assigns to last. -/
theorem belongsTo_execute? (h : IsStraight operators e) (hw : t.env.WellFormed t.cells.length)
    (he : execute? e t = some (r, t')) : BelongsTo r (resultName? e) t' := by
  induction h generalizing t t' r with
  | integer n =>
    cases he
    exact fun _ h => nomatch h
  | identifier x =>
    obtain ⟨i, n, -, -, rfl, rfl⟩ := of_execute?_identifier he
    exact fun _ h => nomatch h
  | binary _ _ _ _ _ =>
    obtain ⟨left, t₁, right, x, y, n, -, -, -, -, -, rfl⟩ := of_execute?_binary he
    exact fun _ h => nomatch h
  | scope _ iha => exact iha hw he
  | sequence hes ih => exact belongsTo_executeAll? hes (fun e he' => ih e he') hw (.inl rfl) he
  | declare x ha _ =>
    obtain ⟨r₁, t₁, n, ha₁, -, rfl, rfl⟩ := of_execute?_declare he
    rintro _ ⟨⟩
    have hw₁ := (develops_execute? ha ha₁).wellFormed hw
    -- the cell is new, so no other name has it
    refine ⟨by simp [Table.declare], x, rfl, fun y hy => ?_⟩
    by_contra hne
    rw [Table.declare, Environment.find?_bind, if_neg hne] at hy
    exact Nat.lt_irrefl _ (hw₁.find?_lt hy)
  | assign x ha _ =>
    obtain ⟨i, r₁, t₁, n, hi, ha₁, -, rfl, rfl⟩ := of_execute?_assign he
    rintro _ ⟨⟩
    -- the cell was there before the right-hand side, in which only new cells are given to names
    have hd := develops_execute? ha ha₁
    have hlt : i < t.cells.length := hw.find?_lt hi
    refine ⟨by simpa [Table.set] using Nat.lt_of_lt_of_le hlt hd.length, x, rfl, fun y hy => ?_⟩
    exact hw.eq_of_find? (hd.declares.find?_eq hy hlt) hi

/-- A list that leaves nothing ends with an expression that leaves nothing. -/
theorem finalAll?_of_nothing (ih : ∀ e ∈ es, ∀ {t t'}, execute? e t = some (.nothing, t') → final? e = none)
    (he : executeAll? es last t = some (.nothing, t')) : finalAll? es = none := by
  induction es generalizing last t with
  | nil => rfl
  | cons e rest hrec =>
    obtain ⟨ihfirst, ihrest⟩ := List.forall_mem_cons.1 ih
    obtain ⟨r₁, t₁, he₁, he⟩ := of_executeAll?_cons he
    cases rest with
    | nil =>
      cases he
      exact ihfirst he₁
    | cons e' rest => exact hrec ihrest he

/-- Only blocks and sequences with nothing at the end leave no value. -/
theorem final?_of_nothing (h : IsStraight operators e) (he : execute? e t = some (.nothing, t')) : final? e = none := by
  induction h generalizing t t' with
  | integer n => cases he
  | identifier x =>
    obtain ⟨i, n, -, -, hr, -⟩ := of_execute?_identifier he
    cases hr
  | binary _ _ _ _ _ =>
    obtain ⟨left, t₁, right, x, y, n, -, -, -, -, -, hr⟩ := of_execute?_binary he
    cases hr
  | scope _ iha => exact iha he
  | sequence _ ih => exact finalAll?_of_nothing (fun e he' => ih e he') he
  | declare x _ _ =>
    obtain ⟨r₁, t₁, n, -, -, hr, -⟩ := of_execute?_declare he
    cases hr
  | assign x _ _ =>
    obtain ⟨i, r₁, t₁, n, -, -, -, hr, -⟩ := of_execute?_assign he
    cases hr

/-- Where there is an expression that has the result, this can be read then and later. -/
theorem exists_read? (h : IsStraight operators e) (hw : t.env.WellFormed t.cells.length) (he : execute? e t = some (r, t'))
    (hf : final? e ≠ none) {t'' : Table} (hle : t'.cells.length ≤ t''.cells.length) : ∃ n, t''.read? r = some n := by
  cases r with
  | nothing => exact absurd (final?_of_nothing h he) hf
  | value n => exact ⟨n, rfl⟩
  | slot i =>
    obtain ⟨hi, -⟩ := belongsTo_execute? h hw he i rfl
    exact ⟨_, List.getElem?_eq_getElem (Nat.lt_of_lt_of_le hi hle)⟩

end Slots

end ExprLang
