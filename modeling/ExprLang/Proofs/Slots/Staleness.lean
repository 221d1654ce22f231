import ExprLang.Proofs.Slots.Program

/-!
# Names that are stale, and operands that are overwritten

The interpreter and the meaning by slots part ways in two places.

A block ends the declarations in it for the interpreter only; and a name that is declared again by its own first value is the inner one
for the interpreter, which binds it before, and the outer one by slots. Until it is declared or assigned to again such a name is stale,
and `stale?` says whether one is read.

The left operand of an operator is read before the right one is evaluated, but by slots after that. It makes a difference only if the left
operand is a slot that the right one assigns to (`overwrites`).
-/

namespace ExprLang

namespace Slots

mutual

/-- The names that are stale after an expression, given those before it; none if a stale one is read. A name that is the value of an
expression is read only if this is needed. -/
def stale? : Expression → (needed : Bool) → List String → Option (List String)
  | .identifier x, needed, stale => if needed && x ∈ stale then none else some stale
  | .binary a _ b, _, stale => do stale? b true (← stale? a true stale)
  | .scope a, needed, stale => do return declared true a ++ (← stale? a needed stale)
  | .sequence es, needed, stale => staleAll? es needed stale
  | .assign (.varDecl x) a, needed, stale => do
    let after ← stale? a true (stale.filter (· ≠ x))
    if x ∉ declared false a then return after.filter (· ≠ x)
    if needed then none else return x :: after
  | .assign (.identifier x) a, needed, stale => do
    let after ← stale? a true stale
    if x ∉ declared true a then return after.filter (· ≠ x)
    if x ∉ declared false a then return x :: after
    if needed then none else return after
  | _, _, stale => some stale
termination_by structural e => e

/-- The names that are stale after expressions one after the other, of which only the last value can be needed. -/
def staleAll? : List Expression → (needed : Bool) → List String → Option (List String)
  | [], _, stale => some stale
  | e :: rest, needed, stale => do staleAll? rest needed (← stale? e (needed && rest.isEmpty) stale)
termination_by structural es => es

end

mutual

/-- Whether the left operand of an operator is a slot that the right one assigns to. -/
def overwrites : Expression → Bool
  | .binary a _ b => overwrites a || overwrites b || (resultName? a).any (· ∈ assigned b)
  | .scope a | .assign _ a => overwrites a
  | .sequence es => overwritesAny es
  | _ => false
termination_by structural e => e

/-- Whether there is such an operator in one of several expressions. -/
def overwritesAny : List Expression → Bool
  | [] => false
  | e :: rest => overwrites e || overwritesAny rest
termination_by structural es => es

end

variable {operators : Arithmetic → Prop} {a e : Expression} {es : List Expression} {needed : Bool} {stale stale' : List String} {x : String}

theorem declaredAll_subset (h : ∀ e ∈ es, declared false e ⊆ declared true e) : declaredAll false es ⊆ declaredAll true es := by
  induction es with
  | nil => exact List.Subset.refl _
  | cons e rest ih =>
    obtain ⟨hfirst, hrest⟩ := List.forall_mem_cons.1 h
    intro y hy
    rcases List.mem_append.1 hy with hy | hy
    · exact List.mem_append_left _ (hfirst hy)
    · exact List.mem_append_right _ (ih hrest hy)

/-- What is declared outside of blocks is declared. -/
theorem declared_subset (h : IsStraight operators e) : declared false e ⊆ declared true e := by
  induction h with
  | integer n => exact List.Subset.refl _
  | identifier x => exact List.Subset.refl _
  | binary _ _ _ iha ihb =>
    intro y hy
    rcases List.mem_append.1 hy with hy | hy
    · exact List.mem_append_left _ (iha hy)
    · exact List.mem_append_right _ (ihb hy)
  | scope _ _ => exact List.nil_subset _
  | sequence _ ih => exact declaredAll_subset ih
  | declare x _ iha => exact List.cons_subset_cons x iha
  | assign x _ iha => exact iha

theorem not_mem_of_filter {y : String} {after : List String} (hyx : y ≠ x) (hy : y ∉ after.filter (· ≠ x)) : y ∉ after :=
  fun hmem => hy (List.mem_filter.2 ⟨hmem, decide_eq_true hyx⟩)

/-- A name that is declared is stale afterwards if its own first value declares it, and then it is not needed. -/
theorem of_stale?_declare (h : stale? (.assign (.varDecl x) a) needed stale = some stale') :
    ∃ after, stale? a true (stale.filter (· ≠ x)) = some after ∧ (needed = true → x ∉ declared false a) ∧
      (x ∉ stale' → x ∉ declared false a) ∧ ∀ y, y ≠ x → y ∉ stale' → y ∉ after := by
  simp only [stale?, Option.bind_eq_bind, Option.bind_eq_some_iff] at h
  obtain ⟨after, ha, h⟩ := h
  refine ⟨after, ha, ?_⟩
  by_cases hx : x ∈ declared false a
  · rw [if_neg (not_not.2 hx)] at h
    cases needed with
    | true => cases h
    | false =>
      cases h
      exact ⟨nofun, fun hnot => absurd List.mem_cons_self hnot, fun y _ hy hmem => hy (List.mem_cons_of_mem x hmem)⟩
  · rw [if_pos hx] at h
    cases h
    exact ⟨fun _ => hx, fun _ => hx, fun y hyx hy => not_mem_of_filter hyx hy⟩

/-- A name that is assigned to is stale afterwards if it was declared in a block meanwhile. If it was declared outside of blocks, it is
not needed. -/
theorem of_stale?_assign (hstraight : IsStraight operators a)
    (h : stale? (.assign (.identifier x) a) needed stale = some stale') :
    ∃ after, stale? a true stale = some after ∧ (needed = true → x ∉ declared false a) ∧
      (x ∉ stale' → x ∈ declared true a → x ∈ declared false a ∧ x ∉ after) ∧ ∀ y, y ≠ x → y ∉ stale' → y ∉ after := by
  simp only [stale?, Option.bind_eq_bind, Option.bind_eq_some_iff] at h
  obtain ⟨after, ha, h⟩ := h
  refine ⟨after, ha, ?_⟩
  by_cases hall : x ∈ declared true a
  · rw [if_neg (not_not.2 hall)] at h
    by_cases hx : x ∈ declared false a
    · rw [if_neg (not_not.2 hx)] at h
      cases needed with
      | true => cases h
      | false =>
        cases h
        exact ⟨nofun, fun hnot _ => ⟨hx, hnot⟩, fun y _ hy => hy⟩
    · rw [if_pos hx] at h
      cases h
      exact ⟨fun _ => hx, fun hnot => absurd List.mem_cons_self hnot, fun y _ hy hmem => hy (List.mem_cons_of_mem x hmem)⟩
  · rw [if_pos hall] at h
    cases h
    exact ⟨fun _ hx => hall (declared_subset hstraight hx), fun _ hx => absurd hx hall, fun y hyx hy => not_mem_of_filter hyx hy⟩

end Slots

end ExprLang
