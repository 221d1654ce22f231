import ExprLang.Value.Operations

/-!
# Values of two interpreters

Two interpreters number their closures independently, so a value of one can stand for a value of the other although they differ:
`Value.Related C` says that two values agree except that closures stand for each other as `C` says. No operation on values looks at
the number of a closure, so from related operands it computes related values or fails in the same way.
-/

namespace ExprLang

/-- Two computations fail with the same error, or have results of which `P` holds. -/
def Agree {α β : Type} (P : α → β → Prop) : Except EvalError α → Except EvalError β → Prop
  | .ok a, .ok b => P a b
  | .error e, .error f => e = f
  | _, _ => False

/-- Computations that agree in their first parts, and for results of these in the rest, agree. -/
theorem Agree.bind {α β γ δ : Type} {P : α → β → Prop} {Q : γ → δ → Prop} {x : Except EvalError α}
    {y : Except EvalError β} {f : α → Except EvalError γ} {g : β → Except EvalError δ} (h : Agree P x y)
    (hf : ∀ a b, P a b → Agree Q (f a) (g b)) : Agree Q (x >>= f) (y >>= g) := by
  cases x with
  | ok a =>
    cases y with
    | ok b => exact hf a b h
    | error e => exact h.elim
  | error e =>
    cases y with
    | ok b => exact h.elim
    | error f => exact h

namespace Value

mutual

/-- Two values agree, closures standing for each other as `C` says. -/
def Related (C : Nat → Nat → Prop) : Value → Value → Prop
  | .int a, .int b => a = b
  | .float a, .float b => a = b
  | .bool a, .bool b => a = b
  | .id a, .id b => a = b
  | .string a, .string b => a = b
  | .closure i, .closure j => C i j
  | .function f, .function g => f = g
  | .object as, .object bs => RelatedFields C as bs
  | .void, .void => True
  | _, _ => False
termination_by structural v => v

/-- Fields have the same names in the same order, and their values agree. -/
def RelatedFields (C : Nat → Nat → Prop) : List (String × Value) → List (String × Value) → Prop
  | [], [] => True
  | (n, a) :: as, (m, b) :: bs => n = m ∧ Related C a b ∧ RelatedFields C as bs
  | _, _ => False
termination_by structural fields => fields

end

variable {C D : Nat → Nat → Prop}

mutual

/-- If closures stand for no fewer closures, values stand for no fewer values. -/
theorem Related.mono (h : ∀ i j, C i j → D i j) : ∀ {v w : Value}, Related C v w → Related D v w
  | .int _, .int _, hv | .float _, .float _, hv | .bool _, .bool _, hv | .id _, .id _, hv | .string _, .string _, hv
  | .function _, .function _, hv | .void, .void, hv => hv
  | .closure i, .closure j, hv => h i j hv
  | .object _, .object _, hv => RelatedFields.mono h hv

theorem RelatedFields.mono (h : ∀ i j, C i j → D i j) :
    ∀ {as bs : List (String × Value)}, RelatedFields C as bs → RelatedFields D as bs
  | [], [], _ => trivial
  | (_, _) :: _, (_, _) :: _, ⟨hn, hv, hrest⟩ => ⟨hn, Related.mono h hv, RelatedFields.mono h hrest⟩

end

mutual

/-- If closures only stand for themselves, so do values. -/
theorem Related.eq (h : ∀ i j, C i j → i = j) : ∀ {v w : Value}, Related C v w → v = w
  | .int _, .int _, hv | .float _, .float _, hv | .bool _, .bool _, hv | .id _, .id _, hv | .string _, .string _, hv
  | .function _, .function _, hv => congrArg _ hv
  | .void, .void, _ => rfl
  | .closure i, .closure j, hv => congrArg _ (h i j hv)
  | .object _, .object _, hv => congrArg _ (RelatedFields.eq h hv)

theorem RelatedFields.eq (h : ∀ i j, C i j → i = j) :
    ∀ {as bs : List (String × Value)}, RelatedFields C as bs → as = bs
  | [], [], _ => rfl
  | (_, _) :: _, (_, _) :: _, ⟨hn, hv, hrest⟩ => by
    rw [hn, Related.eq h hv, RelatedFields.eq h hrest]

end

/-- Related values are the same value, or both closures, or both records. -/
theorem Related.cases : ∀ {v w : Value}, Related C v w →
    v = w ∨ (∃ i j, v = .closure i ∧ w = .closure j) ∨ ∃ as bs, v = .object as ∧ w = .object bs
  | .int _, .int _, h | .float _, .float _, h | .bool _, .bool _, h | .id _, .id _, h | .string _, .string _, h
  | .function _, .function _, h => .inl (congrArg _ h)
  | .void, .void, _ => .inl rfl
  | .closure i, .closure j, _ => .inr (.inl ⟨i, j, rfl, rfl⟩)
  | .object as, .object bs, _ => .inr (.inr ⟨as, bs, rfl, rfl⟩)

/-- Related values have the same type. -/
theorem Related.typeName_eq {v w : Value} (h : Related C v w) : v.typeName = w.typeName := by
  rcases h.cases with rfl | ⟨i, j, rfl, rfl⟩ | ⟨as, bs, rfl, rfl⟩ <;> rfl

mutual

/-- Nothing of a closure is displayed. -/
theorem Related.display_eq : ∀ {v w : Value}, Related C v w → v.display = w.display
  | .int _, .int _, h | .float _, .float _, h | .bool _, .bool _, h | .id _, .id _, h | .string _, .string _, h => by
    cases h
    rfl
  | .function _, .function _, _ | .void, .void, _ | .closure _, .closure _, _ => rfl
  | .object _, .object _, h => by
    rw [display, display, RelatedFields.displayFields_eq h]

/-- Related fields are shown as the same text. -/
theorem RelatedFields.displayFields_eq : ∀ {as bs : List (String × Value)}, RelatedFields C as bs →
    displayFields as = displayFields bs
  | [], [], _ => rfl
  | (_, _) :: _, (_, _) :: _, ⟨hn, hv, hrest⟩ => by
    rw [displayFields, displayFields, hn, Related.display_eq hv, RelatedFields.displayFields_eq hrest]

end

/-- Related values are printed as the same text. -/
theorem Related.text_eq {v w : Value} (h : Related C v w) : v.text = w.text := by
  rcases h.cases with rfl | ⟨i, j, rfl, rfl⟩ | ⟨as, bs, rfl, rfl⟩
  · rfl
  · rfl
  · exact h.display_eq

/-! ## Operations -/

theorem Related.expectBool {v w : Value} (h : Related C v w) (context : String) :
    Agree Eq (v.expectBool context) (w.expectBool context) := by
  rcases h.cases with rfl | ⟨i, j, rfl, rfl⟩ | ⟨as, bs, rfl, rfl⟩
  · cases v <;> rfl
  · rfl
  · rfl

theorem Related.expectString {v w : Value} (h : Related C v w) (context : String) :
    Agree Eq (v.expectString context) (w.expectString context) := by
  rcases h.cases with rfl | ⟨i, j, rfl, rfl⟩ | ⟨as, bs, rfl, rfl⟩
  · cases v <;> rfl
  · rfl
  · rfl

theorem Related.expectInt {v w : Value} (h : Related C v w) (context : String) :
    Agree Eq (v.expectInt context) (w.expectInt context) := by
  rcases h.cases with rfl | ⟨i, j, rfl, rfl⟩ | ⟨as, bs, rfl, rfl⟩
  · cases v <;> rfl
  · rfl
  · rfl

/-- Related values have the same length, or fail alike. -/
theorem Related.stringLength {v w : Value} (h : Related C v w) : Agree (Related C) v.stringLength w.stringLength := by
  refine (h.expectString "StringLength").bind ?_
  rintro s _ rfl
  split
  · exact rfl
  · rfl

/-- Related values have the same parts, or fail alike. -/
theorem Related.substring {v w start start' stop stop' : Value} (h : Related C v w) (hstart : Related C start start')
    (hstop : Related C stop stop') : Agree (Related C) (v.substring start stop) (w.substring start' stop') := by
  refine (h.expectString "Substring").bind ?_
  rintro s _ rfl
  refine (hstart.expectInt "Substring").bind ?_
  rintro i _ rfl
  refine (hstop.expectInt "Substring").bind ?_
  rintro j _ rfl
  split
  · exact rfl
  · rfl

/-- Related values are compared alike as strings. -/
theorem Related.compareStrings {v w v' w' : Value} (h : Related C v v') (h' : Related C w w') (op : Operator)
    (test : String → String → Bool) : Agree Eq (compareStrings op test v w) (compareStrings op test v' w') := by
  rcases h.cases with rfl | ⟨i, j, rfl, rfl⟩ | ⟨as, bs, rfl, rfl⟩
  · rcases h'.cases with rfl | ⟨i, j, rfl, rfl⟩ | ⟨as, bs, rfl, rfl⟩
    · cases v <;> cases w <;> rfl
    · cases v <;> rfl
    · cases v <;> rfl
  · exact congrArg _ h'.typeName_eq
  · exact congrArg _ h'.typeName_eq

/-- The field of a name is the same in related records. -/
theorem RelatedFields.lookup (name : String) : ∀ {as bs : List (String × Value)}, RelatedFields C as bs →
    Option.Rel (Related C) (as.lookup name) (bs.lookup name)
  | [], [], _ => .none
  | (n, a) :: as, (_, b) :: bs, ⟨rfl, hv, hrest⟩ => by
    by_cases hn : name = n
    · simpa [List.lookup_cons, hn] using Option.Rel.some hv
    · simpa [List.lookup_cons, beq_false_of_ne hn] using RelatedFields.lookup name hrest

/-- Related records have related fields. -/
theorem Related.field {v w : Value} (h : Related C v w) (name : String) :
    Agree (Related C) (v.field name) (w.field name) := by
  match v, w, h with
  | .object as, .object bs, h =>
    have hl := RelatedFields.lookup name h
    simp only [Value.field]
    generalize as.lookup name = x at hl ⊢
    generalize bs.lookup name = y at hl ⊢
    cases hl with
    | none => rfl
    | some hv => exact hv
  | .int _, .int _, _ | .float _, .float _, _ | .bool _, .bool _, _ | .id _, .id _, _ | .string _, .string _, _
  | .function _, .function _, _ | .void, .void, _ | .closure _, .closure _, _ => rfl

/-- Related values may be set in related records. -/
theorem RelatedFields.setField {name : String} {a b : Value} (h : Related C a b) : ∀ {as bs : List (String × Value)},
    RelatedFields C as bs → RelatedFields C (setField name a as) (setField name b bs)
  | [], [], _ => ⟨rfl, h, trivial⟩
  | (n, _) :: _, (_, _) :: _, ⟨rfl, hv, hrest⟩ => by
    unfold Value.setField
    split
    · exact ⟨rfl, h, rfl, hv, hrest⟩
    · split
      · exact ⟨rfl, h, hrest⟩
      · exact ⟨rfl, hv, RelatedFields.setField h hrest⟩

/-- Records of related fields are related, whichever fields are set again. -/
theorem RelatedFields.ofFields {as bs : List (String × Value)} (h : RelatedFields C as bs) :
    Related C (ofFields as) (ofFields bs) := by
  suffices hs : ∀ {as bs object object' : List (String × Value)}, RelatedFields C as bs → RelatedFields C object object' →
      RelatedFields C (as.foldl (fun object field => Value.setField field.1 field.2 object) object)
        (bs.foldl (fun object field => Value.setField field.1 field.2 object) object') from hs h trivial
  intro as
  induction as with
  | nil =>
    intro bs object object' h ho
    cases bs with
    | nil => exact ho
    | cons b bs => exact h.elim
  | cons a as ih =>
    intro bs object object' h ho
    match a, bs, h with
    | (n, a), (_, b) :: bs, ⟨rfl, hv, hrest⟩ => exact @ih bs _ _ hrest (RelatedFields.setField hv ho)

end Value

/-- Arithmetic is the same on related values. -/
theorem Arithmetic.related_apply {C : Nat → Nat → Prop} (op : Arithmetic) {v w v' w' : Value} (h : Value.Related C v v')
    (h' : Value.Related C w w') : Agree (Value.Related C) (op.apply v w) (op.apply v' w') := by
  rcases h.cases with rfl | ⟨i, j, rfl, rfl⟩ | ⟨as, bs, rfl, rfl⟩
  · rcases h'.cases with rfl | ⟨i, j, rfl, rfl⟩ | ⟨as, bs, rfl, rfl⟩
    · unfold apply
      split
      · rename_i a b
        cases op.onIntegers a b <;> exact rfl
      · exact rfl
      · exact rfl
      · exact rfl
      · split <;> exact rfl
      · exact rfl
    · cases v <;> rfl
    · cases v <;> rfl
  · exact congrArg _ h'.typeName_eq
  · exact congrArg _ h'.typeName_eq

/-- Comparisons are the same on related values. -/
theorem Comparison.related_apply {C : Nat → Nat → Prop} (op : Comparison) {v w v' w' : Value} (h : Value.Related C v v')
    (h' : Value.Related C w w') : Agree Eq (op.apply v w) (op.apply v' w') := by
  have refl : ∀ x : Except EvalError Bool, Agree Eq x x := fun x => by cases x <;> rfl
  rcases h.cases with rfl | ⟨i, j, rfl, rfl⟩ | ⟨as, bs, rfl, rfl⟩
  · rcases h'.cases with rfl | ⟨i, j, rfl, rfl⟩ | ⟨as, bs, rfl, rfl⟩
    · exact refl _
    · cases op <;> cases v <;> rfl
    · cases op <;> cases v <;> rfl
  · cases op <;> exact congrArg _ h'.typeName_eq
  · cases op <;> exact congrArg _ h'.typeName_eq

end ExprLang
