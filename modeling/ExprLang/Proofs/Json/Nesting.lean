import ExprLang.Proofs.Json.Rereading

/-!
# Depth

How deep the brackets of a document are, and how deep those of a spelling have to be: whatever has a spelling has spellings of all of
its parts, one bracket further in.
-/

namespace ExprLang.Json

/-! ### Documents -/

namespace Document

mutual

/-- How many brackets of a document are open inside one another at most. -/
def depth : Document → Nat
  | .null => 0
  | .boolean _ => 0
  | .integer _ => 0
  | .float _ => 0
  | .string _ => 0
  | .array items => depthItems items + 1
  | .object members => depthMembers members + 1
termination_by structural d => d

/-- How many brackets of items are open inside one another at most. -/
def depthItems : List Document → Nat
  | [] => 0
  | d :: ds => max (depth d) (depthItems ds)
termination_by structural ds => ds

/-- How many brackets of the values of members are open inside one another at most. -/
def depthMembers : List (String × Document) → Nat
  | [] => 0
  | (_, d) :: ms => max (depth d) (depthMembers ms)
termination_by structural ms => ms

end

variable {n : Nat}

/-- An array is one level deeper than its items at most. -/
theorem depth_array_le {ds : List Document} (h : ∀ d ∈ ds, d.depth ≤ n) : (array ds).depth ≤ n + 1 := by
  have hitems : depthItems ds ≤ n := by
    induction ds with
    | nil => exact Nat.zero_le n
    | cons d ds ih =>
      obtain ⟨hd, hds⟩ := List.forall_mem_cons.1 h
      exact Nat.max_le.2 ⟨hd, ih hds⟩
  exact Nat.succ_le_succ hitems

/-- An object is one level deeper than its members at most. -/
theorem depth_object_le {ms : List (String × Document)} (h : ∀ m ∈ ms, m.2.depth ≤ n) : (object ms).depth ≤ n + 1 := by
  have hmembers : depthMembers ms ≤ n := by
    induction ms with
    | nil => exact Nat.zero_le n
    | cons m ms ih =>
      obtain ⟨hm, hms⟩ := List.forall_mem_cons.1 h
      exact Nat.max_le.2 ⟨hm, ih hms⟩
  exact Nat.succ_le_succ hmembers

end Document

/-! ### Spellings -/

/-- Some text is in the language. -/
def Spellable (l : Language Char) : Prop := ∃ s, s ∈ l

section Spellable

variable {l m : Language Char} {ls : List (Language Char)} {n : Nat}

/-- If a product has a spelling then so has its first factor. -/
theorem Spellable.left (h : Spellable (l * m)) : Spellable l := by
  obtain ⟨_, a, ha, -⟩ := h
  exact ⟨a, ha⟩

/-- If a product has a spelling then so has its second factor. -/
theorem Spellable.right (h : Spellable (l * m)) : Spellable m := by
  obtain ⟨_, _, -, b, hb, -⟩ := h
  exact ⟨b, hb⟩

/-- Inside a bracket a value has a spelling only if a level is left. -/
theorem spellable_inside {f : Nat → Language Char} (h : Spellable (inside f n)) : ∃ k, n = k + 1 ∧ Spellable (f k) := by
  cases n with
  | zero =>
    obtain ⟨s, hs⟩ := h
    exact absurd hs (Language.notMem_zero s)
  | succ k => exact ⟨k, rfl, h⟩

/-- Each of several further pieces has a spelling if they have one together. -/
theorem Spellable.further (h : Spellable (further ls)) : ∀ l ∈ ls, Spellable l := by
  induction ls with
  | nil => exact List.forall_mem_nil _
  | cons l ls ih =>
    rw [further_cons] at h
    exact List.forall_mem_cons.2 ⟨h.left.right.right.right, ih h.right⟩

/-- All pieces between brackets have spellings. -/
theorem Spellable.enclosed {left right : Char} (h : Spellable (enclosed left right ls)) : ∀ l ∈ ls, Spellable l := by
  have hpieces : Spellable (separated ls) := h.right.left
  cases ls with
  | nil => exact List.forall_mem_nil _
  | cons l ls => exact List.forall_mem_cons.2 ⟨hpieces.right.left, hpieces.right.right.further⟩

/-- The value of a member has a spelling if the member has one. -/
theorem Spellable.member (h : Spellable (member l m)) : Spellable m := h.right.right.right.right

/-- The content of a variant has a spelling, with one level less. -/
theorem Spellable.variant {name : String} {content : Nat → Language Char} (h : Spellable (variant name content n)) :
    ∃ k, n = k + 1 ∧ Spellable (content k) := by
  obtain ⟨k, rfl, hobject⟩ := spellable_inside h
  exact ⟨k, rfl, (hobject.enclosed _ List.mem_cons_self).member⟩

/-- The values of all fields of a record have spellings, except of those that may be missing. -/
theorem Spellable.record {fields : Nat → List Field} (h : Spellable (record fields n)) :
    ∃ k, n = k + 1 ∧ ∀ f ∈ fields k, f.mayMiss ∨ Spellable f.value := by
  obtain ⟨k, rfl, s, harray | ⟨members, ⟨present, missing, others, hfields, hmay, -, hmembers⟩, hobject⟩⟩ := spellable_inside h
  · refine ⟨k, rfl, fun f hf => .inr ?_⟩
    exact Spellable.enclosed ⟨s, harray⟩ _ (List.mem_map_of_mem hf)
  · refine ⟨k, rfl, fun f hf => ?_⟩
    rcases List.mem_append.1 (hfields.mem_iff.1 hf) with hpresent | hmissing
    · have hmember : f.text ∈ members := hmembers.mem_iff.2 (List.mem_append_left _ (List.mem_map_of_mem hpresent))
      exact .inr (Spellable.enclosed ⟨s, hobject⟩ _ hmember).member
    · exact .inl (hmay f hmissing)

end Spellable

section Records

variable {κ : Type} {denotes : κ → Type} {absent : (kind : κ) → Option (denotes kind)}
  {spell : (kind : κ) → denotes kind → Nat → Language Char} {n : Nat} {p q : (kind : κ) → denotes kind → Prop}

/-- What holds of all values of a row may be weakened. -/
theorem Row.All.imp (h : ∀ kind value, p kind value → q kind value) : ∀ {parts : List (String × κ)} {row : Row denotes parts},
    Row.All p parts row → Row.All q parts row
  | [], (), _ => trivial
  | _ :: _, (_, _), ⟨hvalue, hvalues⟩ => ⟨h _ _ hvalue, Row.All.imp h hvalues⟩

theorem Row.All.and : ∀ {parts : List (String × κ)} {row : Row denotes parts}, Row.All p parts row → Row.All q parts row →
    Row.All (fun kind value => p kind value ∧ q kind value) parts row
  | [], (), _, _ => trivial
  | _ :: _, (_, _), ⟨hp, hps⟩, ⟨hq, hqs⟩ => ⟨⟨hp, hq⟩, hps.and hqs⟩

/-- What the values of a record hold, all together. -/
def Row.collect {γ : Type} (f : (kind : κ) → denotes kind → List γ) : (parts : List (String × κ)) → Row denotes parts → List γ
  | [], () => []
  | (_, kind) :: rest, (value, values) => f kind value ++ Row.collect f rest values

/-- What is collected from a row is collected from its values. -/
theorem Row.forall_mem_collect {γ : Type} {f : (kind : κ) → denotes kind → List γ} {holds : γ → Prop} :
    ∀ {parts : List (String × κ)} {row : Row denotes parts},
      (∀ x ∈ Row.collect f parts row, holds x) ↔ Row.All (fun kind value => ∀ x ∈ f kind value, holds x) parts row
  | [], () => iff_of_true (List.forall_mem_nil _) trivial
  | _ :: _, (_, _) => List.forall_mem_append.trans (and_congr_right fun _ => Row.forall_mem_collect)

/-- The values of a record have spellings if those that are given to missing parts have. -/
theorem Row.all_spellable (habsent : ∀ kind value, absent kind = some value → Spellable (spell kind value n)) :
    ∀ {parts : List (String × κ)} {row : Row denotes parts},
      (∀ f ∈ Row.fields absent spell n parts row, f.mayMiss ∨ Spellable f.value) →
      Row.All (fun kind value => Spellable (spell kind value n)) parts row
  | [], (), _ => trivial
  | (_, kind) :: _, (value, _), h => by
    obtain ⟨hvalue, hvalues⟩ := List.forall_mem_cons.1 h
    exact ⟨hvalue.elim (habsent kind value) id, Row.all_spellable habsent hvalues⟩

/-- The documents of a row are as deep as those of its values at most. -/
theorem Row.depth_documents_le {write : (kind : κ) → denotes kind → Document} :
    ∀ {parts : List (String × κ)} {row : Row denotes parts},
      Row.All (fun kind value => (write kind value).depth ≤ n) parts row → ∀ m ∈ Row.documents write parts row, m.2.depth ≤ n
  | [], (), _ => List.forall_mem_nil _
  | _ :: _, (_, _), ⟨hvalue, hvalues⟩ => List.forall_mem_cons.2 ⟨hvalue, Row.depth_documents_le hvalues⟩

end Records

end ExprLang.Json
