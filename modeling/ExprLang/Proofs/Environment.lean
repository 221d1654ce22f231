import Mathlib.Data.List.Nodup
import ExprLang.Environment

/-!
# Well-formed environments

Cells are handed out in order, so in an environment that grew by binding names each binding has a cell above those of the bindings
behind it (`WellFormed`). Evaluation hands back the environment it was given with bindings in front, all of them in cells that were
handed out since (`Extends`).
-/

namespace ExprLang

namespace Environment

/-- The cells of the bindings, the innermost first. -/
def slots (env : Environment) : List Nat := env.bindings.map Prod.snd

/-- Each binding has a cell above those of the bindings behind it, and all are among the first `size` cells. -/
structure WellFormed (env : Environment) (size : Nat) : Prop where
  /-- From the innermost binding outward the cells go down. -/
  decreasing : env.slots.Pairwise (· > ·)
  /-- Every cell is handed out. -/
  below : ∀ slot ∈ env.slots, slot < size

/-- The environment is `base` with bindings in front, none of them in the first `size` cells. -/
def Extends (env base : Environment) (size : Nat) : Prop :=
  ∃ added, env.bindings = added ++ base.bindings ∧ ∀ b ∈ added, size ≤ b.2

@[simp] theorem slots_bind (env : Environment) (name : String) (slot : Nat) :
    (env.bind name slot).slots = slot :: env.slots := rfl

/-- No binding is wrong in an environment without any. -/
theorem wellFormed_empty (size : Nat) : empty.WellFormed size := ⟨List.Pairwise.nil, by simp [slots, empty]⟩

/-- Handing out further cells does no harm to an environment. -/
theorem WellFormed.mono {env : Environment} {size larger : Nat} (h : env.WellFormed size) (hs : size ≤ larger) :
    env.WellFormed larger :=
  ⟨h.decreasing, fun slot hslot => Nat.lt_of_lt_of_le (h.below slot hslot) hs⟩

/-- A name is bound to the cell that is handed out next. -/
theorem WellFormed.bind {env : Environment} {size : Nat} (h : env.WellFormed size) (name : String) :
    (env.bind name size).WellFormed (size + 1) := by
  refine ⟨?_, ?_⟩
  · rw [slots_bind, List.pairwise_cons]
    exact ⟨h.below, h.decreasing⟩
  · intro slot hslot
    rw [slots_bind, List.mem_cons] at hslot
    rcases hslot with rfl | hslot
    · exact Nat.lt_succ_self _
    · exact Nat.lt_succ_of_lt (h.below slot hslot)

/-- What a name stands for is the cell of a binding. -/
theorem mem_slots_of_find? {env : Environment} {name : String} {slot : Nat} (h : env.find? name = some slot) :
    slot ∈ env.slots := by
  obtain ⟨before, after, hb, -⟩ := List.lookup_eq_some_iff.1 h
  simp [slots, hb]

/-- What a name stands for is handed out. -/
theorem WellFormed.find?_lt {env : Environment} {size : Nat} (h : env.WellFormed size) {name : String} {slot : Nat}
    (hf : env.find? name = some slot) : slot < size :=
  h.below slot (mem_slots_of_find? hf)

/-- Different names stand for different cells. -/
theorem WellFormed.eq_of_find? {env : Environment} {size : Nat} (h : env.WellFormed size) {name other : String} {slot : Nat}
    (hn : env.find? name = some slot) (ho : env.find? other = some slot) : name = other := by
  have hmem : ∀ {x : String}, env.find? x = some slot → (x, slot) ∈ env.bindings := by
    intro x hx
    obtain ⟨before, after, hb, -⟩ := List.lookup_eq_some_iff.1 hx
    rw [hb]
    exact List.mem_append_right _ List.mem_cons_self
  have hnodup : (env.bindings.map Prod.snd).Nodup := h.decreasing.imp fun hlt => Nat.ne_of_gt hlt
  exact congrArg Prod.fst (List.inj_on_of_nodup_map hnodup (hmem hn) (hmem ho) rfl)

theorem Extends.refl (env : Environment) (size : Nat) : env.Extends env size := ⟨[], rfl, by simp⟩

theorem Extends.trans {env env' env'' : Environment} {size size' : Nat} (h : env'.Extends env size)
    (h' : env''.Extends env' size') (hs : size ≤ size') : env''.Extends env size := by
  obtain ⟨added, hb, hadded⟩ := h
  obtain ⟨added', hb', hadded'⟩ := h'
  refine ⟨added' ++ added, by rw [hb', hb, List.append_assoc], ?_⟩
  intro b hb
  rcases List.mem_append.1 hb with hb | hb
  · exact Nat.le_trans hs (hadded' b hb)
  · exact hadded b hb

theorem extends_bind (env : Environment) (name : String) {slot size : Nat} (h : size ≤ slot) :
    (env.bind name slot).Extends env size :=
  ⟨[(name, slot)], rfl, by simpa using h⟩

/-- Bindings in front that are of other names do not matter to what a name stands for. -/
theorem find?_of_notMem {env base : Environment} {added : List (String × Nat)} (h : env.bindings = added ++ base.bindings)
    {name : String} (hn : name ∉ added.map Prod.fst) : env.find? name = base.find? name := by
  have hnone : added.lookup name = none := by
    rw [← Option.not_isSome_iff_eq_none, List.lookup_isSome_iff]
    rintro ⟨b, hb, hname⟩
    exact hn (List.mem_map.2 ⟨b, hb, (beq_iff_eq.1 hname).symm⟩)
  rw [find?, h, List.lookup_append, hnone]
  rfl

/-- A binding in front hides those behind it. -/
theorem exists_find?_of_mem {env base : Environment} {added : List (String × Nat)} (h : env.bindings = added ++ base.bindings)
    {name : String} (hn : name ∈ added.map Prod.fst) : ∃ slot ∈ added.map Prod.snd, env.find? name = some slot := by
  obtain ⟨b, hb, hname⟩ := List.mem_map.1 hn
  have hsome : (added.lookup name).isSome := List.lookup_isSome_iff.2 ⟨b, hb, beq_iff_eq.2 hname.symm⟩
  obtain ⟨slot, hslot⟩ := Option.isSome_iff_exists.1 hsome
  refine ⟨slot, mem_slots_of_find? hslot, ?_⟩
  rw [find?, h, List.lookup_append, hslot]
  rfl

end Environment

end ExprLang
