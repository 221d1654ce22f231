import Mathlib.Logic.Relator
import ExprLang.Proofs.Evaluation.Advance
import ExprLang.Proofs.Value

/-!
# Corresponding interpreters

Two interpreters hand out cells and number closures each in its own way. A `Correspondence` is a pair of interpreters and says which
cells and which closures of the one stand for which of the other. It is sound for a `Likeness`, which says when environments and sinks
count as alike, if corresponding cells hold related values and corresponding closures have the same literal and alike environments
(`Likeness.Sound`).

As the two interpreters go on, a correspondence leads to others that keep its pairs, and cells without a counterpart are not touched
(`Likeness.Leads`). There is one lemma for each change of the state. Giving back cells leads back to the pairs there were when the call
or the block began (`Likeness.Leads.reclaim`), and it does so even if only one of the interpreters gives back cells.
-/

namespace ExprLang

/-- When environments and sinks of two interpreters count as alike. -/
structure Likeness (σ τ : Type) [Sink σ] [Sink τ] where
  /-- Environments are alike, given which cells correspond. -/
  Env : (Nat → Nat → Prop) → Environment → Environment → Prop
  /-- Sinks are alike. -/
  Output : σ → τ → Prop
  /-- Environments stay alike when more cells correspond. -/
  mono : ∀ {R S : Nat → Nat → Prop} {env env' : Environment}, (∀ a b, R a b → S a b) → Env R env env' → Env S env env'
  /-- A name may be bound to corresponding cells. -/
  bind : ∀ {R : Nat → Nat → Prop} {env env' : Environment} {a b : Nat} (name : String), R a b → Env R env env' →
    Env R (env.bind name a) (env'.bind name b)
  /-- A name stands for corresponding cells, or for none. -/
  find? : ∀ {R : Nat → Nat → Prop} {env env' : Environment} (name : String), Env R env env' →
    Option.Rel R (env.find? name) (env'.find? name)
  /-- Alike sinks take the same text, and stay alike. -/
  write : ∀ {o : σ} {o' : τ} (s : String), Output o o' →
    (Sink.write o s).2 = (Sink.write o' s).2 ∧ Output (Sink.write o s).1 (Sink.write o' s).1

/-- Two interpreters, and which of their cells and closures correspond. -/
structure Correspondence (σ τ : Type) where
  /-- The one interpreter. -/
  left : Interpreter σ
  /-- The other one. -/
  right : Interpreter τ
  /-- A cell of the one and a cell of the other correspond. -/
  cell : Nat → Nat → Prop
  /-- A closure of the one and a closure of the other correspond. -/
  closure : Nat → Nat → Prop

/-- Two numbers have grown by the same amount. -/
def InStep (a b a' b' : Nat) : Prop := ∃ k, a' = a + k ∧ b' = b + k

theorem InStep.refl (a b : Nat) : InStep a b a b := ⟨0, rfl, rfl⟩

theorem InStep.trans {a b a' b' a'' b'' : Nat} (h : InStep a b a' b') (h' : InStep a' b' a'' b'') :
    InStep a b a'' b'' := by
  obtain ⟨k, rfl, rfl⟩ := h
  obtain ⟨l, rfl, rfl⟩ := h'
  exact ⟨k + l, by omega, by omega⟩

/-- If one number is what it was, so is the other. -/
theorem InStep.eq_iff {a b a' b' : Nat} (h : InStep a b a' b') : a' = a ↔ b' = b := by
  obtain ⟨k, rfl, rfl⟩ := h
  omega

/-- A new pair keeps a correspondence one-to-one if both its members are new. -/
theorem biUnique_or {R : Nat → Nat → Prop} (h : Relator.BiUnique R) {x y : Nat} (hlt : ∀ a b, R a b → a < x ∧ b < y) :
    Relator.BiUnique fun a b => R a b ∨ a = x ∧ b = y := by
  refine ⟨?_, ?_⟩
  · rintro a a' b (hr | ⟨rfl, rfl⟩) (hr' | ⟨rfl, hb⟩)
    · exact h.1 hr hr'
    · exact absurd (hlt a b hr).2 (by omega)
    · exact absurd (hlt a' b hr').2 (Nat.lt_irrefl b)
    · rfl
  · rintro a b b' (hr | ⟨rfl, rfl⟩) (hr' | ⟨ha, rfl⟩)
    · exact h.2 hr hr'
    · exact absurd (hlt a b hr).1 (by omega)
    · exact absurd (hlt a b' hr').1 (Nat.lt_irrefl a)
    · rfl

/-- Every cell that `m` has handed out holds in `m'` what it held, unless it is one of those that may be touched. -/
def Interpreter.Spares {σ : Type} (touched : Nat → Prop) (m m' : Interpreter σ) : Prop :=
  ∀ slot, slot < m.store.size → ¬touched slot → m'.store.get? slot = m.store.get? slot

theorem Interpreter.spares_refl {σ : Type} (touched : Nat → Prop) (m : Interpreter σ) : m.Spares touched m :=
  fun _ _ _ => rfl

namespace Likeness

variable {σ τ : Type} [Sink σ] [Sink τ] (L : Likeness σ τ)

/-- What corresponds is alike. -/
structure Sound (c : Correspondence σ τ) : Prop where
  /-- Cells correspond one to one. -/
  cells : Relator.BiUnique c.cell
  /-- So do closures. -/
  closures : Relator.BiUnique c.closure
  /-- Corresponding cells are handed out and hold related values. -/
  value : ∀ {a b : Nat}, c.cell a b →
    ∃ v w, c.left.store.get? a = some v ∧ c.right.store.get? b = some w ∧ v.Related c.closure w
  /-- Corresponding closures have the same literal and alike environments. -/
  literal : ∀ {i j : Nat}, c.closure i j →
    ∃ f g : Closure, c.left.closures[i]? = some f ∧ c.right.closures[j]? = some g ∧ f.literal = g.literal ∧
      L.Env c.cell f.env g.env
  /-- The sinks are alike. -/
  output : L.Output c.left.output c.right.output

/-- What two interpreters may make of a correspondence, `d`, when both go on in the same way. -/
structure Leads (c d : Correspondence σ τ) : Prop where
  /-- The one interpreter has grown. -/
  left : Grows c.left d.left
  /-- So has the other. -/
  right : Grows c.right d.right
  /-- Both have made or bound anew as many closures. -/
  captures : InStep c.left.captures c.right.captures d.left.captures d.right.captures
  /-- Both have made as many closures. -/
  count : InStep c.left.closures.size c.right.closures.size d.left.closures.size d.right.closures.size
  /-- Corresponding cells still correspond. -/
  cell : ∀ a b, c.cell a b → d.cell a b
  /-- Cells that correspond only since then were handed out since then. -/
  fresh : ∀ a b, d.cell a b → c.cell a b ∨ c.left.store.size ≤ a ∧ c.right.store.size ≤ b
  /-- Of the cells of the one interpreter only those were touched that correspond to others. -/
  leftSpares : c.left.Spares (fun a => ∃ b, c.cell a b) d.left
  /-- So were those of the other. -/
  rightSpares : c.right.Spares (fun b => ∃ a, c.cell a b) d.right
  /-- Corresponding closures still correspond, and those that were made since do so in the order in which they were made. -/
  closure : ∀ i j, d.closure i j ↔ c.closure i j ∨
    InStep c.left.closures.size c.right.closures.size i j ∧ i < d.left.closures.size
  /-- What corresponds is alike. -/
  sound : L.Sound d

variable {L}

namespace Sound

variable {c : Correspondence σ τ}

/-- Only cells that are handed out correspond. -/
theorem lt_size (h : L.Sound c) (a b : Nat) (hab : c.cell a b) : a < c.left.store.size ∧ b < c.right.store.size := by
  obtain ⟨v, w, hv, hw, -⟩ := h.value hab
  rw [← Store.isSome_get?_iff, ← Store.isSome_get?_iff, hv, hw]
  exact ⟨rfl, rfl⟩

/-- Only closures that were made correspond. -/
theorem lt_count (h : L.Sound c) (i j : Nat) (hij : c.closure i j) :
    i < c.left.closures.size ∧ j < c.right.closures.size := by
  obtain ⟨f, g, hf, hg, -⟩ := h.literal hij
  exact ⟨(Array.getElem?_eq_some_iff.1 hf).1, (Array.getElem?_eq_some_iff.1 hg).1⟩

/-- Nothing has happened. -/
theorem leads (h : L.Sound c) : L.Leads c c := by
  refine ⟨Grows.refl _, Grows.refl _, InStep.refl _ _, InStep.refl _ _, fun _ _ => id, fun _ _ => Or.inl,
    Interpreter.spares_refl _ _, Interpreter.spares_refl _ _, fun i j => ⟨Or.inl, ?_⟩, h⟩
  rintro (hij | ⟨⟨k, rfl, rfl⟩, hlt⟩)
  · exact hij
  · omega

end Sound

namespace Leads

variable {c d e : Correspondence σ τ}

theorem trans (h : L.Leads c d) (h' : L.Leads d e) : L.Leads c e := by
  have hleft := h.left.size
  have hright := h.right.size
  refine ⟨h.left.trans h'.left, h.right.trans h'.right, h.captures.trans h'.captures, h.count.trans h'.count,
    fun a b hab => h'.cell a b (h.cell a b hab), ?_, ?_, ?_, fun i j => ?_, h'.sound⟩
  · intro a b hab
    rcases h'.fresh a b hab with hab | ⟨ha, hb⟩
    · exact h.fresh a b hab
    · exact .inr ⟨by omega, by omega⟩
  · intro a ha hc
    -- a cell without a counterpart gets none as long as it is handed out
    have hd : ¬∃ b, d.cell a b := by
      rintro ⟨b, hab⟩
      rcases h.fresh a b hab with hab | ⟨hle, -⟩
      · exact hc ⟨b, hab⟩
      · omega
    rw [h'.leftSpares a (by omega) hd, h.leftSpares a ha hc]
  · intro b hb hc
    have hd : ¬∃ a, d.cell a b := by
      rintro ⟨a, hab⟩
      rcases h.fresh a b hab with hab | ⟨-, hle⟩
      · exact hc ⟨a, hab⟩
      · omega
    rw [h'.rightSpares b (by omega) hd, h.rightSpares b hb hc]
  obtain ⟨k, hk, hk'⟩ := h.count
  obtain ⟨l, hl, -⟩ := h'.count
  rw [h'.closure, h.closure, hk, hk', hl, hk]
  constructor
  · rintro ((hij | ⟨hij, hlt⟩) | ⟨⟨p, rfl, rfl⟩, hlt⟩)
    · exact .inl hij
    · exact .inr ⟨hij, by omega⟩
    · exact .inr ⟨⟨k + p, by omega, by omega⟩, hlt⟩
  · rintro (hij | ⟨⟨p, rfl, rfl⟩, hlt⟩)
    · exact .inl (.inl hij)
    · by_cases hp : p < k
      · exact .inl (.inr ⟨⟨p, rfl, rfl⟩, by omega⟩)
      · exact .inr ⟨⟨p - k, by omega, by omega⟩, hlt⟩

/-- Corresponding closures still correspond. -/
theorem closure_of (h : L.Leads c d) (i j : Nat) (hij : c.closure i j) : d.closure i j := (h.closure i j).2 (.inl hij)

/-- Related values stay related. -/
theorem related (h : L.Leads c d) {v w : Value} (hv : v.Related c.closure w) : v.Related d.closure w :=
  hv.mono h.closure_of

/-- Alike environments stay alike. -/
theorem env (h : L.Leads c d) {env env' : Environment} (he : L.Env c.cell env env') : L.Env d.cell env env' :=
  L.mono h.cell he

/-- If no closure was made, the same closures correspond. -/
theorem closure_eq (h : L.Leads c d) (hk : d.left.closures.size = c.left.closures.size) : d.closure = c.closure := by
  funext i j
  refine propext ⟨fun hij => ?_, h.closure_of i j⟩
  rcases (h.closure i j).1 hij with hij | ⟨⟨k, rfl, -⟩, hlt⟩
  · exact hij
  · omega

end Leads

/-! ## Changes of the state -/

/-- Binding a name in both interpreters makes the two new cells correspond. -/
theorem Sound.bind {c : Correspondence σ τ} (h : L.Sound c) {env env' : Environment} (he : L.Env c.cell env env')
    (name : String) {v w : Value} (hv : v.Related c.closure w) :
    ∃ d : Correspondence σ τ, d.left = (c.left.bind env name v).2 ∧ d.right = (c.right.bind env' name w).2 ∧ L.Leads c d ∧
      L.Env d.cell (c.left.bind env name v).1 (c.right.bind env' name w).1 := by
  have hcell : ∀ a b, c.cell a b → c.cell a b ∨ a = c.left.store.size ∧ b = c.right.store.size := fun _ _ => Or.inl
  refine ⟨⟨_, _, fun a b => c.cell a b ∨ a = c.left.store.size ∧ b = c.right.store.size, c.closure⟩, rfl, rfl, ?_,
    L.bind name (.inr ⟨rfl, rfl⟩) (L.mono hcell he)⟩
  refine ⟨Grows.of_closures_eq (by simp [Interpreter.bind]) rfl rfl, Grows.of_closures_eq (by simp [Interpreter.bind]) rfl rfl,
    InStep.refl _ _, InStep.refl _ _, hcell, ?_, ?_, ?_, h.leads.closure, ?_⟩
  · rintro a b (hab | ⟨rfl, rfl⟩)
    · exact .inl hab
    · exact .inr ⟨Nat.le_refl _, Nat.le_refl _⟩
  · intro a ha _
    exact (Store.get?_alloc _ _ _).trans (if_neg (Nat.ne_of_lt ha))
  · intro b hb _
    exact (Store.get?_alloc _ _ _).trans (if_neg (Nat.ne_of_lt hb))
  refine ⟨biUnique_or h.cells h.lt_size, h.closures, ?_, ?_, h.output⟩
  · rintro a b (hab | ⟨rfl, rfl⟩)
    · obtain ⟨hlt, hlt'⟩ := h.lt_size a b hab
      simp only [Interpreter.bind, Store.get?_alloc, if_neg (Nat.ne_of_lt hlt), if_neg (Nat.ne_of_lt hlt')]
      exact h.value hab
    · simp only [Interpreter.bind, Store.get?_alloc, if_pos]
      exact ⟨v, w, rfl, rfl, hv⟩
  · intro i j hij
    obtain ⟨f, g, hf, hg, hl, henv⟩ := h.literal hij
    exact ⟨f, g, hf, hg, hl, L.mono hcell henv⟩

/-- Making a closure in both interpreters makes the two new closures correspond. -/
theorem Sound.capture {c : Correspondence σ τ} (h : L.Sound c) (literal : FunctionLiteral) {env env' : Environment}
    (he : L.Env c.cell env env') :
    ∃ d : Correspondence σ τ,
      d.left = { c.left with closures := c.left.closures.push ⟨literal, env⟩, captures := c.left.captures + 1 } ∧
      d.right = { c.right with closures := c.right.closures.push ⟨literal, env'⟩, captures := c.right.captures + 1 } ∧
      L.Leads c d ∧ d.closure c.left.closures.size c.right.closures.size := by
  refine ⟨⟨_, _, c.cell, fun i j => c.closure i j ∨ i = c.left.closures.size ∧ j = c.right.closures.size⟩, rfl, rfl, ?_,
    .inr ⟨rfl, rfl⟩⟩
  refine ⟨grows_closures _ _, grows_closures _ _, ⟨1, rfl, rfl⟩, ⟨1, by simp, by simp⟩, fun _ _ => id, fun _ _ => Or.inl,
    Interpreter.spares_refl _ c.left, Interpreter.spares_refl _ c.right, ?_, ?_⟩
  · intro i j
    refine or_congr Iff.rfl ⟨?_, ?_⟩
    · rintro ⟨rfl, rfl⟩
      exact ⟨InStep.refl _ _, by simp⟩
    · rintro ⟨⟨k, rfl, rfl⟩, hlt⟩
      rw [Array.size_push] at hlt
      omega
  · refine ⟨h.cells, biUnique_or h.closures h.lt_count, ?_, ?_, h.output⟩
    · intro a b hab
      obtain ⟨v, w, hv, hw, hr⟩ := h.value hab
      exact ⟨v, w, hv, hw, hr.mono fun _ _ => Or.inl⟩
    · rintro i j (hij | ⟨rfl, rfl⟩)
      · obtain ⟨f, g, hf, hg, hr⟩ := h.literal hij
        obtain ⟨hlt, hlt'⟩ := h.lt_count i j hij
        refine ⟨f, g, ?_, ?_, hr⟩
        · rwa [Array.getElem?_push, if_neg (Nat.ne_of_lt hlt)]
        · rwa [Array.getElem?_push, if_neg (Nat.ne_of_lt hlt')]
      · exact ⟨_, _, Array.getElem?_push_size, Array.getElem?_push_size, rfl, he⟩

/-- Corresponding closures may be bound anew in alike environments. -/
theorem Sound.recapture {c : Correspondence σ τ} (h : L.Sound c) {i j : Nat} (hij : c.closure i j) {env env' : Environment}
    (he : L.Env c.cell env env') :
    L.Leads c { c with
      left := { c.left with closures := c.left.closures.modify i ({ · with env }), captures := c.left.captures + 1 }
      right := { c.right with
        closures := c.right.closures.modify j ({ · with env := env' }), captures := c.right.captures + 1 } } := by
  refine ⟨grows_closures _ _, grows_closures _ _, ⟨1, rfl, rfl⟩, ⟨0, by simp, by simp⟩, fun _ _ => id, fun _ _ => Or.inl,
    Interpreter.spares_refl _ c.left, Interpreter.spares_refl _ c.right, ?_, ?_⟩
  · simpa using h.leads.closure
  · refine ⟨h.cells, h.closures, h.value, ?_, h.output⟩
    intro i' j' hij'
    obtain ⟨f, g, hf, hg, hl, henv⟩ := h.literal hij'
    -- `i'` is `i` exactly if `j'` is `j`, so either both closures are bound anew or none of them
    by_cases hi : i = i'
    · subst hi
      have hj : j = j' := h.closures.2 hij hij'
      subst hj
      exact ⟨⟨f.literal, env⟩, ⟨g.literal, env'⟩, by simp [Array.getElem?_modify, hf], by simp [Array.getElem?_modify, hg],
        hl, he⟩
    · have hj : j ≠ j' := by
        rintro rfl
        exact hi (h.closures.1 hij hij')
      exact ⟨f, g, by simpa [Array.getElem?_modify, hi] using hf, by simpa [Array.getElem?_modify, hj] using hg, hl, henv⟩

/-- Corresponding cells may be given related values. -/
theorem Sound.set {c : Correspondence σ τ} (h : L.Sound c) {a b : Nat} (hab : c.cell a b) {v w : Value}
    (hv : v.Related c.closure w) :
    ∃ store store', c.left.store.set? a v = some store ∧ c.right.store.set? b w = some store' ∧
      L.Leads c { c with left := { c.left with store := store }, right := { c.right with store := store' } } := by
  obtain ⟨hlt, hlt'⟩ := h.lt_size a b hab
  obtain ⟨store, hs⟩ := Option.isSome_iff_exists.1 ((Store.isSome_set?_iff c.left.store a v).2 hlt)
  obtain ⟨store', hs'⟩ := Option.isSome_iff_exists.1 ((Store.isSome_set?_iff c.right.store b w).2 hlt')
  refine ⟨store, store', hs, hs', ?_⟩
  refine ⟨Grows.of_closures_eq (Nat.le_of_eq (Store.size_of_set? hs).symm) rfl rfl,
    Grows.of_closures_eq (Nat.le_of_eq (Store.size_of_set? hs').symm) rfl rfl,
    InStep.refl _ _, InStep.refl _ _, fun _ _ => id, fun _ _ => Or.inl, ?_, ?_, h.leads.closure, ?_⟩
  · intro a' _ hspared
    have ha : a' ≠ a := by
      rintro rfl
      exact hspared ⟨b, hab⟩
    exact (Store.get?_of_set? hs a').trans (if_neg ha)
  · intro b' _ hspared
    have hb : b' ≠ b := by
      rintro rfl
      exact hspared ⟨a, hab⟩
    exact (Store.get?_of_set? hs' b').trans (if_neg hb)
  refine ⟨h.cells, h.closures, ?_, h.literal, h.output⟩
  intro a' b' hab'
  -- cells correspond one to one, so either both sides have the new value or both the old one
  simp only [Store.get?_of_set? hs, Store.get?_of_set? hs']
  by_cases ha : a' = a
  · subst ha
    have hb : b' = b := h.cells.2 hab' hab
    subst hb
    simp only [if_pos]
    exact ⟨v, w, rfl, rfl, hv⟩
  · have hb : b' ≠ b := by
      rintro rfl
      exact ha (h.cells.1 hab' hab)
    rw [if_neg ha, if_neg hb]
    exact h.value hab'

/-- Text may be handed to both sinks. -/
theorem Sound.write {c : Correspondence σ τ} (h : L.Sound c) (s : String) :
    L.Leads c { c with
      left := { c.left with output := (Sink.write c.left.output s).1 }
      right := { c.right with output := (Sink.write c.right.output s).1 } } :=
  ⟨Grows.of_closures_eq (Nat.le_refl _) rfl rfl, Grows.of_closures_eq (Nat.le_refl _) rfl rfl, InStep.refl _ _,
    InStep.refl _ _, fun _ _ => id, fun _ _ => Or.inl, Interpreter.spares_refl _ c.left, Interpreter.spares_refl _ c.right,
    h.leads.closure, ⟨h.cells, h.closures, h.value, h.literal, (L.write s h.output).2⟩⟩

/-- When a call or a block ends, the cells that corresponded when it began correspond again, or still all that do if a closure was
made or bound anew; either way it does not matter which interpreter gives back cells. -/
theorem Leads.reclaim {c d : Correspondence σ τ} (h : L.Leads c d) (hc : L.Sound c) (r q : Reclamation) :
    ∃ e : Correspondence σ τ, e.left = d.left.reclaim r c.left.mark ∧ e.right = d.right.reclaim q c.right.mark ∧
      L.Leads c e ∧ e.closure = d.closure := by
  -- if a closure was made, both interpreters keep all cells
  by_cases hk : d.left.captures = c.left.captures
  · have hleft := h.left.closures hk
    have hright := h.right.closures (h.captures.eq_iff.1 hk)
    have hcl : c.closure = d.closure := (h.closure_eq (congrArg Array.size hleft)).symm
    refine ⟨⟨d.left.reclaim r c.left.mark, d.right.reclaim q c.right.mark, c.cell, c.closure⟩, rfl, rfl, ?_, hcl⟩
    have hcl' : (d.left.reclaim r c.left.mark).closures = c.left.closures := by rw [Interpreter.reclaim_eq, hleft]
    have hcr' : (d.right.reclaim q c.right.mark).closures = c.right.closures := by rw [Interpreter.reclaim_eq, hright]
    refine ⟨h.left.reclaim r, h.right.reclaim q, ?_, ?_, fun _ _ => id, fun _ _ => Or.inl, ?_, ?_, ?_, ?_⟩
    · rw [Interpreter.reclaim_eq, Interpreter.reclaim_eq d.right]
      exact h.captures
    · rw [hcl', hcr']
      exact InStep.refl _ _
    · intro a ha hspared
      rw [Interpreter.get?_reclaim _ _ ha, h.leftSpares a ha hspared]
    · intro b hb hspared
      rw [Interpreter.get?_reclaim _ _ hb, h.rightSpares b hb hspared]
    · rw [hcl']
      exact hc.leads.closure
    · refine ⟨hc.cells, hc.closures, ?_, ?_, ?_⟩
      · intro a b hab
        obtain ⟨hlt, hlt'⟩ := hc.lt_size a b hab
        rw [Interpreter.get?_reclaim _ _ hlt, Interpreter.get?_reclaim _ _ hlt', hcl]
        exact h.sound.value (h.cell a b hab)
      · rw [hcl', hcr']
        exact hc.literal
      · rw [Interpreter.reclaim_eq, Interpreter.reclaim_eq d.right]
        exact h.sound.output
  · have hk' : d.right.captures ≠ c.right.captures := fun he => hk (h.captures.eq_iff.2 he)
    refine ⟨d, ?_, ?_, h, rfl⟩
    · rw [Interpreter.reclaim_of_captures_ne hk]
    · rw [Interpreter.reclaim_of_captures_ne hk']

end Likeness

end ExprLang
