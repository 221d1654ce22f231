import ExprLang.Proofs.Evaluation.Results
import ExprLang.Proofs.Evaluation.Safety
import ExprLang.Proofs.Imperative.Interpretation
import ExprLang.Proofs.Slots.Staleness

/-!
# Interpreting programs without branches

The names that are not stale have the same integers for the interpreter and by slots (`Alike`), and so has an expression in which no name
is read that is stale and no left operand is overwritten (`Keeps`, `keeps_evaluate`): an assignment writes the cell and the slot that the
name stood for before, a declaration the new ones, and the end of a block makes names stale.

So if the interpreter ends with an integer, it is the one by slots (`eq_of_run`).
-/

namespace ExprLang

namespace Slots

open Evaluation
open Interpreter (lookup_ok_iff)

variable {operators : Arithmetic → Prop} {e a b : Expression} {es : List Expression} {needed : Bool} {stale stale' : List String}
  {x : String} {σ : Type} {reclamation : Reclamation} {env : Environment} {m m' : Interpreter σ} {r : Evaluated}

/-! ## Names and their integers -/

/-- Where a name was bound, an evaluation may begin. -/
theorem ready_bind (hm : Ready m env) (x : String) (value : Value) :
    Ready (m.bind env x value).2 (env.bind x m.store.size) :=
  hm.advance (advances_bind m env x value)

theorem size_bind (m : Interpreter σ) (env : Environment) (x : String) (value : Value) :
    (m.bind env x value).2.store.size = m.store.size + 1 := by
  simp [Interpreter.bind]

/-- No cell holds a name. -/
def Resolved (m : Interpreter σ) : Prop := ∀ slot x, m.store.get? slot ≠ some (.id x)

/-- What was resolved is no name. -/
theorem Resolved.ne_id (hm : Resolved m) {value v : Value} {context : String} (h : m.resolve value env context = .ok v)
    (x : String) : v ≠ .id x := by
  rintro rfl
  cases value with
  | id y =>
    obtain ⟨slot, -, hcell⟩ := lookup_ok_iff.1 h
    exact hm slot x hcell
  | _ => cases h

/-- What was resolved is resolved to itself. -/
theorem Resolved.resolve (hm : Resolved m) {value v : Value} {context : String} (h : m.resolve value env context = .ok v)
    (other : Interpreter σ) (env' : Environment) (context' : String) : other.resolve v env' context' = .ok v := by
  have hid := hm.ne_id h
  cases v with
  | id x => exact absurd rfl (hid x)
  | _ => rfl

/-- The names that are not stale have the same integers for the interpreter and in the table. -/
structure Alike (stale : List String) (env : Environment) (m : Interpreter σ) (t : Table) : Prop where
  /-- An evaluation may begin. -/
  ready : Ready m env
  /-- Each binding of the table has a slot of its own. -/
  wellFormed : t.env.WellFormed t.cells.length
  /-- No cell holds a name. -/
  resolved : Resolved m
  /-- An integer in the cell of a name is in its slot as well. -/
  same : ∀ x, x ∉ stale → ∀ slot n, env.find? x = some slot → m.store.get? slot = some (.int n) →
    ∃ i, t.env.find? x = some i ∧ t.cells[i]? = some n

/-- What an expression leaves: names are alike, and if its value is needed and is an integer, this is in the table as well. -/
structure Keeps (needed : Bool) (stale : List String) (r : Evaluated) (m : Interpreter σ) (res : Result) (t : Table) : Prop where
  /-- The names that are not stale have the same integers. -/
  alike : Alike stale r.env m t
  /-- The values are the same. -/
  value : needed = true → ∀ n context, m.resolve r.value r.env context = .ok (.int n) → t.read? res = some n

variable {stale₁ outside all others : List String} {t t' t₁ : Table} {res res₁ : Result} {m₁ : Interpreter σ} {r₁ : Evaluated}
  {slot i : Nat} {n : Int32} {v : Value}

/-- A name that was bound has no integer for now. -/
theorem Alike.bind (h : Alike stale env m t) (x : String) :
    Alike (stale.filter (· ≠ x)) (env.bind x m.store.size) (m.bind env x .void).2 t := by
  have hcell : ∀ slot, (m.bind env x .void).2.store.get? slot = if slot = m.store.size then some .void else m.store.get? slot :=
    Store.get?_alloc _ _
  refine ⟨ready_bind h.ready x .void, h.wellFormed, fun slot y hy => ?_, fun y hy slot n hslot hn => ?_⟩
  · rw [hcell] at hy
    split at hy
    · cases hy
    · exact h.resolved slot y hy
  · rw [hcell] at hn
    rw [Environment.find?_bind] at hslot
    by_cases hyx : y = x
    · rw [if_pos hyx] at hslot
      cases hslot
      rw [if_pos rfl] at hn
      cases hn
    · rw [if_neg hyx] at hslot
      rw [if_neg (Nat.ne_of_lt (h.ready.wellFormed.find?_lt hslot))] at hn
      exact h.same y (fun hstale => hy (List.mem_filter.2 ⟨hstale, decide_eq_true hyx⟩)) slot n hslot hn

/-- A cell is written, and so is the slot of each name that stands for the cell; the others keep what is in theirs. -/
theorem Alike.write (h : Alike stale env m t) (hv : ∀ x, v ≠ .id x) (hset : m.store.set? slot v = some m'.store)
    (hready : Ready m' env) (hw : t'.env.WellFormed t'.cells.length)
    (hhit : ∀ y, y ∉ stale' → env.find? y = some slot → ∀ n, v = .int n → ∃ i, t'.env.find? y = some i ∧ t'.cells[i]? = some n)
    (hmiss : ∀ y, y ∉ stale' → env.find? y ≠ some slot → y ∉ stale ∧ ∀ i n, t.env.find? y = some i → t.cells[i]? = some n →
      t'.env.find? y = some i ∧ t'.cells[i]? = some n) : Alike stale' env m' t' := by
  refine ⟨hready, hw, fun other x hx => ?_, fun y hy other n hother hn => ?_⟩
  · rw [Store.get?_of_set? hset] at hx
    split at hx
    · cases hx
      exact hv x rfl
    · exact h.resolved other x hx
  · rw [Store.get?_of_set? hset] at hn
    by_cases heq : other = slot
    · rw [if_pos heq] at hn
      cases hn
      exact hhit y hy (heq ▸ hother) n rfl
    · rw [if_neg heq] at hn
      have hne : env.find? y ≠ some slot := fun hfind => heq (Option.some.inj (hother.symm.trans hfind))
      obtain ⟨hstale, hkeep⟩ := hmiss y hy hne
      obtain ⟨i, hi, hin⟩ := h.same y hstale other n hother hn
      obtain ⟨hi', hin'⟩ := hkeep i n hi hin
      exact ⟨i, hi', hin'⟩

/-- What is read from the table is what is written to the cell if this is an integer. -/
theorem Keeps.eq_int (h : Keeps true stale₁ r₁ m₁ res₁ t₁) {context : String} (hv : m₁.resolve r₁.value r₁.env context = .ok v)
    (hn : t₁.read? res₁ = some n) {k : Int32} (hk : v = .int k) : n = k := by
  subst hk
  exact Option.some.inj (hn.symm.trans (h.value rfl k _ hv))

/-- The value of a name whose cell was written is what was written. -/
theorem eq_of_resolve (hset : m₁.store.set? slot v = some m'.store) (hx : env.find? x = some slot) {k : Int32} {context : String}
    (h : m'.resolve (.id x) env context = .ok (.int k)) : v = .int k := by
  obtain ⟨slot', hslot', hcell⟩ := lookup_ok_iff.1 h
  rw [hx] at hslot'
  cases hslot'
  rw [Store.get?_of_set? hset, if_pos rfl] at hcell
  exact Option.some.inj hcell

/-- An assignment writes the cell and the slot that the name stood for before. -/
theorem Keeps.assign (hm : Alike stale env m t) (hk : Keeps true stale₁ r₁ m₁ res₁ t₁)
    (hdeclares : env.Declares outside m.store.size r₁.env) (hdevelops : Develops all others t t₁) (hsub : outside ⊆ all)
    (hstale : ∀ y, y ≠ x → y ∉ stale' → y ∉ stale₁) (hfresh : x ∉ stale' → x ∈ all → x ∈ outside ∧ x ∉ stale₁)
    (hneeded : needed = true → x ∉ outside) (hx : env.find? x = some slot) (hi : t.env.find? x = some i)
    (hv : m₁.resolve r₁.value r₁.env "Assign" = .ok v) (hset : m₁.store.set? slot v = some m'.store) (hready : Ready m' r₁.env)
    (hn : t₁.read? res₁ = some n) : Keeps needed stale' ⟨.id x, r₁.env⟩ m' (.slot i) (t₁.set i n) := by
  have hslot : slot < m.store.size := hm.ready.wellFormed.find?_lt hx
  have hlt : i < t.cells.length := hm.wellFormed.find?_lt hi
  have hself : (t₁.set i n).cells[i]? = some n := List.getElem?_set_self (Nat.lt_of_lt_of_le hlt hdevelops.length)
  refine ⟨hk.alike.write (hk.alike.resolved.ne_id hv) hset hready ?_ ?_ ?_, fun h k context hres => ?_⟩
  · simpa [Table.set] using hk.alike.wellFormed
  · intro y hy hfind k hvk
    obtain rfl : y = x := hm.ready.wellFormed.eq_of_find? (hdeclares.find?_eq hfind hslot) hx
    -- it was not declared in a block either, or it would be stale now
    have hall : y ∉ all := fun hmem => hdeclares.not_mem hfind hslot (hfresh hy hmem).1
    exact ⟨i, (hdevelops.declares.same y hall).trans hi, hk.eq_int hv hn hvk ▸ hself⟩
  · intro y hy hne
    refine ⟨?_, fun j k hj hjk => ⟨hj, ?_⟩⟩
    · by_cases hyx : y = x
      · subst hyx
        by_cases hall : y ∈ all
        · exact (hfresh hy hall).2
        · exact absurd ((hdeclares.same y fun hmem => hall (hsub hmem)).trans hx) hne
      · exact hstale y hyx hy
    · have hij : i ≠ j := by
        rintro rfl
        obtain rfl : y = x := hm.wellFormed.eq_of_find? (hdevelops.declares.find?_eq hj hlt) hi
        exact hne ((hdeclares.same y fun hmem => hdevelops.declares.not_mem hj hlt (hsub hmem)).trans hx)
      rw [Table.set, List.getElem?_set_ne hij, hjk]
  · have hfind : r₁.env.find? x = some slot := (hdeclares.same x (hneeded h)).trans hx
    exact hk.eq_int hv hn (eq_of_resolve hset hfind hres) ▸ hself

/-- A declaration writes the new cell and the new slot. -/
theorem Keeps.declare (hm : Ready m env) (hk : Keeps true stale₁ r₁ m₁ res₁ t₁)
    (hdeclares : (env.bind x m.store.size).Declares outside (m.store.size + 1) r₁.env)
    (hstale : ∀ y, y ≠ x → y ∉ stale' → y ∉ stale₁) (hx : x ∉ stale' → x ∉ outside) (hneeded : needed = true → x ∉ outside)
    (hv : m₁.resolve r₁.value r₁.env "Assign" = .ok v) (hset : m₁.store.set? m.store.size v = some m'.store)
    (hready : Ready m' r₁.env) (hn : t₁.read? res₁ = some n) :
    Keeps needed stale' ⟨.id x, r₁.env⟩ m' (.slot t₁.cells.length) (t₁.declare x n) := by
  have hbind : (env.bind x m.store.size).find? x = some m.store.size := by rw [Environment.find?_bind, if_pos rfl]
  have hself : (t₁.declare x n).cells[t₁.cells.length]? = some n := List.getElem?_concat_length
  -- the interpreter binds the name before its value is evaluated, so a declaration of the same name in the value hides the new cell
  refine ⟨hk.alike.write (hk.alike.resolved.ne_id hv) hset hready ?_ ?_ ?_, fun h k context hres => ?_⟩
  · simpa [Table.declare] using hk.alike.wellFormed.bind x
  · intro y hy hfind k hvk
    obtain rfl : y = x := (hm.wellFormed.bind x).eq_of_find? (hdeclares.find?_eq hfind (Nat.lt_succ_self _)) hbind
    exact ⟨t₁.cells.length, (Environment.find?_bind _ _ _ _).trans (if_pos rfl), hk.eq_int hv hn hvk ▸ hself⟩
  · intro y hy hne
    have hyx : y ≠ x := by
      rintro rfl
      exact hne ((hdeclares.same y (hx hy)).trans hbind)
    refine ⟨hstale y hyx hy, fun j k hj hjk => ⟨?_, ?_⟩⟩
    · rw [Table.declare, Environment.find?_bind, if_neg hyx, hj]
    · obtain ⟨hlt, -⟩ := List.getElem?_eq_some_iff.1 hjk
      rw [Table.declare, List.getElem?_append_left hlt, hjk]
  · have hfind : r₁.env.find? x = some m.store.size := (hdeclares.same x (hneeded h)).trans hbind
    exact hk.eq_int hv hn (eq_of_resolve hset hfind hres) ▸ hself

/-- Cells that are left hold what they held. -/
theorem get?_of_reclaim {mark : Mark} {w : Value} (h : (m.reclaim reclamation mark).store.get? slot = some w) :
    m.store.get? slot = some w := by
  cases reclamation with
  | never => exact h
  | onExit =>
    by_cases hc : m.captures = mark.captures
    · rw [Interpreter.reclaim_of_captures_eq hc, Store.get?_truncate] at h
      split at h
      · exact h
      · cases h
    · rwa [Interpreter.reclaim_of_captures_ne hc] at h

/-- At the end of a block what was declared in it is stale. -/
theorem Keeps.scope (hk : Keeps needed stale₁ r₁ m₁ res t₁)
    (hdeclares : env.Declares outside m.store.size r₁.env) (hsub : outside ⊆ all)
    (hv : m₁.resolve r₁.value r₁.env "Scope" = .ok v) (hready : Ready (m₁.reclaim reclamation m.mark) env) :
    Keeps needed (all ++ stale₁) ⟨v, env⟩ (m₁.reclaim reclamation m.mark) res t₁ := by
  refine ⟨⟨hready, hk.alike.wellFormed, fun slot x hx => ?_, fun y hy slot k hslot hcell => ?_⟩, fun h k context hres => ?_⟩
  · exact hk.alike.resolved slot x (get?_of_reclaim hx)
  · rw [List.mem_append, not_or] at hy
    have hfind : r₁.env.find? y = some slot := (hdeclares.same y fun hmem => hy.1 (hsub hmem)).trans hslot
    exact hk.alike.same y hy.2 slot k hfind (get?_of_reclaim hcell)
  · rw [hk.alike.resolved.resolve hv] at hres
    cases hres
    exact hk.value h k _ hv

/-- The result of an operator is an integer only for integers. -/
theorem integers_of_apply {o : Arithmetic} {v w u : Value} {context : String} (hu : o.apply v w = .ok u)
    (h : m.resolve u env context = .ok (.int n)) : ∃ x y, v = .int x ∧ w = .int y ∧ o.onIntegers x y = .ok n := by
  unfold Arithmetic.apply at hu
  split at hu
  · rename_i x y
    obtain ⟨k, hk, rfl⟩ := except_map_ok_iff.1 hu
    cases h
    exact ⟨x, y, rfl, rfl, hk⟩
  · cases hu
    cases h
  · cases hu
    cases h
  · cases hu
    cases h
  · split at hu <;> cases hu
    cases h
  · cases hu

/-- Unless the right operand assigns to the slot that the left one is, both are read as they were evaluated. -/
theorem Keeps.binary {o : Arithmetic} {l : Evaluated} {left right : Result} {v w u : Value} {name? : Option String} {k : Int32}
    {context context' : String} (ho : o ≠ .div) (ha : Keeps true stale₁ l m₁ left t₁) (hb : Keeps true stale' r₁ m' right t')
    (hv : m₁.resolve l.value l.env context = .ok v) (hw : m'.resolve r₁.value r₁.env context' = .ok w)
    (hu : o.apply v w = .ok u) (hdevelops : Develops all others t₁ t') (hname : BelongsTo left name? t₁)
    (hkept : ∀ x, name? = some x → x ∉ others) {x y : Int32} (hx : t'.read? left = some x) (hy : t'.read? right = some y)
    (hk : o.compute? x y = some k) : Keeps needed stale' ⟨u, r₁.env⟩ m' (.value k) t' := by
  refine ⟨hb.alike, fun _ n context'' hres => ?_⟩
  obtain ⟨x', y', rfl, rfl, hn⟩ := integers_of_apply hu hres
  have hx' : t'.read? left = some x' := (hdevelops.read? hname hkept).trans (ha.value rfl x' _ hv)
  obtain rfl : x = x' := Option.some.inj (hx.symm.trans hx')
  obtain rfl : y = y' := Option.some.inj (hy.symm.trans (hb.value rfl y' _ hw))
  exact hk.symm.trans (compute?_of_ok (fun hdiv => absurd hdiv ho) hn)

/-- At first no name is declared. -/
theorem alike_initial (output : σ) : Alike [] Environment.empty (.initial output) Table.empty := by
  refine ⟨⟨fun c hc => absurd hc (Array.not_mem_empty _), Environment.wellFormed_empty _⟩, Environment.wellFormed_empty _,
    fun slot x hx => ?_, fun x _ slot n hslot _ => nomatch hslot⟩
  simp [Interpreter.initial, Store.get?, Store.empty] at hx

/-! ## Evaluations that succeed -/

variable {eval : Evaluator σ}

variable [Sink σ] {turns steps : Nat} {p : Evaluated}

/-- An assignment to a name writes the cell that the name stood for before. -/
theorem evaluate_assign_ok (h : evaluate reclamation steps (.assign (.identifier x) a) env m = .ok r m') :
    ∃ k slot r₁ m₁ v, env.find? x = some slot ∧ evaluate reclamation k a env m = .ok r₁ m₁ ∧
      m₁.resolve r₁.value r₁.env "Assign" = .ok v ∧ m₁.store.set? slot v = some m'.store ∧ r = ⟨.id x, r₁.env⟩ := by
  obtain ⟨k, h⟩ := exists_step h
  obtain ⟨p, m₁, y, slot, r₁, m₂, v, m₃, store, hp, hvalue, hslot, hr, hv, hrecapture, hset, rfl, rfl⟩ := assign_ok h
  obtain ⟨rfl, rfl⟩ := evaluate_identifier_ok hp
  cases hvalue
  rw [store_of_recapture hrecapture] at hset
  exact ⟨k, slot, r₁, m₂, v, hslot, hr, hv, hset, rfl⟩

/-- A declaration binds the name before it evaluates what to write to the new cell. -/
theorem evaluate_declare_ok (h : evaluate reclamation steps (.assign (.varDecl x) a) env m = .ok r m') :
    ∃ k r₁ m₁ v, evaluate reclamation k a (env.bind x m.store.size) (m.bind env x .void).2 = .ok r₁ m₁ ∧
      m₁.resolve r₁.value r₁.env "Assign" = .ok v ∧ m₁.store.set? m.store.size v = some m'.store ∧ r = ⟨.id x, r₁.env⟩ := by
  obtain ⟨k, h⟩ := exists_step h
  obtain ⟨p, m₁, y, slot, r₁, m₂, v, m₃, store, hp, hvalue, hslot, hr, hv, hrecapture, hset, rfl, rfl⟩ := assign_ok h
  obtain ⟨rfl, rfl⟩ := evaluate_varDecl_ok hp
  cases hvalue
  rw [Environment.find?_bind, if_pos rfl] at hslot
  cases hslot
  rw [store_of_recapture hrecapture] at hset
  exact ⟨k, r₁, m₂, v, hr, hv, hset, rfl⟩

/-- An evaluation that succeeds goes on from a later state. -/
theorem advances_of_evaluate (hm : Ready m env) (he : evaluate reclamation steps e env m = .ok r m') :
    Advances m env m' r.env := by
  have hsafe := evaluate_safe reclamation steps e env m hm
  rw [he] at hsafe
  exact hsafe

/-! ## What is declared -/

theorem declares_sequence
    (ih : ∀ e ∈ es, ∀ {m m' : Interpreter σ} {env : Environment} {r : Evaluated}, Ready m env →
      evaluate reclamation steps e env m = .ok r m' → env.Declares (declared false e) m.store.size r.env)
    {last : Evaluated} (hm : Ready m last.env) (he : sequence (evaluate reclamation steps) es last m = .ok r m') :
    last.env.Declares (declaredAll false es) m.store.size r.env := by
  induction es generalizing last m with
  | nil =>
    obtain ⟨rfl, rfl⟩ := pure_ok_iff.1 he
    exact .refl _ _
  | cons e rest hrec =>
    obtain ⟨hfirst, hrest⟩ := List.forall_mem_cons.1 ih
    obtain ⟨r₁, m₁, he₁, he⟩ := bind_ok_iff.1 he
    have ha := advances_of_evaluate hm he₁
    exact (hfirst hm he₁).trans (hrec hrest (hm.advance ha) he) ha.size

/-- The names that are declared outside of blocks are bound to new cells. -/
theorem declares_evaluate (h : IsStraight operators e) (hm : Ready m env) (he : evaluate reclamation steps e env m = .ok r m') :
    env.Declares (declared false e) m.store.size r.env := by
  induction h generalizing steps m m' env r with
  | integer n =>
    obtain ⟨k, he⟩ := exists_step he
    obtain ⟨rfl, rfl⟩ := pure_ok_iff.1 he
    exact .refl _ _
  | identifier x =>
    obtain ⟨rfl, rfl⟩ := evaluate_identifier_ok he
    exact .refl _ _
  | binary _ _ _ iha ihb =>
    obtain ⟨k, he⟩ := exists_step he
    obtain ⟨l, m₁, v, r₁, w, u, hl, -, hr, -, -, rfl⟩ := binary_ok he
    have ha := advances_of_evaluate hm hl
    have hb := ihb (hm.advance ha) hr
    exact (iha hm hl).trans hb ha.size
  | scope _ _ =>
    obtain ⟨k, he⟩ := exists_step he
    obtain ⟨r₁, m₁, v, -, -, rfl, rfl⟩ := scope_ok he
    exact .refl _ _
  | sequence _ ih =>
    obtain ⟨k, he⟩ := exists_step he
    exact declares_sequence (fun e he' => ih e he') hm he
  | declare x _ iha =>
    obtain ⟨k, r₁, m₁, v, hr, -, -, rfl⟩ := evaluate_declare_ok he
    -- the name is bound before the right-hand side is evaluated
    have hx : env.Declares [x] m.store.size (env.bind x m.store.size) := (Environment.Declares.refl _ _).bind (Nat.le_refl _) x
    have ha := iha (ready_bind hm x .void) hr
    exact hx.trans ha (by rw [size_bind]; exact Nat.le_succ _)
  | assign x _ iha =>
    obtain ⟨k, slot, r₁, m₁, v, -, hr, -, -, rfl⟩ := evaluate_assign_ok he
    have ha := iha hm hr
    exact ha

/-! ## What is kept -/

/-- Expressions one after the other keep names alike if each of them does. -/
theorem keeps_sequence
    (ih : ∀ e ∈ es, ∀ {needed : Bool} {stale stale' : List String} {m m' : Interpreter σ} {env : Environment} {r : Evaluated}
      {t t' : Table} {res : Result}, overwrites e = false → stale? e needed stale = some stale' → Alike stale env m t →
      evaluate reclamation steps e env m = .ok r m' → execute? e t = some (res, t') → Keeps needed stale' r m' res t')
    {last : Evaluated} {lastResult : Result} (ho : overwritesAny es = false) (hs : staleAll? es needed stale = some stale')
    (hlast : Keeps (needed && es.isEmpty) stale last m lastResult t)
    (he : sequence (evaluate reclamation steps) es last m = .ok r m') (ht : executeAll? es lastResult t = some (res, t')) :
    Keeps needed stale' r m' res t' := by
  induction es generalizing stale last m lastResult t with
  | nil =>
    obtain ⟨rfl, rfl⟩ := pure_ok_iff.1 he
    cases hs
    cases ht
    rwa [List.isEmpty_nil, Bool.and_true] at hlast
  | cons e rest hrec =>
    obtain ⟨hfirst, hrest⟩ := List.forall_mem_cons.1 ih
    obtain ⟨ho₁, ho⟩ := Bool.or_eq_false_iff.1 ho
    simp only [staleAll?, Option.bind_eq_bind, Option.bind_eq_some_iff] at hs
    obtain ⟨stale₁, hs₁, hs⟩ := hs
    obtain ⟨r₁, m₁, he₁, he⟩ := bind_ok_iff.1 he
    obtain ⟨res₁, t₁, ht₁, ht⟩ := of_executeAll?_cons ht
    exact hrec hrest ho hs (hfirst ho₁ hs₁ hlast.alike he₁ ht₁) he ht

/-- If no name is read that is stale and no left operand is a slot that the right one assigns to, then the names that are not stale have
the same integers afterwards if they had before, and so has the expression. -/
theorem keeps_evaluate (h : IsStraight operators e) (hop : ∀ o, operators o → o ≠ .div) (ho : overwrites e = false)
    (hs : stale? e needed stale = some stale') (hm : Alike stale env m t) (he : evaluate reclamation steps e env m = .ok r m')
    (ht : execute? e t = some (res, t')) : Keeps needed stale' r m' res t' := by
  -- on the shape of the program: without loops and calls the steps only have to suffice, and each part has its own names that are stale
  induction h generalizing steps needed stale stale' m m' env r t t' res with
  | integer n =>
    obtain ⟨k, he⟩ := exists_step he
    obtain ⟨rfl, rfl⟩ := pure_ok_iff.1 he
    cases hs
    cases ht
    refine ⟨hm, fun _ k context hres => ?_⟩
    cases hres
    rfl
  | identifier x =>
    obtain ⟨rfl, rfl⟩ := evaluate_identifier_ok he
    obtain ⟨i, n, hi, hn, rfl, rfl⟩ := of_execute?_identifier ht
    simp only [stale?] at hs
    split at hs
    · cases hs
    · rename_i hstale
      cases hs
      refine ⟨hm, fun hneeded k context hres => ?_⟩
      obtain ⟨slot, hslot, hcell⟩ := lookup_ok_iff.1 hres
      obtain ⟨i', hi', hk⟩ := hm.same x (fun hmem => hstale (by simp [hneeded, hmem])) slot k hslot hcell
      rw [hi] at hi'
      cases hi'
      exact hn.symm.trans hk
  | @binary a b o ha hdiv hb iha ihb =>
    obtain ⟨k, he⟩ := exists_step he
    obtain ⟨l, m₁, v, r₁, w, u, hl, hv, hr, hw, hu, rfl⟩ := binary_ok he
    simp only [stale?, Option.bind_eq_bind, Option.bind_eq_some_iff] at hs
    obtain ⟨stale₁, hsa, hsb⟩ := hs
    obtain ⟨left, t₁, right, x, y, k, hta, htb, hx, hy, hk, rfl⟩ := of_execute?_binary ht
    simp only [overwrites, Bool.or_eq_false_iff, Option.any_eq_false, decide_eq_false_iff_not] at ho
    obtain ⟨⟨hoa, hob⟩, hkept⟩ := ho
    have hka := iha hoa hsa hm hl hta
    have hkb := ihb hob hsb hka.alike hr htb
    exact Keeps.binary (hop o hdiv) hka hkb hv hw hu (develops_execute? hb htb) (belongsTo_execute? ha hm.wellFormed hta) hkept
      hx hy hk
  | scope ha iha =>
    have hready := hm.ready.advance (advances_of_evaluate hm.ready he)
    obtain ⟨k, he⟩ := exists_step he
    obtain ⟨r₁, m₁, v, hr, hv, rfl, rfl⟩ := scope_ok he
    simp only [stale?, Option.bind_eq_bind, Option.bind_eq_some_iff] at hs
    obtain ⟨stale₁, hsa, hs⟩ := hs
    cases hs
    exact (iha ho hsa hm hr ht).scope (declares_evaluate ha hm.ready hr) (declared_subset ha) hv hready
  | @sequence es _ ih =>
    obtain ⟨k, he⟩ := exists_step he
    have hlast : Keeps (needed && es.isEmpty) stale ⟨.void, env⟩ m .nothing t := by
      refine ⟨hm, fun _ k context hres => ?_⟩
      cases hres
    exact keeps_sequence (fun e he' => ih e he') ho hs hlast he ht
  | @declare x a ha iha =>
    have hready := hm.ready.advance (advances_of_evaluate hm.ready he)
    obtain ⟨k, r₁, m₁, v, hr, hv, hset, rfl⟩ := evaluate_declare_ok he
    obtain ⟨stale₁, hsa, hneeded, hx, hstale⟩ := of_stale?_declare hs
    obtain ⟨res₁, t₁, n, hta, hn, rfl, rfl⟩ := of_execute?_declare ht
    have hdeclares := declares_evaluate ha (ready_bind hm.ready x .void) hr
    rw [size_bind] at hdeclares
    exact (iha ho hsa (hm.bind x) hr hta).declare hm.ready hdeclares hstale hx hneeded hv hset hready hn
  | @assign x a ha iha =>
    have hready := hm.ready.advance (advances_of_evaluate hm.ready he)
    obtain ⟨k, slot, r₁, m₁, v, hx, hr, hv, hset, rfl⟩ := evaluate_assign_ok he
    obtain ⟨i, res₁, t₁, n, hi, hta, hn, rfl, rfl⟩ := of_execute?_assign ht
    obtain ⟨stale₁, hsa, hneeded, hfresh, hstale⟩ := of_stale?_assign ha hs
    exact (iha ho hsa hm hr hta).assign hm (declares_evaluate ha hm.ready hr) (develops_execute? ha hta) (declared_subset ha) hstale
      hfresh hneeded hx hi hv hset hready hn

/-! ## Programs -/

theorem void_sequence
    (ih : ∀ e ∈ es, ∀ {m m' : Interpreter σ} {env : Environment} {r : Evaluated}, final? e = none →
      evaluate reclamation steps e env m = .ok r m' → r.value = .void)
    {last : Evaluated} (hf : finalAll? es = none) (hlast : es = [] → last.value = .void)
    (he : sequence (evaluate reclamation steps) es last m = .ok r m') : r.value = .void := by
  induction es generalizing last m with
  | nil =>
    obtain ⟨rfl, rfl⟩ := pure_ok_iff.1 he
    exact hlast rfl
  | cons e rest hrec =>
    obtain ⟨hfirst, hrest⟩ := List.forall_mem_cons.1 ih
    obtain ⟨r₁, m₁, he₁, he⟩ := bind_ok_iff.1 he
    cases rest with
    | nil =>
      obtain ⟨rfl, rfl⟩ := pure_ok_iff.1 he
      exact hfirst hf he₁
    | cons e' rest => exact hrec hrest hf (fun h => nomatch h) he

/-- Blocks and sequences with nothing at the end have no value. -/
theorem void_evaluate (h : IsStraight operators e) (hf : final? e = none) (he : evaluate reclamation steps e env m = .ok r m') :
    r.value = .void := by
  induction h generalizing steps m m' env r with
  | integer _ | identifier _ | binary _ _ _ _ _ | declare _ _ _ | assign _ _ _ => cases hf
  | scope _ iha =>
    obtain ⟨k, he⟩ := exists_step he
    obtain ⟨r₁, m₁, v, hr, hv, rfl, rfl⟩ := scope_ok he
    rw [iha hf hr] at hv
    cases hv
    rfl
  | sequence _ ih =>
    obtain ⟨k, he⟩ := exists_step he
    exact void_sequence (fun e he' => ih e he') hf (fun _ => rfl) he

/-- Where the interpreter ends with an integer, what there is by slots can be read. -/
theorem exists_read?_of_run (h : IsStraight operators e) (hrun : run reclamation steps e m = .ok (.int n) m')
    (ht : execute? e Table.empty = some (res, t)) : ∃ w, t.read? res = some w := by
  refine exists_read? h (Environment.wellFormed_empty _) ht (fun hf => ?_) (Nat.le_refl _)
  obtain ⟨r, he, hres⟩ := run_ok hrun
  rw [void_evaluate h hf he] at hres
  cases hres

/-- If no name is read that is stale and no left operand is a slot that the right one assigns to, then the integer with which the
interpreter ends is the one by slots. -/
theorem eq_of_run (h : IsStraight operators e) (hop : ∀ o, operators o → o ≠ .div) (ho : overwrites e = false)
    (hs : (stale? e true []).isSome) {output : σ} (hrun : run reclamation steps e (.initial output) = .ok (.int n) m')
    (ht : execute? e Table.empty = some (res, t)) {w : Int32} (hw : t.read? res = some w) : w = n := by
  obtain ⟨stale', hs⟩ := Option.isSome_iff_exists.1 hs
  obtain ⟨r, he, hres⟩ := run_ok hrun
  have hk := keeps_evaluate h hop ho hs (alike_initial output) he ht
  exact Option.some.inj (hw.symm.trans (hk.value rfl n _ hres))

end Slots

end ExprLang
