import ExprLang.Proofs.Evaluation.Contents
import ExprLang.Proofs.Evaluation.Reclamation
import ExprLang.Proofs.Evaluation.Results
import ExprLang.Proofs.Evaluation.Safety

/-!
# What a name stands for after an assignment

The cell to write is found before the value is evaluated, and the name is the result in the environment that the value left. So whoever
resolves the result finds the value that was assigned, unless the right-hand side declared the same name anew; then the new binding
hides the cell that was written (`assigned_value_found`, `assigned_value_hidden`). A closure always gets the environment that the
right-hand side left.

This is said of interpreters that are well-formed, as those are in which nothing has happened, and which stay so however an evaluation
ends (`evaluate_wellFormed`).
-/

namespace ExprLang

variable {σ : Type}

/-- The environments of closures have their cells, and the closures in cells were made. -/
structure Interpreter.WellFormed (m : Interpreter σ) : Prop where
  /-- Every closure has a well-formed environment. -/
  sound : m.Sound
  /-- Closures are kept only once they are made. -/
  made : ∀ slot v, m.store.get? slot = some v → v.Made m.closures.size

theorem Interpreter.wellFormed_initial (output : σ) : (Interpreter.initial output).WellFormed := by
  refine ⟨fun c hc => absurd hc (Array.not_mem_empty c), fun slot v hv => ?_⟩
  simp [Interpreter.initial, Store.empty, Store.get?] at hv

theorem Value.relatedFields_self_iff {C : Nat → Nat → Prop} (fields : List (String × Value)) :
    RelatedFields C fields fields ↔ ∀ f ∈ fields, f.2.Related C f.2 := by
  induction fields with
  | nil => simp [RelatedFields]
  | cons f rest ih => simp [RelatedFields, ih]

/-- Closures in values were made. -/
def Condition.made (σ : Type) [Sink σ] : Condition σ where
  Good n v := v.Made n
  Output _ := True
  mono hv hle := hv.mono fun _ _ hij => ⟨hij.1, Nat.lt_of_lt_of_le hij.2 hle⟩
  plain {v} hv _ := by
    cases v with
    | id name => exact hv.elim
    | closure number => exact hv.elim
    | object fields => exact hv.elim
    | void => trivial
    | _ => rfl
  closure n := ⟨rfl, Nat.lt_succ_self n⟩
  object_iff := Value.relatedFields_self_iff _
  write _ _ _ := trivial

open Evaluation

variable [Sink σ] {reclamation : Reclamation} {steps : Nat} {place a : Expression} {env : Environment}
  {m m₁ m₂ m' : Interpreter σ} {p v r : Evaluated}

theorem Interpreter.WellFormed.settled (hm : m.WellFormed) : (Condition.made σ).Settled m := ⟨hm.made, trivial⟩

/-- An interpreter stays well-formed, however an evaluation ends. -/
theorem evaluate_wellFormed (reclamation : Reclamation) (steps : Nat) (e : Expression) (hm : m.WellFormed)
    (henv : env.WellFormed m.store.size) :
    Ends (fun _ m' => m'.WellFormed) (fun _ m' => m'.WellFormed) (evaluate reclamation steps e env m) := by
  have hsafe := evaluate_safe reclamation steps e env m ⟨hm.sound, henv⟩
  have hsettles := evaluate_settles (Condition.made σ) reclamation steps e env m hm.settled
  generalize evaluate reclamation steps e env m = o at hsafe hsettles
  cases o with
  | ok r m' => exact ⟨hsafe.sound hm.sound, hsettles.2.1.cell⟩
  | error i m' => exact ⟨hsafe.1.sound hm.sound, hsettles.2.1.cell⟩

/-- The closures in what is assigned were made. -/
theorem made_of_operand (hm : m.WellFormed) (henv : env.WellFormed m.store.size)
    (hp : evaluate reclamation steps place env m = .ok p m₁)
    (hv : operand (evaluate reclamation steps) a p.env "Assign" m₁ = .ok v m₂) : v.value.Made m₂.closures.size := by
  have hplace := evaluate_wellFormed reclamation steps place hm henv
  rw [hp] at hplace
  have hoperand := settles_operand (evaluate_settles (Condition.made σ) reclamation steps) hplace.settled a p.env "Assign"
  rw [hv] at hoperand
  exact hoperand.2.2

omit [Sink σ] in
/-- An assigned closure has the environment that the right-hand side left. -/
theorem closure_of_recapture {i : Nat} {env : Environment} (h : recapture (.closure i) env m = .ok () m')
    (hi : i < m.closures.size) : ∃ c, m'.closures[i]? = some c ∧ c.env = env := by
  refine ⟨{ m.closures[i] with env }, ?_, rfl⟩
  rw [← modify_ok_iff.1 h]
  simp [hi, Array.getElem_modify]

/-- An assignment that has a result finds the cell `slot` of the name `x` in the environment of its target, evaluates the right-hand
side there to `v`, and its own result is the name in the environment that the right-hand side left. That environment has the bindings
`added` in front of the one of the target.

The cell then holds the value. If the right-hand side did not bind the name anew, the name stands for the value; if it did, the name stands
for another cell. A closure gets the environment of the result, so unless it was bound anew its name stands in there for the closure
itself. -/
theorem assigned_value_found (hm : m.WellFormed) (henv : env.WellFormed m.store.size)
    (h : evaluate reclamation (steps + 1) (.assign place a) env m = .ok r m') :
    ∃ (p : Evaluated) (m₁ : Interpreter σ) (x : String) (slot : Nat) (v : Evaluated) (m₂ : Interpreter σ)
        (added : List (String × Nat)),
      evaluate reclamation steps place env m = .ok p m₁ ∧ p.value = .id x ∧ p.env.find? x = some slot ∧
      operand (evaluate reclamation steps) a p.env "Assign" m₁ = .ok v m₂ ∧
      r = ⟨.id x, v.env⟩ ∧ r.env.bindings = added ++ p.env.bindings ∧
      m'.store.get? slot = some v.value ∧
      (x ∉ added.map Prod.fst → ∀ context, m'.lookup r.env x context = .ok v.value) ∧
      (x ∈ added.map Prod.fst → ∃ other, r.env.find? x = some other ∧ other ≠ slot) ∧
      (∀ i, v.value = .closure i → ∃ c, m'.closures[i]? = some c ∧ c.env = r.env ∧
        (x ∉ added.map Prod.fst → ∀ context, m'.lookup c.env x context = .ok (.closure i))) := by
  obtain ⟨p, m₁, x, slot, r₁, m₂, v, m₃, store, hp, hx, hslot, hr, hv, hrecapture, hset, rfl, rfl⟩ := assign_ok h
  have hoperand : operand (evaluate reclamation steps) a p.env "Assign" m₁ = .ok ⟨v, r₁.env⟩ m₂ :=
    operand_ok_iff.2 ⟨r₁, v, hr, hv, rfl⟩
  have hready : Ready m env := ⟨hm.sound, henv⟩
  -- the target was handed out before the right-hand side was evaluated, and what that binds comes after it
  have hplace : Advances m env m₁ p.env := by
    have := evaluate_safe reclamation steps place env m hready
    rwa [hp] at this
  have hvalue : Advances m₁ p.env m₂ r₁.env := by
    have := evaluate_safe reclamation steps a p.env m₁ (hready.advance hplace)
    rwa [hr] at this
  have hlt : slot < m₁.store.size := (hready.advance hplace).wellFormed.find?_lt hslot
  obtain ⟨added, hadded, hfresh⟩ := hvalue.extended
  have hcell : store.get? slot = some v := (Store.get?_of_set? hset slot).trans (if_pos rfl)
  have hfound : x ∉ added.map Prod.fst → ∀ context, ({ m₃ with store } : Interpreter σ).lookup r₁.env x context = .ok v := by
    intro hnot context
    refine Interpreter.lookup_ok_iff.2 ⟨slot, ?_, hcell⟩
    rw [Environment.find?_of_notMem hadded hnot, hslot]
  refine ⟨p, m₁, x, slot, ⟨v, r₁.env⟩, m₂, added, hp, hx, hslot, hoperand, rfl, hadded, hcell, hfound, ?_, ?_⟩
  · intro hmem
    obtain ⟨other, hother, hfind⟩ := Environment.exists_find?_of_mem hadded hmem
    obtain ⟨b, hb, rfl⟩ := List.mem_map.1 hother
    exact ⟨b.2, hfind, Nat.ne_of_gt (Nat.lt_of_lt_of_le hlt (hfresh b hb))⟩
  · rintro i rfl
    have hmade : i < m₂.closures.size := (made_of_operand hm henv hp hoperand).2
    obtain ⟨c, hc, hcenv⟩ := closure_of_recapture hrecapture hmade
    refine ⟨c, hc, hcenv, fun hnot context => ?_⟩
    rw [hcenv]
    exact hfound hnot context

/-- A function that calls itself by the name that it is given. -/
def selfCall : FunctionLiteral := ⟨0, ["n"], .call (.identifier "f") [.identifier "n"]⟩

/-- An interpreter with these cells that has made the closure and given it this environment. -/
def selfCalling (cells : Array Value) (env : Environment) : Interpreter := ⟨⟨cells⟩, #[⟨selfCall, env⟩], 2, Output.empty none⟩

/-- A closure that is assigned to a name when this is declared finds itself by the name. -/
theorem assigned_value_found_selfCall :
    evaluate .onExit 2 (.declare "f" (.closure selfCall)) Environment.empty (Interpreter.initial (Output.empty none)) =
      .ok ⟨.id "f", ⟨[("f", 0)]⟩⟩ (selfCalling #[.closure 0] ⟨[("f", 0)]⟩) ∧
    (∀ context, (selfCalling #[.closure 0] ⟨[("f", 0)]⟩).lookup ⟨[("f", 0)]⟩ "f" context = .ok (.closure 0)) ∧
    ∃ c, (selfCalling #[.closure 0] ⟨[("f", 0)]⟩).closures[0]? = some c ∧ c.env = ⟨[("f", 0)]⟩ ∧
      ∀ context, (selfCalling #[.closure 0] ⟨[("f", 0)]⟩).lookup c.env "f" context = .ok (.closure 0) := by
  have h : evaluate .onExit 2 (.declare "f" (.closure selfCall)) Environment.empty (Interpreter.initial (Output.empty none)) =
    .ok ⟨.id "f", ⟨[("f", 0)]⟩⟩ (selfCalling #[.closure 0] ⟨[("f", 0)]⟩) := rfl
  obtain ⟨p, m₁, x, slot, v, m₂, added, hp, hx, -, hv, -, hadded, -, hfound, -, hclosure⟩ :=
    assigned_value_found (Interpreter.wellFormed_initial (Output.empty none)) (Environment.wellFormed_empty 0) h
  cases hp
  cases hx
  cases hv
  obtain rfl : added = [] := List.self_eq_append_left.1 hadded
  obtain ⟨c, hc, hcenv, hself⟩ := hclosure 0 rfl
  exact ⟨h, hfound List.not_mem_nil, c, hc, hcenv, hself List.not_mem_nil⟩

/-- Declares a name, and declares it once more before it says what is assigned to the first one. -/
def declaredTwice (x : String) (value : Expression) : Expression := .declare x (.sequence [.varDecl x, value])

/-- The name stands for the second cell, which nothing was assigned to, so it does not stand for the integer; and a closure does not
find itself. -/
theorem assigned_value_hidden :
    (∃ r m' v m₂, evaluate .onExit 3 (declaredTwice "x" (.integer 7)) Environment.empty
        (Interpreter.initial (Output.empty none)) = .ok r m' ∧ r.value = .id "x" ∧
      operand (evaluate .onExit 2) (.sequence [.varDecl "x", .integer 7]) ⟨[("x", 0)]⟩ "Assign"
        ((Interpreter.initial (Output.empty none)).bind Environment.empty "x" .void).2 = .ok v m₂ ∧
      v.value = .int 7 ∧ m'.lookup r.env "x" "Lookup" = .ok .void) ∧
    (∃ r m' c, evaluate .onExit 3 (declaredTwice "f" (.closure selfCall)) Environment.empty
        (Interpreter.initial (Output.empty none)) = .ok r m' ∧ r.value = .id "f" ∧ m'.store.get? 0 = some (.closure 0) ∧
      m'.closures[0]? = some c ∧ c.env = r.env ∧ m'.lookup c.env "f" "Lookup" = .ok .void) := by
  refine ⟨⟨⟨.id "x", ⟨[("x", 1), ("x", 0)]⟩⟩, ⟨⟨#[.int 7, .void]⟩, #[], 0, Output.empty none⟩,
    ⟨.int 7, ⟨[("x", 1), ("x", 0)]⟩⟩, ⟨⟨#[.void, .void]⟩, #[], 0, Output.empty none⟩, rfl, rfl, rfl, rfl, rfl⟩, ?_⟩
  exact ⟨⟨.id "f", ⟨[("f", 1), ("f", 0)]⟩⟩, selfCalling #[.closure 0, .void] ⟨[("f", 1), ("f", 0)]⟩,
    ⟨selfCall, ⟨[("f", 1), ("f", 0)]⟩⟩, rfl, rfl, rfl, rfl, rfl, rfl⟩

end ExprLang
