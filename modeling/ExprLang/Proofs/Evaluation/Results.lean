import ExprLang.Evaluation.Evaluate
import ExprLang.Proofs.Computation

/-!
# Evaluations with a result

An evaluation that ends with a result came through all its steps. For operations and for some kinds of expressions it is said here what
they did on the way, so that a proof about such an evaluation begins from the results of its parts.
-/

namespace ExprLang

namespace Evaluation

variable {σ : Type} {eval : Evaluator σ} {a b e : Expression} {env : Environment} {m m' : Interpreter σ} {r p : Evaluated}
  {v : Value} {x context : String} {reclamation : Reclamation} {turns steps : Nat}

/-! ## Operations -/

theorem ofExcept_ok_iff {α : Type} {x : Except EvalError α} {a : α} :
    (ofExcept x : Evaluation σ α) m = .ok a m' ↔ x = .ok a ∧ m = m' := by
  cases x with
  | ok b => rw [Except.ok.injEq]; exact pure_ok_iff
  | error e => exact ⟨fun h => (nomatch h), fun h => nomatch h.1⟩

theorem operand_ok_iff : operand eval e env context m = .ok r m' ↔
    ∃ r₁ v, eval e env m = .ok r₁ m' ∧ m'.resolve r₁.value r₁.env context = .ok v ∧ r = ⟨v, r₁.env⟩ := by
  simp only [operand, resolve, bind_ok_iff, get_ok_iff, ofExcept_ok_iff, pure_ok_iff]
  constructor
  · rintro ⟨r₁, m₁, he, v, m₂, ⟨_, _, ⟨rfl, rfl⟩, hv, rfl⟩, rfl, rfl⟩
    exact ⟨r₁, v, he, hv, rfl⟩
  · rintro ⟨r₁, v, he, hv, rfl⟩
    exact ⟨r₁, m', he, v, m', ⟨_, _, ⟨rfl, rfl⟩, hv, rfl⟩, rfl, rfl⟩

/-- A name is assigned to if it stands for a cell. -/
theorem target_ok {place : String × Nat} (h : target r m = .ok place m') :
    r.value = .id place.1 ∧ r.env.find? place.1 = some place.2 ∧ m = m' := by
  obtain ⟨value, env'⟩ := r
  cases value with
  | id name =>
    simp only [target] at h
    cases hfind : env'.find? name with
    | none =>
      rw [hfind] at h
      cases h
    | some slot =>
      rw [hfind] at h
      obtain ⟨rfl, rfl⟩ := pure_ok_iff.1 h
      exact ⟨rfl, hfind, rfl⟩
  | _ => cases h

theorem store_ok {name : String} {slot : Nat} {v : Value} {u : Unit} (h : Evaluation.store name slot v m = .ok u m') :
    ∃ store, m.store.set? slot v = some store ∧ m' = { m with store } := by
  unfold Evaluation.store at h
  cases hset : m.store.set? slot v with
  | none =>
    rw [hset] at h
    cases h
  | some store =>
    rw [hset] at h
    cases h
    exact ⟨store, rfl, rfl⟩

/-- A closure that is assigned gets another environment, and the store stays the same. -/
theorem store_of_recapture {u : Unit} (h : recapture v env m = .ok u m') : m'.store = m.store := by
  cases v with
  | closure number => rw [← modify_ok_iff.1 h]
  | _ =>
    obtain ⟨-, rfl⟩ := pure_ok_iff.1 h
    rfl

/-! ## Expressions -/

/-- What follows an expression that was evaluated goes on from its result. -/
theorem sequence_of_ok {last : Evaluated} {s : Interpreter σ} (h : eval e last.env m = .ok r s) (es : List Expression) :
    sequence eval (e :: es) last m = sequence eval es r s :=
  bind_of_ok h _

/-- An operator is evaluated by evaluating and resolving the left operand and then the right one. -/
theorem binary_ok {o : Arithmetic} (h : binary eval a (.arithmetic o) b env m = .ok r m') :
    ∃ l m₁ v r₁ w u, eval a env m = .ok l m₁ ∧ m₁.resolve l.value l.env (Operator.arithmetic o).name = .ok v ∧
      eval b l.env m₁ = .ok r₁ m' ∧ m'.resolve r₁.value r₁.env (Operator.arithmetic o).name = .ok w ∧ o.apply v w = .ok u ∧
      r = ⟨u, r₁.env⟩ := by
  obtain ⟨_, m₁, hleft, h⟩ := bind_ok_iff.1 h
  obtain ⟨l, v, hl, hv, rfl⟩ := operand_ok_iff.1 hleft
  obtain ⟨_, m₂, hright, h⟩ := bind_ok_iff.1 h
  obtain ⟨r₁, w, hr, hw, rfl⟩ := operand_ok_iff.1 hright
  obtain ⟨u, m₃, happly, h⟩ := bind_ok_iff.1 h
  obtain ⟨hu, rfl⟩ := ofExcept_ok_iff.1 happly
  obtain ⟨rfl, rfl⟩ := pure_ok_iff.1 h
  exact ⟨l, m₁, v, r₁, w, u, hl, hv, hr, hw, hu, rfl⟩

variable [Sink σ]

/-- A block gives back its cells when its value is resolved. -/
theorem scope_ok (h : step reclamation eval turns (.scope a) env m = .ok r m') :
    ∃ r₁ m₁ v, eval a env m = .ok r₁ m₁ ∧ m₁.resolve r₁.value r₁.env "Scope" = .ok v ∧ m' = m₁.reclaim reclamation m.mark ∧
      r = ⟨v, env⟩ := by
  obtain ⟨_, _, hget, h⟩ := bind_ok_iff.1 h
  obtain ⟨rfl, rfl⟩ := get_ok_iff.1 hget
  obtain ⟨r₁, m₁, hr, h⟩ := bind_ok_iff.1 h
  obtain ⟨v, m₂, hresolve, h⟩ := bind_ok_iff.1 h
  obtain ⟨_, _, hget, hresolve⟩ := bind_ok_iff.1 hresolve
  obtain ⟨rfl, rfl⟩ := get_ok_iff.1 hget
  obtain ⟨hv, rfl⟩ := ofExcept_ok_iff.1 hresolve
  obtain ⟨_, m₃, hm, h⟩ := bind_ok_iff.1 h
  obtain ⟨rfl, rfl⟩ := pure_ok_iff.1 h
  exact ⟨r₁, m₁, v, hr, hv, (modify_ok_iff.1 hm).symm, rfl⟩

/-- An assignment finds the cell, and then evaluates and resolves what to write to it. -/
theorem assign_ok {place : Expression}
    (h : step reclamation eval turns (.assign place a) env m = .ok r m') :
    ∃ p m₁ x slot r₁ m₂ v m₃ store, eval place env m = .ok p m₁ ∧ p.value = .id x ∧ p.env.find? x = some slot ∧
      eval a p.env m₁ = .ok r₁ m₂ ∧ m₂.resolve r₁.value r₁.env "Assign" = .ok v ∧ recapture v r₁.env m₂ = .ok () m₃ ∧
      m₃.store.set? slot v = some store ∧ m' = { m₃ with store } ∧ r = ⟨.id x, r₁.env⟩ := by
  obtain ⟨p, m₁, hp, h⟩ := bind_ok_iff.1 h
  obtain ⟨⟨x, slot⟩, m₁', htarget, h⟩ := bind_ok_iff.1 h
  obtain ⟨hx, hslot, rfl⟩ := target_ok htarget
  obtain ⟨_, m₂, hoperand, h⟩ := bind_ok_iff.1 h
  obtain ⟨r₁, v, hr, hv, rfl⟩ := operand_ok_iff.1 hoperand
  obtain ⟨_, m₃, hrecapture, h⟩ := bind_ok_iff.1 h
  obtain ⟨_, m₄, hstore, h⟩ := bind_ok_iff.1 h
  obtain ⟨rfl, rfl⟩ := pure_ok_iff.1 h
  obtain ⟨store, hset, hm⟩ := store_ok hstore
  exact ⟨p, m₁, x, slot, r₁, m₂, v, m₃, store, hp, hx, hslot, hr, hv, hrecapture, hset, hm, rfl⟩

/-- An evaluation that succeeds had a step left. -/
theorem exists_step (h : evaluate reclamation steps e env m = .ok r m') :
    ∃ k, step reclamation (evaluate reclamation k) k e env m = .ok r m' := by
  cases steps with
  | zero => cases h
  | succ k => exact ⟨k, h⟩

theorem evaluate_identifier_ok (h : evaluate reclamation steps (.identifier x) env m = .ok p m') : p = ⟨.id x, env⟩ ∧ m' = m := by
  obtain ⟨k, h⟩ := exists_step h
  obtain ⟨rfl, rfl⟩ := pure_ok_iff.1 h
  exact ⟨rfl, rfl⟩

theorem evaluate_varDecl_ok (h : evaluate reclamation steps (.varDecl x) env m = .ok p m') :
    p = ⟨.id x, env.bind x m.store.size⟩ ∧ m' = (m.bind env x .void).2 := by
  obtain ⟨k, h⟩ := exists_step h
  obtain ⟨env', m₁, hbind, h⟩ := bind_ok_iff.1 h
  cases hbind
  obtain ⟨rfl, rfl⟩ := pure_ok_iff.1 h
  exact ⟨rfl, rfl⟩

/-- A program is run by evaluating it and resolving its value. -/
theorem run_ok (h : run reclamation steps e m = .ok v m') :
    ∃ r, evaluate reclamation steps e Environment.empty m = .ok r m' ∧ m'.resolve r.value r.env e.kind = .ok v := by
  unfold run at h
  cases he : evaluate reclamation steps e Environment.empty m with
  | error i m₁ =>
    rw [he] at h
    cases i <;> cases h
  | ok r m₁ =>
    rw [he] at h
    obtain ⟨_, _, hget, h⟩ := bind_ok_iff.1 h
    obtain ⟨rfl, rfl⟩ := get_ok_iff.1 hget
    obtain ⟨hv, rfl⟩ := ofExcept_ok_iff.1 h
    exact ⟨r, rfl, hv⟩

end Evaluation

/-- The integer with which a run ends, if it ends with one. -/
def integer? {σ : Type} : EStateM.Result Interrupt (Interpreter σ) Value → Option Int32
  | .ok (.int v) _ => some v
  | _ => none

/-- A run of which the integer is known ends with it. -/
theorem exists_of_integer? {σ : Type} {result : EStateM.Result Interrupt (Interpreter σ) Value} {v : Int32}
    (h : integer? result = some v) : ∃ m, result = .ok (.int v) m := by
  cases result with
  | error i m => exact nomatch h
  | ok w m =>
    cases w with
    | int u => exact ⟨m, by rw [Option.some.inj h]⟩
    | _ => exact nomatch h

end ExprLang
