import ExprLang.Proofs.Evaluation.Safety

/-!
# Operations that have nothing to do with the sink

Most of what an evaluation does to the state has nothing to do with the sink that it prints to: names are bound and resolved, closures
are made, cells are written and given back. Such an operation is there for sinks of every kind, does the same with all of them, and
leaves the sink as it is (`Silent`). It may fail, but not with the errors that only the sink or a program as a whole is responsible for.
So whatever is kept in the sink, or beside it, stays out of these operations.
-/

namespace ExprLang

variable {σ τ α β : Type}

/-- The same state with another sink. -/
def Interpreter.onto (m : Interpreter σ) (output : τ) : Interpreter τ := ⟨m.store, m.closures, m.captures, output⟩

/-- Cells are given back whatever the sink is. -/
theorem Interpreter.reclaim_onto (m : Interpreter σ) (output : τ) (reclamation : Reclamation) (mark : Mark) :
    (m.onto output).reclaim reclamation mark = (m.reclaim reclamation mark).onto output := by
  cases reclamation with
  | never => rfl
  | onExit =>
    by_cases h : m.captures = mark.captures
    · rw [reclaim_of_captures_eq h, reclaim_of_captures_eq (m := m.onto output) h]
      rfl
    · rw [reclaim_of_captures_ne h, reclaim_of_captures_ne (m := m.onto output) h]

/-- An operation may end so: it fails, but neither because a text was not taken nor because a program as a whole returned. -/
def Interrupt.OfOperations : Interrupt → Prop
  | .failed e => e ≠ .output ∧ e ≠ .returnOutsideFunction
  | _ => False

namespace Evaluation

/-- The same end with another sink. -/
def onto (output : τ) : EStateM.Result Interrupt (Interpreter σ) α → EStateM.Result Interrupt (Interpreter τ) α
  | .ok a m => .ok a (m.onto output)
  | .error i m => .error i (m.onto output)

/-- The operation has nothing to do with the sink. -/
structure Silent (x : ∀ σ, Evaluation σ α) : Prop where
  /-- With another sink, of whichever kind, it does the same. -/
  same : ∀ {σ τ} (m : Interpreter σ) (output : τ), x τ (m.onto output) = onto output (x σ m)
  /-- It fails for reasons of its own. -/
  failed : ∀ {σ} {m : Interpreter σ} {i m'}, x σ m = .error i m' → i.OfOperations

/-- The sink stays what it is. -/
theorem Silent.output {x : ∀ σ, Evaluation σ α} (h : Silent x) (m : Interpreter σ) : (finalState (x σ m)).output = m.output := by
  have hsame : x σ m = onto m.output (x σ m) := h.same m m.output
  rw [hsame]
  cases x σ m <;> rfl

/-- Silent computations may follow each other. -/
theorem Silent.bind {x : ∀ σ, Evaluation σ α} {f : α → ∀ σ, Evaluation σ β} (h : Silent x) (hf : ∀ a, Silent (f a)) :
    Silent fun σ => x σ >>= fun a => f a σ := by
  constructor
  · intro σ τ m output
    have hx := h.same m output
    cases hm : x σ m with
    | ok a m' =>
      rw [hm] at hx
      rw [bind_of_ok hx, bind_of_ok hm]
      exact (hf a).same m' output
    | error i m' =>
      rw [hm] at hx
      rw [bind_of_error hx, bind_of_error hm]
      rfl
  · intro σ m i m' heq
    cases hm : x σ m with
    | ok a m₁ =>
      rw [bind_of_ok hm] at heq
      exact (hf a).failed heq
    | error i₁ m₁ =>
      rw [bind_of_error hm] at heq
      cases heq
      exact h.failed hm

/-- An operation that always has a result. -/
theorem silent_of_ok {x : ∀ σ, Evaluation σ α}
    (h : ∀ {σ} (m : Interpreter σ), ∃ a m', x σ m = .ok a m' ∧
      ∀ {τ} (output : τ), x τ (m.onto output) = .ok a (m'.onto output)) : Silent x := by
  constructor
  · intro σ τ m output
    obtain ⟨a, m', hm, hsame⟩ := h m
    rw [hsame output, hm]
    rfl
  · intro σ m i m₁ heq
    obtain ⟨a, m', hm, -⟩ := h m
    rw [hm] at heq
    cases heq

theorem silent_pure (a : α) : Silent fun σ => (pure a : Evaluation σ α) := silent_of_ok fun m => ⟨a, m, rfl, fun _ => rfl⟩

/-- An error of an operation is raised whatever the sink is. -/
theorem silent_fail {e : EvalError} (h : (Interrupt.failed e).OfOperations) : Silent fun σ => (fail e : Evaluation σ α) := by
  refine ⟨fun _ _ => rfl, ?_⟩
  intro σ m i m' heq
  cases heq
  exact h

/-- Operations on values know of no sink. -/
theorem silent_ofExcept {x : Except EvalError α} (h : OnValues x) : Silent fun σ => (ofExcept x : Evaluation σ α) := by
  cases x with
  | ok a => exact silent_pure a
  | error e =>
    refine silent_fail ⟨?_, ?_⟩
    · rintro rfl
      exact h _ rfl
    · rintro rfl
      exact h _ rfl

theorem silent_mark : Silent fun σ => (do return (← get).mark : Evaluation σ Mark) :=
  silent_of_ok fun m => ⟨m.mark, m, rfl, fun _ => rfl⟩

/-- Giving back cells writes nothing. -/
theorem silent_reclaim (reclamation : Reclamation) (mark : Mark) :
    Silent fun σ => (modify (·.reclaim reclamation mark) : Evaluation σ Unit) := by
  refine silent_of_ok fun m => ⟨(), m.reclaim reclamation mark, rfl, fun output => ?_⟩
  rw [← Interpreter.reclaim_onto]
  rfl

theorem silent_bind (env : Environment) (name : String) (value : Value) :
    Silent fun σ => (bind env name value : Evaluation σ Environment) :=
  silent_of_ok fun _ => ⟨_, _, rfl, fun _ => rfl⟩

/-- Parameters are bound without output. -/
theorem silent_bindAll (bindings : List (String × Value)) (env : Environment) :
    Silent fun σ => (bindAll env bindings : Evaluation σ Environment) := by
  induction bindings generalizing env with
  | nil => exact silent_pure env
  | cons b rest ih => exact (silent_bind env b.1 b.2).bind ih

/-- A name is resolved without output. -/
theorem silent_resolve (value : Value) (env : Environment) (context : String) :
    Silent fun σ => (resolve value env context : Evaluation σ Value) := by
  constructor
  · intro σ τ m output
    change ofExcept (m.resolve value env context) (m.onto output) = onto output (ofExcept (m.resolve value env context) m)
    cases m.resolve value env context <;> rfl
  · intro σ m i m' heq
    change ofExcept (m.resolve value env context) m = .error i m' at heq
    unfold Interpreter.resolve Interpreter.lookup at heq
    repeat' split at heq
    all_goals cases heq
    all_goals exact ⟨nofun, nofun⟩

theorem silent_capture (literal : FunctionLiteral) (env : Environment) :
    Silent fun σ => (capture literal env : Evaluation σ Value) :=
  silent_of_ok fun _ => ⟨_, _, rfl, fun _ => rfl⟩

/-- A closure is bound anew without output. -/
theorem silent_recapture (value : Value) (env : Environment) : Silent fun σ => (recapture value env : Evaluation σ Unit) := by
  cases value with
  | closure number => exact silent_of_ok fun _ => ⟨_, _, rfl, fun _ => rfl⟩
  | _ => exact silent_pure ()

/-- A cell that is there is overwritten. -/
theorem store_of_some {m : Interpreter σ} {name : String} {slot : Nat} {value : Value} {cells : Store}
    (h : m.store.set? slot value = some cells) : store name slot value m = .ok () { m with store := cells } := by
  unfold store
  rw [h]

/-- A cell that is gone is an error with the name that was assigned to. -/
theorem store_of_none {m : Interpreter σ} {name : String} {slot : Nat} {value : Value} (h : m.store.set? slot value = none) :
    store name slot value m = .error (.failed (.vanished name "Assign")) m := by
  unfold store
  rw [h]

/-- A cell is overwritten without output, or the error is the same for every sink. -/
theorem silent_store (name : String) (slot : Nat) (value : Value) :
    Silent fun σ => (store name slot value : Evaluation σ Unit) := by
  constructor
  · intro σ τ m output
    cases hset : m.store.set? slot value with
    | some cells =>
      rw [store_of_some hset, store_of_some (m := m.onto output) hset]
      rfl
    | none =>
      rw [store_of_none hset, store_of_none (m := m.onto output) hset]
      rfl
  · intro σ m i m' heq
    cases hset : m.store.set? slot value with
    | some cells =>
      rw [store_of_some hset] at heq
      cases heq
    | none =>
      rw [store_of_none hset] at heq
      cases heq
      exact ⟨nofun, nofun⟩

/-- The cell to assign to is found without output. -/
theorem silent_target (r : Evaluated) : Silent fun σ => (target r : Evaluation σ (String × Nat)) := by
  obtain ⟨value, env⟩ := r
  unfold target
  cases value with
  | id name =>
    cases hf : env.find? name with
    | some slot =>
      simp only [hf]
      exact silent_pure (name, slot)
    | none =>
      simp only [hf]
      exact silent_fail ⟨nofun, nofun⟩
  | _ => exact silent_fail ⟨nofun, nofun⟩

/-- The closure to call is found without output. -/
theorem silent_callee (value : Value) (env : Environment) :
    Silent fun σ => (callee value env : Evaluation σ (FunctionLiteral × Environment)) := by
  cases value with
  | function literal => exact silent_pure (literal, env)
  | closure number =>
    constructor
    · intro σ τ m output
      cases hc : m.closures[number]? with
      | some c => rw [callee_closure hc, callee_closure (m := m.onto output) hc, onto]
      | none => rw [callee_closure_of_none hc, callee_closure_of_none (m := m.onto output) hc, onto]
    · intro σ m i m' heq
      cases hc : m.closures[number]? with
      | some c =>
        rw [callee_closure hc] at heq
        cases heq
      | none =>
        rw [callee_closure_of_none hc] at heq
        cases heq
        exact ⟨nofun, nofun⟩
  | _ => exact silent_fail ⟨nofun, nofun⟩

end Evaluation

end ExprLang
