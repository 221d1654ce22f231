import ExprLang.Proofs.Evaluation.Contents
import ExprLang.Proofs.Evaluation.Results

/-!
# Expressions that change nothing

A literal has the same value wherever it is evaluated, and changes nothing. So has a name where it is known what it stands for, and so
has what operators and functions on values make of such expressions, unless they fail: then that is all that happens. `Denotes` says
what an expression comes to in this way in one environment and one state, so that laws of operations on values can be read as laws of
expressions.
-/

namespace ExprLang

namespace Evaluation

variable {σ α β : Type} {eval : Evaluator σ} {a b e x i j : Expression} {env env₁ env₂ env₃ : Environment}
  {m m₁ m₂ m₃ : Interpreter σ} {v w u : Value} {r r' : Except EvalError Value} {name context : String} {reclamation : Reclamation}
  {steps : Nat}

/-! ## What an operation makes of its operands, whatever these change -/

theorem ofExcept_bind_pure (x : Except EvalError α) (f : α → β) :
    ((ofExcept x >>= fun a => pure (f a)) : Evaluation σ β) m = ofExcept (x.map f) m := by
  cases x <;> rfl

/-- An operand whose value is no name needs no resolving. -/
theorem operand_of_ok (h : eval e env m = .ok ⟨v, env₁⟩ m₁) (hv : ∀ name, v ≠ .id name) :
    operand eval e env context m = .ok ⟨v, env₁⟩ m₁ := by
  refine operand_ok_iff.2 ⟨⟨v, env₁⟩, v, h, ?_, rfl⟩
  cases v with
  | id name => exact absurd rfl (hv name)
  | _ => rfl

variable [Sink σ]

theorem evaluate_stringLength (ha : operand (evaluate reclamation steps) a env "StringLength" m = .ok ⟨v, env₁⟩ m₁) :
    evaluate reclamation (steps + 1) (.stringLength a) env m = ofExcept (v.stringLength.map (⟨·, env₁⟩)) m₁ :=
  (bind_of_ok ha _).trans (ofExcept_bind_pure _ _)

theorem evaluate_substring (hx : operand (evaluate reclamation steps) x env "Substring" m = .ok ⟨v, env₁⟩ m₁)
    (hi : operand (evaluate reclamation steps) i env₁ "Substring" m₁ = .ok ⟨w, env₂⟩ m₂)
    (hj : operand (evaluate reclamation steps) j env₂ "Substring" m₂ = .ok ⟨u, env₃⟩ m₃) :
    evaluate reclamation (steps + 1) (.substring x i j) env m = ofExcept ((v.substring w u).map (⟨·, env₃⟩)) m₃ :=
  (bind_of_ok hx _).trans <| (bind_of_ok hi _).trans <| (bind_of_ok hj _).trans (ofExcept_bind_pure _ _)

/-- Arithmetic on operands that were evaluated is the operation on their values. -/
theorem evaluate_arithmetic (o : Arithmetic)
    (ha : operand (evaluate reclamation steps) a env (Operator.arithmetic o).name m = .ok ⟨v, env₁⟩ m₁)
    (hb : operand (evaluate reclamation steps) b env₁ (Operator.arithmetic o).name m₁ = .ok ⟨w, env₂⟩ m₂) :
    evaluate reclamation (steps + 1) (.binary a (.arithmetic o) b) env m = ofExcept ((o.apply v w).map (⟨·, env₂⟩)) m₂ :=
  (bind_of_ok ha _).trans <| (bind_of_ok hb _).trans (ofExcept_bind_pure _ _)

/-- A field of an operand that was evaluated is the field of its value. -/
theorem evaluate_field (ha : operand (evaluate reclamation steps) a env "Field" m = .ok ⟨v, env₁⟩ m₁) (name : String) :
    evaluate reclamation (steps + 1) (.field a name) env m = ofExcept ((v.field name).map (⟨·, env₁⟩)) m₁ :=
  (bind_of_ok ha _).trans (ofExcept_bind_pure _ _)

/-! ## What an expression denotes -/

/-- Wherever the value of the expression is needed, it comes to this if there are steps enough, and nothing is changed. -/
def Denotes (reclamation : Reclamation) (env : Environment) (m : Interpreter σ) (e : Expression) (r : Except EvalError Value) : Prop :=
  ∃ enough, ∀ steps, enough ≤ steps → ∀ context,
    operand (evaluate reclamation steps) e env context m = ofExcept (r.map (⟨·, env⟩)) m

namespace Denotes

/-- An expression denotes one value or one error. -/
theorem unique (h : Denotes reclamation env m e r) (h' : Denotes reclamation env m e r') : r = r' := by
  obtain ⟨n, hr⟩ := h
  obtain ⟨n', hr'⟩ := h'
  have heq := (hr (max n n') (Nat.le_max_left n n') "").symm.trans (hr' (max n n') (Nat.le_max_right n n') "")
  cases r <;> cases r' <;> cases heq <;> rfl

/-- It is enough to know what the expression is evaluated to, unless that is a name. -/
theorem of_evaluate (enough : Nat) (hr : ∀ name, r ≠ .ok (.id name))
    (h : ∀ steps, enough ≤ steps → evaluate reclamation (steps + 1) e env m = ofExcept (r.map (⟨·, env⟩)) m) :
    Denotes reclamation env m e r := by
  refine ⟨enough + 1, fun steps hsteps context => ?_⟩
  obtain ⟨k, rfl⟩ := Nat.exists_eq_add_of_le' (Nat.le_of_add_left_le hsteps)
  have heval := h k (Nat.le_of_add_le_add_right hsteps)
  cases r with
  | ok v => exact operand_of_ok heval fun name hv => hr name (congrArg _ hv)
  | error err => exact bind_of_error heval _

theorem integer (n : Int32) : Denotes reclamation env m (.integer n) (.ok (.int n)) :=
  of_evaluate 0 (fun _ => nofun) fun _ _ => rfl

theorem string (s : String) : Denotes reclamation env m (.string s) (.ok (.string s)) :=
  of_evaluate 0 (fun _ => nofun) fun _ _ => rfl

/-- A name denotes what is in its cell. -/
theorem identifier {slot : Nat} (hslot : env.find? name = some slot) (hv : m.store.get? slot = some v) :
    Denotes reclamation env m (.identifier name) (.ok v) := by
  refine ⟨1, fun steps hsteps context => ?_⟩
  obtain ⟨k, rfl⟩ := Nat.exists_eq_add_of_le' hsteps
  refine operand_ok_iff.2 ⟨⟨.id name, env⟩, v, rfl, ?_, rfl⟩
  simp only [Interpreter.resolve, Interpreter.lookup, hslot, hv]

theorem stringLength (ha : Denotes reclamation env m a (.ok v)) : Denotes reclamation env m (.stringLength a) v.stringLength := by
  obtain ⟨n, ha⟩ := ha
  refine of_evaluate n (fun name h => ?_) fun steps hsteps => evaluate_stringLength (ha steps hsteps _)
  exact (Value.plain_of_stringLength h).elim

theorem substring (hx : Denotes reclamation env m x (.ok v)) (hi : Denotes reclamation env m i (.ok w))
    (hj : Denotes reclamation env m j (.ok u)) : Denotes reclamation env m (.substring x i j) (v.substring w u) := by
  obtain ⟨n, hx⟩ := hx
  obtain ⟨k, hi⟩ := hi
  obtain ⟨l, hj⟩ := hj
  refine of_evaluate (max n (max k l)) (fun name h => (Value.plain_of_substring h).elim) fun steps hsteps => ?_
  exact evaluate_substring (hx steps (by omega) _) (hi steps (by omega) _) (hj steps (by omega) _)

theorem arithmetic (o : Arithmetic) (ha : Denotes reclamation env m a (.ok v)) (hb : Denotes reclamation env m b (.ok w)) :
    Denotes reclamation env m (.binary a (.arithmetic o) b) (o.apply v w) := by
  obtain ⟨n, ha⟩ := ha
  obtain ⟨k, hb⟩ := hb
  refine of_evaluate (max n k) (fun name h => (Value.plain_of_arithmetic h).elim) fun steps hsteps => ?_
  exact evaluate_arithmetic o (ha steps (by omega) _) (hb steps (by omega) _)

end Denotes

end Evaluation

end ExprLang
