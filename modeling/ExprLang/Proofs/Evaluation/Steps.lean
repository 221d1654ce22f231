import ExprLang.Proofs.Evaluation.Congruence

/-!
# How many steps are allowed

The number of steps that are allowed bounds how deep expressions may be inside one another, and how often a loop may turn; it has no other
meaning. An evaluation that ends before the steps are used up ends in the same way, and in the same state, if more of them are allowed
(`evaluate_approximates`). So what an expression comes to is a matter of the expression and the state alone (`ComesTo.unique`).
-/

namespace ExprLang

variable {σ α β : Type}

namespace Evaluation

/-! ## Computations with fewer steps and with more -/

/-- Wherever the first computation has steps enough, the second does the same. -/
def Approximates ⦃α : Type⦄ (x y : Evaluation σ α) : Prop := ∀ m, (∃ m', x m = .error .exhausted m') ∨ y m = x m

theorem Approximates.refl (x : Evaluation σ α) : Approximates x x := fun _ => .inr rfl

theorem Approximates.eq {x y : Evaluation σ α} {m : Interpreter σ} (h : Approximates x y)
    (hends : ∀ m', x m ≠ .error .exhausted m') : y m = x m := by
  rcases h m with ⟨m', hx⟩ | heq
  · exact absurd hx (hends m')
  · exact heq

theorem Approximates.trans {x y z : Evaluation σ α} (h : Approximates x y) (h' : Approximates y z) : Approximates x z := by
  intro m
  rcases h m with hx | hx
  · exact .inl hx
  · rcases h' m with hy | hy
    · rw [hx] at hy
      exact .inl hy
    · exact .inr (hy.trans hx)

theorem approximates_exhausted (y : Evaluation σ α) : Approximates (throw .exhausted) y := fun m => .inl ⟨m, rfl⟩

theorem Approximates.bind {x y : Evaluation σ α} {f g : α → Evaluation σ β} (h : Approximates x y)
    (hf : ∀ a, Approximates (f a) (g a)) : Approximates (x >>= f) (y >>= g) := by
  intro m
  rcases h m with ⟨m', hx⟩ | heq
  · exact .inl ⟨m', bind_of_error hx f⟩
  · cases hx : x m with
    | ok a m₁ =>
      rw [hx] at heq
      rw [bind_of_ok hx, bind_of_ok heq]
      exact hf a m₁
    | error i m₁ =>
      rw [hx] at heq
      rw [bind_of_error hx, bind_of_error heq]
      exact .inr rfl

theorem Approximates.finishCall {x y : Evaluation σ Evaluated} (h : Approximates x y) (reclamation : Reclamation) (mark : Mark) :
    Approximates (finishCall reclamation mark x) (finishCall reclamation mark y) := by
  intro m
  rcases h m with ⟨m', hx⟩ | heq
  · refine .inl ⟨m'.reclaim reclamation mark, ?_⟩
    simp only [Evaluation.finishCall, hx]
  · refine .inr ?_
    simp only [Evaluation.finishCall, heq]

variable [Sink σ] {reclamation : Reclamation} {steps steps' : Nat}

theorem congruence_approximates (reclamation : Reclamation) : Congruence (σ := σ) reclamation Approximates where
  silent _ := .refl _
  interrupt _ := .refl _
  bind := .bind
  write s := .refl (write s)
  finishCall mark _ _ h := h.finishCall reclamation mark

/-- A loop that ends before its turns are used up ends in the same way if it may take more. -/
theorem approximates_loop {eval eval' : Evaluator σ} (heval : Evaluator.Related Approximates eval eval') (condition body : Expression)
    {turns turns' : Nat} (h : turns ≤ turns') (env : Environment) :
    Approximates (loop eval condition body turns env) (loop eval' condition body turns' env) := by
  induction turns generalizing turns' env with
  | zero => exact approximates_exhausted _
  | succ turns ih =>
    obtain ⟨more, rfl⟩ := Nat.exists_eq_add_of_le' h
    have htest := (congruence_approximates .never).operand heval condition env "While"
    refine htest.bind fun test => ?_
    refine (Approximates.refl _).bind fun b => ?_
    cases b with
    | true => exact (heval body test.env).bind fun r => ih (Nat.le_of_succ_le_succ h) r.env
    | false => exact .refl _

/-- An evaluation that ends before the steps are used up ends in the same way if more of them are allowed. -/
theorem evaluate_approximates (h : steps ≤ steps') :
    Evaluator.Related Approximates (evaluate (σ := σ) reclamation steps) (evaluate reclamation steps') := by
  induction steps generalizing steps' with
  | zero => exact fun _ _ => approximates_exhausted _
  | succ steps ih =>
    obtain ⟨more, rfl⟩ := Nat.exists_eq_add_of_le' h
    have hle : steps ≤ more + steps := Nat.le_add_left steps more
    exact (congruence_approximates reclamation).step (ih hle) fun a b env => approximates_loop (ih hle) a b hle env

/-- So does the run of a program. -/
theorem run_approximates (h : steps ≤ steps') (program : Expression) :
    Approximates (run (σ := σ) reclamation steps program) (run reclamation steps' program) := by
  intro m
  have heval : Approximates (evaluate (σ := σ) reclamation steps program Environment.empty)
    (evaluate reclamation steps' program Environment.empty) := evaluate_approximates h program Environment.empty
  rcases heval m with ⟨m', hx⟩ | heq
  · refine .inl ⟨m', ?_⟩
    simp only [run, hx]
  · refine .inr ?_
    simp only [run, heq]

/-! ## What a computation comes to -/

/-- The computation, given steps enough, ends in this way. -/
def ComesTo (x : Nat → Evaluation σ α) (m : Interpreter σ) (o : EStateM.Result Interrupt (Interpreter σ) α) : Prop :=
  (∀ m', o ≠ .error .exhausted m') ∧ ∃ steps, x steps m = o

section

omit [Sink σ]

variable {x y : Nat → Evaluation σ α} {m : Interpreter σ} {o o' : EStateM.Result Interrupt (Interpreter σ) α}

/-- With more and more steps it ends in this way from some number of steps on. -/
theorem ComesTo.eventually (h : ComesTo x m o) (hx : ∀ ⦃n n'⦄, n ≤ n' → Approximates (x n) (x n')) :
    ∃ steps, ∀ n, steps ≤ n → x n m = o := by
  obtain ⟨hends, steps, rfl⟩ := h
  exact ⟨steps, fun n hn => (hx hn).eq hends⟩

/-- It ends in one way only. -/
theorem ComesTo.unique (h : ComesTo x m o) (h' : ComesTo x m o') (hx : ∀ ⦃n n'⦄, n ≤ n' → Approximates (x n) (x n')) :
    o = o' := by
  obtain ⟨steps, hsteps⟩ := h.eventually hx
  obtain ⟨steps', hsteps'⟩ := h'.eventually hx
  exact (hsteps _ (Nat.le_max_left steps steps')).symm.trans (hsteps' _ (Nat.le_max_right steps steps'))

/-- Where the first computation comes to an end with some number of steps, the second does with another. -/
theorem ComesTo.of_approximates (h : ComesTo x m o) (hxy : ∀ steps, ∃ steps', Approximates (x steps) (y steps')) :
    ComesTo y m o := by
  obtain ⟨hends, steps, rfl⟩ := h
  obtain ⟨steps', happrox⟩ := hxy steps
  exact ⟨hends, steps', happrox.eq hends⟩

end

end Evaluation

end ExprLang
