import ExprLang.Lowering.Lower
import ExprLang.Proofs.Evaluation.Steps

/-!
# Sequences in sequences

A sequence directly in a sequence is the same as its items in its place, for evaluation as for lowering (`sequence_nested_iff_flat`).
There is one exception: an empty sequence has no value, so at the end of a longer one it takes away the value that was there before
(`evaluate_concat_empty`, `lower_concat_empty`).

Both machines go through a sequence item by item, and only the value of the last item counts. So the law is that of going through a list
in two parts (`sequence_append`, `lowerSequence_append`), which holds whatever ends the way through early. Evaluation takes one step more
for the sequence inside, which is why it is compared by what it comes to.
-/

namespace ExprLang

variable {σ : Type} {xs ys zs : List Expression}

/-! ## Evaluation -/

namespace Evaluation

theorem sequence_append (eval : Evaluator σ) (es es' : List Expression) (last : Evaluated) :
    sequence eval (es ++ es') last = sequence eval es last >>= sequence eval es' := by
  induction es generalizing last with
  | nil => exact (pure_bind last (sequence eval es')).symm
  | cons e rest ih =>
    simp only [List.cons_append, sequence, bind_assoc]
    exact bind_congr ih

/-- The value that was there before does not count if there is an item. -/
theorem sequence_of_ne_nil (eval : Evaluator σ) {es : List Expression} (h : es ≠ []) (last : Evaluated) :
    sequence eval es ⟨.void, last.env⟩ = sequence eval es last := by
  cases es with
  | nil => exact absurd rfl h
  | cons e rest => rfl

/-- Evaluates three lists of expressions one after the other, the second one like a sequence of its own. -/
def nested (eval inner : Evaluator σ) (xs ys zs : List Expression) (env : Environment) : Evaluation σ Evaluated := do
  let last ← sequence eval xs ⟨.void, env⟩
  sequence eval zs (← sequence inner ys ⟨.void, last.env⟩)

/-- Evaluated with one evaluator, it makes no difference that the second list is a sequence of its own. -/
theorem nested_eq_sequence (h : xs = [] ∨ ys ≠ [] ∨ zs ≠ []) (eval : Evaluator σ) (env : Environment) :
    nested eval eval xs ys zs env = sequence eval (xs ++ ys ++ zs) ⟨.void, env⟩ := by
  have hparts (last : Evaluated) :
      (sequence eval ys ⟨.void, last.env⟩ >>= sequence eval zs) = sequence eval (ys ++ zs) ⟨.void, last.env⟩ :=
    (sequence_append eval ys zs _).symm
  unfold nested
  simp only [hparts]
  rw [List.append_assoc, sequence_append]
  rcases h with rfl | h
  · simp only [sequence, pure_bind]
  · refine bind_congr fun last => sequence_of_ne_nil eval ?_ last
    rw [Ne, List.append_eq_nil_iff, not_and_or]
    exact h

variable [Sink σ] (reclamation : Reclamation) (steps : Nat) (env : Environment)

theorem evaluate_sequence (es : List Expression) :
    evaluate (σ := σ) reclamation (steps + 1) (.sequence es) env = sequence (evaluate reclamation steps) es ⟨.void, env⟩ := rfl

/-- The sequence inside is evaluated with one step less. -/
theorem evaluate_nested : evaluate (σ := σ) reclamation (steps + 2) (.sequence (xs ++ [Expression.sequence ys] ++ zs)) env =
    nested (evaluate reclamation (steps + 1)) (evaluate reclamation steps) xs ys zs env := by
  rw [evaluate_sequence, List.append_assoc, sequence_append]
  rfl

/-- Behind all the others an empty sequence takes their value away. -/
theorem evaluate_concat_empty : evaluate (σ := σ) reclamation (steps + 2) (.sequence (xs ++ [Expression.sequence []])) env = (do
    let r ← evaluate reclamation (steps + 2) (.sequence xs) env
    return ⟨.void, r.env⟩) := by
  rw [evaluate_sequence, evaluate_sequence, sequence_append]
  rfl

theorem approximates_nested {eval eval' inner inner' : Evaluator σ} (heval : Evaluator.Related Approximates eval eval')
    (hinner : Evaluator.Related Approximates inner inner') :
    Approximates (nested eval inner xs ys zs env) (nested eval' inner' xs ys zs env) := by
  have hcongruence := congruence_approximates (σ := σ) .never
  refine (hcongruence.sequence heval xs ⟨.void, env⟩).bind fun last => ?_
  exact (hcongruence.sequence hinner ys ⟨.void, last.env⟩).bind fun last => hcongruence.sequence heval zs last

variable {reclamation} (h : xs = [] ∨ ys ≠ [] ∨ zs ≠ [])

include h

/-- With one step more the nested sequence does what the flat one does. -/
theorem approximates_evaluate_nested : Approximates (evaluate (σ := σ) reclamation (steps + 1) (.sequence (xs ++ ys ++ zs)) env)
    (evaluate reclamation (steps + 2) (.sequence (xs ++ [Expression.sequence ys] ++ zs)) env) := by
  rw [evaluate_sequence, ← nested_eq_sequence h, evaluate_nested]
  exact approximates_nested env (evaluate_approximates (Nat.le_succ steps)) fun _ _ => .refl _

/-- With as many steps the flat sequence does what the nested one does. -/
theorem approximates_evaluate_flat :
    Approximates (evaluate (σ := σ) reclamation (steps + 2) (.sequence (xs ++ [Expression.sequence ys] ++ zs)) env)
      (evaluate reclamation (steps + 2) (.sequence (xs ++ ys ++ zs)) env) := by
  rw [evaluate_nested, evaluate_sequence, ← nested_eq_sequence h]
  exact approximates_nested env (fun _ _ => .refl _) (evaluate_approximates (Nat.le_succ steps))

end Evaluation

/-! ## Lowering -/

namespace Lowering

theorem lowerSequence_append (mode : Signedness) (es es' : List Expression) (last : Lowered) :
    lowerSequence mode (es ++ es') last = lowerSequence mode es last >>= lowerSequence mode es' := by
  induction es generalizing last with
  | nil => exact (pure_bind last (lowerSequence mode es')).symm
  | cons e rest ih =>
    simp only [List.cons_append, lowerSequence, bind_assoc]
    exact bind_congr ih

/-- What was left before does not count if there is an item. -/
theorem lowerSequence_of_ne_nil (mode : Signedness) {es : List Expression} (h : es ≠ []) (last last' : Lowered) :
    lowerSequence mode es last = lowerSequence mode es last' := by
  cases es with
  | nil => exact absurd rfl h
  | cons e rest => rfl

theorem lower_nested (h : xs = [] ∨ ys ≠ [] ∨ zs ≠ []) (mode : Signedness) :
    lower mode (.sequence (xs ++ [Expression.sequence ys] ++ zs)) = lower mode (.sequence (xs ++ ys ++ zs)) := by
  have hparts : (lowerSequence mode ys .nothing >>= lowerSequence mode zs) = lowerSequence mode (ys ++ zs) .nothing :=
    (lowerSequence_append mode ys zs .nothing).symm
  calc lowerSequence mode (xs ++ [Expression.sequence ys] ++ zs) .nothing
      = lowerSequence mode xs .nothing >>= fun _ => lowerSequence mode (ys ++ zs) .nothing := by
        rw [List.append_assoc, lowerSequence_append, ← hparts]
        rfl
    _ = lowerSequence mode (xs ++ ys ++ zs) .nothing := by
        rw [List.append_assoc, lowerSequence_append mode xs]
        rcases h with rfl | h
        · simp only [lowerSequence, pure_bind]
        · refine bind_congr fun last => lowerSequence_of_ne_nil mode ?_ .nothing last
          rw [Ne, List.append_eq_nil_iff, not_and_or]
          exact h

/-- Behind all the others an empty sequence takes away what they left. -/
theorem lower_concat_empty (mode : Signedness) : lower mode (.sequence (xs ++ [Expression.sequence []])) = (do
    let _ ← lower mode (.sequence xs)
    return .nothing) :=
  lowerSequence_append mode xs [Expression.sequence []] .nothing

end Lowering

open Evaluation Lowering

/-- A sequence directly in a sequence may be replaced by its items, unless it is empty and stands behind all the others: evaluated in any
environment from any state, both come to the same end, be it a result, a return or an error, and in the same state; and to lower them is
the same, from any state of the generator. -/
theorem sequence_nested_iff_flat (h : xs = [] ∨ ys ≠ [] ∨ zs ≠ []) :
    (∀ {σ : Type} [Sink σ] (reclamation : Reclamation) (env : Environment) (m : Interpreter σ)
        (o : EStateM.Result Interrupt (Interpreter σ) Evaluated),
      ComesTo (fun steps => evaluate reclamation steps (.sequence (xs ++ [Expression.sequence ys] ++ zs)) env) m o ↔
        ComesTo (fun steps => evaluate reclamation steps (.sequence (xs ++ ys ++ zs)) env) m o) ∧
    ∀ mode, lower mode (.sequence (xs ++ [Expression.sequence ys] ++ zs)) = lower mode (.sequence (xs ++ ys ++ zs)) := by
  refine ⟨?_, lower_nested h⟩
  intro σ _ reclamation env m o
  constructor
  · intro hnested
    refine hnested.of_approximates fun steps => ⟨steps + 2, ?_⟩
    -- The nested sequence is given the steps first that `approximates_evaluate_flat` asks for.
    exact (evaluate_approximates (Nat.le_add_right steps 2) _ env).trans (approximates_evaluate_flat steps env h)
  · intro hflat
    refine hflat.of_approximates fun steps => ⟨steps + 2, ?_⟩
    exact (evaluate_approximates (Nat.le_add_right steps 1) _ env).trans (approximates_evaluate_nested steps env h)

/-- Declares a name. -/
def declaresFirst : List Expression := [.declare "x" (.integer 1)]

/-- Returns the value of the name, and would print it afterwards. -/
def returnsFirst : List Expression := [.ret (.identifier "x"), .print (.identifier "x")]

/-- As a sequence of their own behind the declaration they return like the flat sequence, and fail to be lowered like it. -/
theorem sequence_nested_iff_flat_returnsFirst :
    ComesTo
      (fun steps => evaluate .onExit steps (.sequence (declaresFirst ++ [Expression.sequence returnsFirst] ++ [])) Environment.empty)
      (Interpreter.initial (Output.empty none)) (.error (.returned (.int 1)) ⟨⟨#[.int 1]⟩, #[], 0, Output.empty none⟩) ∧
    lower .signed (.sequence (declaresFirst ++ [Expression.sequence returnsFirst] ++ [])) Generator.initial =
      lower .signed (.sequence (declaresFirst ++ returnsFirst ++ [])) Generator.initial := by
  have hne : returnsFirst ≠ [] := List.cons_ne_nil _ _
  obtain ⟨hevaluate, hlower⟩ := @sequence_nested_iff_flat declaresFirst returnsFirst [] (.inr (.inl hne))
  refine ⟨(hevaluate .onExit _ _ _).2 ⟨by simp, 5, ?_⟩, congrFun (hlower .signed) _⟩
  rfl

end ExprLang
