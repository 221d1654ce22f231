import ExprLang.Proofs.Evaluation.Operations

/-!
# Relations between evaluations

`step` is put together from operations that have nothing to do with the sink (`Silent`), from texts that are handed to the sink, from
interruptions and from calls that end. A relation between computations in which each of these stands to itself, and which is preserved
when computations are put one after the other, is a `Congruence`. It is preserved by every kind of expression then: evaluated with two
evaluators that do related things with its parts, the expression gives related computations (`Congruence.step`).

What a loop does is left open there, because with the one evaluator it may take more turns than with the other; `Congruence.loop` is about
the same number of turns.
-/

namespace ExprLang

variable {σ α β : Type}

namespace Evaluation

/-- A relation between computations that evaluating an expression preserves. -/
structure Congruence [Sink σ] (reclamation : Reclamation) (Rel : ∀ ⦃α : Type⦄, Evaluation σ α → Evaluation σ α → Prop) :
    Prop where
  /-- The sink has nothing to do with it. -/
  silent {α : Type} {x : ∀ σ, Evaluation σ α} : Silent x → Rel (x σ) (x σ)
  /-- There is an interruption, but not because a text was not taken. -/
  interrupt {α : Type} {i : Interrupt} : i ≠ .failed .output → Rel (throw i : Evaluation σ α) (throw i)
  /-- Two computations are done one after the other. -/
  bind {α β : Type} {x y : Evaluation σ α} {f g : α → Evaluation σ β} :
    Rel x y → (∀ a, Rel (f a) (g a)) → Rel (x >>= f) (y >>= g)
  /-- A text is handed to the sink. -/
  write (s : String) : Rel (write s) (write s)
  /-- A call ends. -/
  finishCall (mark : Mark) {x y : Evaluation σ Evaluated} :
    Rel x y → Rel (finishCall reclamation mark x) (finishCall reclamation mark y)

/-- Two evaluators do related things with every expression. -/
def Evaluator.Related (Rel : ∀ ⦃α : Type⦄, Evaluation σ α → Evaluation σ α → Prop) (eval eval' : Evaluator σ) : Prop :=
  ∀ e env, Rel (eval e env) (eval' e env)

namespace Congruence

variable [Sink σ] {reclamation : Reclamation} {Rel : ∀ ⦃α : Type⦄, Evaluation σ α → Evaluation σ α → Prop}
  (h : Congruence reclamation Rel) {eval eval' : Evaluator σ} (heval : Evaluator.Related Rel eval eval')

include h

theorem pure (a : α) : Rel (Pure.pure a) (Pure.pure a) := h.silent (silent_pure a)

/-- A computation begins with an operation that has nothing to do with the sink. -/
theorem after {x : ∀ σ, Evaluation σ α} (hx : Silent x) {f g : α → Evaluation σ β} (hf : ∀ a, Rel (f a) (g a)) :
    Rel (x σ >>= f) (x σ >>= g) :=
  h.bind (h.silent hx) hf

/-- Of the state only what a mark notes is looked at. -/
theorem marked (eval eval' : Evaluator σ) (k : Evaluator σ → Mark → Evaluation σ β)
    (hk : ∀ mark, Rel (k eval mark) (k eval' mark)) :
    Rel (get >>= fun m => k eval m.mark) (get >>= fun m => k eval' m.mark) :=
  h.after silent_mark hk

theorem printLine (s : String) : Rel (printLine s) (printLine s) := by
  unfold Evaluation.printLine
  by_cases hs : s ≠ ""
  · simp only [if_pos hs]
    exact h.bind (h.write s) fun _ => h.write "\n"
  · simp only [if_neg hs]
    exact h.write "\n"

include heval

theorem operand (e : Expression) (env : Environment) (context : String) :
    Rel (operand eval e env context) (operand eval' e env context) := by
  refine h.bind (heval e env) fun r => ?_
  refine h.after (silent_resolve r.value r.env context) fun _ => ?_
  exact h.pure _

theorem sequence (es : List Expression) (last : Evaluated) : Rel (sequence eval es last) (sequence eval' es last) := by
  induction es generalizing last with
  | nil => exact h.pure last
  | cons e rest ih => exact h.bind (heval e last.env) ih

theorem arguments (es : List Expression) (env : Environment) : Rel (arguments eval es env) (arguments eval' es env) := by
  induction es generalizing env with
  | nil => exact h.pure _
  | cons e rest ih =>
    refine h.bind (h.operand heval e env "Call") fun r => ?_
    refine h.bind (ih r.env) fun vs => ?_
    exact h.pure _

theorem fields (fs : List (String × Expression)) (env : Environment) : Rel (fields eval fs env) (fields eval' fs env) := by
  induction fs generalizing env with
  | nil => exact h.pure _
  | cons f rest ih =>
    refine h.bind (h.operand heval f.2 env "Object") fun r => ?_
    refine h.bind (ih r.env) fun vs => ?_
    exact h.pure _

theorem invoke (literal : FunctionLiteral) (values : List Value) (env : Environment) :
    Rel (invoke reclamation eval literal values env) (invoke reclamation eval' literal values env) := by
  have hcall := h.marked eval eval' (fun eval mark => do
    let frame ← bindAll env (literal.parameters.zip values)
    Evaluation.finishCall reclamation mark (eval literal.body frame)) fun mark =>
      h.after (silent_bindAll _ env) fun frame => h.finishCall mark (heval literal.body frame)
  unfold Evaluation.invoke
  by_cases hlength : literal.parameters.length ≠ values.length
  · simp only [if_pos hlength]
    exact h.after (silent_fail (e := .wrongArity _ _) ⟨nofun, nofun⟩) fun _ => hcall
  · simp only [if_neg hlength]
    exact hcall

/-- A loop takes the same number of turns at most. -/
theorem loop (condition body : Expression) (turns : Nat) (env : Environment) :
    Rel (loop eval condition body turns env) (loop eval' condition body turns env) := by
  induction turns generalizing env with
  | zero => exact h.interrupt nofun
  | succ turns ih =>
    refine h.bind (h.operand heval condition env "While") fun test => ?_
    refine h.after (silent_ofExcept (test.value.onValues_expectBool "While")) fun b => ?_
    cases b with
    | true => exact h.bind (heval body test.env) fun r => ih r.env
    | false => exact h.pure _

/-- A value is computed from an operand. -/
theorem applied (e : Expression) (env : Environment) (context : String) {apply : Evaluated → Except EvalError α}
    (happly : ∀ r, OnValues (apply r)) (result : Evaluated → α → Evaluated) :
    Rel (do let r ← Evaluation.operand eval e env context; return result r (← ofExcept (apply r)))
      (do let r ← Evaluation.operand eval' e env context; return result r (← ofExcept (apply r))) := by
  refine h.bind (h.operand heval e env context) fun r => ?_
  refine h.after (silent_ofExcept (happly r)) fun _ => ?_
  exact h.pure _

theorem binary (left : Expression) (op : Operator) (right : Expression) (env : Environment) :
    Rel (binary eval left op right env) (binary eval' left op right env) := by
  refine h.bind (h.operand heval left env op.name) fun l => ?_
  cases op with
  | arithmetic o => exact h.applied heval right l.env _ (fun r => o.onValues_apply l.value r.value) fun r v => ⟨v, r.env⟩
  | comparison o => exact h.applied heval right l.env _ (fun r => o.onValues_apply l.value r.value) fun r b => ⟨.bool b, r.env⟩
  | stringEqual =>
    exact h.applied heval right l.env _ (fun r => Value.onValues_compareStrings _ _ l.value r.value) fun r b => ⟨.bool b, r.env⟩
  | stringLess =>
    exact h.applied heval right l.env _ (fun r => Value.onValues_compareStrings _ _ l.value r.value) fun r b => ⟨.bool b, r.env⟩
  | and =>
    refine h.after (silent_ofExcept (l.value.onValues_expectBool _)) fun b => ?_
    cases b with
    | true => exact h.applied heval right l.env _ (fun r => r.value.onValues_expectBool _) fun r b => ⟨.bool b, r.env⟩
    | false => exact h.pure _
  | or =>
    refine h.after (silent_ofExcept (l.value.onValues_expectBool _)) fun b => ?_
    cases b with
    | true => exact h.pure _
    | false => exact h.applied heval right l.env _ (fun r => r.value.onValues_expectBool _) fun r b => ⟨.bool b, r.env⟩

/-- Every kind of expression does related things if its parts do, and loops do. -/
theorem step {turns turns' : Nat}
    (hloop : ∀ a b env, Rel (Evaluation.loop eval a b turns env) (Evaluation.loop eval' a b turns' env)) :
    Evaluator.Related Rel (step reclamation eval turns) (step reclamation eval' turns') := by
  intro e env
  cases e with
  | integer | float | boolean | string | identifier | void | function => exact h.pure _
  | varDecl name => exact h.after (silent_bind env name .void) fun env => h.pure _
  | funcDecl name f => exact h.after (silent_bind env name (.function f)) fun env => h.pure _
  | closure f => exact h.after (silent_capture f env) fun v => h.pure _
  | scope body =>
    refine h.marked eval eval' (fun eval mark => do
      let r ← eval body env
      let value ← resolve r.value r.env "Scope"
      modify (·.reclaim reclamation mark)
      return (⟨value, env⟩ : Evaluated)) fun mark => h.bind (heval body env) fun r => ?_
    refine h.after (silent_resolve r.value r.env "Scope") fun v => ?_
    refine h.after (silent_reclaim reclamation mark) fun _ => ?_
    exact h.pure _
  | sequence es => exact h.sequence heval es ⟨.void, env⟩
  | not a => exact h.applied heval a env "Not" (fun r => r.value.onValues_expectBool "Not") fun _ b => ⟨.bool !b, env⟩
  | binary a op b => exact h.binary heval a op b env
  | assign place a =>
    refine h.bind (heval place env) fun place => ?_
    refine h.after (silent_target place) fun t => ?_
    refine h.bind (h.operand heval a place.env "Assign") fun r => ?_
    refine h.after (silent_recapture r.value r.env) fun _ => ?_
    exact h.after (silent_store t.1 t.2 r.value) fun _ => h.pure _
  | call f as =>
    refine h.bind (h.operand heval f env "Call") fun f => ?_
    refine h.bind (h.arguments heval as f.env) fun vs => ?_
    refine h.after (silent_callee f.value vs.2) fun c => ?_
    refine h.bind (h.invoke heval c.1 vs.1 c.2) fun v => ?_
    exact h.pure _
  | conditional a b c =>
    refine h.bind (h.operand heval a env "If") fun test => ?_
    refine h.after (silent_ofExcept (test.value.onValues_expectBool "If")) fun t => ?_
    cases t with
    | true => exact heval b test.env
    | false =>
      cases c with
      | some c => exact heval c test.env
      | none => exact h.pure _
  | loop a b => exact hloop a b env
  | ret a => exact h.bind (h.operand heval a env "Return") fun r => h.interrupt nofun
  | print a =>
    refine h.bind (h.operand heval a env "Print") fun r => ?_
    refine h.bind (h.printLine r.value.text) fun _ => ?_
    exact h.pure _
  | isType a name => exact h.bind (h.operand heval a env "IsType") fun r => h.pure _
  | stringLength a =>
    exact h.applied heval a env "StringLength" (fun r => r.value.onValues_stringLength) fun r v => ⟨v, r.env⟩
  | substring a b c =>
    refine h.bind (h.operand heval a env "Substring") fun a => ?_
    refine h.bind (h.operand heval b a.env "Substring") fun b => ?_
    exact h.applied heval c b.env "Substring" (fun c => a.value.onValues_substring b.value c.value) fun c v => ⟨v, c.env⟩
  | object fs => exact h.bind (h.fields heval fs env) fun vs => h.pure _
  | field a name => exact h.applied heval a env "Field" (fun r => r.value.onValues_field name) fun r v => ⟨v, r.env⟩

omit heval in
/-- In a congruence every evaluation stands to itself. -/
theorem evaluate (steps : Nat) : Evaluator.Related Rel (evaluate (σ := σ) reclamation steps) (evaluate reclamation steps) := by
  induction steps with
  | zero => exact fun _ _ => h.interrupt nofun
  | succ steps ih => exact h.step ih fun a b env => h.loop ih a b steps env

end Congruence

end Evaluation

end ExprLang
