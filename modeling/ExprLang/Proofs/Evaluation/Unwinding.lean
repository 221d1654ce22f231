import ExprLang.Proofs.Evaluation.Journal

/-!
# A return ends the nearest call

Where a part of an expression returns, the expression itself returns, in the state that the part left and without evaluating anything
else, up to the nearest call, which takes the return of the body it runs. An expression with no return outside of function bodies
does not return, and that a return was outside of a function is for `run` alone to say (`return_unwinds`).

The traversal follows `step`: what an evaluation visits is told for each helper (`traced_operand` and so on), then for each kind of
expression (`traced_step`). Calls are told apart from the start, because their visits are of two kinds (`Calls`).
-/

namespace ExprLang

namespace Evaluation

variable {σ α β : Type} {eval : Evaluator σ} {e : Expression} {m : Interpreter σ}

/-! ## Computations that follow each other -/

/-- Operations evaluate nothing. -/
theorem Overlooks.traced {x : Evaluation (Journal σ) α} {y : Evaluation σ α} (h : Overlooks x y) :
    Traced (Unwinds eval e) x y m := by
  intro visits
  refine ⟨[], ?_, .ends fun hi => .inl (h.ordinary hi)⟩
  rw [List.append_nil]
  exact h.same m visits

section

variable {x : Evaluation (Journal σ) α} {y : Evaluation σ α} {f : α → Evaluation (Journal σ) β} {g : α → Evaluation σ β}

/-- Visits of two computations follow each other. -/
theorem Traced.andThen (h : Traced (Unwinds eval e) x y m) (hf : ∀ a m', Traced (Unwinds eval e) (f a) (g a) m') :
    Traced (Unwinds eval e) (x >>= f) (y >>= g) m :=
  h.bind hf (fun _ _ _ h => h.error) fun _ _ _ _ _ h h' => h.append h'

/-- Of the state only what is the same with a journal is looked at. -/
theorem Traced.get {P : List (Visit σ) → EStateM.Result Interrupt (Interpreter σ) α → Prop} {x : Evaluation (Journal σ) α}
    {f : Interpreter (Journal σ) → Evaluation (Journal σ) α} {g : Interpreter σ → Evaluation σ α} (h : Traced P x (g m) m)
    (hf : ∀ visits, f (m.noting visits) = x) : Traced P (get >>= f) (get >>= g) m := by
  intro visits
  obtain ⟨more, hx, hP⟩ := h visits
  rw [← hf visits] at hx
  exact ⟨more, hx, hP⟩

end

/-- The visits are of these parts from the first on, and of all of them if there is a result. -/
structure Operands (eval : Evaluator σ) (e : Expression) (parts : List Expression) (visits : List (Visit σ))
    (o : EStateM.Result Interrupt (Interpreter σ) α) : Prop where
  /-- The parts are evaluated one after the other. -/
  unwinds : Unwinds eval e visits o
  /-- The parts are visited from the first on. -/
  visited : visits.map Visit.part <+: parts
  /-- If there is a result, they all are. -/
  complete : ∀ {a m'}, o = .ok a m' → visits.map Visit.part = parts

section

variable {x : Evaluation (Journal σ) α} {y : Evaluation σ α} {f : α → Evaluation (Journal σ) β} {g : α → Evaluation σ β}
  {parts parts' : List Expression} {visits more : List (Visit σ)}

/-- An error among the first parts ends the visits of all of them. -/
theorem Operands.error {i : Interrupt} {m' : Interpreter σ}
    (h : Operands eval e parts visits (.error i m' : EStateM.Result Interrupt (Interpreter σ) α)) (parts' : List Expression) :
    Operands eval e (parts ++ parts') visits (.error i m' : EStateM.Result Interrupt (Interpreter σ) β) :=
  ⟨h.unwinds.error, h.visited.trans (List.prefix_append parts parts'), fun ho => nomatch ho⟩

/-- If the first parts were visited with a result, the visits of the others follow. -/
theorem Operands.append {a : α} {m' : Interpreter σ} {o : EStateM.Result Interrupt (Interpreter σ) β}
    (h : Operands eval e parts visits (.ok a m' : EStateM.Result Interrupt (Interpreter σ) α))
    (h' : Operands eval e parts' more o) : Operands eval e (parts ++ parts') (visits ++ more) o := by
  refine ⟨h.unwinds.append h'.unwinds, ?_, fun ho => ?_⟩
  · rw [List.map_append, h.complete rfl, List.prefix_append_right_inj]
    exact h'.visited
  · rw [List.map_append, h.complete rfl, h'.complete ho]

/-- Parts after other parts. -/
theorem Traced.operands (h : Traced (Operands eval e parts) x y m) (hf : ∀ a m', Traced (Operands eval e parts') (f a) (g a) m') :
    Traced (Operands eval e (parts ++ parts')) (x >>= f) (y >>= g) m :=
  h.bind hf (fun _ _ _ h => h.error parts') fun _ _ _ _ _ h h' => h.append h'

/-- Operations visit no part. -/
theorem Overlooks.operands {x : Evaluation (Journal σ) α} {y : Evaluation σ α} (h : Overlooks x y) :
    Traced (Operands eval e []) x y m := by
  intro visits
  refine ⟨[], ?_, .ends fun hi => .inl (h.ordinary hi), List.prefix_rfl, fun _ => rfl⟩
  rw [List.append_nil]
  exact h.same m visits

/-- An operation after parts. -/
theorem Traced.finish (h : Traced (Operands eval e parts) x y m) (hf : ∀ a, Overlooks (f a) (g a)) :
    Traced (Operands eval e parts) (x >>= f) (y >>= g) m := by
  have happend : Traced (Operands eval e (parts ++ [])) (x >>= f) (y >>= g) m := h.operands fun a _ => (hf a).operands
  rwa [List.append_nil] at happend

/-- Parts that are visited in their order unwind. -/
theorem Traced.unwinds (h : Traced (Operands eval e parts) x y m) : Traced (Unwinds eval e) x y m :=
  h.imp fun _ => Operands.unwinds

end

/-! ## Parts of expressions -/

section

variable {a : Expression}

/-- A part is visited once. -/
theorem traced_part (eval : Evaluator σ) (ha : a ∈ e.children) (env : Environment) (m : Interpreter σ) :
    Traced (Operands eval e [a]) (eval.noted a env) (eval a env) m := by
  intro visits
  refine ⟨[⟨a, env, m⟩], rfl, ?_, List.prefix_rfl, fun _ => rfl⟩
  cases h : eval a env m with
  | ok r m' => exact .continues ha h (.ends fun hi => nomatch hi)
  | error i m' => exact .stops ha h

/-- An operand is one part; to resolve its name visits nothing. -/
theorem traced_operand (eval : Evaluator σ) (ha : a ∈ e.children) (env : Environment) (context : String) (m : Interpreter σ) :
    Traced (Operands eval e [a]) (operand eval.noted a env context) (operand eval a env context) m :=
  (traced_part eval ha env m).finish fun r => (silent_resolve r.value r.env context).overlooks.bind fun _ => (silent_pure _).overlooks

/-- A sequence visits its expressions in their order. -/
theorem traced_sequence (eval : Evaluator σ) {es : List Expression} (hes : ∀ a ∈ es, a ∈ e.children) (last : Evaluated)
    (m : Interpreter σ) : Traced (Unwinds eval e) (sequence eval.noted es last) (sequence eval es last) m := by
  induction es generalizing m last with
  | nil => exact (silent_pure last).overlooks.traced
  | cons a rest ih =>
    refine (traced_part eval (hes a List.mem_cons_self) last.env m).unwinds.andThen fun r m₁ => ?_
    exact ih (fun b hb => hes b (List.mem_cons_of_mem a hb)) r m₁

/-- Arguments are visited in their order. -/
theorem traced_arguments (eval : Evaluator σ) {as : List Expression} (has : ∀ a ∈ as, a ∈ e.children) (env : Environment)
    (m : Interpreter σ) : Traced (Operands eval e as) (arguments eval.noted as env) (arguments eval as env) m := by
  induction as generalizing m env with
  | nil => exact (silent_pure ([], env)).overlooks.operands
  | cons a rest ih =>
    refine (traced_operand eval (has a List.mem_cons_self) env "Call" m).operands fun r m₁ => ?_
    exact (ih (fun b hb => has b (List.mem_cons_of_mem a hb)) r.env m₁).finish fun vs => (silent_pure (r.value :: vs.1, vs.2)).overlooks

/-- The values of fields are visited in their order. -/
theorem traced_fields (eval : Evaluator σ) {fs : List (String × Expression)} (hfs : ∀ f ∈ fs, f.2 ∈ e.children) (env : Environment)
    (m : Interpreter σ) : Traced (Unwinds eval e) (fields eval.noted fs env) (fields eval fs env) m := by
  induction fs generalizing m env with
  | nil => exact (silent_pure ([], env)).overlooks.traced
  | cons f rest ih =>
    refine (traced_operand eval (hfs f List.mem_cons_self) env "Object" m).unwinds.andThen fun r m₁ => ?_
    refine (ih (fun b hb => hfs b (List.mem_cons_of_mem f hb)) r.env m₁).andThen fun vs m₂ => ?_
    exact (silent_pure ((f.1, r.value) :: vs.1, vs.2)).overlooks.traced

/-- A loop visits its test and its body in turns. -/
theorem traced_loop (eval : Evaluator σ) {condition body : Expression} (hc : condition ∈ e.children) (hb : body ∈ e.children)
    (turns : Nat) (env : Environment) (m : Interpreter σ) :
    Traced (Unwinds eval e) (loop eval.noted condition body turns env) (loop eval condition body turns env) m := by
  induction turns generalizing m env with
  | zero =>
    intro visits
    refine ⟨[], by rw [List.append_nil]; rfl, .ends fun hi => ?_⟩
    cases hi
    exact .inl trivial
  | succ turns ih =>
    refine (traced_operand eval hc env "While" m).unwinds.andThen fun test m₁ => ?_
    refine (silent_ofExcept (Value.onValues_expectBool "While" test.value)).overlooks.traced.andThen fun b m₂ => ?_
    cases b with
    | true => exact (traced_part eval hb test.env m₂).unwinds.andThen fun r m₃ => ih r.env m₃
    | false => exact (silent_pure _).overlooks.traced

/-- A value is computed from an operand. -/
theorem traced_applied (eval : Evaluator σ) {apply : Evaluated → Except EvalError β} (hf : ∀ r, OnValues (apply r))
    (value : β → Value) (ha : a ∈ e.children) (env : Environment) (context : String) (m : Interpreter σ) :
    Traced (Unwinds eval e)
      (do let r ← operand eval.noted a env context
          return ⟨value (← ofExcept (apply r)), r.env⟩ : Evaluation (Journal σ) Evaluated)
      (do let r ← operand eval a env context
          return ⟨value (← ofExcept (apply r)), r.env⟩ : Evaluation σ Evaluated) m := by
  refine (traced_operand eval ha env context m).unwinds.andThen fun r m₁ => ?_
  exact ((silent_ofExcept (hf r)).overlooks.bind fun b => (silent_pure _).overlooks).traced

/-- A binary expression visits its left side and, unless that decides, its right side. -/
theorem traced_binary (eval : Evaluator σ) {left right : Expression} (op : Operator) (hl : left ∈ e.children)
    (hr : right ∈ e.children) (env : Environment) (m : Interpreter σ) :
    Traced (Unwinds eval e) (binary eval.noted left op right env) (binary eval left op right env) m := by
  refine (traced_operand eval hl env op.name m).unwinds.andThen fun l m₁ => ?_
  have hbool : ∀ v : Value, OnValues (v.expectBool op.name) := Value.onValues_expectBool op.name
  cases op with
  | arithmetic o => exact traced_applied eval (fun r => o.onValues_apply l.value r.value) id hr l.env _ m₁
  | comparison o => exact traced_applied eval (fun r => o.onValues_apply l.value r.value) .bool hr l.env _ m₁
  | stringEqual => exact traced_applied eval (fun r => Value.onValues_compareStrings _ _ l.value r.value) .bool hr l.env _ m₁
  | stringLess => exact traced_applied eval (fun r => Value.onValues_compareStrings _ _ l.value r.value) .bool hr l.env _ m₁
  | and =>
    refine (silent_ofExcept (hbool l.value)).overlooks.traced.andThen fun b m₂ => ?_
    cases b with
    | true => exact traced_applied eval (fun r => hbool r.value) .bool hr l.env _ m₂
    | false => exact (silent_pure _).overlooks.traced
  | or =>
    refine (silent_ofExcept (hbool l.value)).overlooks.traced.andThen fun b m₂ => ?_
    cases b with
    | true => exact (silent_pure _).overlooks.traced
    | false => exact traced_applied eval (fun r => hbool r.value) .bool hr l.env _ m₂

end

/-! ## Calls -/

/-- Giving cells back does not touch the journal. -/
theorem reclaim_noting (reclamation : Reclamation) (mark : Mark) (visits : List (Visit σ)) (m : Interpreter σ) :
    (m.noting visits).reclaim reclamation mark = (m.reclaim reclamation mark).noting visits := by
  refine (m.reclaim_onto (⟨m.output, visits⟩ : Journal σ) reclamation mark).trans ?_
  rw [Interpreter.reclaim_eq]
  rfl

/-- What a call does once what is called and the arguments are there: at most the body of what is called is evaluated, and no return
comes out of it. -/
structure Runs (eval : Evaluator σ) (visits : List (Visit σ)) (o : EStateM.Result Interrupt (Interpreter σ) α) : Prop where
  /-- Only the body of a function is evaluated, and only once. -/
  visited : ∃ literal : FunctionLiteral, visits.map Visit.part <+: [literal.body]
  /-- The call takes the return of the body. -/
  not_returned : ∀ v m, o ≠ .error (.returned v) m
  /-- What a program as a whole ends with would come from the body. -/
  misplaced : ∀ {m}, o = .error (.failed .returnOutsideFunction) m →
    ∃ visit ∈ visits, ∃ m', outcome eval visit = .error (.failed .returnOutsideFunction) m'

/-- Operations run no body. -/
theorem Overlooks.runs {x : Evaluation (Journal σ) α} {y : Evaluation σ α} (h : Overlooks x y) : Traced (Runs eval) x y m := by
  intro visits
  refine ⟨[], ?_, ⟨⟨0, [], .void⟩, List.nil_prefix⟩, fun v m' ho => h.ordinary ho, fun ho => absurd rfl (h.ordinary ho)⟩
  rw [List.append_nil]
  exact h.same m visits

section

variable {x : Evaluation (Journal σ) α} {y : Evaluation σ α} {f : α → Evaluation (Journal σ) β} {g : α → Evaluation σ β}

/-- An error that ends a body ends what comes after it. -/
theorem Runs.error {visits : List (Visit σ)} {i : Interrupt} {m' : Interpreter σ}
    (h : Runs eval visits (.error i m' : EStateM.Result Interrupt (Interpreter σ) α)) :
    Runs eval visits (.error i m' : EStateM.Result Interrupt (Interpreter σ) β) := by
  refine ⟨h.visited, ?_, ?_⟩
  · rintro v m₁ ⟨⟩
    exact h.not_returned v m' rfl
  · rintro m₁ ⟨⟩
    exact h.misplaced rfl

/-- Operations before the body is run. -/
theorem Overlooks.thenRuns (h : Overlooks x y) (hf : ∀ a m', Traced (Runs eval) (f a) (g a) m') :
    Traced (Runs eval) (x >>= f) (y >>= g) m := by
  intro visits
  have hx := h.same m visits
  cases hy : y m with
  | ok a m' =>
    rw [hy] at hx
    obtain ⟨more, hg, hruns⟩ := hf a m' visits
    rw [bind_of_ok hx, bind_of_ok hy]
    exact ⟨more, hg, hruns⟩
  | error i m' =>
    have htraced : Traced (Runs eval) x y m := h.runs
    obtain ⟨more, hx', hruns⟩ := htraced visits
    rw [hy] at hx' hruns
    rw [bind_of_error hx', bind_of_error hy]
    exact ⟨more, rfl, hruns.error⟩

/-- A result after the body was run. -/
theorem Traced.runsThen (h : Traced (Runs eval) x y m) (k : α → β) :
    Traced (Runs eval) (do let a ← x; return k a) (do let a ← y; return k a) m := by
  intro visits
  obtain ⟨more, hx, hruns⟩ := h visits
  cases hy : y m with
  | ok a m' =>
    rw [hy] at hx
    rw [bind_of_ok hx, bind_of_ok hy]
    exact ⟨more, rfl, hruns.visited, fun _ _ ho => (nomatch ho), fun ho => (nomatch ho)⟩
  | error i m' =>
    rw [hy] at hx hruns
    rw [bind_of_error hx, bind_of_error hy]
    exact ⟨more, rfl, hruns.error⟩

end

/-- The body of a function is run once, and its return is taken there. -/
theorem traced_finishCall (eval : Evaluator σ) (reclamation : Reclamation) (mark : Mark) (literal : FunctionLiteral)
    (frame : Environment) (m : Interpreter σ) :
    Traced (Runs eval) (finishCall reclamation mark (eval.noted literal.body frame))
      (finishCall reclamation mark (eval literal.body frame)) m := by
  intro visits
  refine ⟨[⟨literal.body, frame, m⟩], ?_, ⟨literal, List.prefix_rfl⟩, ?_, ?_⟩
  · unfold finishCall
    simp only [show eval.noted literal.body frame (m.noting visits) =
      noting (visits ++ [⟨literal.body, frame, m⟩]) (eval literal.body frame m) from rfl]
    cases eval literal.body frame m with
    | ok r m' => simp only [noting, reclaim_noting]
    | error i m' => cases i <;> simp only [noting, reclaim_noting]
  · intro v m' ho
    unfold finishCall at ho
    split at ho
    · cases ho
    · cases ho
    · rename_i hreturned _
      cases ho
      exact hreturned v rfl
  · intro m' ho
    refine ⟨_, List.mem_singleton_self _, ?_⟩
    unfold finishCall at ho
    split at ho
    · cases ho
    · cases ho
    · rename_i m₁ _ hbody
      cases ho
      exact ⟨m₁, hbody⟩

/-- To run a closure is to run its body after the parameters were bound. -/
theorem traced_invoke (eval : Evaluator σ) (reclamation : Reclamation) (literal : FunctionLiteral) (values : List Value)
    (base : Environment) (m : Interpreter σ) :
    Traced (Runs eval) (invoke reclamation eval.noted literal values base) (invoke reclamation eval literal values base) m := by
  have hrest : ∀ m : Interpreter σ, Traced (Runs eval)
      (do let frame ← bindAll base (literal.parameters.zip values)
          finishCall reclamation m.mark (eval.noted literal.body frame))
      (do let frame ← bindAll base (literal.parameters.zip values)
          finishCall reclamation m.mark (eval literal.body frame)) m := fun m =>
    (silent_bindAll _ base).overlooks.thenRuns fun frame m₁ => traced_finishCall eval reclamation m.mark literal frame m₁
  unfold invoke
  by_cases hn : literal.parameters.length ≠ values.length
  · simp only [if_pos hn]
    refine (silent_fail (e := .wrongArity _ _) ⟨nofun, nofun⟩).overlooks.thenRuns fun _ m₁ => ?_
    exact Traced.get (hrest m₁) fun _ => rfl
  · simp only [if_neg hn]
    exact Traced.get (hrest m) fun _ => rfl

/-- The visits of a call: either what is called or an argument is interrupted, or all of them have results and the body is run. -/
inductive Calls (eval : Evaluator σ) (e : Expression) (parts : List Expression) :
    List (Visit σ) → EStateM.Result Interrupt (Interpreter σ) α → Prop
  /-- The body is not reached. -/
  | interrupted {visits : List (Visit σ)} {i : Interrupt} {m : Interpreter σ} :
      Operands eval e parts visits (.error i m : EStateM.Result Interrupt (Interpreter σ) α) →
      Calls eval e parts visits (.error i m)
  /-- The parts are evaluated, and then the body. -/
  | ran {own body : List (Visit σ)} {o : EStateM.Result Interrupt (Interpreter σ) α} :
      own.map Visit.part = parts → (∀ visit ∈ own, ∃ r m, outcome eval visit = .ok r m) →
      Runs eval body o → Calls eval e parts (own ++ body) o

/-- Where the whole has a result, so has every part that was visited. -/
theorem Unwinds.normal {visits : List (Visit σ)} {a : α} {m : Interpreter σ}
    (h : Unwinds eval e visits (.ok a m : EStateM.Result Interrupt (Interpreter σ) α)) :
    ∀ visit ∈ visits, ∃ r m', outcome eval visit = .ok r m' := by
  intro visit hvisit
  obtain ⟨before, after, hvisits⟩ := List.append_of_mem hvisit
  cases hv : outcome eval visit with
  | ok r m' => exact ⟨r, m', rfl⟩
  | error i m' => cases (h.last hvisits hv).2

/-- A body that is run is the last visit of a call. -/
theorem Runs.calls {visits : List (Visit σ)} {o : EStateM.Result Interrupt (Interpreter σ) α} (h : Runs eval visits o) :
    Calls eval e [] visits o := by
  have hran : Calls eval e [] ([] ++ visits) o := .ran rfl (fun _ hv => nomatch hv) h
  exact hran

/-- The parts of a call are visited before the rest of it. -/
theorem Traced.calls {x : Evaluation (Journal σ) α} {y : Evaluation σ α} {f : α → Evaluation (Journal σ) β}
    {g : α → Evaluation σ β} {parts parts' : List Expression} (h : Traced (Operands eval e parts) x y m)
    (hf : ∀ a m', Traced (Calls eval e parts') (f a) (g a) m') :
    Traced (Calls eval e (parts ++ parts')) (x >>= f) (y >>= g) m := by
  refine h.bind hf (fun _ _ _ h => .interrupted (h.error parts')) fun more a m' more' o h h' => ?_
  cases h' with
  | interrupted h' => exact .interrupted (h.append h')
  | @ran own body _ hparts hnormal hruns =>
    rw [← List.append_assoc]
    refine .ran ?_ ?_ hruns
    · rw [List.map_append, h.complete rfl, hparts]
    · intro visit hvisit
      rcases List.mem_append.1 hvisit with hvisit | hvisit
      · exact h.unwinds.normal visit hvisit
      · exact hnormal visit hvisit

/-- A call visits what is called, then its arguments, then runs the body. -/
theorem traced_call [Sink σ] (eval : Evaluator σ) (reclamation : Reclamation) (turns : Nat) (f : Expression)
    (as : List Expression) (env : Environment) (m : Interpreter σ) :
    Traced (Calls eval (.call f as) (f :: as)) (step reclamation eval.noted turns (.call f as) env)
      (step reclamation eval turns (.call f as) env) m := by
  have hf : f ∈ (Expression.call f as).children := List.mem_cons_self
  have has : ∀ a ∈ as, a ∈ (Expression.call f as).children := fun a ha => List.mem_cons_of_mem f ha
  have hcall : Traced (Calls eval (.call f as) ([f] ++ (as ++ []))) (step reclamation eval.noted turns (.call f as) env)
      (step reclamation eval turns (.call f as) env) m := by
    refine (traced_operand eval hf env "Call" m).calls fun g m₁ => ?_
    refine (traced_arguments eval has g.env m₁).calls fun vs m₂ => ?_
    refine Traced.imp ?_ fun _ => Runs.calls
    refine (silent_callee g.value vs.2).overlooks.thenRuns fun c m₃ => ?_
    exact (traced_invoke eval reclamation c.1 vs.1 c.2 m₃).runsThen fun v => (⟨v, vs.2⟩ : Evaluated)
  rw [List.append_nil] at hcall
  exact hcall

/-! ## Expressions -/

/-- What an evaluation visits and how it ends: an interruption comes out of the last part that was visited, unless the expression
ends a call itself. -/
structure Unwound (eval : Evaluator σ) (e : Expression) (visits : List (Visit σ))
    (o : EStateM.Result Interrupt (Interpreter σ) Evaluated) : Prop where
  /-- Direct visits are of direct parts. -/
  part_mem : ∀ visit ∈ direct e visits, visit.part ∈ e.children
  /-- The other visits of a call are of the body that it runs. -/
  body : ∀ {f as}, e = .call f as → ∃ literal : FunctionLiteral, visits.map Visit.part <+: f :: (as ++ [literal.body])
  /-- Where a direct part is interrupted, nothing else happens. -/
  last : ∀ {before visit after i m'}, direct e visits = before ++ visit :: after → outcome eval visit = .error i m' →
    visits = before ++ [visit] ∧ o = .error i m'
  /-- A return is one of a direct part, or the expression's own. -/
  returned : ∀ {v m'}, o = .error (.returned v) m' →
    e.isReturn = true ∨ ∃ visit ∈ direct e visits, outcome eval visit = .error (.returned v) m'
  /-- What a program as a whole ends with would come from a visit. -/
  misplaced : ∀ {m'}, o = .error (.failed .returnOutsideFunction) m' →
    ∃ visit ∈ visits, ∃ m₁, outcome eval visit = .error (.failed .returnOutsideFunction) m₁

section

variable {visits : List (Visit σ)} {o : EStateM.Result Interrupt (Interpreter σ) Evaluated}

/-- Where all visits are direct. -/
theorem Unwinds.unwound (h : Unwinds eval e visits o) (hdirect : direct e visits = visits)
    (hbody : ∀ {f as}, e = .call f as → visits.map Visit.part <+: f :: as) : Unwound eval e visits o := by
  refine ⟨?_, ?_, ?_, ?_, ?_⟩
  · rw [hdirect]
    exact h.part_mem
  · intro f as he
    exact ⟨⟨0, [], .void⟩, (hbody he).trans (List.prefix_append (f :: as) _)⟩
  · intro before visit after i m' hvisits hv
    rw [hdirect] at hvisits
    obtain ⟨rfl, ho⟩ := h.last hvisits hv
    exact ⟨hvisits, ho⟩
  · intro v m' ho
    rw [hdirect]
    rcases h.interrupted ho with hi | ⟨he, -⟩ | hvisit
    · exact hi.elim
    · exact .inl he
    · exact .inr hvisit
  · intro m' ho
    rcases h.interrupted ho with hi | ⟨-, v, hv⟩ | ⟨visit, hmem, hv⟩
    · exact absurd rfl hi
    · cases hv
    · exact ⟨visit, hmem, m', hv⟩

/-- A call is unwound by its own parts only: a return of the body that it runs goes no further. -/
theorem Calls.unwound {f : Expression} {as : List Expression} (h : Calls eval (.call f as) (f :: as) visits o) :
    Unwound eval (.call f as) visits o := by
  cases h with
  | interrupted h =>
    refine h.unwinds.unwound ?_ ?_
    · have hlength := h.visited.length_le
      rw [List.length_map, List.length_cons] at hlength
      exact List.take_of_length_le hlength
    · rintro f' as' ⟨⟩
      exact h.visited
  | @ran own body _ hparts hnormal hruns =>
    have hlength : own.length = as.length + 1 := by rw [← List.length_map Visit.part, hparts, List.length_cons]
    have hdirect : direct (.call f as) (own ++ body) = own := List.take_left' hlength
    refine ⟨?_, ?_, ?_, fun ho => absurd ho (hruns.not_returned _ _), ?_⟩
    · rw [hdirect]
      intro visit hvisit
      show visit.part ∈ f :: as
      rw [← hparts]
      exact List.mem_map_of_mem hvisit
    · rintro f' as' ⟨⟩
      obtain ⟨literal, hbody⟩ := hruns.visited
      refine ⟨literal, ?_⟩
      rw [List.map_append, hparts]
      exact (List.prefix_append_right_inj (f :: as)).2 hbody
    · intro before visit after i m' hvisits hv
      rw [hdirect] at hvisits
      obtain ⟨r, m₁, hr⟩ := hnormal visit (hvisits ▸ List.mem_append_right before List.mem_cons_self)
      rw [hr] at hv
      cases hv
    · intro m' ho
      obtain ⟨visit, hmem, hv⟩ := hruns.misplaced ho
      exact ⟨visit, List.mem_append_right own hmem, hv⟩

end

section

variable [Sink σ] (eval : Evaluator σ) (reclamation : Reclamation) (turns : Nat) (env : Environment) (m : Interpreter σ)

/-- A block visits its body. -/
theorem traced_scope (body : Expression) :
    Traced (Unwinds eval (.scope body)) (step reclamation eval.noted turns (.scope body) env)
      (step reclamation eval turns (.scope body) env) m := by
  have hrest : Traced (Unwinds eval (.scope body))
      (do let r ← eval.noted body env
          let value ← resolve r.value r.env "Scope"
          modify (·.reclaim reclamation m.mark)
          return ⟨value, env⟩ : Evaluation (Journal σ) Evaluated)
      (do let r ← eval body env
          let value ← resolve r.value r.env "Scope"
          modify (·.reclaim reclamation m.mark)
          return ⟨value, env⟩ : Evaluation σ Evaluated) m := by
    refine (traced_part eval (List.mem_singleton_self body) env m).unwinds.andThen fun r m₁ => ?_
    exact ((silent_resolve r.value r.env "Scope").overlooks.bind fun v =>
      (silent_reclaim reclamation m.mark).overlooks.bind fun _ => (silent_pure _).overlooks).traced
  exact Traced.get hrest fun _ => rfl

/-- An assignment visits its place and then its value. -/
theorem traced_assign (place a : Expression) :
    Traced (Unwinds eval (.assign place a)) (step reclamation eval.noted turns (.assign place a) env)
      (step reclamation eval turns (.assign place a) env) m := by
  have hplace : place ∈ (Expression.assign place a).children := List.mem_cons_self
  have ha : a ∈ (Expression.assign place a).children := List.mem_cons_of_mem place List.mem_cons_self
  refine (traced_part eval hplace env m).unwinds.andThen fun r m₁ => ?_
  refine (silent_target r).overlooks.traced.andThen fun t m₂ => ?_
  refine (traced_operand eval ha r.env "Assign" m₂).unwinds.andThen fun v m₃ => ?_
  exact ((silent_recapture v.value v.env).overlooks.bind fun _ =>
    (silent_store t.1 t.2 v.value).overlooks.bind fun _ => (silent_pure _).overlooks).traced

/-- A choice visits its test and then one of its branches. -/
theorem traced_conditional (a b : Expression) (c : Option Expression) :
    Traced (Unwinds eval (.conditional a b c)) (step reclamation eval.noted turns (.conditional a b c) env)
      (step reclamation eval turns (.conditional a b c) env) m := by
  have ha : a ∈ (Expression.conditional a b c).children := List.mem_cons_self
  have hb : b ∈ (Expression.conditional a b c).children := List.mem_cons_of_mem a List.mem_cons_self
  refine (traced_operand eval ha env "If" m).unwinds.andThen fun test m₁ => ?_
  refine (silent_ofExcept (Value.onValues_expectBool "If" test.value)).overlooks.traced.andThen fun t m₂ => ?_
  cases t with
  | true => exact (traced_part eval hb test.env m₂).unwinds
  | false =>
    cases c with
    | some c =>
      have hc : c ∈ (Expression.conditional a b (some c)).children := by simp [Expression.children]
      exact (traced_part eval hc test.env m₂).unwinds
    | none => exact (silent_pure _).overlooks.traced

/-- Nothing is left to do for the one that ends a call but to end it. -/
theorem traced_ret (a : Expression) :
    Traced (Unwinds eval (.ret a)) (step reclamation eval.noted turns (.ret a) env) (step reclamation eval turns (.ret a) env) m := by
  refine (traced_operand eval (List.mem_singleton_self a) env "Return" m).unwinds.andThen fun r m₁ visits => ?_
  refine ⟨[], ?_, .ends fun {i m'} h => ?_⟩
  · rw [List.append_nil]
    rfl
  · cases h
    exact .inr ⟨rfl, r.value, rfl⟩

/-- What an expression other than a call visits. -/
theorem traced_step (e : Expression) (he : ∀ f as, e ≠ .call f as) :
    Traced (Unwinds eval e) (step reclamation eval.noted turns e env) (step reclamation eval turns e env) m := by
  cases e with
  | integer v => exact (silent_pure _).overlooks.traced
  | float v => exact (silent_pure _).overlooks.traced
  | boolean v => exact (silent_pure _).overlooks.traced
  | string v => exact (silent_pure _).overlooks.traced
  | identifier name => exact (silent_pure _).overlooks.traced
  | void => exact (silent_pure _).overlooks.traced
  | varDecl name => exact ((silent_bind env name .void).overlooks.bind fun _ => (silent_pure _).overlooks).traced
  | funcDecl name f => exact ((silent_bind env name (.function f)).overlooks.bind fun _ => (silent_pure _).overlooks).traced
  | function f => exact (silent_pure _).overlooks.traced
  | closure f => exact ((silent_capture f env).overlooks.bind fun _ => (silent_pure _).overlooks).traced
  | scope body => exact traced_scope eval reclamation turns env m body
  | sequence es => exact traced_sequence eval (fun _ ha => ha) ⟨.void, env⟩ m
  | not a =>
    refine (traced_operand eval (List.mem_singleton_self a) env "Not" m).unwinds.andThen fun r m₁ => ?_
    exact ((silent_ofExcept (Value.onValues_expectBool "Not" r.value)).overlooks.bind fun _ => (silent_pure _).overlooks).traced
  | binary a op b =>
    exact traced_binary eval op List.mem_cons_self (List.mem_cons_of_mem a List.mem_cons_self) env m
  | assign place a => exact traced_assign eval reclamation turns env m place a
  | call f as => exact absurd rfl (he f as)
  | conditional a b c => exact traced_conditional eval reclamation turns env m a b c
  | loop a b => exact traced_loop eval List.mem_cons_self (List.mem_cons_of_mem a List.mem_cons_self) turns env m
  | ret a => exact traced_ret eval reclamation turns env m a
  | print a =>
    refine (traced_operand eval (List.mem_singleton_self a) env "Print" m).unwinds.andThen fun r m₁ => ?_
    exact ((overlooks_printLine r.value.text).bind fun _ => (silent_pure _).overlooks).traced
  | isType a name =>
    refine (traced_operand eval (List.mem_singleton_self a) env "IsType" m).unwinds.andThen fun r m₁ => ?_
    exact (silent_pure _).overlooks.traced
  | stringLength a =>
    exact traced_applied eval (fun r => Value.onValues_stringLength r.value) id (List.mem_singleton_self a) env _ m
  | substring a b c =>
    refine (traced_operand eval List.mem_cons_self env "Substring" m).unwinds.andThen fun x m₁ => ?_
    refine (traced_operand eval (List.mem_cons_of_mem a List.mem_cons_self) x.env "Substring" m₁).unwinds.andThen fun y m₂ => ?_
    exact traced_applied eval (fun z => Value.onValues_substring x.value y.value z.value) id
      (List.mem_cons_of_mem a (List.mem_cons_of_mem b List.mem_cons_self)) y.env _ m₂
  | object fs =>
    refine (traced_fields eval (fun f hf => List.mem_map_of_mem hf) env m).andThen fun vs m₁ => ?_
    exact (silent_pure _).overlooks.traced
  | field a name =>
    exact traced_applied eval (fun r => Value.onValues_field r.value name) id (List.mem_singleton_self a) env _ m

/-- An evaluation with a journal is the evaluation without it, and what it visits is in the journal. -/
theorem step_noted (e : Expression) :
    step reclamation eval.noted turns e env (m.noting []) =
      noting (visits reclamation eval turns e env m) (step reclamation eval turns e env m) ∧
    Unwound eval e (visits reclamation eval turns e env m) (step reclamation eval turns e env m) := by
  have htraced : Traced (Unwound eval e) (step reclamation eval.noted turns e env) (step reclamation eval turns e env) m := by
    by_cases he : ∀ f as, e ≠ .call f as
    · refine (traced_step eval reclamation turns env m e he).imp fun more h => h.unwound ?_ fun hcall => absurd hcall (he _ _)
      cases e with
      | call f as => exact absurd rfl (he f as)
      | _ => rfl
    · simp only [not_forall, not_not] at he
      obtain ⟨f, as, rfl⟩ := he
      exact (traced_call eval reclamation turns f as env m).imp fun more h => h.unwound
  obtain ⟨more, hnoted, hunwound⟩ := htraced []
  have hvisits : visits reclamation eval turns e env m = more := by
    unfold visits
    rw [hnoted]
    cases step reclamation eval turns e env m <;> rfl
  rw [hvisits]
  exact ⟨hnoted, hunwound⟩

end

end Evaluation

open Evaluation

section

variable [Sink σ]

/-- That a return was outside of a function is not for an evaluation to say. -/
theorem evaluate_not_misplaced (reclamation : Reclamation) (steps : Nat) (e : Expression) (env : Environment)
    (m m' : Interpreter σ) : evaluate reclamation steps e env m ≠ .error (.failed .returnOutsideFunction) m' := by
  induction steps generalizing e env m m' with
  | zero => exact fun h => nomatch h
  | succ steps ih =>
    intro h
    obtain ⟨visit, -, m₁, hvisit⟩ := (step_noted (evaluate reclamation steps) reclamation steps env m e).2.misplaced h
    exact ih visit.part visit.env visit.before m₁ hvisit

/-- An expression that returns has a return outside of function bodies. -/
theorem returns_of_evaluate {reclamation : Reclamation} {steps : Nat} {e : Expression} {env : Environment}
    {m m' : Interpreter σ} {v : Value} (h : evaluate reclamation steps e env m = .error (.returned v) m') :
    e.returns = true := by
  induction steps generalizing e env m m' with
  | zero => cases h
  | succ steps ih =>
    have hunwound := (step_noted (evaluate reclamation steps) reclamation steps env m e).2
    rcases hunwound.returned h with he | ⟨visit, hmem, hvisit⟩
    · exact Expression.returns_of_isReturn he
    · exact Expression.returns_of_mem_children (hunwound.part_mem visit hmem) (ih hvisit)

/-- A program that ends because a return was outside of a function is one whose evaluation returns. -/
theorem run_misplaced_iff (reclamation : Reclamation) (steps : Nat) (program : Expression) (m m' : Interpreter σ) :
    run reclamation steps program m = .error (.failed .returnOutsideFunction) m' ↔
      ∃ v, evaluate reclamation steps program Environment.empty m = .error (.returned v) m' := by
  have hnot := evaluate_not_misplaced reclamation steps program Environment.empty m
  unfold run
  cases he : evaluate reclamation steps program Environment.empty m with
  | ok r m₁ =>
    refine ⟨fun h => ?_, fun ⟨v, h⟩ => nomatch h⟩
    exact absurd rfl ((silent_resolve r.value r.env program.kind).overlooks.ordinary h)
  | error i m₁ =>
    cases i with
    | returned v =>
      constructor
      · rintro ⟨⟩
        exact ⟨v, rfl⟩
      · rintro ⟨_, ⟨⟩⟩
        rfl
    | failed error =>
      refine ⟨fun h => ?_, fun ⟨v, h⟩ => nomatch h⟩
      cases h
      exact absurd he (hnot _)
    | exhausted => exact ⟨fun h => (nomatch h), fun ⟨v, h⟩ => (nomatch h)⟩

/-- A return ends exactly the nearest call, in every state and every environment. The first three parts say what `visited` lists: an
evaluation that keeps a journal ends like the one that keeps none, with this list in its journal; the direct visits are of direct parts;
and in a call the only other visit is of a function body, after all direct parts.

If one of the direct parts returns, its visit is the last one of all, and the expression returns the same value in the state that the
part left, so nothing else was printed, bound or given back. An expression with no return outside of function bodies does not return. No
evaluation fails because a return was outside of a function; `run` fails so exactly if the program returns, so only if there is a
return outside of every function body. -/
theorem return_ends_nearest_call (reclamation : Reclamation) (steps : Nat) (e : Expression) (env : Environment)
    (m : Interpreter σ) :
    step reclamation (evaluate reclamation steps).noted steps e env (m.noting []) =
      noting (visited reclamation steps e env m) (evaluate reclamation (steps + 1) e env m) ∧
    (∀ visit ∈ direct e (visited reclamation steps e env m), visit.part ∈ e.children) ∧
    (∀ {f as}, e = .call f as → ∃ literal : FunctionLiteral,
      (visited reclamation steps e env m).map Visit.part <+: f :: (as ++ [literal.body])) ∧
    (∀ {before visit after v m'}, direct e (visited reclamation steps e env m) = before ++ visit :: after →
      evaluate reclamation steps visit.part visit.env visit.before = .error (.returned v) m' →
      visited reclamation steps e env m = before ++ [visit] ∧
        evaluate reclamation (steps + 1) e env m = .error (.returned v) m') ∧
    (e.returns = false → ∀ v m', evaluate reclamation steps e env m ≠ .error (.returned v) m') ∧
    (∀ m', evaluate reclamation steps e env m ≠ .error (.failed .returnOutsideFunction) m') ∧
    (∀ m', run reclamation steps e m = .error (.failed .returnOutsideFunction) m' ↔
      ∃ v, evaluate reclamation steps e Environment.empty m = .error (.returned v) m') ∧
    (∀ {m'}, run reclamation steps e m = .error (.failed .returnOutsideFunction) m' → e.returns = true) := by
  obtain ⟨hnoted, hunwound⟩ := step_noted (evaluate reclamation steps) reclamation steps env m e
  refine ⟨hnoted, hunwound.part_mem, hunwound.body, ?_, ?_, ?_, ?_, ?_⟩
  · intro before visit after v m' hvisits hv
    exact hunwound.last hvisits hv
  · intro hnone v m' h
    rw [returns_of_evaluate h] at hnone
    cases hnone
  · exact evaluate_not_misplaced reclamation steps e env m
  · exact run_misplaced_iff reclamation steps e m
  · intro m' h
    obtain ⟨v, hv⟩ := (run_misplaced_iff reclamation steps e m m').1 h
    exact returns_of_evaluate hv

end

/-- Prints, returns, and would print again. -/
def printReturnPrint : Expression := .sequence [.print (.string "a"), .ret (.integer 1), .print (.string "b")]

/-- What is left of it: one line is printed. -/
def printedOnce : Interpreter := Interpreter.initial ⟨"a\n", none⟩

/-- Of three expressions one after the other the second one returns, so the third is not evaluated. As a program that is an error, and
in a function body the call has the value. -/
theorem return_ends_nearest_call_printReturnPrint :
    (visited .onExit 3 printReturnPrint Environment.empty (Interpreter.initial (Output.empty none))).map Visit.part =
      [.print (.string "a"), .ret (.integer 1)] ∧
    evaluate .onExit 4 printReturnPrint Environment.empty (Interpreter.initial (Output.empty none)) =
      .error (.returned (.int 1)) printedOnce ∧
    run .onExit 4 printReturnPrint (Interpreter.initial (Output.empty none)) =
      .error (.failed .returnOutsideFunction) printedOnce ∧
    printReturnPrint.returns = true ∧
    (∀ v m', evaluate .onExit 4 (.call (.function ⟨0, [], printReturnPrint⟩) []) Environment.empty
      (Interpreter.initial (Output.empty none)) ≠ .error (.returned v) m') := by
  obtain ⟨-, -, -, hlast, -⟩ :=
    return_ends_nearest_call .onExit 3 printReturnPrint Environment.empty (Interpreter.initial (Output.empty none))
  obtain ⟨-, -, -, -, -, -, hrun, hreturns⟩ :=
    return_ends_nearest_call .onExit 4 printReturnPrint Environment.empty (Interpreter.initial (Output.empty none))
  obtain ⟨-, -, -, -, hnone, -⟩ := return_ends_nearest_call .onExit 4 (.call (.function ⟨0, [], printReturnPrint⟩) [])
    Environment.empty (Interpreter.initial (Output.empty none))
  have hvisits : direct printReturnPrint
      (visited .onExit 3 printReturnPrint Environment.empty (Interpreter.initial (Output.empty none))) =
      [⟨.print (.string "a"), Environment.empty, Interpreter.initial (Output.empty none)⟩] ++
        ⟨.ret (.integer 1), Environment.empty, printedOnce⟩ :: [] := rfl
  have hret : evaluate .onExit 3 (.ret (.integer 1)) Environment.empty printedOnce =
    .error (.returned (.int 1)) printedOnce := rfl
  obtain ⟨hvisited, hreturned⟩ := hlast hvisits hret
  have hfails := (hrun printedOnce).2 ⟨.int 1, hreturned⟩
  refine ⟨?_, hreturned, hfails, hreturns hfails, hnone ?_⟩
  · rw [hvisited]
    rfl
  · simp [Expression.returns_eq, Expression.children, Expression.isReturn]

end ExprLang
