import ExprLang.Proofs.Evaluation.Advance

/-!
# Evaluation is safe

`evaluate_safe`: from a state whose closures have well-formed environments, and in a well-formed environment, `evaluate` ends safely,
whatever the expression and however many steps it may take. There is one lemma for each operation and for each helper of `step`; the
helpers are safe if the evaluator they are given is (`SafeEvaluator`).
-/

namespace ExprLang

variable {σ : Type}

/-! ## Errors of operations on values -/

/-- If the computation fails, then not because a name has lost its cell. -/
def Faithful {α : Type} (x : Except EvalError α) : Prop := ∀ e, x = .error e → e.Genuine

/-- The error is not about a cell, about a program as a whole or about the output, so an operation on values may end with it. -/
def EvalError.OfValues : EvalError → Prop
  | .vanished .. | .returnOutsideFunction | .output => False
  | _ => True

/-- If the computation fails, then as operations on values do. -/
def OnValues {α : Type} (x : Except EvalError α) : Prop := ∀ e, x = .error e → e.OfValues

/-- An error of an operation on values is never that a name has lost its cell. -/
theorem OnValues.faithful {α : Type} {x : Except EvalError α} (hx : OnValues x) : Faithful x := by
  intro e h
  have he := hx e h
  cases e with
  | vanished => exact he
  | _ => trivial

/-- Operations on values may follow each other. -/
theorem OnValues.bind {α β : Type} {x : Except EvalError α} {f : α → Except EvalError β} (hx : OnValues x)
    (hf : ∀ a, OnValues (f a)) : OnValues (x >>= f) := by
  intro e h
  cases x with
  | ok a => exact hf a e h
  | error e' =>
    change (Except.error e' : Except EvalError β) = .error e at h
    cases h
    exact hx e rfl

/-- Arithmetic fails for the types of its operands, on overflow or on a division by zero. -/
theorem Arithmetic.onValues_apply (op : Arithmetic) (left right : Value) : OnValues (op.apply left right) := by
  intro e h
  unfold apply at h
  split at h
  · rename_i a b
    cases hn : op.onIntegers a b with
    | ok n => rw [hn] at h; cases h
    | error e' =>
      rw [hn] at h
      cases h
      unfold onIntegers at hn
      repeat' split at hn
      all_goals cases hn
      trivial
  all_goals repeat' split at h
  all_goals cases h
  all_goals trivial

/-- Comparisons fail for the types of their operands only. -/
theorem Comparison.onValues_apply (op : Comparison) (left right : Value) : OnValues (op.apply left right) := by
  intro e h
  unfold apply at h
  repeat' split at h
  all_goals cases h
  all_goals trivial

namespace Value

theorem onValues_compareStrings (op : Operator) (test : String → String → Bool) (left right : Value) :
    OnValues (compareStrings op test left right) := by
  intro e h
  unfold compareStrings at h
  split at h <;> cases h
  trivial

theorem onValues_expectBool (context : String) (v : Value) : OnValues (v.expectBool context) := by
  intro e h
  cases v <;> cases h
  all_goals trivial

theorem onValues_expectString (context : String) (v : Value) : OnValues (v.expectString context) := by
  intro e h
  cases v <;> cases h
  all_goals trivial

theorem onValues_expectInt (context : String) (v : Value) : OnValues (v.expectInt context) := by
  intro e h
  cases v <;> cases h
  all_goals trivial

theorem onValues_stringLength (v : Value) : OnValues v.stringLength := by
  refine (onValues_expectString _ v).bind fun s e h => ?_
  split at h <;> cases h
  trivial

/-- A part of a string fails for the types of its operands or for its bounds. -/
theorem onValues_substring (v start stop : Value) : OnValues (v.substring start stop) := by
  refine (onValues_expectString _ v).bind fun s => ?_
  refine (onValues_expectInt _ start).bind fun i => ?_
  refine (onValues_expectInt _ stop).bind fun j e h => ?_
  split at h <;> cases h
  trivial

/-- A field fails if the value is no record or has no such field. -/
theorem onValues_field (v : Value) (name : String) : OnValues (v.field name) := by
  intro e h
  unfold field at h
  repeat' split at h
  all_goals cases h
  all_goals trivial

end Value

namespace Evaluation

/-! ## Operations -/

/-- Operations on values leave state and environment as they are. -/
theorem safe_ofExcept {x : Except EvalError α} (h : Faithful x) (m : Interpreter σ) (env : Environment) :
    Safe m env (fun _ => env) (ofExcept x m) := by
  cases x with
  | ok a => exact safe_pure m env (fun _ => env) rfl
  | error e => exact safe_error env _ (h e rfl)

/-- A new binding has a cell of its own. -/
theorem safe_bind (m : Interpreter σ) (env : Environment) (name : String) (value : Value) :
    Safe m env id (bind env name value m) :=
  advances_bind m env name value

/-- Bindings that are made one after the other have cells of their own. -/
theorem safe_bindAll (bindings : List (String × Value)) (m : Interpreter σ) (env : Environment) :
    Safe m env id (bindAll env bindings m) := by
  induction bindings generalizing m env with
  | nil => exact safe_pure m env id rfl
  | cons b rest ih => exact (safe_bind m env b.1 b.2).bind fun env' m' _ => ih m' env'

/-- A bound name has a cell. -/
theorem safe_resolve {m : Interpreter σ} {env : Environment} (h : Ready m env) (value : Value) (context : String) :
    Safe m env (fun _ => env) (resolve value env context m) := by
  refine safe_ofExcept (fun e he => ?_) m env
  unfold Interpreter.resolve Interpreter.lookup at he
  split at he
  · split at he
    · cases he
      trivial
    · rename_i slot hslot
      have hlt := h.wellFormed.find?_lt hslot
      rw [← Store.isSome_get?_iff] at hlt
      split at he
      · cases he
      · rename_i hnone
        rw [hnone] at hlt
        cases hlt
  · cases he

/-- A closure that is made keeps a well-formed environment. -/
theorem safe_capture {m : Interpreter σ} {env : Environment} (h : Ready m env) (literal : FunctionLiteral) :
    Safe m env (fun _ => env) (capture literal env m) :=
  (later_capture m literal h.wellFormed).advances env

/-- A closure that is bound anew keeps a well-formed environment. -/
theorem safe_recapture {m : Interpreter σ} {env : Environment} (h : Ready m env) (value : Value) :
    Safe m env (fun _ => env) (recapture value env m) := by
  cases value with
  | closure number => exact (later_recapture m number h.wellFormed).advances env
  | _ => exact safe_pure m env _ rfl

/-- A cell that is handed out can be written. -/
theorem safe_store {m : Interpreter σ} (env : Environment) (name : String) {slot : Nat} (h : slot < m.store.size)
    (value : Value) : Safe m env (fun _ => env) (store name slot value m) := by
  obtain ⟨after, ha⟩ := Option.isSome_iff_exists.1 ((Store.isSome_set?_iff m.store slot value).2 h)
  have hl : Later m { m with store := after } :=
    Later.of_closures_eq (Nat.le_of_eq (Store.size_of_set? ha).symm) rfl rfl
  simp only [store, ha]
  exact hl.advances env

/-- Output changes no cell. -/
theorem safe_write [Sink σ] (m : Interpreter σ) (env : Environment) (s : String) :
    Safe m env (fun _ => env) (write s m) := by
  have hl : ∀ output : σ, Later m { m with output } := fun _ => Later.of_closures_eq (Nat.le_refl _) rfl rfl
  unfold write
  split
  · exact (hl _).advances env
  · exact ⟨hl _, trivial⟩

theorem safe_printLine [Sink σ] (m : Interpreter σ) (env : Environment) (s : String) :
    Safe m env (fun _ => env) (printLine s m) := by
  unfold printLine
  by_cases h : s ≠ ""
  · simp only [if_pos h]
    exact (safe_write m env s).bind fun _ m' _ => safe_write m' env "\n"
  · simp only [if_neg h]
    exact safe_write m env "\n"
/-! ## Parts of expressions -/

/-- From a state and an environment in which it may begin, every evaluation ends safely. -/
def SafeEvaluator (eval : Evaluator σ) : Prop :=
  ∀ e env m, Ready m env → Safe m env Evaluated.env (eval e env m)

section

variable {eval : Evaluator σ} (heval : SafeEvaluator eval)

include heval

/-- The name that an operand ends with has a cell, so it is resolved. -/
theorem safe_operand {m : Interpreter σ} {env : Environment} (h : Ready m env) (e : Expression) (context : String) :
    Safe m env Evaluated.env (operand eval e env context m) := by
  refine (heval e env m h).bind fun r m₁ h₁ => ?_
  have hr := h.advance h₁
  exact (safe_resolve hr r.value context).bind fun v m₂ _ => safe_pure m₂ r.env _ rfl

/-- Every expression of a sequence is evaluated where the one before it left a well-formed environment. -/
theorem safe_sequence (es : List Expression) {m : Interpreter σ} (last : Evaluated) (h : Ready m last.env) :
    Safe m last.env Evaluated.env (sequence eval es last m) := by
  induction es generalizing m last with
  | nil => exact safe_pure m last.env _ rfl
  | cons e rest ih => exact (heval e last.env m h).bind fun r m₁ h₁ => ih r (h.advance h₁)

/-- Arguments are evaluated one after the other, each in a well-formed environment. -/
theorem safe_arguments (es : List Expression) {m : Interpreter σ} {env : Environment} (h : Ready m env) :
    Safe m env Prod.snd (arguments eval es env m) := by
  induction es generalizing m env with
  | nil => exact safe_pure m env _ rfl
  | cons e rest ih =>
    refine (safe_operand heval h e "Call").bind fun r m₁ h₁ => ?_
    exact (ih (h.advance h₁)).bind fun vs m₂ _ => safe_pure m₂ vs.2 _ rfl

/-- Fields are evaluated one after the other, each in a well-formed environment. -/
theorem safe_fields (fs : List (String × Expression)) {m : Interpreter σ} {env : Environment} (h : Ready m env) :
    Safe m env Prod.snd (fields eval fs env m) := by
  induction fs generalizing m env with
  | nil => exact safe_pure m env _ rfl
  | cons f rest ih =>
    refine (safe_operand heval h f.2 "Object").bind fun r m₁ h₁ => ?_
    exact (ih (h.advance h₁)).bind fun vs m₂ _ => safe_pure m₂ vs.2 _ rfl

/-- A call leaves the caller's environment alone, whatever the environment it is made in. -/
theorem safe_invoke (reclamation : Reclamation) (literal : FunctionLiteral) (values : List Value) {m : Interpreter σ}
    {base : Environment} (h : Ready m base) (site : Environment) :
    Safe m site (fun _ => site) (invoke reclamation eval literal values base m) := by
  suffices hs : Safe m base (fun _ => base) (invoke reclamation eval literal values base m) from hs.inside site
  unfold invoke
  by_cases hn : literal.parameters.length ≠ values.length
  · simp only [if_pos hn]
    exact safe_error base _ trivial
  · simp only [if_neg hn]
    refine Safe.get (Ends.bind (safe_bindAll _ m base) fun frame m₁ h₁ => ?_)
    have hbody := heval literal.body frame m₁ (h.advance h₁)
    unfold finishCall
    generalize eval literal.body frame m₁ = o at hbody
    cases o with
    | ok r m₂ => exact ((h₁.trans hbody).toLater.reclaim reclamation).advances base
    | error i m₂ =>
      have hl := (h₁.toLater.trans hbody.1).reclaim reclamation
      cases i with
      | returned v => exact hl.advances base
      | failed e => exact ⟨hl, hbody.2⟩
      | exhausted => exact ⟨hl, trivial⟩

/-- Every turn of a loop begins and ends in a well-formed environment. -/
theorem safe_loop (condition body : Expression) (turns : Nat) {m : Interpreter σ} {env : Environment} (h : Ready m env) :
    Safe m env Evaluated.env (loop eval condition body turns env m) := by
  induction turns generalizing m env with
  | zero => exact safe_error env _ trivial
  | succ turns ih =>
    refine (safe_operand heval h condition "While").bind fun test m₁ h₁ => ?_
    have hr₁ := h.advance h₁
    refine (safe_ofExcept (Value.onValues_expectBool _ _).faithful m₁ test.env).bind fun b m₂ h₂ => ?_
    have hr₂ := hr₁.advance h₂
    cases b with
    | true =>
      refine (heval body test.env m₂ hr₂).bind fun r m₃ h₃ => ?_
      exact ih (hr₂.advance h₃)
    | false => exact safe_pure m₂ test.env _ rfl

/-- A value is computed from an operand. -/
theorem safe_applied {α : Type} {apply : Evaluated → Except EvalError α} (hf : ∀ r, Faithful (apply r))
    (value : α → Value) {m : Interpreter σ} {env : Environment} (h : Ready m env) (e : Expression) (context : String) :
    Safe m env Evaluated.env ((do
      let r ← operand eval e env context
      return ⟨value (← ofExcept (apply r)), r.env⟩ : Evaluation σ Evaluated) m) := by
  refine (safe_operand heval h e context).bind fun r m₁ _ => ?_
  exact (safe_ofExcept (hf r) m₁ r.env).bind fun a m₂ _ => safe_pure m₂ r.env _ rfl

/-- Of the logical operators one looks at the right operand only if the left one is true, the other only if it is false. -/
theorem safe_binary (left : Expression) (op : Operator) (right : Expression) {m : Interpreter σ} {env : Environment}
    (h : Ready m env) : Safe m env Evaluated.env (binary eval left op right env m) := by
  refine (safe_operand heval h left op.name).bind fun l m₁ h₁ => ?_
  have hr₁ := h.advance h₁
  have htest : Safe m₁ l.env (fun _ => l.env) (ofExcept (l.value.expectBool op.name) m₁) :=
    safe_ofExcept (Value.onValues_expectBool op.name l.value).faithful m₁ l.env
  have hright : ∀ {m₂}, Advances m₁ l.env m₂ l.env → Safe m₂ l.env Evaluated.env ((do
      let r ← operand eval right l.env op.name
      return ⟨.bool (← ofExcept (r.value.expectBool op.name)), r.env⟩ : Evaluation σ Evaluated) m₂) := fun h₂ =>
    safe_applied heval (fun r => (Value.onValues_expectBool op.name r.value).faithful) .bool (hr₁.advance h₂) right op.name
  cases op with
  | arithmetic o =>
    exact safe_applied heval (fun r => (o.onValues_apply l.value r.value).faithful) id hr₁ right _
  | comparison o =>
    exact safe_applied heval (fun r => (o.onValues_apply l.value r.value).faithful) .bool hr₁ right _
  | stringEqual =>
    exact safe_applied heval (fun r => (Value.onValues_compareStrings _ _ l.value r.value).faithful) .bool hr₁ right _
  | stringLess =>
    exact safe_applied heval (fun r => (Value.onValues_compareStrings _ _ l.value r.value).faithful) .bool hr₁ right _
  | and =>
    refine htest.bind fun b m₂ h₂ => ?_
    cases b with
    | true => exact hright h₂
    | false => exact safe_pure m₂ l.env _ rfl
  | or =>
    refine htest.bind fun b m₂ h₂ => ?_
    cases b with
    | true => exact safe_pure m₂ l.env _ rfl
    | false => exact hright h₂

end

/-- What is assigned to is a name with a cell. -/
theorem ends_target {m : Interpreter σ} {r : Evaluated} (h : Ready m r.env) :
    Ends (fun place m' => m' = m ∧ place.2 < m.store.size) (fun i m' => m' = m ∧ i.Genuine) (target r m) := by
  obtain ⟨value, env⟩ := r
  unfold target
  cases value with
  | id name =>
    cases hf : env.find? name with
    | some slot =>
      simp only [hf]
      exact ⟨rfl, h.wellFormed.find?_lt hf⟩
    | none =>
      simp only [hf]
      exact ⟨rfl, trivial⟩
  | _ => exact ⟨rfl, trivial⟩

/-- What is called has a well-formed environment: the caller's or that of a closure. -/
theorem ends_callee {m : Interpreter σ} {env : Environment} (h : Ready m env) (value : Value) :
    Ends (fun f m' => m' = m ∧ Ready m f.2) (fun i m' => m' = m ∧ i.Genuine) (callee value env m) := by
  cases value with
  | function literal => exact ⟨rfl, h⟩
  | closure number =>
    cases hc : m.closures[number]? with
    | some c =>
      rw [callee_closure hc]
      exact ⟨rfl, h.sound, h.sound c (Array.mem_of_getElem? hc)⟩
    | none =>
      rw [callee_closure_of_none hc]
      exact ⟨rfl, trivial⟩
  | _ => exact ⟨rfl, trivial⟩

/-! ## Expressions -/

section

variable {eval : Evaluator σ} (heval : SafeEvaluator eval)

include heval

/-- A block ends in the environment that it began in. -/
theorem safe_scope [Sink σ] (reclamation : Reclamation) {turns : Nat} {m : Interpreter σ} {env : Environment}
    (h : Ready m env) (body : Expression) :
    Safe m env Evaluated.env (step reclamation eval turns (.scope body) env m) := by
  refine Safe.get (Ends.bind (heval body env m h) fun r m₁ h₁ => ?_)
  refine Ends.bind ((safe_resolve (h.advance h₁) r.value "Scope").after h₁) fun v m₂ h₂ => ?_
  exact (h₂.toLater.reclaim reclamation).advances env

/-- The cell to write is found before the value is evaluated, and is still there afterwards. -/
theorem safe_assign [Sink σ] {reclamation : Reclamation} {turns : Nat} {m : Interpreter σ} {env : Environment}
    (h : Ready m env) (place a : Expression) :
    Safe m env Evaluated.env (step reclamation eval turns (.assign place a) env m) := by
  refine (heval place env m h).bind fun place m₁ h₁ => ?_
  have hr₁ := h.advance h₁
  refine Ends.bind ((ends_target hr₁).imp (fun _ _ h => h) ?_) fun t m₂ ht => ?_
  · rintro i m₂ ⟨rfl, hi⟩
    exact ⟨Later.refl m₂, hi⟩
  obtain ⟨rfl, hslot⟩ := ht
  refine (safe_operand heval hr₁ a "Assign").bind fun r m₃ h₃ => ?_
  have hr₃ := hr₁.advance h₃
  refine (safe_recapture hr₃ r.value).bind fun _ m₄ h₄ => ?_
  have hsize : t.2 < m₄.store.size := Nat.lt_of_lt_of_le hslot (Nat.le_trans h₃.size h₄.size)
  exact (safe_store r.env t.1 hsize r.value).bind fun _ m₅ _ => safe_pure m₅ r.env _ rfl

/-- A call ends in the environment that its arguments left. -/
theorem safe_call [Sink σ] (reclamation : Reclamation) {turns : Nat} {m : Interpreter σ} {env : Environment}
    (h : Ready m env) (f : Expression) (as : List Expression) :
    Safe m env Evaluated.env (step reclamation eval turns (.call f as) env m) := by
  refine (safe_operand heval h f "Call").bind fun f m₁ h₁ => ?_
  have hr₁ := h.advance h₁
  refine (safe_arguments heval as hr₁).bind fun vs m₂ h₂ => ?_
  have hr₂ := hr₁.advance h₂
  refine Ends.bind ((ends_callee hr₂ f.value).imp (fun _ _ h => h) ?_) fun c m₃ hc => ?_
  · rintro i m₃ ⟨rfl, hi⟩
    exact ⟨Later.refl m₃, hi⟩
  obtain ⟨rfl, hbase⟩ := hc
  exact (safe_invoke heval reclamation c.1 vs.1 hbase vs.2).bind fun v m₄ _ => safe_pure m₄ vs.2 _ rfl

end

/-- Every kind of expression is evaluated safely if its parts are. -/
theorem safe_step [Sink σ] {eval : Evaluator σ} (heval : SafeEvaluator eval) (reclamation : Reclamation) (turns : Nat) :
    SafeEvaluator (step reclamation eval turns) := by
  intro e env m h
  -- one case for each kind of expression, with the lemma about its helper
  cases e with
  | integer v => exact safe_pure m env _ rfl
  | float v => exact safe_pure m env _ rfl
  | boolean v => exact safe_pure m env _ rfl
  | string v => exact safe_pure m env _ rfl
  | identifier name => exact safe_pure m env _ rfl
  | void => exact safe_pure m env _ rfl
  | varDecl name => exact (safe_bind m env name _).bind fun env' m₁ _ => safe_pure m₁ env' _ rfl
  | funcDecl name f => exact (safe_bind m env name _).bind fun env' m₁ _ => safe_pure m₁ env' _ rfl
  | function f => exact safe_pure m env _ rfl
  | closure f => exact (safe_capture h f).bind fun v m₁ _ => safe_pure m₁ env _ rfl
  | scope body => exact safe_scope heval reclamation h body
  | sequence es => exact safe_sequence heval es ⟨.void, env⟩ h
  | not a =>
    refine Ends.bind (safe_operand heval h a "Not") fun r m₁ h₁ => Safe.after (h₁.toLater.advances env) ?_
    exact (safe_ofExcept (Value.onValues_expectBool "Not" r.value).faithful m₁ env).bind fun b m₂ _ => safe_pure m₂ env _ rfl
  | binary a op b => exact safe_binary heval a op b h
  | assign place a => exact safe_assign heval h place a
  | call f as => exact safe_call heval reclamation h f as
  | conditional a b c =>
    refine (safe_operand heval h a "If").bind fun test m₁ h₁ => ?_
    have hr₁ := h.advance h₁
    refine (safe_ofExcept (Value.onValues_expectBool "If" test.value).faithful m₁ test.env).bind fun t m₂ h₂ => ?_
    have hr₂ := hr₁.advance h₂
    cases t with
    | true => exact heval b test.env m₂ hr₂
    | false =>
      cases c with
      | some c => exact heval c test.env m₂ hr₂
      | none => exact safe_pure m₂ test.env _ rfl
  | loop a b => exact safe_loop heval a b turns h
  | ret a =>
    exact (safe_operand heval h a "Return").bind fun r m₁ _ => safe_error r.env _ trivial
  | print a =>
    refine (safe_operand heval h a "Print").bind fun r m₁ _ => ?_
    exact (safe_printLine m₁ r.env _).bind fun _ m₂ _ => safe_pure m₂ r.env _ rfl
  | isType a name =>
    exact (safe_operand heval h a "IsType").bind fun r m₁ _ => safe_pure m₁ r.env _ rfl
  | stringLength a => exact safe_applied heval (fun r => (Value.onValues_stringLength r.value).faithful) id h a _
  | substring a b c =>
    refine (safe_operand heval h a "Substring").bind fun x m₁ h₁ => ?_
    refine (safe_operand heval (h.advance h₁) b "Substring").bind fun y m₂ h₂ => ?_
    exact safe_applied heval (fun z => (Value.onValues_substring x.value y.value z.value).faithful) id
      ((h.advance h₁).advance h₂) c _
  | object fs => exact (safe_fields heval fs h).bind fun vs m₁ _ => safe_pure m₁ vs.2 _ rfl
  | field a name => exact safe_applied heval (fun r => (Value.onValues_field r.value name).faithful) id h a _

end Evaluation

open Evaluation

/-- Evaluation is safe, whatever becomes of cells that are not needed any more. -/
theorem evaluate_safe [Sink σ] (reclamation : Reclamation) (steps : Nat) :
    SafeEvaluator (evaluate (σ := σ) reclamation steps) := by
  induction steps with
  | zero => exact fun e env m _ => safe_error env _ trivial
  | succ steps ih => exact safe_step ih reclamation steps

/-- A program is evaluated safely, from any state with well-formed closures. -/
theorem run_safe [Sink σ] (reclamation : Reclamation) (steps : Nat) (program : Expression) {m : Interpreter σ}
    (h : m.Sound) : Ends (fun _ m' => Later m m') (fun i m' => Later m m' ∧ i.Genuine) (run reclamation steps program m) := by
  have hr : Ready m Environment.empty := ⟨h, Environment.wellFormed_empty _⟩
  have he := evaluate_safe reclamation steps program Environment.empty m hr
  unfold run
  generalize evaluate reclamation steps program Environment.empty m = o at he
  cases o with
  | ok r m₁ =>
    exact ((safe_resolve (hr.advance he) r.value program.kind).after he).imp (fun _ _ h => h.toLater) fun _ _ h => h
  | error i m₁ =>
    cases i with
    | returned v => exact ⟨he.1, trivial⟩
    | failed e => exact he
    | exhausted => exact he

end ExprLang
