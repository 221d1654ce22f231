import ExprLang.Proofs.Evaluation.Advance

/-!
# How many cells an evaluation leaves behind

Every binding has a cell of its own, so an evaluation that goes on with a longer chain of bindings has handed out at least as many
cells. It may have handed out more: a closure that was made or bound anew keeps the cells of a call or of a block that has ended, and
a negation goes on in the environment before it, although the cells of what its operand declared stay handed out. If there was neither,
the two numbers are equal (`Accounts.precise`), since whatever else forgets bindings, a call or a block, gives back their cells.

`Accounts` says so of one evaluation. As in the proof that evaluation is safe there is one lemma for each operation and each helper of
`step`, and the helpers do their accounts if the evaluator they are given does (`AccountedEvaluator`). Nothing is assumed of the state,
not even that names have cells.
-/

namespace ExprLang

namespace Expression

/-! ## What is evaluated in an environment that is handed on -/

/-- The parts of an expression other than the body of a function, which belongs to a call, and that of a block. -/
@[simp] def parts : Expression → List Expression
  | .sequence es => es
  | .not a | .ret a | .print a | .isType a _ | .stringLength a | .field a _ => [a]
  | .binary a _ b | .assign a b | .loop a b => [a, b]
  | .call f as => f :: as
  | .conditional a b c => a :: b :: c.toList
  | .substring a b c => [a, b, c]
  | .object fs => fs.map Prod.snd
  | _ => []

/-- A part is smaller than the whole. -/
theorem sizeOf_lt_of_mem_parts {a e : Expression} (h : a ∈ e.parts) : sizeOf a < sizeOf e := by
  cases e with
  | sequence es =>
    have hlt : sizeOf a < sizeOf es := List.sizeOf_lt_of_mem h
    simp only [sequence.sizeOf_spec]
    omega
  | call f as =>
    rcases List.mem_cons.1 h with rfl | h
    · simp only [call.sizeOf_spec]
      omega
    · have hlt := List.sizeOf_lt_of_mem h
      simp only [call.sizeOf_spec]
      omega
  | conditional a b c =>
    cases c <;> simp only [parts, Option.toList, List.mem_cons, List.not_mem_nil, or_false] at h <;>
      rcases h with rfl | rfl | rfl <;> simp <;> omega
  | object fs =>
    obtain ⟨⟨name, a⟩, hf, rfl⟩ := List.mem_map.1 h
    have hlt := List.sizeOf_lt_of_mem hf
    simp only [object.sizeOf_spec, Prod.mk.sizeOf_spec] at hlt ⊢
    omega
  | _ =>
    simp only [parts, List.mem_cons, List.not_mem_nil, or_false] at h <;> rcases h with rfl | rfl | rfl <;> simp <;> omega

/-- Whether the expression, or a part of it outside function bodies and blocks, is of a kind. -/
def exposes (kind : Expression → Bool) (e : Expression) : Bool :=
  kind e || e.parts.attach.any fun a => exposes kind a.1
termination_by sizeOf e
decreasing_by exact sizeOf_lt_of_mem_parts a.2

/-- An expression exposes a kind if it is of that kind or one of its parts exposes it. -/
theorem exposes_eq (kind : Expression → Bool) (e : Expression) :
    e.exposes kind = (kind e || e.parts.any (exposes kind)) := by
  rw [exposes]
  simp only [List.any_subtype, List.unattach_attach]

/-- A block exposes nothing of what is in it. -/
@[simp] theorem exposes_scope (kind : Expression → Bool) (body : Expression) :
    (scope body).exposes kind = kind (.scope body) := by
  rw [exposes_eq]
  simp

@[simp] theorem exposes_loop (kind : Expression → Bool) (test body : Expression) :
    (loop test body).exposes kind = (kind (.loop test body) || (test.exposes kind || body.exposes kind)) := by
  rw [exposes_eq]
  simp

/-- What the whole does not expose, its parts do not expose either. -/
theorem exposes_eq_false_of_mem_parts {kind : Expression → Bool} {a e : Expression} (h : e.exposes kind = false)
    (ha : a ∈ e.parts) : a.exposes kind = false := by
  rw [exposes_eq, Bool.or_eq_false_iff, List.any_eq_false] at h
  exact Bool.eq_false_iff.2 (h.2 a ha)

/-- A negation. -/
def isNot : Expression → Bool
  | .not _ => true
  | _ => false

/-- The declaration of a name. -/
def isDeclaration : Expression → Bool
  | .varDecl _ | .funcDecl .. => true
  | _ => false

/-- The two properties of the evaluation of an expression that can be read off it are not asked for, `precise` unless no negation is
exposed, `still` unless no declaration is. -/
structure Suits (precise still : Prop) (e : Expression) : Prop where
  /-- Where cells are counted exactly, no negation goes back to an environment before. -/
  precise : precise → e.exposes isNot = false
  /-- Where the environment stays the same, no name is declared. -/
  still : still → e.exposes isDeclaration = false

/-- If nothing is asked for, every expression will do. -/
theorem suits_false (e : Expression) : e.Suits False False := ⟨False.elim, False.elim⟩

/-- Where there is a negation cells cannot be counted exactly. -/
theorem Suits.not_precise {precise still : Prop} {e : Expression} (h : e.Suits precise still) (he : e.isNot = true) : ¬precise := by
  intro hp
  have hnone := h.precise hp
  rw [exposes_eq, he] at hnone
  cases hnone

/-- Where there is a declaration the environment does not stay the same. -/
theorem Suits.not_still {precise still : Prop} {e : Expression} (h : e.Suits precise still) (he : e.isDeclaration = true) :
    ¬still := by
  intro hq
  have hnone := h.still hq
  rw [exposes_eq, he] at hnone
  cases hnone

/-- What suits the whole suits its parts. -/
theorem Suits.part {precise still : Prop} {a e : Expression} (h : e.Suits precise still) (ha : a ∈ e.parts) :
    a.Suits precise still :=
  ⟨fun hp => exposes_eq_false_of_mem_parts (h.precise hp) ha, fun hq => exposes_eq_false_of_mem_parts (h.still hq) ha⟩

end Expression

variable {σ : Type} {precise still : Prop}

/-- What an evaluation that ends with a result makes of the number of cells and of bindings. -/
structure Accounts (precise still : Prop) (m : Interpreter σ) (env : Environment) (m' : Interpreter σ) (env' : Environment) : Prop
    extends Grows m m' where
  /-- No binding was forgotten that was there before. -/
  depth : env.depth ≤ env'.depth
  /-- For each binding that was added a cell was handed out. -/
  cells : m.store.size + env'.depth ≤ m'.store.size + env.depth
  /-- If no closure was made or bound anew, no other cell is left. -/
  precise : precise → m'.captures = m.captures → m'.store.size + env.depth = m.store.size + env'.depth
  /-- Nothing was declared. -/
  still : still → env' = env

namespace Accounts

variable {m m' m'' : Interpreter σ} {env env' env'' : Environment}

/-- Accounts of two evaluations, the second from where the first ended, add up. -/
theorem trans (h : Accounts precise still m env m' env') (h' : Accounts precise still m' env' m'' env'') :
    Accounts precise still m env m'' env'' := by
  have hdepth := h.depth
  have hdepth' := h'.depth
  have hcells := h.cells
  have hcells' := h'.cells
  refine ⟨h.toGrows.trans h'.toGrows, by omega, by omega, ?_, ?_⟩
  · intro hp hk
    -- the count of closures never goes down, so it stood still in both halves
    have hle := h.captures
    have hle' := h'.captures
    have heq := h.precise hp (by omega)
    have heq' := h'.precise hp (by omega)
    omega
  · intro hq
    rw [h'.still hq, h.still hq]

/-- An evaluation that is not asked to be precise may go back to the environment before. -/
theorem back (h : Accounts precise still m env m' env') (hp : ¬precise) : Accounts precise still m env m' env :=
  ⟨h.toGrows, Nat.le_refl _, Nat.add_le_add_right h.size _, fun hp' => absurd hp' hp, fun _ => rfl⟩

end Accounts

/-- Where the environment stays the same and the store has grown only if a closure was made or bound anew, the accounts are in order. -/
theorem Grows.accounts {m m' : Interpreter σ} (h : Grows m m') (hs : m'.captures = m.captures → m'.store.size = m.store.size)
    (env : Environment) : Accounts precise still m env m' env :=
  ⟨h, Nat.le_refl _, Nat.add_le_add_right h.size _, fun _ hk => by rw [hs hk], fun _ => rfl⟩

/-- Where nothing happens the accounts are in order. -/
theorem accounts_refl (m : Interpreter σ) (env : Environment) : Accounts precise still m env m env :=
  (Grows.refl m).accounts (fun _ => rfl) env

/-- Binding a name adds a cell and a binding. -/
theorem accounts_bind (hq : ¬still) (m : Interpreter σ) (env : Environment) (name : String) (value : Value) :
    Accounts precise still m env (m.bind env name value).2 (m.bind env name value).1 := by
  have hsize : (m.bind env name value).2.store.size = m.store.size + 1 := by simp [Interpreter.bind]
  have hdepth : (m.bind env name value).1.depth = env.depth + 1 := rfl
  refine ⟨Grows.of_closures_eq (by omega) rfl rfl, by omega, by omega, fun _ _ => by omega, fun hq' => absurd hq' hq⟩

/-- When a call or a block ends, the store is as large as it was unless a closure was made or bound anew. -/
theorem Grows.reclaim_accounts {m m' : Interpreter σ} (h : Grows m m') (env : Environment) :
    Accounts precise still m env (m'.reclaim .onExit m.mark) env := by
  refine (h.reclaim .onExit).accounts (fun hk => ?_) env
  by_cases he : m'.captures = m.captures
  · rw [Interpreter.reclaim_of_captures_eq he]
    simp only [Store.size_truncate, Interpreter.mark]
    exact Nat.min_eq_left h.size
  · rw [Interpreter.reclaim_of_captures_ne he] at hk
    exact absurd hk he

namespace Evaluation

variable {α β : Type}

/-- A computation that began in the state `m` and the environment `env` keeps accounts; `next` is the environment to go on with. An
interruption ends the call it happens in, which gives back cells. -/
def Accounted (precise still : Prop) (m : Interpreter σ) (env : Environment) (next : α → Environment) :
    EStateM.Result Interrupt (Interpreter σ) α → Prop :=
  Ends (fun a m' => Accounts precise still m env m' (next a)) (fun _ m' => Grows m m')

/-- What comes after an evaluation continues its accounts. -/
theorem Accounted.after {o : EStateM.Result Interrupt (Interpreter σ) α} {m m₁ : Interpreter σ} {env env₁ : Environment}
    {next : α → Environment} (ha : Accounts precise still m env m₁ env₁) (h : Accounted precise still m₁ env₁ next o) :
    Accounted precise still m env next o :=
  h.imp (fun _ _ h => ha.trans h) fun _ _ h => ha.toGrows.trans h

/-- Two computations do their accounts if the second does from wherever the first ends. -/
theorem Accounted.bind {x : Evaluation σ α} {f : α → Evaluation σ β} {m : Interpreter σ} {env : Environment}
    {next : α → Environment} {next' : β → Environment} (hx : Accounted precise still m env next (x m))
    (hf : ∀ a m', Accounts precise still m env m' (next a) → Accounted precise still m' (next a) next' (f a m')) :
    Accounted precise still m env next' ((x >>= f) m) :=
  Ends.bind hx fun a m' h => (hf a m' h).after h

theorem accounted_pure (m : Interpreter σ) (env : Environment) (next : α → Environment) {a : α} (h : next a = env) :
    Accounted precise still m env next ((pure a : Evaluation σ α) m) := by
  show Accounts precise still m env m (next a)
  rw [h]
  exact accounts_refl m env

/-- Nothing has to be said of an evaluation that failed. -/
theorem accounted_error (m : Interpreter σ) (env : Environment) (next : α → Environment) (i : Interrupt) :
    Accounted precise still m env next (.error i m) :=
  Grows.refl m

/-- Looking at the state changes nothing. -/
theorem Accounted.get {f : Interpreter σ → Evaluation σ β} {m : Interpreter σ} {env : Environment} {next : β → Environment}
    (h : Accounted precise still m env next (f m m)) : Accounted precise still m env next ((get >>= f) m) := h

/-! ## Operations -/

theorem accounted_ofExcept (x : Except EvalError α) (m : Interpreter σ) (env : Environment) :
    Accounted precise still m env (fun _ => env) (ofExcept x m) := by
  cases x with
  | ok a => exact accounted_pure m env (fun _ => env) rfl
  | error e => exact accounted_error m env _ _

/-- A binding takes one cell and makes the chain longer by one. -/
theorem accounted_bind (hq : ¬still) (m : Interpreter σ) (env : Environment) (name : String) (value : Value) :
    Accounted precise still m env id (bind env name value m) :=
  accounts_bind hq m env name value

/-- Binding the parameters of a function. -/
theorem grows_bindAll (bindings : List (String × Value)) (m : Interpreter σ) (env : Environment) :
    Accounted False False m env id (bindAll env bindings m) := by
  induction bindings generalizing m env with
  | nil => exact accounted_pure m env id rfl
  | cons b rest ih => exact (accounted_bind id m env b.1 b.2).bind fun env' m' _ => ih m' env'

theorem accounted_resolve (m : Interpreter σ) (env : Environment) (value : Value) (context : String) :
    Accounted precise still m env (fun _ => env) (resolve value env context m) :=
  accounted_ofExcept (m.resolve value env context) m env

/-- A closure takes no cell; that it was made is counted. -/
theorem accounted_capture (m : Interpreter σ) (env : Environment) (literal : FunctionLiteral) :
    Accounted precise still m env (fun _ => env) (capture literal env m) :=
  (grows_closures m _).accounts (fun _ => rfl) env

/-- A closure that is bound anew takes no cell; that it was is counted. -/
theorem accounted_recapture (m : Interpreter σ) (env : Environment) (value : Value) :
    Accounted precise still m env (fun _ => env) (recapture value env m) := by
  cases value with
  | closure number => exact (grows_closures m _).accounts (fun _ => rfl) env
  | _ => exact accounted_pure m env _ rfl

/-- A cell that is overwritten is the same cell. -/
theorem accounted_store (m : Interpreter σ) (env : Environment) (name : String) (slot : Nat) (value : Value) :
    Accounted precise still m env (fun _ => env) (store name slot value m) := by
  unfold store
  cases ha : m.store.set? slot value with
  | none => exact accounted_error m env _ _
  | some after =>
    have hsize := Store.size_of_set? ha
    have hg : Grows m { m with store := after } := Grows.of_closures_eq (Nat.le_of_eq hsize.symm) rfl rfl
    exact hg.accounts (fun _ => hsize) env

/-- Output takes no cell. -/
theorem accounted_write [Sink σ] (m : Interpreter σ) (env : Environment) (s : String) :
    Accounted precise still m env (fun _ => env) (write s m) := by
  have hg : ∀ output : σ, Grows m { m with output } := fun _ => Grows.of_closures_eq (Nat.le_refl _) rfl rfl
  unfold write
  split
  · rename_i output _
    exact (hg output).accounts (fun _ => rfl) env
  · exact hg _

theorem accounted_printLine [Sink σ] (m : Interpreter σ) (env : Environment) (s : String) :
    Accounted precise still m env (fun _ => env) (printLine s m) := by
  unfold printLine
  by_cases h : s ≠ ""
  · simp only [if_pos h]
    exact (accounted_write m env s).bind fun _ m' _ => accounted_write m' env "\n"
  · simp only [if_neg h]
    exact accounted_write m env "\n"

/-- Finding the cell that is assigned to changes nothing. -/
theorem accounted_target (m : Interpreter σ) (env : Environment) (r : Evaluated) :
    Accounted precise still m env (fun _ => env) (target r m) := by
  obtain ⟨value, env'⟩ := r
  unfold target
  cases value with
  | id name =>
    cases hf : env'.find? name with
    | some slot =>
      simp only [hf]
      exact accounted_pure m env _ rfl
    | none =>
      simp only [hf]
      exact accounted_error m env _ _
  | _ => exact accounted_error m env _ _

/-- Finding what is called changes nothing. -/
theorem accounted_callee (m : Interpreter σ) (env site : Environment) (value : Value) :
    Accounted precise still m env (fun _ => env) (callee value site m) := by
  cases value with
  | function literal => exact accounted_pure m env _ rfl
  | closure number =>
    cases hc : m.closures[number]? with
    | some c =>
      rw [callee_closure hc]
      exact accounted_pure m env _ rfl
    | none =>
      rw [callee_closure_of_none hc]
      exact accounted_error m env _ _
  | _ => exact accounted_error m env _ _

/-! ## Parts of expressions -/

/-- Every evaluation keeps accounts, as precise as the expression allows. -/
def AccountedEvaluator (eval : Evaluator σ) : Prop :=
  ∀ (precise still : Prop) (e : Expression) (env : Environment) (m : Interpreter σ), e.Suits precise still →
    Accounted precise still m env Evaluated.env (eval e env m)

section

variable {eval : Evaluator σ} (heval : AccountedEvaluator eval)

include heval

/-- An operand goes on in the environment that its evaluation left. -/
theorem accounted_operand {e : Expression} (he : e.Suits precise still) (m : Interpreter σ) (env : Environment)
    (context : String) : Accounted precise still m env Evaluated.env (operand eval e env context m) := by
  refine (heval precise still e env m he).bind fun r m₁ _ => ?_
  exact (accounted_resolve m₁ r.env r.value context).bind fun v m₂ _ => accounted_pure m₂ r.env _ rfl

/-- Each expression of a sequence goes on where the one before it ended. -/
theorem accounted_sequence (es : List Expression) (hes : ∀ e ∈ es, e.Suits precise still) (m : Interpreter σ)
    (last : Evaluated) : Accounted precise still m last.env Evaluated.env (sequence eval es last m) := by
  induction es generalizing m last with
  | nil => exact accounted_pure m last.env _ rfl
  | cons e rest ih =>
    obtain ⟨he, hrest⟩ := List.forall_mem_cons.1 hes
    exact (heval precise still e last.env m he).bind fun r m₁ _ => ih hrest m₁ r

/-- Each argument goes on in the environment that the one before it left. -/
theorem accounted_arguments (es : List Expression) (hes : ∀ e ∈ es, e.Suits precise still) (m : Interpreter σ)
    (env : Environment) : Accounted precise still m env Prod.snd (arguments eval es env m) := by
  induction es generalizing m env with
  | nil => exact accounted_pure m env _ rfl
  | cons e rest ih =>
    obtain ⟨he, hrest⟩ := List.forall_mem_cons.1 hes
    refine (accounted_operand heval he m env "Call").bind fun r m₁ _ => ?_
    exact (ih hrest m₁ r.env).bind fun vs m₂ _ => accounted_pure m₂ vs.2 _ rfl

/-- Each field goes on in the environment that the one before it left. -/
theorem accounted_fields (fs : List (String × Expression)) (hfs : ∀ f ∈ fs, f.2.Suits precise still) (m : Interpreter σ)
    (env : Environment) : Accounted precise still m env Prod.snd (fields eval fs env m) := by
  induction fs generalizing m env with
  | nil => exact accounted_pure m env _ rfl
  | cons f rest ih =>
    obtain ⟨hf, hrest⟩ := List.forall_mem_cons.1 hfs
    refine (accounted_operand heval hf m env "Object").bind fun r m₁ _ => ?_
    exact (ih hrest m₁ r.env).bind fun vs m₂ _ => accounted_pure m₂ vs.2 _ rfl

/-- A call leaves the store as it was, however the body ends and whatever it negates or declares. -/
theorem accounted_invoke (literal : FunctionLiteral) (values : List Value) (m : Interpreter σ) (base site : Environment) :
    Accounted precise still m site (fun _ => site) (invoke .onExit eval literal values base m) := by
  unfold invoke
  by_cases hn : literal.parameters.length ≠ values.length
  · simp only [if_pos hn]
    exact accounted_error m site _ _
  · simp only [if_neg hn]
    refine Accounted.get (Ends.bind (grows_bindAll _ m base) fun frame m₁ h₁ => ?_)
    -- of the body nothing is asked for: its bindings end with the call
    have hbody := heval False False literal.body frame m₁ (Expression.suits_false _)
    unfold finishCall
    generalize eval literal.body frame m₁ = o at hbody
    cases o with
    | ok r m₂ => exact (h₁.toGrows.trans hbody.toGrows).reclaim_accounts site
    | error i m₂ =>
      have hg : Grows m m₂ := h₁.toGrows.trans hbody
      cases i with
      | returned v => exact hg.reclaim_accounts site
      | failed e => exact hg.reclaim .onExit
      | exhausted => exact hg.reclaim .onExit

/-- Each turn of a loop goes on where the one before it ended. -/
theorem accounted_loop {condition body : Expression} (hcondition : condition.Suits precise still)
    (hbody : body.Suits precise still) (turns : Nat) (m : Interpreter σ) (env : Environment) :
    Accounted precise still m env Evaluated.env (loop eval condition body turns env m) := by
  induction turns generalizing m env with
  | zero => exact accounted_error m env _ _
  | succ turns ih =>
    refine (accounted_operand heval hcondition m env "While").bind fun test m₁ _ => ?_
    refine (accounted_ofExcept (test.value.expectBool "While") m₁ test.env).bind fun b m₂ _ => ?_
    cases b with
    | true => exact (heval precise still body test.env m₂ hbody).bind fun r m₃ _ => ih m₃ r.env
    | false => exact accounted_pure m₂ test.env _ rfl

/-- A value is computed from an operand. -/
theorem accounted_applied {e : Expression} (he : e.Suits precise still) (apply : Evaluated → Except EvalError α)
    (value : α → Value) (m : Interpreter σ) (env : Environment) (context : String) :
    Accounted precise still m env Evaluated.env ((do
      let r ← operand eval e env context
      return ⟨value (← ofExcept (apply r)), r.env⟩ : Evaluation σ Evaluated) m) := by
  refine (accounted_operand heval he m env context).bind fun r m₁ _ => ?_
  exact (accounted_ofExcept (apply r) m₁ r.env).bind fun a m₂ _ => accounted_pure m₂ r.env _ rfl

/-- The right operand goes on in the environment that the left one left. -/
theorem accounted_binary {left right : Expression} (hleft : left.Suits precise still) (op : Operator)
    (hright : right.Suits precise still) (m : Interpreter σ) (env : Environment) :
    Accounted precise still m env Evaluated.env (binary eval left op right env m) := by
  refine (accounted_operand heval hleft m env op.name).bind fun l m₁ _ => ?_
  cases op with
  | arithmetic o => exact accounted_applied heval hright (fun r => o.apply l.value r.value) id m₁ l.env _
  | comparison o => exact accounted_applied heval hright (fun r => o.apply l.value r.value) .bool m₁ l.env _
  | stringEqual =>
    exact accounted_applied heval hright (fun r => Value.compareStrings _ _ l.value r.value) .bool m₁ l.env _
  | stringLess =>
    exact accounted_applied heval hright (fun r => Value.compareStrings _ _ l.value r.value) .bool m₁ l.env _
  | and =>
    refine (accounted_ofExcept (l.value.expectBool _) m₁ l.env).bind fun b m₂ _ => ?_
    cases b with
    | true => exact accounted_applied heval hright (fun r => r.value.expectBool _) .bool m₂ l.env _
    | false => exact accounted_pure m₂ l.env _ rfl
  | or =>
    refine (accounted_ofExcept (l.value.expectBool _) m₁ l.env).bind fun b m₂ _ => ?_
    cases b with
    | true => exact accounted_pure m₂ l.env _ rfl
    | false => exact accounted_applied heval hright (fun r => r.value.expectBool _) .bool m₂ l.env _

/-! ## Expressions -/

/-- A block ends in the environment that it began in, and whatever it negates or declares the store is as large as it was. -/
theorem accounted_scope [Sink σ] {turns : Nat} (body : Expression) (m : Interpreter σ) (env : Environment) :
    Accounted precise still m env Evaluated.env (step .onExit eval turns (.scope body) env m) := by
  refine Accounted.get (Ends.bind (heval False False body env m (Expression.suits_false body)) fun r m₁ h₁ => ?_)
  refine Ends.bind ((accounted_resolve m₁ r.env r.value "Scope").after h₁) fun v m₂ h₂ => ?_
  exact h₂.toGrows.reclaim_accounts env

/-- An assignment takes the cells that its place and its value take, and no others. -/
theorem accounted_assign [Sink σ] {reclamation : Reclamation} {turns : Nat} {place a : Expression}
    (hplace : place.Suits precise still) (ha : a.Suits precise still) (m : Interpreter σ) (env : Environment) :
    Accounted precise still m env Evaluated.env (step reclamation eval turns (.assign place a) env m) := by
  refine (heval precise still place env m hplace).bind fun place m₁ _ => ?_
  refine (accounted_target m₁ place.env place).bind fun t m₂ _ => ?_
  refine (accounted_operand heval ha m₂ place.env "Assign").bind fun r m₃ _ => ?_
  refine (accounted_recapture m₃ r.env r.value).bind fun _ m₄ _ => ?_
  exact (accounted_store m₄ r.env t.1 t.2 r.value).bind fun _ m₅ _ => accounted_pure m₅ r.env _ rfl

/-- A call gives back the cells of its parameters unless a closure may still reach them. -/
theorem accounted_call [Sink σ] {turns : Nat} {f : Expression} {as : List Expression} (hf : f.Suits precise still)
    (has : ∀ a ∈ as, a.Suits precise still) (m : Interpreter σ) (env : Environment) :
    Accounted precise still m env Evaluated.env (step .onExit eval turns (.call f as) env m) := by
  refine (accounted_operand heval hf m env "Call").bind fun f m₁ _ => ?_
  refine (accounted_arguments heval as has m₁ f.env).bind fun vs m₂ _ => ?_
  refine (accounted_callee m₂ vs.2 vs.2 f.value).bind fun c m₃ _ => ?_
  exact (accounted_invoke heval c.1 vs.1 m₃ c.2 vs.2).bind fun v m₄ _ => accounted_pure m₄ vs.2 _ rfl

end

/-- Every kind of expression keeps accounts if its parts do. -/
theorem accounted_step [Sink σ] {eval : Evaluator σ} (heval : AccountedEvaluator eval) (turns : Nat) :
    AccountedEvaluator (step .onExit eval turns) := by
  intro precise still e env m he
  -- one case for each kind of expression; a kind that the hypotheses exclude is not accounted for
  cases e with
  | integer v => exact accounted_pure m env _ rfl
  | float v => exact accounted_pure m env _ rfl
  | boolean v => exact accounted_pure m env _ rfl
  | string v => exact accounted_pure m env _ rfl
  | identifier name => exact accounted_pure m env _ rfl
  | void => exact accounted_pure m env _ rfl
  | varDecl name =>
    exact (accounted_bind (he.not_still rfl) m env name _).bind fun env' m₁ _ => accounted_pure m₁ env' _ rfl
  | funcDecl name f =>
    exact (accounted_bind (he.not_still rfl) m env name _).bind fun env' m₁ _ => accounted_pure m₁ env' _ rfl
  | function f => exact accounted_pure m env _ rfl
  | closure f => exact (accounted_capture m env f).bind fun v m₁ _ => accounted_pure m₁ env _ rfl
  | scope body => exact accounted_scope heval body m env
  | sequence es => exact accounted_sequence heval es (fun e h => he.part h) m ⟨.void, env⟩
  | not a =>
    refine Ends.bind (accounted_operand heval (he.part (by simp)) m env "Not") fun r m₁ h₁ => ?_
    refine Accounted.after (h₁.back (he.not_precise rfl)) ?_
    exact (accounted_ofExcept (r.value.expectBool "Not") m₁ env).bind fun b m₂ _ => accounted_pure m₂ env _ rfl
  | binary a op b =>
    exact accounted_binary heval (he.part (by simp)) op (he.part (by simp)) m env
  | assign place a =>
    exact accounted_assign heval (he.part (by simp)) (he.part (by simp)) m env
  | call f as =>
    exact accounted_call heval (he.part List.mem_cons_self) (fun a h => he.part (List.mem_cons_of_mem f h)) m env
  | conditional a b c =>
    refine (accounted_operand heval (he.part (by simp)) m env "If").bind fun test m₁ _ => ?_
    refine (accounted_ofExcept (test.value.expectBool "If") m₁ test.env).bind fun t m₂ _ => ?_
    cases t with
    | true => exact heval precise still b test.env m₂ (he.part (by simp))
    | false =>
      cases c with
      | some c => exact heval precise still c test.env m₂ (he.part (by simp))
      | none => exact accounted_pure m₂ test.env _ rfl
  | loop a b =>
    exact accounted_loop heval (he.part (by simp)) (he.part (by simp)) turns m env
  | ret a =>
    refine (accounted_operand heval (he.part (by simp)) m env "Return").bind fun r m₁ _ => ?_
    exact accounted_error m₁ r.env _ _
  | print a =>
    refine (accounted_operand heval (he.part (by simp)) m env "Print").bind fun r m₁ _ => ?_
    exact (accounted_printLine m₁ r.env _).bind fun _ m₂ _ => accounted_pure m₂ r.env _ rfl
  | isType a name =>
    refine (accounted_operand heval (he.part (by simp)) m env "IsType").bind fun r m₁ _ => ?_
    exact accounted_pure m₁ r.env _ rfl
  | stringLength a =>
    exact accounted_applied heval (he.part (by simp)) (fun r => r.value.stringLength) id m env _
  | substring a b c =>
    refine (accounted_operand heval (he.part (by simp)) m env "Substring").bind fun x m₁ _ => ?_
    refine (accounted_operand heval (he.part (by simp)) m₁ x.env "Substring").bind fun y m₂ _ => ?_
    exact accounted_applied heval (he.part (by simp))
      (fun z => x.value.substring y.value z.value) id m₂ y.env _
  | object fs =>
    refine (accounted_fields heval fs (fun f h => he.part (List.mem_map_of_mem h)) m env).bind fun vs m₁ _ => ?_
    exact accounted_pure m₁ vs.2 _ rfl
  | field a name =>
    exact accounted_applied heval (he.part (by simp)) (fun r => r.value.field name) id m env _

end Evaluation

open Evaluation

/-- Every evaluation keeps accounts. -/
theorem evaluate_accounted [Sink σ] (steps : Nat) : AccountedEvaluator (evaluate (σ := σ) .onExit steps) := by
  induction steps with
  | zero => exact fun _ _ e env m _ => accounted_error m env _ _
  | succ steps ih => exact accounted_step ih steps

/-- What an evaluation that ended with a result made of the numbers of cells and of bindings. -/
theorem accounts_of_evaluate [Sink σ] {steps : Nat} {e : Expression} {env : Environment} {m m' : Interpreter σ} {r : Evaluated}
    (h : evaluate .onExit steps e env m = .ok r m') :
    Accounts (e.exposes Expression.isNot = false) (e.exposes Expression.isDeclaration = false) m env m' r.env := by
  have ha := evaluate_accounted steps _ _ e env m ⟨id, id⟩
  rwa [h] at ha

/-- A call evaluates what is called and the arguments, and goes on with the environment that these left; the call itself does not
count. -/
theorem accounts_of_call [Sink σ] {steps : Nat} {f : Expression} {as : List Expression} {env : Environment}
    {m m' : Interpreter σ} {r : Evaluated} (h : evaluate .onExit (steps + 1) (.call f as) env m = .ok r m') :
    ∃ g values m₁ m₂, operand (evaluate .onExit steps) f env "Call" m = .ok g m₁ ∧
      arguments (evaluate .onExit steps) as g.env m₁ = .ok (values, r.env) m₂ ∧ Accounts True True m₂ r.env m' r.env := by
  change step .onExit (evaluate .onExit steps) steps (.call f as) env m = .ok r m' at h
  simp only [step, bind_ok_iff, pure_ok_iff] at h
  obtain ⟨g, m₁, hg, ⟨values, site⟩, m₂, has, ⟨literal, base⟩, m₃, hcallee, v, m₄, hinvoke, rfl, rfl⟩ := h
  have hthree : Accounted True True m₂ site (fun _ => site) (callee g.value site m₂) := accounted_callee m₂ site site g.value
  have hfour : Accounted True True m₃ site (fun _ => site) (invoke .onExit (evaluate .onExit steps) literal values base m₃) :=
    accounted_invoke (evaluate_accounted steps) literal values m₃ base site
  rw [hcallee] at hthree
  rw [hinvoke] at hfour
  exact ⟨g, values, m₁, m₂, hg, has, hthree.trans hfour⟩

/-- When a call is made, the store and the count of closures have grown as its arguments made them grow. -/
theorem grows_of_arguments [Sink σ] {steps : Nat} {f : Expression} {as : List Expression} {env site : Environment}
    {m m₁ m₂ : Interpreter σ} {g : Evaluated} {values : List Value}
    (hg : operand (evaluate .onExit steps) f env "Call" m = .ok g m₁)
    (has : arguments (evaluate .onExit steps) as g.env m₁ = .ok (values, site) m₂) : Grows m m₂ := by
  have hone := accounted_operand (evaluate_accounted steps) (Expression.suits_false f) m env "Call"
  have htwo := accounted_arguments (evaluate_accounted steps) as (fun a _ => Expression.suits_false a) m₁ g.env
  rw [hg] at hone
  rw [has] at htwo
  exact hone.toGrows.trans htwo.toGrows

/-- The store is accounted for by bindings, in every state and every environment. An evaluation that ends with a result has handed
out at least as many cells as it has put bindings in front of the environment, and exactly as many if no closure was made or bound
anew in it, which the state counts, and no negation is exposed.

So if no closure was made or bound anew, a block leaves no cell behind; a call leaves those behind that the evaluation of what is
called and of the arguments did, whatever the body does; and a loop whose body is a block and whose test declares nothing leaves none
behind, however many turns it takes. -/
theorem store_accounts_for_bindings [Sink σ] (steps : Nat) (env : Environment) (m : Interpreter σ) :
    (∀ {e : Expression} {r : Evaluated} {m' : Interpreter σ}, evaluate .onExit steps e env m = .ok r m' →
      env.depth ≤ r.env.depth ∧ m.store.size ≤ m'.store.size ∧
      r.env.depth - env.depth ≤ m'.store.size - m.store.size ∧
      (m'.captures = m.captures → e.exposes Expression.isNot = false →
        m'.store.size - m.store.size = r.env.depth - env.depth)) ∧
    (∀ {body : Expression} {r : Evaluated} {m' : Interpreter σ}, evaluate .onExit steps (.scope body) env m = .ok r m' →
      m'.captures = m.captures → m'.store.size = m.store.size ∧ r.env = env) ∧
    (∀ {f : Expression} {as : List Expression} {r : Evaluated} {m' : Interpreter σ},
      evaluate .onExit (steps + 1) (.call f as) env m = .ok r m' → m'.captures = m.captures →
      ∃ g values m₁ m₂, operand (evaluate .onExit steps) f env "Call" m = .ok g m₁ ∧
        arguments (evaluate .onExit steps) as g.env m₁ = .ok (values, r.env) m₂ ∧ m'.store.size = m₂.store.size) ∧
    (∀ {test body : Expression} {r : Evaluated} {m' : Interpreter σ},
      evaluate .onExit steps (.loop test (.scope body)) env m = .ok r m' → m'.captures = m.captures →
      test.exposes Expression.isNot = false → test.exposes Expression.isDeclaration = false →
      m'.store.size = m.store.size ∧ r.env = env) := by
  refine ⟨?_, ?_, ?_, ?_⟩
  · intro e r m' h
    have ha := accounts_of_evaluate h
    have hdepth := ha.depth
    have hcells := ha.cells
    refine ⟨hdepth, ha.size, by omega, fun hk hnot => ?_⟩
    have heq := ha.precise hnot hk
    omega
  · intro body r m' h hk
    have ha := accounts_of_evaluate h
    have henv := ha.still (by simp [Expression.isDeclaration])
    have heq := ha.precise (by simp [Expression.isNot]) hk
    rw [henv] at heq
    exact ⟨by omega, henv⟩
  · intro f as r m' h hk
    obtain ⟨g, values, m₁, m₂, hg, has, hcall⟩ := accounts_of_call h
    have hle := (grows_of_arguments hg has).captures
    have hle' := hcall.captures
    have heq := hcall.precise trivial (by omega)
    exact ⟨g, values, m₁, m₂, hg, has, by omega⟩
  · intro test body r m' h hk hnot hdeclares
    have ha := accounts_of_evaluate h
    have henv := ha.still (by simp [Expression.isDeclaration, hdeclares])
    have heq := ha.precise (by simp [Expression.isNot, hnot]) hk
    rw [henv] at heq
    exact ⟨by omega, henv⟩

/-- Calls the function `down` with the value of a name. -/
def callDown (x : String) : Expression := .call (.identifier "down") [.identifier x]

/-- A function that calls itself down to zero. -/
def down : FunctionLiteral :=
  ⟨0, ["n"], .conditional (.binary (.identifier "n") (.comparison .less) (.integer 1)) (.ret (.integer 0))
    (some (.sequence [.declare "k" (.binary (.identifier "n") (.arithmetic .sub) (.integer 1)), .ret (callDown "k")]))⟩

/-- Counts `x` up by a name that a block declares anew in every turn, and calls `down` in between. -/
def turn : Expression :=
  .scope (.sequence [.declare "t" (.binary (.identifier "x") (.arithmetic .add) (.integer 1)), callDown "t",
    .assign (.identifier "x") (.identifier "t")])

/-- Takes turns until `x` is three. -/
def turns : Expression := .loop (.binary (.identifier "x") (.comparison .less) (.integer 3)) turn

/-- Declares `x`, and lets it be counted up to three. -/
def countedUp : Expression := .sequence [.declare "x" (.integer 0), turns]

/-- A state in which no closure was made and nothing printed: `down` has the first cell, these values have the others. -/
def holding (values : List Value) : Interpreter := ⟨⟨⟨.function down :: values⟩⟩, #[], 0, Output.empty none⟩

/-- The names `x` and `down`. -/
def countingNames : Environment := ⟨[("x", 1), ("down", 0)]⟩

/-- Declaring `x` once more leaves one cell behind, and neither a turn nor a call nor the loop leaves any. -/
theorem store_accounts_for_bindings_countedUp :
    (∃ r m', evaluate .onExit 20 countedUp countingNames (holding [.int 2]) = .ok r m' ∧ r.env.depth = 3 ∧
      m'.store.size - (holding [.int 2]).store.size = r.env.depth - countingNames.depth) ∧
    (∃ r m', evaluate .onExit 20 turn countingNames (holding [.int 2]) = .ok r m' ∧ m'.store.size = 2) ∧
    (∃ r m', evaluate .onExit 20 (callDown "x") countingNames (holding [.int 2]) = .ok r m' ∧
      ∃ g values m₁ m₂, operand (evaluate .onExit 19) (.identifier "down") countingNames "Call" (holding [.int 2]) = .ok g m₁ ∧
        arguments (evaluate .onExit 19) [.identifier "x"] g.env m₁ = .ok (values, r.env) m₂ ∧
        m'.store.size = m₂.store.size) ∧
    (∃ r m', evaluate .onExit 20 turns countingNames (holding [.int 0]) = .ok r m' ∧ m'.store.size = 2 ∧
      r.env = countingNames) := by
  obtain ⟨hall, hscope, -, -⟩ := store_accounts_for_bindings 20 countingNames (holding [.int 2])
  obtain ⟨-, -, hcall, -⟩ := store_accounts_for_bindings 19 countingNames (holding [.int 2])
  obtain ⟨-, -, -, hloop⟩ := store_accounts_for_bindings 20 countingNames (holding [.int 0])
  -- no run makes a closure
  obtain ⟨r, m', hcountedUp, htest⟩ := exists_of_succeeds (by decide +kernel : succeeds
    (fun r m' => r.env.depth == 3 && m'.captures == 0) (evaluate .onExit 20 countedUp countingNames (holding [.int 2])) = true)
  obtain ⟨s, n, hturn, hturnCaptures⟩ := exists_of_succeeds (by decide +kernel : succeeds (fun _ m' => m'.captures == 0)
    (evaluate .onExit 20 turn countingNames (holding [.int 2])) = true)
  obtain ⟨u, n', hdown, hdownCaptures⟩ := exists_of_succeeds (by decide +kernel : succeeds (fun _ m' => m'.captures == 0)
    (evaluate .onExit 20 (callDown "x") countingNames (holding [.int 2])) = true)
  obtain ⟨w, k, hturns, hturnsCaptures⟩ := exists_of_succeeds (by decide +kernel : succeeds (fun _ m' => m'.captures == 0)
    (evaluate .onExit 20 turns countingNames (holding [.int 0])) = true)
  rw [Bool.and_eq_true, beq_iff_eq, beq_iff_eq] at htest
  rw [beq_iff_eq] at hturnCaptures hdownCaptures hturnsCaptures
  refine ⟨⟨r, m', hcountedUp, htest.1, ?_⟩, ⟨s, n, hturn, (hscope hturn hturnCaptures).1⟩,
    ⟨u, n', hdown, hcall hdown hdownCaptures⟩, ⟨w, k, hturns, ?_⟩⟩
  · obtain ⟨-, -, -, hequal⟩ := hall hcountedUp
    exact hequal htest.2 (by simp [countedUp, turns, turn, Expression.declare, Expression.isNot, Expression.exposes_eq])
  · exact hloop hturns hturnsCaptures (by simp [Expression.isNot, Expression.exposes_eq])
      (by simp [Expression.isDeclaration, Expression.exposes_eq])

end ExprLang
