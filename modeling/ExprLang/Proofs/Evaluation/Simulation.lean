import Mathlib.Data.List.Forall2
import ExprLang.Proofs.Evaluation.Correspondence

/-!
# Evaluation keeps correspondences

`evaluate_simulates`: from corresponding states and in alike environments, an expression is evaluated in the same way by both
interpreters, whichever of them give back cells. Both end with related values and alike environments, or both are interrupted in the
same way, and the correspondence that they began with leads to one between the states that they leave.

Two computations that run so are `Parallel`, and parallel computations can be put one after the other (`Parallel.bind`). As for safety,
there is one lemma for each operation and for each helper of `step`.
-/

namespace ExprLang

/-- The same interruption, up to a value that is returned. -/
def Interrupt.Related (C : Nat → Nat → Prop) : Interrupt → Interrupt → Prop
  | .returned v, .returned w => v.Related C w
  | .failed e, .failed f => e = f
  | .exhausted, .exhausted => True
  | _, _ => False

namespace Likeness

variable {σ τ : Type} [Sink σ] [Sink τ] (L : Likeness σ τ)

/-- Related values with alike environments to go on with. -/
structure Same (c : Correspondence σ τ) (r r' : Evaluated) : Prop where
  /-- The values are related. -/
  value : r.value.Related c.closure r'.value
  /-- The environments are alike. -/
  env : L.Env c.cell r.env r'.env

/-- Two computations that began in the states of `c` end in the same way: with results of which `P` holds, or with related
interruptions. -/
def Parallel {α β : Type} (c : Correspondence σ τ) (P : Correspondence σ τ → α → β → Prop) :
    EStateM.Result Interrupt (Interpreter σ) α → EStateM.Result Interrupt (Interpreter τ) β → Prop
  | .ok a m, .ok b n => ∃ d : Correspondence σ τ, d.left = m ∧ d.right = n ∧ L.Leads c d ∧ P d a b
  | .error i m, .error j n => ∃ d : Correspondence σ τ, d.left = m ∧ d.right = n ∧ L.Leads c d ∧ i.Related d.closure j
  | _, _ => False

variable {L} {α β γ δ : Type} {c d : Correspondence σ τ} {P : Correspondence σ τ → α → β → Prop}
  {Q : Correspondence σ τ → γ → δ → Prop}

/-- The value that a name stands for is related to the value that it stands for in the other interpreter. -/
theorem Sound.resolve (h : L.Sound c) {env env' : Environment} (he : L.Env c.cell env env') {v w : Value}
    (hv : v.Related c.closure w) (context : String) :
    Agree (Value.Related c.closure) (c.left.resolve v env context) (c.right.resolve w env' context) := by
  rcases hv.cases with rfl | ⟨i, j, rfl, rfl⟩ | ⟨as, bs, rfl, rfl⟩
  · cases v with
    | id name =>
      have hf := L.find? name he
      simp only [Interpreter.resolve, Interpreter.lookup]
      generalize env.find? name = a at hf ⊢
      generalize env'.find? name = b at hf ⊢
      cases hf with
      | none => rfl
      | some hab =>
        obtain ⟨v, w, hv, hw, hr⟩ := h.value hab
        simp only [hv, hw]
        exact hr
    | _ => exact hv
  · exact hv
  · exact hv

namespace Parallel

/-- What comes after a correspondence that `c` leads to comes after `c`. -/
theorem after {o : EStateM.Result Interrupt (Interpreter σ) α} {o' : EStateM.Result Interrupt (Interpreter τ) β}
    (hd : L.Leads c d) (h : L.Parallel d P o o') : L.Parallel c P o o' := by
  match o, o', h with
  | .ok a m, .ok b n, ⟨e, hl, hr, he, hp⟩ => exact ⟨e, hl, hr, hd.trans he, hp⟩
  | .error i m, .error j n, ⟨e, hl, hr, he, hp⟩ => exact ⟨e, hl, hr, hd.trans he, hp⟩

/-- Parallel computations one after the other, when the second ones are compared with where the first ones began. -/
theorem bind_from {x : Evaluation σ α} {y : Evaluation τ β} {f : α → Evaluation σ γ} {g : β → Evaluation τ δ}
    {m : Interpreter σ} {n : Interpreter τ} (h : L.Parallel c P (x m) (y n))
    (hf : ∀ d a b, L.Leads c d → P d a b → L.Parallel c Q (f a d.left) (g b d.right)) :
    L.Parallel c Q ((x >>= f) m) ((y >>= g) n) := by
  show L.Parallel c Q (EStateM.bind x f m) (EStateM.bind y g n)
  unfold EStateM.bind
  generalize x m = o at h
  generalize y n = o' at h
  match o, o', h with
  | .ok a _, .ok b _, ⟨d, rfl, rfl, hd, hp⟩ => exact hf d a b hd hp
  | .error i _, .error j _, h => exact h

/-- Parallel computations one after the other. -/
theorem bind {x : Evaluation σ α} {y : Evaluation τ β} {f : α → Evaluation σ γ} {g : β → Evaluation τ δ}
    {m : Interpreter σ} {n : Interpreter τ} (h : L.Parallel c P (x m) (y n))
    (hf : ∀ d a b, L.Leads c d → P d a b → L.Parallel d Q (f a d.left) (g b d.right)) :
    L.Parallel c Q ((x >>= f) m) ((y >>= g) n) :=
  h.bind_from fun d a b hd hp => (hf d a b hd hp).after hd

/-- Looking at the states changes nothing. -/
theorem get {f : Interpreter σ → Evaluation σ γ} {g : Interpreter τ → Evaluation τ δ}
    (h : L.Parallel c Q (f c.left c.left) (g c.right c.right)) :
    L.Parallel c Q ((MonadState.get >>= f) c.left) ((MonadState.get >>= g) c.right) := h

/-- Related results in states that correspond. -/
theorem pure (hc : L.Sound c) {a : α} {b : β} (h : P c a b) :
    L.Parallel c P ((Pure.pure a : Evaluation σ α) c.left) ((Pure.pure b : Evaluation τ β) c.right) :=
  ⟨c, rfl, rfl, hc.leads, h⟩

/-- The same interruption on both sides. -/
theorem error (hc : L.Sound c) {i j : Interrupt} (h : i.Related c.closure j) :
    L.Parallel c P (.error i c.left) (.error j c.right) :=
  ⟨c, rfl, rfl, hc.leads, h⟩

/-- Computations on values come first on both sides. -/
theorem ofExcept {R : α → β → Prop} {x : Except EvalError α} {y : Except EvalError β} {f : α → Evaluation σ γ}
    {g : β → Evaluation τ δ} (hc : L.Sound c) (h : Agree R x y)
    (hf : ∀ a b, R a b → L.Parallel c Q (f a c.left) (g b c.right)) :
    L.Parallel c Q ((Evaluation.ofExcept x >>= f) c.left) ((Evaluation.ofExcept y >>= g) c.right) := by
  match x, y, h with
  | .ok a, .ok b, h => exact hf a b h
  | .error e, .error _, rfl => exact error hc rfl

end Parallel

end Likeness

namespace Evaluation

open Likeness

variable {σ τ : Type} [Sink σ] [Sink τ] {L : Likeness σ τ} {c : Correspondence σ τ}

/-! ## Operations -/

/-- Bindings that are made on both sides have cells that correspond. -/
theorem parallel_bind (hc : L.Sound c) {env env' : Environment} (he : L.Env c.cell env env') (name : String)
    {v w : Value} (hv : v.Related c.closure w) :
    L.Parallel c (fun d => L.Env d.cell) (bind env name v c.left) (bind env' name w c.right) := by
  obtain ⟨d, hl, hr, hd, henv⟩ := hc.bind he name hv
  exact ⟨d, hl, hr, hd, henv⟩

/-- Parameters that are bound on both sides have cells that correspond. -/
theorem parallel_bindAll (names : List String) {values values' : List Value} (hc : L.Sound c)
    {env env' : Environment} (he : L.Env c.cell env env') (hv : List.Forall₂ (Value.Related c.closure) values values') :
    L.Parallel c (fun d => L.Env d.cell) (bindAll env (names.zip values) c.left)
      (bindAll env' (names.zip values') c.right) := by
  induction names generalizing c env env' values values' with
  | nil => exact Parallel.pure hc he
  | cons name names ih =>
    cases hv with
    | nil => exact Parallel.pure hc he
    | cons hv hrest =>
      refine (parallel_bind hc he name hv).bind fun d frame frame' hd hframe => ?_
      exact ih hd.sound hframe (hrest.imp fun _ _ => hd.related)

/-- A name is resolved to related values. -/
theorem parallel_resolve (hc : L.Sound c) {env env' : Environment} (he : L.Env c.cell env env') {v w : Value}
    (hv : v.Related c.closure w) (context : String) :
    L.Parallel c (fun d => Value.Related d.closure) (resolve v env context c.left) (resolve w env' context c.right) := by
  have h := hc.resolve he hv context
  show L.Parallel c _ (ofExcept (c.left.resolve v env context) c.left) (ofExcept (c.right.resolve w env' context) c.right)
  match c.left.resolve v env context, c.right.resolve w env' context, h with
  | .ok _, .ok _, h => exact Parallel.pure hc h
  | .error _, .error _, rfl => exact Parallel.error hc rfl

/-- Closures that are made on both sides correspond from then on. -/
theorem parallel_capture (hc : L.Sound c) {env env' : Environment} (he : L.Env c.cell env env') (f : FunctionLiteral) :
    L.Parallel c (fun d => Value.Related d.closure) (capture f env c.left) (capture f env' c.right) := by
  obtain ⟨d, hl, hr, hd, hclosure⟩ := hc.capture f he
  exact ⟨d, hl, hr, hd, hclosure⟩

/-- Only closures are bound anew, and of related values either both are closures or none is. -/
theorem parallel_recapture (hc : L.Sound c) {env env' : Environment} (he : L.Env c.cell env env') {v w : Value}
    (hv : v.Related c.closure w) :
    L.Parallel c (fun _ _ _ => True) (recapture v env c.left) (recapture w env' c.right) := by
  rcases hv.cases with rfl | ⟨i, j, rfl, rfl⟩ | ⟨as, bs, rfl, rfl⟩
  · cases v with
    | closure i => exact ⟨_, rfl, rfl, hc.recapture hv he, trivial⟩
    | _ => exact Parallel.pure hc trivial
  · exact ⟨_, rfl, rfl, hc.recapture hv he, trivial⟩
  · exact Parallel.pure hc trivial

/-- Cells that correspond are overwritten with related values. -/
theorem parallel_store (hc : L.Sound c) (name : String) {a b : Nat} (hab : c.cell a b) {v w : Value}
    (hv : v.Related c.closure w) :
    L.Parallel c (fun _ _ _ => True) (store name a v c.left) (store name b w c.right) := by
  obtain ⟨s, s', hs, hs', hd⟩ := hc.set hab hv
  simp only [store, hs, hs']
  exact ⟨_, rfl, rfl, hd, trivial⟩

/-- Sinks of both sides take the same text. -/
theorem parallel_write (hc : L.Sound c) (s : String) :
    L.Parallel c (fun _ _ _ => True) (write s c.left) (write s c.right) := by
  have hd := hc.write s
  have htaken := (L.write s hc.output).1
  unfold write
  generalize Sink.write c.left.output s = o at hd htaken
  generalize Sink.write c.right.output s = o' at hd htaken
  match o, o', htaken with
  | (_, true), (_, true), _ => exact ⟨_, rfl, rfl, hd, trivial⟩
  | (_, false), (_, false), _ => exact ⟨_, rfl, rfl, hd, rfl⟩

theorem parallel_printLine (hc : L.Sound c) (s : String) :
    L.Parallel c (fun _ _ _ => True) (printLine s c.left) (printLine s c.right) := by
  unfold printLine
  by_cases h : s ≠ ""
  · simp only [if_pos h]
    exact (parallel_write hc s).bind fun d _ _ hd _ => parallel_write hd.sound "\n"
  · simp only [if_neg h]
    exact parallel_write hc "\n"

/-! ## Parts of expressions -/

/-- From corresponding states and in alike environments, two evaluators run in the same way. -/
def Simulates (L : Likeness σ τ) (eval : Evaluator σ) (eval' : Evaluator τ) : Prop :=
  ∀ (e : Expression) (env env' : Environment) (c : Correspondence σ τ), L.Sound c → L.Env c.cell env env' →
    L.Parallel c L.Same (eval e env c.left) (eval' e env' c.right)

section

variable {eval : Evaluator σ} {eval' : Evaluator τ} (heval : Simulates L eval eval')

include heval

/-- Operands that are evaluated alike are resolved alike. -/
theorem parallel_operand (hc : L.Sound c) {env env' : Environment} (he : L.Env c.cell env env') (e : Expression)
    (context : String) : L.Parallel c L.Same (operand eval e env context c.left) (operand eval' e env' context c.right) := by
  refine (heval e env env' c hc he).bind fun d r r' hd hr => ?_
  refine (parallel_resolve hd.sound hr.env hr.value context).bind fun d' v w hd' hv => ?_
  exact Parallel.pure hd'.sound ⟨hv, hd'.env hr.env⟩

/-- Sequences are evaluated alike, expression by expression. -/
theorem parallel_sequence (es : List Expression) (hc : L.Sound c) {r r' : Evaluated} (hr : L.Same c r r') :
    L.Parallel c L.Same (sequence eval es r c.left) (sequence eval' es r' c.right) := by
  induction es generalizing c r r' with
  | nil => exact Parallel.pure hc hr
  | cons e rest ih => exact (heval e r.env r'.env c hc hr.env).bind fun d _ _ hd hr' => ih hd.sound hr'

/-- Arguments are evaluated alike, to related values. -/
theorem parallel_arguments (es : List Expression) (hc : L.Sound c) {env env' : Environment} (he : L.Env c.cell env env') :
    L.Parallel c (fun d vs ws => List.Forall₂ (Value.Related d.closure) vs.1 ws.1 ∧ L.Env d.cell vs.2 ws.2)
      (arguments eval es env c.left) (arguments eval' es env' c.right) := by
  induction es generalizing c env env' with
  | nil => exact Parallel.pure hc ⟨.nil, he⟩
  | cons e rest ih =>
    refine (parallel_operand heval hc he e "Call").bind fun d r r' hd hr => ?_
    refine (ih hd.sound hr.env).bind fun d' vs ws hd' hvs => ?_
    exact Parallel.pure hd'.sound ⟨.cons (hd'.related hr.value) hvs.1, hvs.2⟩

/-- Fields are evaluated alike, to related values under the same names. -/
theorem parallel_fields (fs : List (String × Expression)) (hc : L.Sound c) {env env' : Environment}
    (he : L.Env c.cell env env') :
    L.Parallel c (fun d vs ws => Value.RelatedFields d.closure vs.1 ws.1 ∧ L.Env d.cell vs.2 ws.2)
      (fields eval fs env c.left) (fields eval' fs env' c.right) := by
  induction fs generalizing c env env' with
  | nil => exact Parallel.pure hc ⟨trivial, he⟩
  | cons f rest ih =>
    refine (parallel_operand heval hc he f.2 "Object").bind fun d r r' hd hr => ?_
    refine (ih hd.sound hr.env).bind fun d' vs ws hd' hvs => ?_
    exact Parallel.pure hd'.sound ⟨⟨rfl, hd'.related hr.value, hvs.1⟩, hvs.2⟩

omit heval in
/-- However the bodies end, cells are given back, and the correspondence is one that followed from that before the calls. -/
theorem parallel_finishCall (r q : Reclamation) {d : Correspondence σ τ} (hc : L.Sound c) (hd : L.Leads c d)
    {body : Evaluation σ Evaluated} {body' : Evaluation τ Evaluated}
    (h : L.Parallel d L.Same (body d.left) (body' d.right)) :
    L.Parallel c (fun d => Value.Related d.closure) (finishCall r c.left.mark body d.left)
      (finishCall q c.right.mark body' d.right) := by
  unfold finishCall
  generalize body d.left = o at h
  generalize body' d.right = o' at h
  match o, o', h with
  | .ok _ _, .ok _ _, ⟨e, rfl, rfl, he, _⟩ =>
    obtain ⟨e', hl, hr, he', -⟩ := (hd.trans he).reclaim hc r q
    exact ⟨e', hl, hr, he', trivial⟩
  | .error i _, .error j _, ⟨e, rfl, rfl, he, hij⟩ =>
    obtain ⟨e', hl, hr, he', hclosure⟩ := (hd.trans he).reclaim hc r q
    match i, j, hij with
    | .returned v, .returned w, hv =>
      refine ⟨e', hl, hr, he', ?_⟩
      show v.Related e'.closure w
      rw [hclosure]
      exact hv
    | .failed _, .failed _, rfl => exact ⟨e', hl, hr, he', rfl⟩
    | .exhausted, .exhausted, _ => exact ⟨e', hl, hr, he', trivial⟩

/-- A body is run alike with related arguments, also where the two sides give back cells differently. -/
theorem parallel_invoke (r q : Reclamation) (f : FunctionLiteral) {values values' : List Value} (hc : L.Sound c)
    {env env' : Environment} (he : L.Env c.cell env env') (hv : List.Forall₂ (Value.Related c.closure) values values') :
    L.Parallel c (fun d => Value.Related d.closure) (invoke r eval f values env c.left)
      (invoke q eval' f values' env' c.right) := by
  unfold invoke
  rw [hv.length_eq]
  by_cases hn : f.parameters.length ≠ values'.length
  · simp only [if_pos hn]
    exact Parallel.error hc rfl
  · simp only [if_neg hn]
    refine Parallel.get ((parallel_bindAll f.parameters hc he hv).bind_from fun d frame frame' hd hframe => ?_)
    exact parallel_finishCall r q hc hd (heval f.body frame frame' d hd.sound hframe)

/-- Loops are evaluated alike, turn by turn. -/
theorem parallel_loop (condition body : Expression) (turns : Nat) (hc : L.Sound c) {env env' : Environment}
    (he : L.Env c.cell env env') :
    L.Parallel c L.Same (loop eval condition body turns env c.left) (loop eval' condition body turns env' c.right) := by
  induction turns generalizing c env env' with
  | zero => exact Parallel.error hc trivial
  | succ turns ih =>
    refine (parallel_operand heval hc he condition "While").bind fun d test test' hd ht => ?_
    refine Parallel.ofExcept hd.sound (ht.value.expectBool "While") ?_
    rintro b _ rfl
    cases b with
    | true =>
      refine (heval body test.env test'.env d hd.sound ht.env).bind fun d' r r' hd' hr => ?_
      exact ih hd'.sound hr.env
    | false => exact Parallel.pure hd.sound ⟨trivial, ht.env⟩

/-- Truth values are computed from operands in the same way. -/
theorem parallel_tested {test test' : Value → Except EvalError Bool} (hc : L.Sound c) {env env' : Environment}
    (he : L.Env c.cell env env')
    (htest : ∀ {d v w}, L.Leads c d → v.Related d.closure w → Agree Eq (test v) (test' w)) (e : Expression)
    (context : String) :
    L.Parallel c L.Same ((do
      let r ← operand eval e env context
      return ⟨.bool (← ofExcept (test r.value)), r.env⟩ : Evaluation σ Evaluated) c.left) ((do
      let r ← operand eval' e env' context
      return ⟨.bool (← ofExcept (test' r.value)), r.env⟩ : Evaluation τ Evaluated) c.right) := by
  refine (parallel_operand heval hc he e context).bind fun d r r' hd hr => ?_
  refine Parallel.ofExcept hd.sound (htest hd hr.value) fun a b hab => ?_
  exact Parallel.pure hd.sound ⟨hab, hr.env⟩

/-- Of the logical operators one looks at the right operand only if the left one is true, the other only if it is false. -/
theorem parallel_binary (left : Expression) (op : Operator) (right : Expression) (hc : L.Sound c) {env env' : Environment}
    (he : L.Env c.cell env env') :
    L.Parallel c L.Same (binary eval left op right env c.left) (binary eval' left op right env' c.right) := by
  refine (parallel_operand heval hc he left op.name).bind fun d l l' hd hl => ?_
  have htest := hl.value.expectBool op.name
  have hright : L.Parallel d L.Same ((do
      let r ← operand eval right l.env op.name
      return ⟨.bool (← ofExcept (r.value.expectBool op.name)), r.env⟩ : Evaluation σ Evaluated) d.left) ((do
      let r ← operand eval' right l'.env op.name
      return ⟨.bool (← ofExcept (r.value.expectBool op.name)), r.env⟩ : Evaluation τ Evaluated) d.right) :=
    parallel_tested heval hd.sound hl.env (fun _ hv => hv.expectBool op.name) right op.name
  cases op with
  | arithmetic o =>
    refine (parallel_operand heval hd.sound hl.env right _).bind fun d' r r' hd' hr => ?_
    refine Parallel.ofExcept hd'.sound (o.related_apply (hd'.related hl.value) hr.value) fun v w hv => ?_
    exact Parallel.pure hd'.sound ⟨hv, hr.env⟩
  | comparison o =>
    exact parallel_tested heval hd.sound hl.env (fun hd' hv => o.related_apply (hd'.related hl.value) hv) right _
  | stringEqual =>
    exact parallel_tested heval hd.sound hl.env (fun hd' hv => (hd'.related hl.value).compareStrings hv _ _) right _
  | stringLess =>
    exact parallel_tested heval hd.sound hl.env (fun hd' hv => (hd'.related hl.value).compareStrings hv _ _) right _
  | and =>
    refine Parallel.ofExcept hd.sound htest ?_
    rintro b _ rfl
    cases b with
    | true => exact hright
    | false => exact Parallel.pure hd.sound ⟨rfl, hl.env⟩
  | or =>
    refine Parallel.ofExcept hd.sound htest ?_
    rintro b _ rfl
    cases b with
    | true => exact Parallel.pure hd.sound ⟨rfl, hl.env⟩
    | false => exact hright

end

/-- Alike targets stand for corresponding cells. -/
theorem parallel_target (hc : L.Sound c) {r r' : Evaluated} (hr : L.Same c r r') :
    L.Parallel c (fun d p q => p.1 = q.1 ∧ d.cell p.2 q.2) (target r c.left) (target r' c.right) := by
  obtain ⟨v, env⟩ := r
  obtain ⟨w, env'⟩ := r'
  obtain ⟨hv, he⟩ := hr
  rcases Value.Related.cases hv with rfl | ⟨i, j, rfl, rfl⟩ | ⟨as, bs, rfl, rfl⟩
  · cases v with
    | id name =>
      have hf := L.find? name he
      simp only [target]
      generalize env.find? name = a at hf ⊢
      generalize env'.find? name = b at hf ⊢
      cases hf with
      | none => exact Parallel.error hc rfl
      | some hab => exact Parallel.pure hc ⟨rfl, hab⟩
    | _ => exact Parallel.error hc rfl
  · exact Parallel.error hc rfl
  · exact Parallel.error hc rfl

/-- Related values are called in alike environments: those of the callers or those of corresponding closures. -/
theorem parallel_callee (hc : L.Sound c) {v w : Value} (hv : v.Related c.closure w) {env env' : Environment}
    (he : L.Env c.cell env env') :
    L.Parallel c (fun d f g => f.1 = g.1 ∧ L.Env d.cell f.2 g.2) (callee v env c.left) (callee w env' c.right) := by
  have hclosure : ∀ i j, c.closure i j → L.Parallel c (fun d f g => f.1 = g.1 ∧ L.Env d.cell f.2 g.2)
      (callee (.closure i) env c.left) (callee (.closure j) env' c.right) := by
    intro i j hij
    obtain ⟨f, g, hf, hg, hl, henv⟩ := hc.literal hij
    rw [callee_closure hf, callee_closure hg]
    exact Parallel.pure hc ⟨hl, henv⟩
  rcases hv.cases with rfl | ⟨i, j, rfl, rfl⟩ | ⟨as, bs, rfl, rfl⟩
  · cases v with
    | function f => exact Parallel.pure hc ⟨rfl, he⟩
    | closure i => exact hclosure i i hv
    | _ => exact Parallel.error hc rfl
  · exact hclosure i j hv
  · exact Parallel.error hc rfl

/-! ## Expressions -/

section

variable {eval : Evaluator σ} {eval' : Evaluator τ} (heval : Simulates L eval eval')

include heval

/-- The cells of a block are given back after its value is resolved. -/
theorem parallel_scope (r q : Reclamation) {turns : Nat} (hc : L.Sound c) {env env' : Environment}
    (he : L.Env c.cell env env') (body : Expression) :
    L.Parallel c L.Same (step r eval turns (.scope body) env c.left) (step q eval' turns (.scope body) env' c.right) := by
  refine Parallel.get ((heval body env env' c hc he).bind_from fun d b b' hd hb => ?_)
  refine ((parallel_resolve hd.sound hb.env hb.value "Scope").after hd).bind_from fun d v w hd hv => ?_
  obtain ⟨e, hl, hr, hce, hclosure⟩ := hd.reclaim hc r q
  exact ⟨e, hl, hr, hce, hclosure ▸ hv, hce.env he⟩

/-- The cells to write are found before the value is evaluated, and still correspond afterwards. -/
theorem parallel_assign {r q : Reclamation} {turns : Nat} (hc : L.Sound c) {env env' : Environment}
    (he : L.Env c.cell env env') (place a : Expression) :
    L.Parallel c L.Same (step r eval turns (.assign place a) env c.left)
      (step q eval' turns (.assign place a) env' c.right) := by
  refine (heval place env env' c hc he).bind fun c₁ p p' h₁ hp => ?_
  refine (parallel_target h₁.sound hp).bind fun c₂ t t' h₂ ht => ?_
  obtain ⟨name, slot⟩ := t
  obtain ⟨name', slot'⟩ := t'
  obtain ⟨rfl, hcell⟩ := ht
  refine (parallel_operand heval h₂.sound (h₂.env hp.env) a "Assign").bind fun c₃ v v' h₃ hv => ?_
  refine (parallel_recapture h₃.sound hv.env hv.value).bind fun c₄ _ _ h₄ _ => ?_
  refine (parallel_store h₄.sound name ((h₃.trans h₄).cell _ _ hcell) (h₄.related hv.value)).bind fun c₅ _ _ h₅ _ => ?_
  exact Parallel.pure h₅.sound ⟨rfl, (h₄.trans h₅).env hv.env⟩

/-- Calls are evaluated alike: of related closures, with related arguments. -/
theorem parallel_call (r q : Reclamation) {turns : Nat} (hc : L.Sound c) {env env' : Environment}
    (he : L.Env c.cell env env') (f : Expression) (as : List Expression) :
    L.Parallel c L.Same (step r eval turns (.call f as) env c.left) (step q eval' turns (.call f as) env' c.right) := by
  refine (parallel_operand heval hc he f "Call").bind fun c₁ f f' h₁ hf => ?_
  refine (parallel_arguments heval as h₁.sound hf.env).bind fun c₂ vs ws h₂ hvs => ?_
  refine (parallel_callee h₂.sound (h₂.related hf.value) hvs.2).bind fun c₃ g g' h₃ hg => ?_
  obtain ⟨literal, base⟩ := g
  obtain ⟨literal', base'⟩ := g'
  obtain ⟨rfl, hbase⟩ := hg
  refine (parallel_invoke heval r q literal h₃.sound hbase (hvs.1.imp fun _ _ => h₃.related)).bind fun c₄ v w h₄ hv => ?_
  exact Parallel.pure h₄.sound ⟨hv, (h₃.trans h₄).env hvs.2⟩

end

/-- Every kind of expression is evaluated in the same way if its parts are. -/
theorem simulates_step {eval : Evaluator σ} {eval' : Evaluator τ} (heval : Simulates L eval eval') (r q : Reclamation)
    (turns : Nat) : Simulates L (step r eval turns) (step q eval' turns) := by
  intro e env env' c hc he
  -- one case for each kind of expression, with the lemma about its helper
  cases e with
  | integer v => exact Parallel.pure hc ⟨rfl, he⟩
  | float v => exact Parallel.pure hc ⟨rfl, he⟩
  | boolean v => exact Parallel.pure hc ⟨rfl, he⟩
  | string v => exact Parallel.pure hc ⟨rfl, he⟩
  | identifier name => exact Parallel.pure hc ⟨rfl, he⟩
  | void => exact Parallel.pure hc ⟨trivial, he⟩
  | varDecl name =>
    have hbind := @parallel_bind _ _ _ _ _ _ hc _ _ he name .void .void trivial
    exact hbind.bind fun d _ _ hd henv => Parallel.pure hd.sound ⟨rfl, henv⟩
  | funcDecl name f =>
    have hbind := @parallel_bind _ _ _ _ _ _ hc _ _ he name (.function f) (.function f) rfl
    exact hbind.bind fun d _ _ hd henv => Parallel.pure hd.sound ⟨rfl, henv⟩
  | function f => exact Parallel.pure hc ⟨rfl, he⟩
  | closure f =>
    exact (parallel_capture hc he f).bind fun d _ _ hd hv => Parallel.pure hd.sound ⟨hv, hd.env he⟩
  | scope body => exact parallel_scope heval r q hc he body
  | sequence es => exact parallel_sequence heval es hc ⟨trivial, he⟩
  | not a =>
    refine (parallel_operand heval hc he a "Not").bind fun d v v' hd hv => ?_
    refine Parallel.ofExcept hd.sound (hv.value.expectBool "Not") ?_
    rintro b _ rfl
    exact Parallel.pure hd.sound ⟨rfl, hd.env he⟩
  | binary a op b => exact parallel_binary heval a op b hc he
  | assign place a => exact parallel_assign heval hc he place a
  | call f as => exact parallel_call heval r q hc he f as
  | conditional a b c' =>
    refine (parallel_operand heval hc he a "If").bind fun d test test' hd ht => ?_
    refine Parallel.ofExcept hd.sound (ht.value.expectBool "If") ?_
    rintro t _ rfl
    cases t with
    | true => exact heval b test.env test'.env d hd.sound ht.env
    | false =>
      cases c' with
      | some c' => exact heval c' test.env test'.env d hd.sound ht.env
      | none => exact Parallel.pure hd.sound ⟨trivial, ht.env⟩
  | loop a b => exact parallel_loop heval a b turns hc he
  | ret a =>
    refine (parallel_operand heval hc he a "Return").bind fun d v v' hd hv => ?_
    exact Parallel.error hd.sound hv.value
  | print a =>
    refine (parallel_operand heval hc he a "Print").bind fun d v v' hd hv => ?_
    rw [hv.value.text_eq]
    refine (parallel_printLine hd.sound v'.value.text).bind fun d' _ _ hd' _ => ?_
    exact Parallel.pure hd'.sound ⟨trivial, hd'.env hv.env⟩
  | isType a name =>
    refine (parallel_operand heval hc he a "IsType").bind fun d v v' hd hv => ?_
    rw [hv.value.typeName_eq]
    exact Parallel.pure hd.sound ⟨rfl, hv.env⟩
  | stringLength a =>
    refine (parallel_operand heval hc he a "StringLength").bind fun d v v' hd hv => ?_
    refine Parallel.ofExcept hd.sound hv.value.stringLength fun n n' hn => ?_
    exact Parallel.pure hd.sound ⟨hn, hv.env⟩
  | substring a i j =>
    refine (parallel_operand heval hc he a "Substring").bind fun c₁ v v' h₁ hv => ?_
    refine (parallel_operand heval h₁.sound hv.env i "Substring").bind fun c₂ start start' h₂ hstart => ?_
    refine (parallel_operand heval h₂.sound hstart.env j "Substring").bind fun c₃ stop stop' h₃ hstop => ?_
    refine Parallel.ofExcept h₃.sound
      (((h₂.trans h₃).related hv.value).substring (h₃.related hstart.value) hstop.value) fun s s' hs => ?_
    exact Parallel.pure h₃.sound ⟨hs, hstop.env⟩
  | object fs =>
    refine (parallel_fields heval fs hc he).bind fun d vs ws hd hvs => ?_
    exact Parallel.pure hd.sound ⟨Value.RelatedFields.ofFields hvs.1, hvs.2⟩
  | field a name =>
    refine (parallel_operand heval hc he a "Field").bind fun d v v' hd hv => ?_
    refine Parallel.ofExcept hd.sound (hv.value.field name) fun n n' hn => ?_
    exact Parallel.pure hd.sound ⟨hn, hv.env⟩

end Evaluation

open Evaluation Likeness

/-- Evaluation runs in the same way from corresponding states, whichever interpreter gives back cells. -/
theorem evaluate_simulates {σ τ : Type} [Sink σ] [Sink τ] (L : Likeness σ τ) (r q : Reclamation) (steps : Nat) :
    Simulates L (evaluate r steps) (evaluate q steps) := by
  induction steps with
  | zero => exact fun _ _ _ _ hc _ => Parallel.error hc trivial
  | succ steps ih => exact simulates_step ih r q steps

/-- So do whole programs. -/
theorem run_parallel {σ τ : Type} [Sink σ] [Sink τ] {L : Likeness σ τ} (r q : Reclamation) (steps : Nat)
    (program : Expression) {c : Correspondence σ τ} (hc : L.Sound c)
    (he : L.Env c.cell Environment.empty Environment.empty) :
    L.Parallel c (fun d => Value.Related d.closure) (run r steps program c.left) (run q steps program c.right) := by
  have h := evaluate_simulates L r q steps program _ _ c hc he
  unfold run
  generalize evaluate r steps program Environment.empty c.left = o at h
  generalize evaluate q steps program Environment.empty c.right = o' at h
  match o, o', h with
  | .ok v _, .ok w _, ⟨d, rfl, rfl, hd, hv⟩ => exact (parallel_resolve hd.sound hv.env hv.value program.kind).after hd
  | .error i _, .error j _, ⟨d, rfl, rfl, hd, hij⟩ =>
    match i, j, hij with
    | .returned _, .returned _, _ => exact ⟨d, rfl, rfl, hd, rfl⟩
    | .failed _, .failed _, rfl => exact ⟨d, rfl, rfl, hd, rfl⟩
    | .exhausted, .exhausted, _ => exact ⟨d, rfl, rfl, hd, trivial⟩

end ExprLang
