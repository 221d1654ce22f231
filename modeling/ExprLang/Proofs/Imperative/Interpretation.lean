import ExprLang.Proofs.Evaluation.Results
import ExprLang.Proofs.Evaluation.Steps
import ExprLang.Proofs.Imperative.Program

/-!
# Interpreting imperative programs

If the interpreter ends with a value, an imperative program yields that value (`yields_of_run`), provided that no operand of a comparison
or of a division was an integer that does not fit. Whether there was one is seen by giving up there (`evaluateWithin`): if the run is the
same then, there was none (`OperandsFit`). It is the same if it ends with a result (`operandsFit_of_ok`).
-/

namespace ExprLang

/-- Whether the operands of an operator have to fit. -/
def Operator.needsFit : Operator → Bool
  | .arithmetic .div | .comparison _ => true
  | _ => false

namespace Evaluation

variable {σ : Type}

/-- Whether a value, resolved if it is a name, is no integer that does not fit. -/
def fits (r : Evaluated) (m : Interpreter σ) : Bool :=
  match m.resolve r.value r.env "" with
  | .ok (.int n) => Fits n
  | _ => true

/-- Evaluates an expression, and gives up if the value is an integer that does not fit. -/
def within (eval : Evaluator σ) : Evaluator σ := fun e env => do
  let r ← eval e env
  if fits r (← get) then return r else throw .exhausted

/-- The evaluator for the parts of an expression that gives up if an operand has to fit but does not. -/
def guarded (e : Expression) (eval : Evaluator σ) : Evaluator σ :=
  match e with
  | .binary _ op _ => if op.needsFit then within eval else eval
  | _ => eval

end Evaluation

open Evaluation

/-- Evaluates like `evaluate`, but gives up if an operand has to fit and does not. -/
def evaluateWithin {σ : Type} [Sink σ] (reclamation : Reclamation) : (steps : Nat) → Evaluator σ
  | 0, _, _ => throw .exhausted
  | steps + 1, e, env => step reclamation (guarded e (evaluateWithin reclamation steps)) steps e env

/-- While a program is evaluated, every integer that is an operand of a comparison or of a division fits. -/
def OperandsFit {σ : Type} [Sink σ] (reclamation : Reclamation) (steps : Nat) (program : Expression)
    (m : Interpreter σ) : Prop :=
  evaluateWithin reclamation steps program Environment.empty m = evaluate reclamation steps program Environment.empty m

section

variable {σ : Type} {eval eval' : Evaluator σ}

/-- Unless it gives up, the evaluator ends as the other one does. -/
theorem within_approximates (h : Evaluator.Related Approximates eval eval') : Evaluator.Related Approximates (within eval) eval' := by
  intro e env m
  rcases h e env m with ⟨m', hx⟩ | heq
  · exact .inl ⟨m', bind_of_error hx _⟩
  rw [heq]
  cases hx : eval e env m with
  | error i m' => exact .inr (bind_of_error hx _).symm
  | ok r m' =>
    have hwithin : within eval e env m = (if fits r m' then pure r else throw .exhausted : Evaluation σ Evaluated) m' := bind_of_ok hx _
    rw [hwithin]
    by_cases hfits : fits r m' = true
    · rw [if_pos hfits]
      exact .inr rfl
    · rw [if_neg hfits]
      exact .inl ⟨m', rfl⟩

/-- So does the evaluator for the parts of an expression. -/
theorem guarded_approximates (e : Expression) (h : Evaluator.Related Approximates eval eval') :
    Evaluator.Related Approximates (guarded e eval) eval' := by
  cases e with
  | binary a op b =>
    by_cases hfit : op.needsFit = true
    · rw [guarded, if_pos hfit]
      exact within_approximates h
    · rw [guarded, if_neg hfit]
      exact h
  | _ => exact h

variable [Sink σ] {reclamation : Reclamation}

/-- An evaluation that does not give up ends as it does without looking at what fits. -/
theorem evaluateWithin_approximates (steps : Nat) :
    Evaluator.Related Approximates (evaluateWithin (σ := σ) reclamation steps) (evaluate reclamation steps) := by
  induction steps with
  | zero => exact fun _ _ => .refl _
  | succ steps ih =>
    intro e env
    have hparts := guarded_approximates e ih
    have hcongruence := congruence_approximates (σ := σ) reclamation
    exact hcongruence.step hparts (fun a b env => hcongruence.loop hparts a b steps env) e env

/-- Every operand fits if the evaluation that gives up otherwise ends with a result. -/
theorem operandsFit_of_ok {steps : Nat} {program : Expression} {m m' : Interpreter σ} {r : Evaluated}
    (h : evaluateWithin reclamation steps program Environment.empty m = .ok r m') : OperandsFit reclamation steps program m := by
  have hends : ∀ n, evaluateWithin reclamation steps program Environment.empty m ≠ .error .exhausted n := by
    rw [h]
    exact fun n => nofun
  exact ((evaluateWithin_approximates steps program Environment.empty).eq hends).symm

end

namespace Imperative

variable {σ : Type} {mode : Signedness} {names : List String} {values : Values} {env : Environment} {m m' : Interpreter σ}
  {eval : Evaluator σ} {a b e : Expression} {r : Evaluated} {context : String}

/-- The names have integers as values, and the interpreter keeps these in their cells. -/
structure Represents (names : List String) (values : Values) (env : Environment) (m : Interpreter σ) : Prop where
  /-- The environment is well-formed. -/
  wellFormed : env.WellFormed m.store.size
  /-- The values are in their cells. -/
  kept : KeptIn values env m.store.get? .int
  /-- The names have values. -/
  declared : ∀ x ∈ names, ∃ n, values x = some n

/-- The value of a name that is declared is found. -/
theorem Represents.resolve (h : Represents names values env m) {x : String} (hx : x ∈ names) :
    ∃ n, values x = some n ∧ ∀ context, m.resolve (.id x) env context = .ok (.int n) := by
  obtain ⟨n, hn⟩ := h.declared x hx
  obtain ⟨slot, hslot, hcell⟩ := h.kept x n hn
  refine ⟨n, hn, fun context => ?_⟩
  simp only [Interpreter.resolve, Interpreter.lookup, hslot, hcell]

/-- Fewer names are represented as well. -/
theorem Represents.mono (h : Represents names values env m) {fewer : List String} (hs : ∀ x ∈ fewer, x ∈ names) :
    Represents fewer values env m :=
  ⟨h.wellFormed, h.kept, fun x hx => h.declared x (hs x hx)⟩

/-- Where the cell of a name was changed, the name has the new value. -/
theorem Represents.set (h : Represents names values env m) {x : String} {slot : Nat} (hx : env.find? x = some slot)
    {n : Int32} {store : Store} (hs : m.store.set? slot (.int n) = some store) :
    Represents (x :: names) (values.set x n) env { m with store } := by
  refine ⟨?_, h.kept.set h.wellFormed hx (Store.get?_of_set? hs), fun y hy => ?_⟩
  · show env.WellFormed store.size
    rw [Store.size_of_set? hs]
    exact h.wellFormed
  · by_cases hyx : y = x
    · exact ⟨n, by rw [hyx, Values.set, Function.update_self]⟩
    · obtain ⟨k, hk⟩ := h.declared y ((List.mem_cons.1 hy).resolve_left hyx)
      exact ⟨k, by rw [Values.set, Function.update_of_ne hyx, hk]⟩

/-- Where a name was bound anew, it has no value for now; the other names have theirs. -/
theorem Represents.bind (h : Represents names values env m) (x : String) (value : Value) :
    Represents (names.filter (· ≠ x)) (Function.update values x none) (env.bind x m.store.size)
      { m with store := (m.store.alloc value).2 } := by
  refine ⟨?_, h.kept.bind h.wellFormed x fun slot hslot => ?_, fun y hy => ?_⟩
  · show (env.bind x m.store.size).WellFormed (m.store.alloc value).2.size
    rw [Store.size_alloc]
    exact h.wellFormed.bind x
  · exact (Store.get?_alloc _ _ _).trans (if_neg (Nat.ne_of_lt hslot))
  · obtain ⟨hy, hyx⟩ := List.mem_filter.1 hy
    obtain ⟨n, hn⟩ := h.declared y hy
    exact ⟨n, by rw [Function.update_of_ne (of_decide_eq_true hyx), hn]⟩

/-- An evaluator that gives up at integers that do not fit succeeds only where the value is none of these. -/
theorem of_within_ok (h : within eval e env m = .ok r m') :
    eval e env m = .ok r m' ∧ ∀ n, m'.resolve r.value r.env "" = .ok (.int n) → Fits n := by
  simp only [within, bind_ok_iff, get_ok_iff] at h
  obtain ⟨r₁, m₁, he, _, _, ⟨rfl, rfl⟩, h⟩ := h
  cases hfits : fits r₁ m₁ with
  | false =>
    rw [hfits] at h
    cases h
  | true =>
    rw [hfits] at h
    obtain ⟨rfl, rfl⟩ := pure_ok_iff.1 h
    refine ⟨he, fun n hn => ?_⟩
    simp only [fits, hn, decide_eq_true_eq] at hfits
    exact hfits

/-! ## Arithmetic expressions -/

/-- Where the expression is evaluated, nothing changes, and its value is the integer that it stands for; it fits if it has to. -/
def Reads (eval : Evaluator σ) (fit : Bool) (values : Values) (env : Environment) (m : Interpreter σ) (a : Expression) : Prop :=
  ∀ r m', eval a env m = .ok r m' → m' = m ∧ r.env = env ∧
    ∃ n, arithmetic? values a = some n ∧ (fit = true → Fits n) ∧ ∀ context, m.resolve r.value env context = .ok (.int n)

/-- An operand that has to fit does so where the evaluator gives up otherwise. -/
theorem Reads.guarded (h : Reads eval false values env m e) (op : Operator) :
    Reads (guarded (.binary a op b) eval) op.needsFit values env m e := by
  intro r m' he
  unfold Evaluation.guarded at he
  dsimp only at he
  cases hfit : op.needsFit with
  | false =>
    rw [hfit] at he
    exact h r m' he
  | true =>
    rw [hfit] at he
    obtain ⟨he, hn⟩ := of_within_ok he
    obtain ⟨rfl, rfl, n, hv, -, hr⟩ := h r m' he
    exact ⟨rfl, rfl, n, hv, fun _ => hn n (hr ""), hr⟩

/-- An operand is the integer that it stands for. -/
theorem Reads.operand {fit : Bool} (h : Reads eval fit values env m a) (he : operand eval a env context m = .ok r m') :
    m' = m ∧ ∃ n, r = ⟨.int n, env⟩ ∧ arithmetic? values a = some n ∧ (fit = true → Fits n) := by
  obtain ⟨r₁, v, heval, hv, rfl⟩ := operand_ok_iff.1 he
  obtain ⟨rfl, henv, n, hn, hfits, hresolve⟩ := h r₁ m' heval
  rw [henv, hresolve] at hv
  cases hv
  exact ⟨rfl, n, by rw [henv], hn, hfits⟩

/-- Both operands of an operator are the integers that they stand for. -/
theorem Reads.operands {fit : Bool} (ha : Reads eval fit values env m a) (hb : Reads eval fit values env m b)
    {β : Type} {f : Value → Value → Except EvalError β} {g : β → Value}
    (h : (do
      let l ← Evaluation.operand eval a env context
      let r ← Evaluation.operand eval b l.env context
      return ⟨g (← ofExcept (f l.value r.value)), r.env⟩ : Evaluation σ Evaluated) m = .ok r m') :
    m' = m ∧ ∃ x y v, arithmetic? values a = some x ∧ arithmetic? values b = some y ∧ (fit = true → Fits x ∧ Fits y) ∧
      f (.int x) (.int y) = .ok v ∧ r = ⟨g v, env⟩ := by
  simp only [bind_ok_iff, ofExcept_ok_iff, pure_ok_iff] at h
  obtain ⟨l, m₁, hl, r₁, m₂, hr, v, m₃, ⟨hv, rfl⟩, rfl, rfl⟩ := h
  obtain ⟨rfl, x, rfl, hx, hfx⟩ := ha.operand hl
  obtain ⟨rfl, y, rfl, hy, hfy⟩ := hb.operand hr
  exact ⟨rfl, x, y, v, hx, hy, fun h => ⟨hfx h, hfy h⟩, hv, rfl⟩

variable [Sink σ] {reclamation : Reclamation} {steps : Nat}

/-- An arithmetic expression is evaluated to what it stands for. -/
theorem reads_evaluateWithin (h : IsArithmetic mode names a) (hm : Represents names values env m) :
    Reads (evaluateWithin reclamation steps) false values env m a := by
  induction h generalizing steps with
  | integer n =>
    intro r m' he
    cases steps with
    | zero => cases he
    | succ steps =>
      obtain ⟨rfl, rfl⟩ := pure_ok_iff.1 he
      exact ⟨rfl, rfl, n, rfl, fun h => (nomatch h), fun _ => rfl⟩
  | identifier hx =>
    intro r m' he
    cases steps with
    | zero => cases he
    | succ steps =>
      obtain ⟨rfl, rfl⟩ := pure_ok_iff.1 he
      obtain ⟨n, hn, hr⟩ := hm.resolve hx
      exact ⟨rfl, rfl, n, hn, fun h => (nomatch h), hr⟩
  | @binary a b o ha hb ho iha ihb =>
    intro r m' he
    cases steps with
    | zero => cases he
    | succ steps =>
      obtain ⟨rfl, x, y, v, hx, hy, hfits, hv, rfl⟩ := Reads.operands ((@iha steps).guarded (.arithmetic o))
        ((@ihb steps).guarded (.arithmetic o)) he
      have hdiv : o = .div → Fits x ∧ Fits y := by
        rintro rfl
        exact hfits rfl
      cases hn : o.onIntegers x y with
      | error e =>
        simp only [Arithmetic.apply, hn] at hv
        cases hv
      | ok n =>
        simp only [Arithmetic.apply, hn] at hv
        cases hv
        refine ⟨rfl, rfl, n, ?_, fun h => (nomatch h), fun context => rfl⟩
        simp only [arithmetic?, hx, hy]
        exact compute?_of_ok hdiv hn

/-! ## Tests and statements -/

/-- The value of a test is its outcome, and nothing changes. -/
theorem operand_test (h : IsTest mode names a) (hm : Represents names values env m)
    (he : operand (evaluateWithin reclamation steps) a env context m = .ok r m') :
    m' = m ∧ ∃ t, r = ⟨.bool t, env⟩ ∧ test? values a = some t := by
  obtain ⟨r₁, v, heval, hv, rfl⟩ := operand_ok_iff.1 he
  cases steps with
  | zero => cases heval
  | succ steps =>
    cases h with
    | boolean b =>
      obtain ⟨rfl, rfl⟩ := pure_ok_iff.1 heval
      cases hv
      exact ⟨rfl, b, rfl, rfl⟩
    | @comparison a b o ha hb =>
      obtain ⟨rfl, x, y, t, hx, hy, hfits, ht, rfl⟩ := Reads.operands
        ((reads_evaluateWithin ha hm).guarded (.comparison o)) ((reads_evaluateWithin hb hm).guarded (.comparison o)) heval
      cases hv
      refine ⟨rfl, t, rfl, ?_⟩
      simp only [test?, hx, hy]
      exact (if_pos (hfits rfl)).trans (congrArg some (Except.ok.inj ht))

/-- After a test, what is evaluated is what its outcome says. -/
theorem test_ok {f g : Evaluated → Evaluation σ Evaluated} (h : IsTest mode names a) (hm : Represents names values env m)
    (he : (do
      let test ← operand (evaluateWithin reclamation steps) a env context
      if ← ofExcept (test.value.expectBool context) then f test else g test : Evaluation σ Evaluated) m = .ok r m') :
    test? values a = some true ∧ f ⟨.bool true, env⟩ m = .ok r m' ∨
      test? values a = some false ∧ g ⟨.bool false, env⟩ m = .ok r m' := by
  obtain ⟨r₁, m₁, htest, he⟩ := bind_ok_iff.1 he
  obtain ⟨rfl, t, rfl, ht⟩ := operand_test h hm htest
  cases t with
  | true => exact .inl ⟨ht, he⟩
  | false => exact .inr ⟨ht, he⟩

/-- An assignment of an arithmetic expression to a name changes the cell of the name and nothing else. -/
theorem step_assign_ok {turns : Nat} {place : Expression}
    (h : step reclamation eval turns (.assign place a) env m = .ok r m') :
    ∃ place' m₁, eval place env m = .ok place' m₁ ∧ ∀ x slot values, place'.value = .id x → place'.env.find? x = some slot →
      Reads eval false values place'.env m₁ a → ∃ n store, arithmetic? values a = some n ∧
        m₁.store.set? slot (.int n) = some store ∧ m' = { m₁ with store } ∧ r = ⟨.id x, place'.env⟩ := by
  obtain ⟨p, m₁, y, slot', r₁, m₂, v, m₃, store, hp, hy, hslot', hr, hv, hrecapture, hset, rfl, rfl⟩ := assign_ok h
  refine ⟨p, m₁, hp, fun x slot values hx hslot hreads => ?_⟩
  rw [hy] at hx
  cases hx
  rw [hslot'] at hslot
  cases hslot
  obtain ⟨rfl, henv, n, hn, -, hresolve⟩ := hreads r₁ m₂ hr
  rw [henv, hresolve] at hv
  cases hv
  obtain ⟨-, rfl⟩ := pure_ok_iff.1 hrecapture
  exact ⟨n, store, hn, hset, rfl, by rw [henv]⟩

/-- Where `e` is evaluated, it does to the values of names what `P` says, and binds none. -/
def Acts (eval : Evaluator σ) (names : List String) (env : Environment) (e : Expression) (P : Values → Values → Prop) : Prop :=
  ∀ values r m m', Represents names values env m → eval e env m = .ok r m' →
    r.env = env ∧ ∃ values', P values values' ∧ Represents names values' env m'

/-- Where a loop is evaluated, it takes its turns. -/
theorem turns_of_loop (hc : IsTest mode names b) (ha : Acts (evaluateWithin (σ := σ) reclamation steps) names env a (Executes a))
    {turns : Nat} (hm : Represents names values env m)
    (he : loop (evaluateWithin reclamation steps) b a turns env m = .ok r m') :
    r.env = env ∧ ∃ values', Turns (test? · b) (Executes a) values values' ∧ Represents names values' env m' := by
  induction turns generalizing values m with
  | zero => cases he
  | succ turns ih =>
    rcases test_ok hc hm he with ⟨ht, he⟩ | ⟨ht, he⟩
    · obtain ⟨r₁, m₁, hb, he⟩ := bind_ok_iff.1 he
      obtain ⟨henv, values₁, hx, hm₁⟩ := ha _ _ _ _ hm hb
      rw [henv] at he
      obtain ⟨henv, values₂, hturns, hm₂⟩ := ih hm₁ he
      exact ⟨henv, values₂, .again ht hx hturns, hm₂⟩
    · obtain ⟨rfl, rfl⟩ := pure_ok_iff.1 he
      exact ⟨rfl, values, .done ht, hm⟩

omit [Sink σ] in
/-- Where statements are evaluated one after the other, each does what it does. -/
theorem executesAll_of_sequence {es : List Expression} (hes : ∀ e ∈ es, Acts eval names env e (Executes e)) {last : Evaluated}
    (hlast : last.env = env) (hm : Represents names values env m) (he : sequence eval es last m = .ok r m') :
    r.env = env ∧ ∃ values', ExecutesAll es values values' ∧ Represents names values' env m' := by
  induction es generalizing values last m with
  | nil =>
    obtain ⟨rfl, rfl⟩ := pure_ok_iff.1 he
    exact ⟨hlast, values, rfl, hm⟩
  | cons e rest ih =>
    obtain ⟨r₁, m₁, h, he⟩ := bind_ok_iff.1 he
    rw [hlast] at h
    obtain ⟨henv, values₁, hx, hm₁⟩ := hes e List.mem_cons_self _ _ _ _ hm h
    obtain ⟨henv, values₂, hrest, hm₂⟩ := ih (fun e he => hes e (List.mem_cons_of_mem _ he)) henv hm₁ he
    exact ⟨henv, values₂, ⟨values₁, hx, hrest⟩, hm₂⟩

/-- Where a statement is evaluated, it does what it does to the values of names. -/
theorem acts_evaluateWithin (h : IsStatement mode names e) :
    Acts (evaluateWithin (σ := σ) reclamation steps) names env e (Executes e) := by
  induction h generalizing steps with
  | @assign x a hx ha =>
    intro values r m m' hm he
    cases steps with
    | zero => cases he
    | succ steps =>
      obtain ⟨place, m₁, hplace, hassign⟩ := step_assign_ok he
      cases steps with
      | zero => cases hplace
      | succ steps =>
        obtain ⟨rfl, rfl⟩ := pure_ok_iff.1 hplace
        obtain ⟨k, hk⟩ := hm.declared x hx
        obtain ⟨slot, hslot, -⟩ := hm.kept x k hk
        obtain ⟨n, store, hn, hset, rfl, rfl⟩ := hassign x slot values rfl hslot (reads_evaluateWithin ha hm)
        exact ⟨rfl, _, ⟨n, hn, rfl⟩, (hm.set hslot hset).mono fun _ => List.mem_cons_of_mem x⟩
  | @choice c a hc _ iha =>
    intro values r m m' hm he
    cases steps with
    | zero => cases he
    | succ steps =>
      rcases test_ok hc hm he with ⟨ht, he⟩ | ⟨ht, he⟩
      · obtain ⟨henv, values', hx, hm'⟩ := iha _ _ _ _ hm he
        exact ⟨henv, values', .inl ⟨ht, hx⟩, hm'⟩
      · obtain ⟨rfl, rfl⟩ := pure_ok_iff.1 he
        exact ⟨rfl, values, .inr ⟨ht, rfl⟩, hm⟩
  | @alternative c a b hc _ _ iha ihb =>
    intro values r m m' hm he
    cases steps with
    | zero => cases he
    | succ steps =>
      rcases test_ok hc hm he with ⟨ht, he⟩ | ⟨ht, he⟩
      · obtain ⟨henv, values', hx, hm'⟩ := iha _ _ _ _ hm he
        exact ⟨henv, values', .inl ⟨ht, hx⟩, hm'⟩
      · obtain ⟨henv, values', hx, hm'⟩ := ihb _ _ _ _ hm he
        exact ⟨henv, values', .inr ⟨ht, hx⟩, hm'⟩
  | loop hc _ iha =>
    intro values r m m' hm he
    cases steps with
    | zero => cases he
    | succ steps => exact turns_of_loop hc iha hm he
  | sequence _ ih =>
    intro values r m m' hm he
    cases steps with
    | zero => cases he
    | succ steps => exact executesAll_of_sequence (fun e hmem => ih e hmem) rfl hm he

/-! ## Programs -/

/-- A declaration gives the name the value of the expression. -/
theorem declare_ok {x : String} (ha : IsArithmetic mode names a) (hx : x ∉ occurring a) (hm : Represents names values env m)
    (he : evaluateWithin reclamation steps (.declare x a) env m = .ok r m') :
    ∃ n, arithmetic? values a = some n ∧ Represents (x :: names) (values.set x n) r.env m' := by
  cases steps with
  | zero => cases he
  | succ steps =>
    obtain ⟨place, m₁, hplace, hassign⟩ := step_assign_ok he
    cases steps with
    | zero => cases hplace
    | succ steps =>
      obtain ⟨env', m₂, hbind, hplace⟩ := bind_ok_iff.1 hplace
      cases hbind
      obtain ⟨rfl, rfl⟩ := pure_ok_iff.1 hplace
      have hm₁ := hm.bind x .void
      have hslot : (env.bind x m.store.size).find? x = some m.store.size := by
        rw [Environment.find?_bind, if_pos rfl]
      obtain ⟨n, store, hn, hset, rfl, rfl⟩ := hassign x _ _ rfl hslot (reads_evaluateWithin (ha.filter hx) hm₁)
      rw [ha.value_update values none hx] at hn
      refine ⟨n, hn, ?_⟩
      have hm₂ := hm₁.set hslot hset
      rw [Values.set, Function.update_idem] at hm₂
      refine hm₂.mono fun y hy => ?_
      by_cases hyx : y = x
      · exact hyx ▸ List.mem_cons_self
      · have hmem := (List.mem_cons.1 hy).resolve_left hyx
        exact List.mem_cons_of_mem x (List.mem_filter.2 ⟨hmem, decide_eq_true hyx⟩)

/-- If a program is evaluated to an integer, it yields this integer. -/
theorem yields_of_sequence {es : List Expression} (h : IsProgram mode names es) {last : Evaluated}
    (hm : Represents names values last.env m) (he : sequence (evaluateWithin reclamation steps) es last m = .ok r m') :
    ∃ v, Yields es values v ∧ ∀ context, m'.resolve r.value r.env context = .ok (.int v) := by
  induction h generalizing values last m with
  | result ha =>
    obtain ⟨r₁, m₁, heval, he⟩ := bind_ok_iff.1 he
    obtain ⟨rfl, rfl⟩ := pure_ok_iff.1 he
    obtain ⟨rfl, henv, n, hn, -, hr⟩ := reads_evaluateWithin ha hm _ _ heval
    exact ⟨n, .result hn, by rw [henv]; exact hr⟩
  | declare ha hx _ ih =>
    obtain ⟨r₁, m₁, heval, he⟩ := bind_ok_iff.1 he
    obtain ⟨n, hn, hm₁⟩ := declare_ok ha hx hm heval
    obtain ⟨v, hv, hr⟩ := ih hm₁ he
    exact ⟨v, .declare hn hv, hr⟩
  | statement hs _ ih =>
    obtain ⟨r₁, m₁, heval, he⟩ := bind_ok_iff.1 he
    obtain ⟨henv, values', hx, hm₁⟩ := acts_evaluateWithin hs _ _ _ _ hm heval
    rw [← henv] at hm₁
    obtain ⟨v, hv, hr⟩ := ih hm₁ he
    exact ⟨v, .statement hx hv, hr⟩

/-- An imperative program that the interpreter evaluates to an integer yields this integer, if all operands fit that have to. -/
theorem yields_of_run {es : List Expression} (h : IsProgram mode [] es) {output : σ} {v : Int32} {m' : Interpreter σ}
    (hrun : run reclamation steps (.sequence es) (.initial output) = .ok (.int v) m')
    (hfit : OperandsFit reclamation steps (.sequence es) (.initial output)) : Yields es Values.none v := by
  obtain ⟨r, he, hresult⟩ := run_ok hrun
  rw [← hfit] at he
  cases steps with
  | zero => cases he
  | succ steps =>
    have hm : Represents [] Values.none (Evaluated.mk .void .empty).env (Interpreter.initial output) :=
      ⟨Environment.wellFormed_empty _, .none _ _ _, fun x hx => nomatch hx⟩
    obtain ⟨w, hw, hr⟩ := yields_of_sequence h hm he
    rw [hr] at hresult
    cases hresult
    exact hw

end Imperative

end ExprLang
