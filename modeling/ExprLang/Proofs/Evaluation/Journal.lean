import ExprLang.Proofs.Evaluation.Accounting
import ExprLang.Proofs.Evaluation.Operations

/-!
# The evaluations that an evaluation is made of

`step` evaluates an expression with the help of an evaluator for its parts. If that evaluator keeps a journal (`Evaluator.noted`), the
journal says afterwards which parts were evaluated, in which environments and from which states (`visits`). It is kept beside the sink,
at which no evaluation looks, so keeping it changes nothing else.

What is proved here of every kind of expression is how an evaluation and its journal belong together: the parts are evaluated one after
the other as long as each of them ends with a result, and an interruption of one is an interruption of the whole, from the same state
(`Unwinds`). A call is the exception, since it takes the return of the body it runs, and gives cells back; what it does before is no
exception (`Unwound`).
-/

namespace ExprLang

/-! ## Parts and bodies of blocks -/

namespace Expression

/-- The expressions directly in an expression, other than the body of a function. -/
def children : Expression → List Expression
  | .scope body => [body]
  | e => e.parts

/-- A child is smaller than the whole. -/
theorem sizeOf_lt_of_mem_children {a e : Expression} (h : a ∈ e.children) : sizeOf a < sizeOf e := by
  cases e with
  | scope body =>
    rcases List.mem_singleton.1 h with rfl
    simp
  | _ => exact sizeOf_lt_of_mem_parts h

/-- Ends the call that is running. -/
def isReturn : Expression → Bool
  | .ret _ => true
  | _ => false

/-- Whether there is a return in the expression outside of function bodies. -/
def returns (e : Expression) : Bool :=
  e.isReturn || e.children.attach.any fun a => returns a.1
termination_by sizeOf e
decreasing_by exact sizeOf_lt_of_mem_children a.2

/-- An expression returns if it is a return or one of its children returns. -/
theorem returns_eq (e : Expression) : e.returns = (e.isReturn || e.children.any returns) := by
  rw [returns]
  simp only [List.any_subtype, List.unattach_attach]

/-- If there is a return in a direct part, there is one in the whole. -/
theorem returns_of_mem_children {a e : Expression} (ha : a ∈ e.children) (h : a.returns = true) : e.returns = true := by
  rw [returns_eq, Bool.or_eq_true, List.any_eq_true]
  exact .inr ⟨a, ha, h⟩

theorem returns_of_isReturn {e : Expression} (h : e.isReturn = true) : e.returns = true := by
  rw [returns_eq, h, Bool.true_or]

end Expression

variable {σ α β : Type}

/-! ## Keeping a journal -/

/-- The evaluation of a part of an expression, where it begins. -/
structure Visit (σ : Type) where
  /-- What is evaluated. -/
  part : Expression
  /-- The environment it is evaluated in. -/
  env : Environment
  /-- The state from which it is evaluated. -/
  before : Interpreter σ

/-- A sink, and what was evaluated so far. -/
structure Journal (σ : Type) where
  /-- The sink. -/
  sink : σ
  /-- The evaluations in the order in which they began. -/
  visits : List (Visit σ)

instance [Sink σ] : Sink (Journal σ) where
  write journal s :=
    let (sink, taken) := Sink.write journal.sink s
    ({ journal with sink }, taken)

/-- The interruption neither ends a call, nor is it the error that only a program as a whole ends with. -/
def Interrupt.Ordinary : Interrupt → Prop
  | .returned _ => False
  | .failed e => e ≠ .returnOutsideFunction
  | .exhausted => True

namespace Interpreter

/-- The same state with a journal. -/
def noting (visits : List (Visit σ)) (m : Interpreter σ) : Interpreter (Journal σ) :=
  ⟨m.store, m.closures, m.captures, ⟨m.output, visits⟩⟩

/-- The same state without its journal. -/
def plain (m : Interpreter (Journal σ)) : Interpreter σ := ⟨m.store, m.closures, m.captures, m.output.sink⟩

end Interpreter

namespace Evaluation

/-- The same end with a journal. -/
def noting (visits : List (Visit σ)) :
    EStateM.Result Interrupt (Interpreter σ) α → EStateM.Result Interrupt (Interpreter (Journal σ)) α
  | .ok a m => .ok a (m.noting visits)
  | .error i m => .error i (m.noting visits)

/-- The evaluator that does what `eval` does and keeps a journal of it. -/
def Evaluator.noted (eval : Evaluator σ) : Evaluator (Journal σ) := fun e env m =>
  noting (m.output.visits ++ [⟨e, env, m.plain⟩]) (eval e env m.plain)

/-- How the evaluation of a part ends. -/
def outcome (eval : Evaluator σ) (visit : Visit σ) : EStateM.Result Interrupt (Interpreter σ) Evaluated :=
  eval visit.part visit.env visit.before

/-- What is evaluated when an expression is evaluated with the evaluator `eval` for its parts. -/
def visits [Sink σ] (reclamation : Reclamation) (eval : Evaluator σ) (turns : Nat) (e : Expression) (env : Environment)
    (m : Interpreter σ) : List (Visit σ) :=
  (finalState (step reclamation eval.noted turns e env (m.noting []))).output.visits

/-- What is evaluated, with `steps` steps, when an expression is evaluated with one step more. -/
def visited [Sink σ] (reclamation : Reclamation) (steps : Nat) (e : Expression) (env : Environment) (m : Interpreter σ) :
    List (Visit σ) :=
  visits reclamation (evaluate reclamation steps) steps e env m

/-- The visits in which direct parts of the expression are evaluated: of a call, what is called and the arguments, after which comes
the body of what is called. -/
def direct : Expression → List (Visit σ) → List (Visit σ)
  | .call _ as, visits => visits.take (as.length + 1)
  | _, visits => visits

/-! ## Computations with a journal and without -/

/-- The computation `x` does what `y` does and adds visits to the journal, which with the end of `y` satisfy `P`. -/
def Traced (P : List (Visit σ) → EStateM.Result Interrupt (Interpreter σ) α → Prop) (x : Evaluation (Journal σ) α)
    (y : Evaluation σ α) (m : Interpreter σ) : Prop :=
  ∀ visits, ∃ more, x (m.noting visits) = noting (visits ++ more) (y m) ∧ P more (y m)

section

variable {P R : List (Visit σ) → EStateM.Result Interrupt (Interpreter σ) α → Prop}
  {Q S : List (Visit σ) → EStateM.Result Interrupt (Interpreter σ) β → Prop}
  {x : Evaluation (Journal σ) α} {y : Evaluation σ α} {m : Interpreter σ}

/-- What is known of the visits may be weakened. -/
theorem Traced.imp (h : Traced P x y m) (hPR : ∀ more, P more (y m) → R more (y m)) : Traced R x y m := by
  intro visits
  obtain ⟨more, hx, hP⟩ := h visits
  exact ⟨more, hx, hPR more hP⟩

/-- The visits of two computations one after the other. -/
theorem Traced.bind {f : α → Evaluation (Journal σ) β} {g : α → Evaluation σ β} (h : Traced P x y m)
    (hf : ∀ a m', Traced Q (f a) (g a) m') (herror : ∀ more i m', P more (.error i m') → S more (.error i m'))
    (hok : ∀ more a m' more' o, P more (.ok a m') → Q more' o → S (more ++ more') o) :
    Traced S (x >>= f) (y >>= g) m := by
  intro visits
  obtain ⟨more, hx, hP⟩ := h visits
  cases hy : y m with
  | ok a m' =>
    rw [hy] at hx hP
    obtain ⟨more', hg, hQ⟩ := hf a m' (visits ++ more)
    rw [bind_of_ok hy]
    refine ⟨more ++ more', ?_, hok more a m' more' _ hP hQ⟩
    rw [bind_of_ok hx, hg, List.append_assoc]
  | error i m' =>
    rw [hy] at hx hP
    rw [bind_of_error hy]
    exact ⟨more, bind_of_error hx f, herror more i m' hP⟩

end

/-! ## Operations -/

/-- The operation does the same with a journal and without, and evaluates nothing. -/
structure Overlooks (x : Evaluation (Journal σ) α) (y : Evaluation σ α) : Prop where
  /-- The journal stays what it is. -/
  same : ∀ m visits, x (m.noting visits) = noting visits (y m)
  /-- The operation has no part in how calls end. -/
  ordinary : ∀ {m i m'}, y m = .error i m' → i.Ordinary

/-- Operations may follow each other. -/
theorem Overlooks.bind {x : Evaluation (Journal σ) α} {y : Evaluation σ α} {f : α → Evaluation (Journal σ) β}
    {g : α → Evaluation σ β} (h : Overlooks x y) (hf : ∀ a, Overlooks (f a) (g a)) : Overlooks (x >>= f) (y >>= g) := by
  constructor
  · intro m visits
    have hx := h.same m visits
    cases hy : y m with
    | ok a m' =>
      rw [hy] at hx
      rw [bind_of_ok hx, bind_of_ok hy]
      exact (hf a).same m' visits
    | error i m' =>
      rw [hy] at hx
      rw [bind_of_error hx, bind_of_error hy]
      rfl
  · intro m i m' h'
    cases hy : y m with
    | ok a m₁ =>
      rw [bind_of_ok hy] at h'
      exact (hf a).ordinary h'
    | error i₁ m₁ =>
      rw [bind_of_error hy] at h'
      cases h'
      exact h.ordinary hy

/-- What has nothing to do with the sink has nothing to do with the journal beside it. -/
theorem Silent.overlooks {x : ∀ σ, Evaluation σ α} (h : Silent x) : Overlooks (x (Journal σ)) (x σ) := by
  constructor
  · intro m visits
    have houtput := h.output m
    refine (h.same m (⟨m.output, visits⟩ : Journal σ)).trans ?_
    rw [← houtput]
    cases x σ m <;> rfl
  · intro m i m' h'
    have hi := h.failed h'
    cases i with
    | failed e => exact hi.2
    | returned v => exact hi
    | exhausted => exact hi.elim

theorem write_noting [Sink σ] (m : Interpreter σ) (visits : List (Visit σ)) (s : String) :
    Sink.write (m.noting visits).output s = (⟨(Sink.write m.output s).1, visits⟩, (Sink.write m.output s).2) := rfl

/-- Output goes to the sink behind the journal. -/
theorem overlooks_write [Sink σ] (s : String) :
    Overlooks (write s : Evaluation (Journal σ) Unit) (write s : Evaluation σ Unit) := by
  constructor
  · intro m visits
    simp only [write, write_noting]
    obtain ⟨sink, taken⟩ := Sink.write m.output s
    cases taken <;> rfl
  · intro m i m' h'
    unfold write at h'
    split at h' <;> cases h'
    exact fun h => nomatch h

theorem overlooks_printLine [Sink σ] (s : String) :
    Overlooks (printLine s : Evaluation (Journal σ) Unit) (printLine s : Evaluation σ Unit) := by
  unfold printLine
  by_cases h : s ≠ ""
  · simp only [if_pos h]
    exact (overlooks_write s).bind fun _ => overlooks_write "\n"
  · simp only [if_neg h]
    exact overlooks_write "\n"

/-! ## Parts one after the other -/

/-- How the visits of parts of an expression and the end of a computation belong together: every visit but the last ends with a
result, and if the last one is interrupted, the whole is, by the same interruption and in the same state. -/
inductive Unwinds (eval : Evaluator σ) (e : Expression) : List (Visit σ) → EStateM.Result Interrupt (Interpreter σ) α → Prop
  /-- Nothing is evaluated any more. Only the expression that ends a call ends one by itself. -/
  | ends {o : EStateM.Result Interrupt (Interpreter σ) α} :
      (∀ {i m}, o = .error i m → i.Ordinary ∨ e.isReturn = true ∧ ∃ v, i = .returned v) → Unwinds eval e [] o
  /-- The last visit is interrupted. -/
  | stops {visit : Visit σ} {i : Interrupt} {m : Interpreter σ} :
      visit.part ∈ e.children → outcome eval visit = .error i m → Unwinds eval e [visit] (.error i m)
  /-- A visit ends with a result. -/
  | continues {visit : Visit σ} {r : Evaluated} {m : Interpreter σ} {rest : List (Visit σ)}
      {o : EStateM.Result Interrupt (Interpreter σ) α} :
      visit.part ∈ e.children → outcome eval visit = .ok r m → Unwinds eval e rest o → Unwinds eval e (visit :: rest) o

section

variable {eval : Evaluator σ} {e : Expression} {visits more : List (Visit σ)}

/-- What follows a computation that has a result. -/
theorem Unwinds.append {a : α} {m : Interpreter σ} {o : EStateM.Result Interrupt (Interpreter σ) β}
    (h : Unwinds eval e visits (.ok a m : EStateM.Result Interrupt (Interpreter σ) α)) (h' : Unwinds eval e more o) :
    Unwinds eval e (visits ++ more) o := by
  generalize ho : (EStateM.Result.ok a m : EStateM.Result Interrupt (Interpreter σ) α) = o₁ at h
  induction h with
  | ends => exact h'
  | stops => cases ho
  | continues hp hv _ ih => exact .continues hp hv (ih ho)

/-- What follows a computation that is interrupted is not reached. -/
theorem Unwinds.error {i : Interrupt} {m : Interpreter σ}
    (h : Unwinds eval e visits (.error i m : EStateM.Result Interrupt (Interpreter σ) α)) :
    Unwinds eval e visits (.error i m : EStateM.Result Interrupt (Interpreter σ) β) := by
  generalize ho : (EStateM.Result.error i m : EStateM.Result Interrupt (Interpreter σ) α) = o at h
  induction h with
  | ends hi =>
    refine .ends fun {i' m'} h' => ?_
    cases h'
    exact hi ho.symm
  | stops hp hv =>
    cases ho
    exact .stops hp hv
  | continues hp hv _ ih => exact .continues hp hv (ih ho)

/-- All visits are of parts. -/
theorem Unwinds.part_mem {o : EStateM.Result Interrupt (Interpreter σ) α} (h : Unwinds eval e visits o) :
    ∀ visit ∈ visits, visit.part ∈ e.children := by
  induction h with
  | ends => exact fun visit hv => nomatch hv
  | stops hp _ =>
    intro visit hv
    rcases List.mem_singleton.1 hv with rfl
    exact hp
  | continues hp _ _ ih =>
    intro visit hv
    rcases List.mem_cons.1 hv with rfl | hv
    · exact hp
    · exact ih visit hv

/-- A visit that is interrupted is the last one, and the whole is interrupted in the same way. -/
theorem Unwinds.last {o : EStateM.Result Interrupt (Interpreter σ) α} (h : Unwinds eval e visits o) {before after : List (Visit σ)}
    {visit : Visit σ} {i : Interrupt} {m : Interpreter σ} (hvisits : visits = before ++ visit :: after)
    (hv : outcome eval visit = .error i m) : after = [] ∧ o = .error i m := by
  induction h generalizing before with
  | ends => simp at hvisits
  | @stops visit' i' m' _ hv' =>
    cases before with
    | nil =>
      cases hvisits
      rw [hv'] at hv
      cases hv
      exact ⟨rfl, rfl⟩
    | cons b before => simp at hvisits
  | continues _ hv' _ ih =>
    cases before with
    | nil =>
      cases hvisits
      rw [hv'] at hv
      cases hv
    | cons b before =>
      cases hvisits
      exact ih rfl

/-- An interruption that is not ordinary comes from a part, except where the expression ends a call. -/
theorem Unwinds.interrupted {o : EStateM.Result Interrupt (Interpreter σ) α} (h : Unwinds eval e visits o) {i : Interrupt}
    {m : Interpreter σ} (ho : o = .error i m) :
    i.Ordinary ∨ (e.isReturn = true ∧ ∃ v, i = .returned v) ∨ ∃ visit ∈ visits, outcome eval visit = .error i m := by
  induction h with
  | ends hi => exact (hi ho).imp id .inl
  | @stops visit i' m' _ hv =>
    cases ho
    exact .inr (.inr ⟨visit, List.mem_singleton_self _, hv⟩)
  | continues _ _ _ ih => exact (ih ho).imp id (Or.imp id fun ⟨visit, hmem, hv⟩ => ⟨visit, List.mem_cons_of_mem _ hmem, hv⟩)

end

end Evaluation

end ExprLang
