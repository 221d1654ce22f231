import ExprLang.Proofs.Evaluation.Contents
import ExprLang.Proofs.Evaluation.Unwinding

/-!
# Names are resolved before they are kept

A name is a value only on its way to where it is resolved. What is kept in a cell or in a record, handed to a function, returned or
printed is resolved (`Value.Resolved`), at every depth of records, as long as this holds of the values that are bound from outside
(`names_never_escape`). So names are never compared and no value is ever found to be one.

To be resolved is a condition that evaluations keep. With the journal as the sink it also says what is true in the middle of an
evaluation, of the states from which the parts are evaluated.
-/

namespace ExprLang

namespace Value

mutual

/-- There is no name in the value, at any depth of records. -/
def Resolved : Value → Prop
  | .id _ => False
  | .object fields => ResolvedFields fields
  | _ => True
termination_by structural v => v

/-- There is no name in any field. -/
def ResolvedFields : List (String × Value) → Prop
  | [] => True
  | (_, v) :: rest => Resolved v ∧ ResolvedFields rest
termination_by structural fields => fields

end

theorem resolvedFields_iff (fields : List (String × Value)) : ResolvedFields fields ↔ ∀ f ∈ fields, f.2.Resolved := by
  induction fields with
  | nil => simp [ResolvedFields]
  | cons f rest ih => simp [ResolvedFields, ih]

theorem Plain.resolved {v : Value} (h : v.Plain) : v.Resolved := by
  cases v with
  | id name => exact h
  | object fields => exact h.elim
  | _ => trivial

theorem Resolved.typeName_ne {v : Value} (h : v.Resolved) : v.typeName ≠ "Id" := by
  cases v with
  | id name => exact h.elim
  | _ => simp [typeName]

end Value

variable {σ : Type}

/-- No cell has a name in it. -/
def Interpreter.Resolved (m : Interpreter σ) : Prop := ∀ slot v, m.store.get? slot = some v → v.Resolved

/-- The value of a call is resolved when it is returned. -/
def Interrupt.Resolved : Interrupt → Prop
  | .returned v => v.Resolved
  | _ => True

/-- A name is what an expression may be evaluated to before it is resolved. -/
def Evaluated.Pending (r : Evaluated) : Prop := r.value.Resolved ∨ ∃ name, r.value = .id name

namespace Condition

/-- Values are resolved, and besides the sink is as it should be. -/
def resolved [Sink σ] (Output : σ → Prop) (write : ∀ output s, Output output → Output (Sink.write output s).1) : Condition σ where
  Good _ v := v.Resolved
  Output := Output
  mono hv _ := hv
  plain hv _ := hv.resolved
  closure _ := trivial
  object_iff := Value.resolvedFields_iff _
  write := write

/-- Values are resolved, whatever the sink. -/
def resolvedAnyway (σ : Type) [Sink σ] : Condition σ := resolved (fun _ => True) fun _ _ _ => trivial

/-- Values are resolved, and the parts in the journal were evaluated where they were. -/
def resolvedNoted (σ : Type) [Sink σ] : Condition (Journal σ) :=
  resolved (fun journal => ∀ visit ∈ journal.visits, visit.before.Resolved) fun _ _ hjournal => hjournal

end Condition

open Evaluation Condition

variable [Sink σ]

/-- An evaluation leaves cells resolved, and what comes of it is resolved, or a name as a whole. -/
theorem evaluate_resolved (reclamation : Reclamation) (steps : Nat) (e : Expression) (env : Environment) {m : Interpreter σ}
    (hm : m.Resolved) : Ends (fun r m' => m'.Resolved ∧ r.Pending) (fun i m' => m'.Resolved ∧ i.Resolved)
      (evaluate reclamation steps e env m) := by
  have hend := evaluate_settles (resolvedAnyway σ) reclamation steps e env m ⟨hm, trivial⟩
  exact Ends.imp hend (fun _ _ h => ⟨h.2.1.cell, h.2.2⟩) fun _ _ h => ⟨h.2.1.cell, h.2.2⟩

/-- So does a run, and the value of the program is resolved. -/
theorem run_resolved (reclamation : Reclamation) (steps : Nat) (program : Expression) {m : Interpreter σ} (hm : m.Resolved) :
    Ends (fun v m' => m'.Resolved ∧ v.Resolved) (fun _ m' => m'.Resolved) (run reclamation steps program m) := by
  have hend := run_settles (resolvedAnyway σ) reclamation steps program ⟨hm, trivial⟩
  exact Ends.imp hend (fun _ _ h => ⟨h.2.1.cell, h.2.2⟩) fun _ _ h => h.2.1.cell

/-! ## In the middle of an evaluation -/

/-- Keeping a journal, an evaluator adds to it where it began. -/
theorem settledEvaluator_noted (reclamation : Reclamation) (steps : Nat) :
    SettledEvaluator (resolvedNoted σ) (evaluate reclamation steps).noted := by
  intro e env m hm
  have hend := evaluate_settles (resolvedAnyway σ) reclamation steps e env m.plain ⟨hm.cell, trivial⟩
  have hjournal : ∀ visit ∈ m.output.visits ++ [⟨e, env, m.plain⟩], visit.before.Resolved := by
    intro visit hvisit
    rcases List.mem_append.1 hvisit with hvisit | hvisit
    · exact hm.output visit hvisit
    · rcases List.mem_singleton.1 hvisit with rfl
      exact hm.cell
  unfold Evaluator.noted
  generalize evaluate reclamation steps e env m.plain = o at hend
  cases o with
  | ok r m' => exact ⟨hend.1, ⟨hend.2.1.cell, hjournal⟩, hend.2.2⟩
  | error i m' => exact ⟨hend.1, ⟨hend.2.1.cell, hjournal⟩, hend.2.2⟩

/-- A part is evaluated from a state in which cells are resolved. -/
theorem resolved_of_mem_visited {reclamation : Reclamation} {steps : Nat} {e : Expression} {env : Environment}
    {m : Interpreter σ} (hm : m.Resolved) {visit : Visit σ} (h : visit ∈ visited reclamation steps e env m) :
    visit.before.Resolved := by
  have hstep := settles_step (settledEvaluator_noted reclamation steps) reclamation steps e env (m.noting [])
    ⟨hm, fun _ hvisit => nomatch hvisit⟩
  unfold visited visits at h
  generalize step reclamation (evaluate reclamation steps).noted steps e env (m.noting []) = o at hstep h
  cases o with
  | ok r m' => exact hstep.2.1.output visit h
  | error i m' => exact hstep.2.1.output visit h

/-- The evaluation `inner`, with `k` steps, takes place in that of `whole` with `steps` steps: it is the same, or one of a part that is
evaluated, at any depth and in any call. -/
inductive TakesPlace (reclamation : Reclamation) : (steps : Nat) → (whole : Visit σ) → (k : Nat) → (inner : Visit σ) → Prop where
  /-- The whole itself. -/
  | whole (steps : Nat) (whole : Visit σ) : TakesPlace reclamation steps whole steps whole
  /-- In the evaluation of a part. -/
  | part {steps k : Nat} {whole visit inner : Visit σ} :
      visit ∈ visited reclamation steps whole.part whole.env whole.before → TakesPlace reclamation steps visit k inner →
      TakesPlace reclamation (steps + 1) whole k inner

theorem TakesPlace.resolved {reclamation : Reclamation} {steps k : Nat} {whole inner : Visit σ}
    (h : TakesPlace reclamation steps whole k inner) (hm : whole.before.Resolved) : inner.before.Resolved := by
  induction h with
  | whole => exact hm
  | part hvisit _ ih => exact ih (resolved_of_mem_visited hm hvisit)

/-! ## Sessions -/

/-- The states of an interpreter that began with this output, after names were bound to resolved values, expressions evaluated and
programs run on it, in any order, in any environments and however each call ended. -/
inductive ResolvedSession (reclamation : Reclamation) (output : σ) : Interpreter σ → Prop where
  /-- Nothing was done. -/
  | fresh : ResolvedSession reclamation output (Interpreter.initial output)
  /-- A name was bound. -/
  | bound {m : Interpreter σ} (env : Environment) (name : String) {value : Value} :
      ResolvedSession reclamation output m → value.Resolved → ResolvedSession reclamation output (m.bind env name value).2
  /-- An expression was evaluated. -/
  | evaluated {m : Interpreter σ} (steps : Nat) (e : Expression) (env : Environment) :
      ResolvedSession reclamation output m →
      ResolvedSession reclamation output (finalState (evaluate reclamation steps e env m))
  /-- A program was run. -/
  | ran {m : Interpreter σ} (steps : Nat) (program : Expression) :
      ResolvedSession reclamation output m →
      ResolvedSession reclamation output (finalState (run reclamation steps program m))

theorem ResolvedSession.resolved {reclamation : Reclamation} {output : σ} {m : Interpreter σ}
    (h : ResolvedSession reclamation output m) : m.Resolved := by
  induction h with
  | fresh =>
    intro slot v hslot
    simp [Interpreter.initial, Store.empty, Store.get?] at hslot
  | @bound m env name value _ hv ih =>
    have hm : (resolvedAnyway σ).Settled m := ⟨ih, trivial⟩
    exact (hm.bind env name hv).cell
  | @evaluated m steps e env _ ih =>
    have hend := evaluate_resolved reclamation steps e env ih
    cases ho : evaluate reclamation steps e env m with
    | ok r m' =>
      rw [ho] at hend
      exact hend.1
    | error i m' =>
      rw [ho] at hend
      exact hend.1
  | @ran m steps program _ ih =>
    have hend := run_resolved reclamation steps program ih
    cases ho : run reclamation steps program m with
    | ok r m' =>
      rw [ho] at hend
      exact hend.1
    | error i m' =>
      rw [ho] at hend
      exact hend

/-- What an evaluation with `k` steps, so that its parts have one step less, handles has no names in it. -/
structure Nameless (reclamation : Reclamation) (k : Nat) (visit : Visit σ) : Prop where
  /-- When it begins, cells are resolved. -/
  before : visit.before.Resolved
  /-- So they are when it ends. Its value is resolved or a name as a whole, and what it returns is resolved. -/
  outcome : Ends (fun r m' => m'.Resolved ∧ r.Pending) (fun i m' => m'.Resolved ∧ i.Resolved)
    (evaluate reclamation k visit.part visit.env visit.before)
  /-- The value of a block is resolved. -/
  scope : ∀ {body r m'}, visit.part = .scope body →
    evaluate reclamation k visit.part visit.env visit.before = .ok r m' → r.value.Resolved
  /-- A function is called with arguments that are resolved. -/
  arguments : ∀ {f as g m₁ vs m₂}, visit.part = .call f as →
    operand (evaluate reclamation (k - 1)) f visit.env "Call" visit.before = .ok g m₁ →
    arguments (evaluate reclamation (k - 1)) as g.env m₁ = .ok vs m₂ → ∀ v ∈ vs.1, v.Resolved
  /-- What is printed is resolved. -/
  printed : ∀ {a r m₁}, visit.part = .print a →
    operand (evaluate reclamation (k - 1)) a visit.env "Print" visit.before = .ok r m₁ → r.value.Resolved
  /-- No name is compared. -/
  compared : ∀ {left op right l m₁ r m₂}, visit.part = .binary left (.comparison op) right →
    operand (evaluate reclamation (k - 1)) left visit.env (Operator.comparison op).name visit.before = .ok l m₁ →
    operand (evaluate reclamation (k - 1)) right l.env (Operator.comparison op).name m₁ = .ok r m₂ →
    l.value.Resolved ∧ r.value.Resolved
  /-- Nothing is found to be a name. -/
  isType : ∀ {a r m'}, visit.part = .isType a "Id" →
    evaluate reclamation k visit.part visit.env visit.before = .ok r m' → r.value = .bool false

/-- A resolved operand. -/
theorem operand_resolved {reclamation : Reclamation} {steps : Nat} {e : Expression} {env : Environment} {context : String}
    {m m' : Interpreter σ} {r : Evaluated} (hm : m.Resolved)
    (h : operand (evaluate reclamation steps) e env context m = .ok r m') : m'.Resolved ∧ r.value.Resolved := by
  have hend := settles_operand (evaluate_settles (resolvedAnyway σ) reclamation steps) ⟨hm, trivial⟩ e env context
  rw [h] at hend
  exact ⟨hend.2.1.cell, hend.2.2⟩

/-- Where cells are resolved when an evaluation begins, there are no names in what it handles. -/
theorem nameless_of_resolved (reclamation : Reclamation) (k : Nat) {visit : Visit σ} (hm : visit.before.Resolved) :
    Nameless reclamation k visit := by
  obtain ⟨e, env, m⟩ := visit
  refine ⟨hm, evaluate_resolved reclamation k e env hm, ?_, ?_, ?_, ?_, ?_⟩
  · rintro body r m' rfl h
    cases k with
    | zero => cases h
    | succ k =>
      have hend := settles_scope (evaluate_settles (resolvedAnyway σ) reclamation k) reclamation k ⟨hm, trivial⟩ env body
      change step reclamation (evaluate reclamation k) k (.scope body) env m = .ok r m' at h
      rw [h] at hend
      exact hend.2.2
  · rintro f as g m₁ vs m₂ rfl hg has
    obtain ⟨hm₁, -⟩ := operand_resolved hm hg
    have hend := settles_arguments (evaluate_settles (resolvedAnyway σ) reclamation (k - 1)) as ⟨hm₁, trivial⟩ g.env
    rw [has] at hend
    exact hend.2.2
  · rintro a r m₁ rfl hr
    exact (operand_resolved hm hr).2
  · rintro left op right l m₁ r m₂ rfl hl hr
    obtain ⟨hm₁, hl⟩ := operand_resolved hm hl
    exact ⟨hl, (operand_resolved hm₁ hr).2⟩
  · rintro a r m' rfl h
    cases k with
    | zero => cases h
    | succ k =>
      obtain ⟨x, m₁, hx, h⟩ := bind_ok_iff.1 h
      obtain ⟨rfl, -⟩ := pure_ok_iff.1 h
      have hne := (operand_resolved hm hx).2.typeName_ne
      simp [hne]

/-- Names never escape into data. As long as only resolved values are bound from outside, then in every state of an interpreter, and
in every evaluation that takes place while an expression is evaluated in it, at any depth and in any call, cells, fields of records,
what is returned or printed, arguments and the values of blocks are resolved; a name is at most the value of an expression as a whole.
So no comparison is ever made between names, and no value is found to be of their type. The value of a program is resolved. -/
theorem names_never_escape {reclamation : Reclamation} {output : σ} {m : Interpreter σ}
    (h : ResolvedSession reclamation output m) :
    m.Resolved ∧
    (∀ steps e env k inner, TakesPlace reclamation steps ⟨e, env, m⟩ k inner → Nameless reclamation k inner) ∧
    (∀ steps program v m', run reclamation steps program m = .ok v m' → v.Resolved) := by
  refine ⟨h.resolved, ?_, ?_⟩
  · intro steps e env k inner hinner
    exact nameless_of_resolved reclamation k (hinner.resolved h.resolved)
  · intro steps program v m' hrun
    have hend := run_resolved reclamation steps program h.resolved
    rw [hrun] at hend
    exact hend.2

/-- A record. -/
def oneField : Value := .object [("a", .int 1)]

/-- Gives what is known as `x` the name `y` as well. -/
def aliased : Expression := .declare "y" (.identifier "x")

/-- Both names, the new one in front. -/
def aliasedNames : Environment := ⟨[("y", 1), ("x", 0)]⟩

/-- Each name has its own cell, and both cells hold the record. -/
def aliasedState : Interpreter := ⟨⟨#[oneField, oneField]⟩, #[], 0, Output.empty none⟩

/-- The second name of a record stands for the record, not for the first name. -/
theorem names_never_escape_aliased :
    ResolvedSession .onExit (Output.empty none) aliasedState ∧ aliasedState.Resolved ∧
      (∃ r m', evaluate .onExit 2 (.isType (.identifier "y") "Id") aliasedNames aliasedState = .ok r m' ∧
        r.value = .bool false) ∧
      (∃ v m', run .onExit 4 (.sequence [.declare "x" (.object [("a", .integer 1)]), aliased]) aliasedState = .ok v m' ∧
        v.Resolved) := by
  have hbound : ResolvedSession .onExit (Output.empty none)
      ((Interpreter.initial (Output.empty none)).bind Environment.empty "x" oneField).2 :=
    .bound Environment.empty "x" .fresh ⟨trivial, trivial⟩
  have hstate : finalState (evaluate .onExit 3 aliased ⟨[("x", 0)]⟩
      ((Interpreter.initial (Output.empty none)).bind Environment.empty "x" oneField).2) = aliasedState := rfl
  have hsession := hbound.evaluated 3 aliased ⟨[("x", 0)]⟩
  rw [hstate] at hsession
  obtain ⟨hm, hevery, hrun⟩ := names_never_escape hsession
  have htype : evaluate .onExit 2 (.isType (.identifier "y") "Id") aliasedNames aliasedState =
    .ok ⟨.bool false, aliasedNames⟩ aliasedState := rfl
  have hrecord : ∃ m', run .onExit 4 (.sequence [.declare "x" (.object [("a", .integer 1)]), aliased]) aliasedState =
    .ok oneField m' := ⟨_, rfl⟩
  obtain ⟨m', hrecord⟩ := hrecord
  refine ⟨hsession, hm, ⟨_, _, htype, ?_⟩, ⟨_, _, hrecord, hrun 4 _ _ _ hrecord⟩⟩
  exact (hevery 2 _ aliasedNames 2 _ (.whole 2 _)).isType rfl htype

end ExprLang
