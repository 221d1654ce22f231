import ExprLang.Proofs.Evaluation.Advance

/-!
# What the values in cells have in common

A `Condition` is a property of values and one of sinks that nothing an evaluation does makes false: it may depend on how many closures
were made, operations on values keep it, and writing keeps the sink as it should be. If it holds of what is in cells when an evaluation
begins, it does so however this ends, and it holds of what is returned and of every result that is not a bare name
(`evaluate_settles`).

As in the proof that evaluation is safe there is one lemma for each operation and each helper of `step`. Nothing is assumed of
environments, so a name may have lost its cell.
-/

namespace ExprLang

namespace Value

/-- Neither a name nor a closure nor a record. -/
def Plain : Value → Prop
  | .id _ | .closure _ | .object _ => False
  | _ => True

/-- Arithmetic gives numbers and strings. -/
theorem plain_of_arithmetic {op : Arithmetic} {l r v : Value} (h : op.apply l r = .ok v) : v.Plain := by
  unfold Arithmetic.apply at h
  split at h
  · obtain ⟨n, -, rfl⟩ := except_map_ok_iff.1 h
    trivial
  all_goals repeat' split at h
  all_goals cases h
  all_goals trivial

/-- A length is a number. -/
theorem plain_of_stringLength {v w : Value} (h : v.stringLength = .ok w) : w.Plain := by
  obtain ⟨s, -, h⟩ := except_bind_ok_iff.1 h
  split at h <;> cases h
  trivial

/-- A part of a string is a string. -/
theorem plain_of_substring {v start stop w : Value} (h : v.substring start stop = .ok w) : w.Plain := by
  obtain ⟨s, -, h⟩ := except_bind_ok_iff.1 h
  obtain ⟨i, -, h⟩ := except_bind_ok_iff.1 h
  obtain ⟨j, -, h⟩ := except_bind_ok_iff.1 h
  split at h <;> cases h
  trivial

/-- Setting a field brings in no other value than the one that is set. -/
theorem mem_of_mem_setField {name : String} {value : Value} {fields : List (String × Value)} {f : String × Value}
    (h : f ∈ setField name value fields) : f = (name, value) ∨ f ∈ fields := by
  induction fields with
  | nil => exact .inl (List.mem_singleton.1 h)
  | cons g rest ih =>
    unfold setField at h
    split at h
    · exact List.mem_cons.1 h
    · split at h
      · exact (List.mem_cons.1 h).imp_right (List.mem_cons_of_mem g)
      · rcases List.mem_cons.1 h with rfl | h
        · exact .inr List.mem_cons_self
        · exact (ih h).imp_right (List.mem_cons_of_mem g)

/-- Whatever holds of all fields holds of those of the record. -/
theorem exists_ofFields {P : Value → Prop} {fields : List (String × Value)} (h : ∀ f ∈ fields, P f.2) :
    ∃ object, ofFields fields = .object object ∧ ∀ f ∈ object, P f.2 := by
  suffices hs : ∀ (fields object : List (String × Value)), (∀ f ∈ fields, P f.2) → (∀ f ∈ object, P f.2) →
      ∀ f ∈ fields.foldl (fun object field => setField field.1 field.2 object) object, P f.2 from
    ⟨_, rfl, hs fields [] h fun f hf => nomatch hf⟩
  intro fields
  induction fields with
  | nil => exact fun object _ ho => ho
  | cons f rest ih =>
    intro object hf ho
    refine ih (setField f.1 f.2 object) (fun g hg => hf g (List.mem_cons_of_mem f hg)) fun g hg => ?_
    rcases mem_of_mem_setField hg with rfl | hg
    · exact hf f List.mem_cons_self
    · exact ho g hg

end Value

/-- What holds of values and of the sink throughout. -/
structure Condition (σ : Type) [Sink σ] where
  /-- It holds of a value when so many closures were made. -/
  Good : Nat → Value → Prop
  /-- It holds of the sink. -/
  Output : σ → Prop
  /-- Further closures do no harm to a value. -/
  mono : ∀ {n k v}, Good n v → n ≤ k → Good k v
  /-- It holds of every plain value. -/
  plain : ∀ {v : Value}, v.Plain → ∀ n, Good n v
  /-- It holds of a closure once it is made. -/
  closure : ∀ n, Good (n + 1) (.closure n)
  /-- It holds of a record if it holds of the fields. -/
  object_iff : ∀ {n fields}, Good n (.object fields) ↔ ∀ f ∈ fields, Good n f.2
  /-- Writing does no harm to the sink. -/
  write : ∀ output s, Output output → Output (Sink.write output s).1

variable {σ α β : Type} [Sink σ]

namespace Condition

variable (C : Condition σ)

/-- It holds of every cell and of the sink. -/
structure Settled (m : Interpreter σ) : Prop where
  /-- Cells hold good values. -/
  cell : ∀ slot v, m.store.get? slot = some v → C.Good m.closures.size v
  /-- The sink is as it should be. -/
  output : C.Output m.output

/-- It holds of the value that a call returns. -/
def Interruption (n : Nat) : Interrupt → Prop
  | .returned v => C.Good n v
  | _ => True

/-- It holds of the value, unless that is a bare name. -/
def Pending (n : Nat) (r : Evaluated) : Prop := C.Good n r.value ∨ ∃ name, r.value = .id name

/-- A computation that began in the state `m` ends where it holds of all cells. No closure is forgotten. -/
def Settles (m : Interpreter σ) (ok : Nat → α → Prop) : EStateM.Result Interrupt (Interpreter σ) α → Prop :=
  Evaluation.Ends (fun a m' => m.closures.size ≤ m'.closures.size ∧ C.Settled m' ∧ ok m'.closures.size a)
    (fun i m' => m.closures.size ≤ m'.closures.size ∧ C.Settled m' ∧ C.Interruption m'.closures.size i)

variable {C} {m : Interpreter σ}

/-- A new cell with a good value leaves all cells good. -/
theorem Settled.bind (h : C.Settled m) (env : Environment) (name : String) {value : Value}
    (hv : C.Good m.closures.size value) : C.Settled (m.bind env name value).2 := by
  refine ⟨fun slot v hslot => ?_, h.output⟩
  rw [show (m.bind env name value).2.store = (m.store.alloc value).2 from rfl, Store.get?_alloc] at hslot
  split at hslot
  · cases hslot
    exact hv
  · exact h.cell slot v hslot

/-- Giving back cells leaves the others as they are. -/
theorem Settled.reclaim (h : C.Settled m) (reclamation : Reclamation) (mark : Mark) :
    C.Settled (m.reclaim reclamation mark) := by
  cases reclamation with
  | never => exact h
  | onExit =>
    by_cases hk : m.captures = mark.captures
    · rw [Interpreter.reclaim_of_captures_eq hk]
      refine ⟨fun slot v hslot => ?_, h.output⟩
      change (m.store.truncate mark.cells).get? slot = some v at hslot
      rw [Store.get?_truncate] at hslot
      split at hslot
      · exact h.cell slot v hslot
      · cases hslot
    · rwa [Interpreter.reclaim_of_captures_ne hk .onExit]

/-- A field of a good value is good. -/
theorem good_field {n : Nat} {v w : Value} (hv : C.Good n v) {name : String} (h : v.field name = .ok w) : C.Good n w := by
  cases v with
  | object fields =>
    simp only [Value.field] at h
    split at h
    · rename_i value hlookup
      cases h
      obtain ⟨before, after, rfl, -⟩ := List.lookup_eq_some_iff.1 hlookup
      exact C.object_iff.1 hv (name, w) (by simp)
    · cases h
  | _ => cases h

/-- A record of good values is good. -/
theorem good_ofFields {n : Nat} {fields : List (String × Value)} (h : ∀ f ∈ fields, C.Good n f.2) :
    C.Good n (Value.ofFields fields) := by
  obtain ⟨object, hobject, hall⟩ := Value.exists_ofFields h
  rw [hobject]
  exact C.object_iff.2 hall

/-! ## Computations one after the other -/

/-- What comes after a computation comes after its beginning. -/
theorem Settles.after {m' : Interpreter σ} {o : EStateM.Result Interrupt (Interpreter σ) α} {ok : Nat → α → Prop}
    (hle : m.closures.size ≤ m'.closures.size) (h : C.Settles m' ok o) : C.Settles m ok o :=
  Evaluation.Ends.imp h (fun _ _ h => ⟨Nat.le_trans hle h.1, h.2⟩) fun _ _ h => ⟨Nat.le_trans hle h.1, h.2⟩

/-- What follows begins in a settled state, with at least as many closures. -/
theorem Settles.bind {x : Evaluation σ α} {f : α → Evaluation σ β} {ok : Nat → α → Prop} {ok' : Nat → β → Prop}
    (hx : C.Settles m ok (x m))
    (hf : ∀ a m', m.closures.size ≤ m'.closures.size → C.Settled m' → ok m'.closures.size a → C.Settles m' ok' (f a m')) :
    C.Settles m ok' ((x >>= f) m) := by
  refine Evaluation.Ends.bind hx fun a m₁ h => ?_
  obtain ⟨hle, hm₁, ha⟩ := h
  exact (hf a m₁ hle hm₁ ha).after hle

/-- What is known of a result may be weakened. -/
theorem Settles.imp {o : EStateM.Result Interrupt (Interpreter σ) α} {ok ok' : Nat → α → Prop} (h : C.Settles m ok o)
    (hok : ∀ n a, ok n a → ok' n a) : C.Settles m ok' o :=
  Evaluation.Ends.imp h (fun a _ ha => ⟨ha.1, ha.2.1, hok _ a ha.2.2⟩) fun _ _ hi => hi

/-- Looking at the state changes nothing. -/
theorem Settles.get {f : Interpreter σ → Evaluation σ β} {ok : Nat → β → Prop} (h : C.Settles m ok (f m m)) :
    C.Settles m ok ((get >>= f) m) := h

end Condition

namespace Evaluation

variable {C : Condition σ} {m : Interpreter σ}

/-! ## Operations -/

theorem settles_pure (hm : C.Settled m) {ok : Nat → α → Prop} {a : α} (ha : ok m.closures.size a) :
    C.Settles m ok ((pure a : Evaluation σ α) m) :=
  ⟨Nat.le_refl _, hm, ha⟩

/-- A plain value needs no further reason. -/
theorem settles_plain (hm : C.Settled m) (v : Value) (hv : v.Plain) (env : Environment) :
    C.Settles m C.Pending ((pure ⟨v, env⟩ : Evaluation σ Evaluated) m) :=
  settles_pure hm (.inl (C.plain hv _))

/-- An interruption that leaves the state alone. -/
theorem settles_error (hm : C.Settled m) (ok : Nat → α → Prop) {i : Interrupt} (hi : C.Interruption m.closures.size i) :
    C.Settles m ok (.error i m) :=
  ⟨Nat.le_refl _, hm, hi⟩

/-- An operation on values changes nothing but may have a result that is good or an error. -/
theorem settles_ofExcept (hm : C.Settled m) {ok : Nat → α → Prop} {x : Except EvalError α}
    (h : ∀ {a}, x = .ok a → ok m.closures.size a) : C.Settles m ok (ofExcept x m) := by
  cases x with
  | ok a => exact settles_pure hm (h rfl)
  | error e => exact settles_error hm ok trivial

theorem settles_bind (hm : C.Settled m) (env : Environment) (name : String) (value : Value)
    (hv : C.Good m.closures.size value) : C.Settles m (fun _ _ => True) (bind env name value m) :=
  ⟨Nat.le_refl _, hm.bind env name hv, trivial⟩

/-- Parameters are bound to good values one after the other. -/
theorem settles_bindAll (bindings : List (String × Value)) (hm : C.Settled m) (env : Environment)
    (hb : ∀ b ∈ bindings, C.Good m.closures.size b.2) : C.Settles m (fun _ _ => True) (bindAll env bindings m) := by
  induction bindings generalizing m env with
  | nil => exact settles_pure hm trivial
  | cons b rest ih =>
    refine (settles_bind hm env b.1 b.2 (hb b List.mem_cons_self)).bind fun env' m' hle hm' _ => ?_
    exact ih hm' env' fun c hc => C.mono (hb c (List.mem_cons_of_mem b hc)) hle

/-- What comes out of a cell is good, so one step is enough to resolve a name. -/
theorem settles_resolve (hm : C.Settled m) {r : Evaluated} (hr : C.Pending m.closures.size r) (context : String) :
    C.Settles m C.Good (resolve r.value r.env context m) := by
  refine settles_ofExcept hm fun {v} h => ?_
  obtain ⟨value, env⟩ := r
  cases value with
  | id name =>
    obtain ⟨slot, -, hcell⟩ := Interpreter.lookup_ok_iff.1 h
    exact hm.cell slot v hcell
  | _ =>
    cases h
    rcases hr with hr | ⟨name, hname⟩
    · exact hr
    · cases hname

/-- A closure is good as soon as it is made. -/
theorem settles_capture (hm : C.Settled m) (literal : FunctionLiteral) (env : Environment) :
    C.Settles m C.Good (capture literal env m) := by
  have hsize : (m.closures.push ⟨literal, env⟩).size = m.closures.size + 1 := Array.size_push ..
  refine ⟨by simp only [hsize]; omega, ⟨fun slot v hslot => ?_, hm.output⟩, ?_⟩
  · simp only [hsize]
    exact C.mono (hm.cell slot v hslot) (Nat.le_succ _)
  · simp only [hsize]
    exact C.closure m.closures.size

/-- Binding a closure anew changes no value and makes no closure. -/
theorem settles_recapture (hm : C.Settled m) (value : Value) (env : Environment) :
    C.Settles m (fun n _ => n = m.closures.size) (recapture value env m) := by
  cases value with
  | closure number =>
    have hsize : (m.closures.modify number ({ · with env })).size = m.closures.size := Array.size_modify ..
    refine ⟨by simp only [hsize]; omega, ⟨fun slot v hslot => ?_, hm.output⟩, ?_⟩
    · simp only [hsize]
      exact hm.cell slot v hslot
    · simp only [hsize]
  | _ => exact settles_pure hm rfl

/-- A good value may be stored in any cell. -/
theorem settles_store (hm : C.Settled m) (name : String) (slot : Nat) {value : Value} (hv : C.Good m.closures.size value) :
    C.Settles m (fun _ _ => True) (store name slot value m) := by
  unfold store
  cases hset : m.store.set? slot value with
  | none => exact settles_error hm _ trivial
  | some after =>
    refine ⟨Nat.le_refl _, ⟨fun other v hother => ?_, hm.output⟩, trivial⟩
    change after.get? other = some v at hother
    rw [Store.get?_of_set? hset] at hother
    split at hother
    · cases hother
      exact hv
    · exact hm.cell other v hother

/-- To find the target of an assignment changes nothing. -/
theorem settles_target (hm : C.Settled m) (r : Evaluated) : C.Settles m (fun _ _ => True) (target r m) := by
  obtain ⟨value, env⟩ := r
  unfold target
  cases value with
  | id name =>
    cases hf : env.find? name with
    | some slot =>
      simp only [hf]
      exact settles_pure hm trivial
    | none =>
      simp only [hf]
      exact settles_error hm _ trivial
  | _ => exact settles_error hm _ trivial

/-- To find the closure that is called changes nothing. -/
theorem settles_callee (hm : C.Settled m) (value : Value) (env : Environment) :
    C.Settles m (fun _ _ => True) (callee value env m) := by
  cases value with
  | function literal => exact settles_pure hm trivial
  | closure number =>
    cases hc : m.closures[number]? with
    | some c =>
      rw [callee_closure hc]
      exact settles_pure hm trivial
    | none =>
      rw [callee_closure_of_none hc]
      exact settles_error hm _ trivial
  | _ => exact settles_error hm _ trivial

/-- Output keeps the sink as it should be. -/
theorem settles_write (hm : C.Settled m) (s : String) : C.Settles m (fun _ _ => True) (write s m) := by
  have hout := C.write m.output s hm.output
  unfold write
  split
  · rename_i output hwrite
    rw [hwrite] at hout
    exact ⟨Nat.le_refl _, ⟨hm.cell, hout⟩, trivial⟩
  · rename_i output hwrite
    rw [hwrite] at hout
    exact ⟨Nat.le_refl _, ⟨hm.cell, hout⟩, trivial⟩

theorem settles_printLine (hm : C.Settled m) (s : String) : C.Settles m (fun _ _ => True) (printLine s m) := by
  unfold printLine
  by_cases h : s ≠ ""
  · simp only [if_pos h]
    exact (settles_write hm s).bind fun _ m₁ _ hm₁ _ => settles_write hm₁ "\n"
  · simp only [if_neg h]
    exact settles_write hm "\n"

/-! ## Parts of expressions -/

/-- From cells of which the condition holds an evaluation leaves such cells. -/
def SettledEvaluator (C : Condition σ) (eval : Evaluator σ) : Prop :=
  ∀ e env m, C.Settled m → C.Settles m C.Pending (eval e env m)

section

variable {eval : Evaluator σ} (heval : SettledEvaluator C eval)

include heval

/-- An operand is never a bare name, so its value is good. -/
theorem settles_operand (hm : C.Settled m) (e : Expression) (env : Environment) (context : String) :
    C.Settles m (fun n r => C.Good n r.value) (operand eval e env context m) := by
  refine (heval e env m hm).bind fun r m₁ _ hm₁ hr => ?_
  exact (settles_resolve hm₁ hr context).bind fun v m₂ _ hm₂ hv => settles_pure hm₂ hv

/-- The last value of a sequence may be a bare name; so may the one it begins with. -/
theorem settles_sequence (es : List Expression) (hm : C.Settled m) {last : Evaluated}
    (hlast : C.Pending m.closures.size last) : C.Settles m C.Pending (sequence eval es last m) := by
  induction es generalizing m last with
  | nil => exact settles_pure hm hlast
  | cons e rest ih => exact (heval e last.env m hm).bind fun r m₁ _ hm₁ hr => ih hm₁ hr

/-- Arguments are good, since they are operands. -/
theorem settles_arguments (es : List Expression) (hm : C.Settled m) (env : Environment) :
    C.Settles m (fun n vs => ∀ v ∈ vs.1, C.Good n v) (arguments eval es env m) := by
  induction es generalizing m env with
  | nil => exact settles_pure hm fun v hv => nomatch hv
  | cons e rest ih =>
    refine (settles_operand heval hm e env "Call").bind fun r m₁ _ hm₁ hr => ?_
    refine (ih hm₁ r.env).bind fun vs m₂ hle hm₂ hvs => settles_pure hm₂ fun v hv => ?_
    rcases List.mem_cons.1 hv with rfl | hv
    · exact C.mono hr hle
    · exact hvs v hv

/-- The values of fields are good, since they are operands. -/
theorem settles_fields (fs : List (String × Expression)) (hm : C.Settled m) (env : Environment) :
    C.Settles m (fun n vs => ∀ f ∈ vs.1, C.Good n f.2) (fields eval fs env m) := by
  induction fs generalizing m env with
  | nil => exact settles_pure hm fun v hv => nomatch hv
  | cons f rest ih =>
    refine (settles_operand heval hm f.2 env "Object").bind fun r m₁ _ hm₁ hr => ?_
    refine (ih hm₁ r.env).bind fun vs m₂ hle hm₂ hvs => settles_pure hm₂ fun g hg => ?_
    rcases List.mem_cons.1 hg with rfl | hg
    · exact C.mono hr hle
    · exact hvs g hg

/-- Where a function is given good values, it gives back a good value. -/
theorem settles_invoke (reclamation : Reclamation) (literal : FunctionLiteral) {values : List Value} (hm : C.Settled m)
    (hvalues : ∀ v ∈ values, C.Good m.closures.size v) (base : Environment) :
    C.Settles m C.Good (invoke reclamation eval literal values base m) := by
  have hzip : ∀ b ∈ literal.parameters.zip values, C.Good m.closures.size b.2 := fun b hb =>
    hvalues b.2 (List.of_mem_zip hb).2
  unfold invoke
  by_cases hn : literal.parameters.length ≠ values.length
  · simp only [if_pos hn]
    exact settles_error hm _ trivial
  · simp only [if_neg hn]
    refine Condition.Settles.get ((settles_bindAll _ hm base hzip).bind fun frame m₁ _ hm₁ _ => ?_)
    have hbody := heval literal.body frame m₁ hm₁
    have hcount : ∀ m₂ : Interpreter σ, (m₂.reclaim reclamation m.mark).closures.size = m₂.closures.size := fun m₂ => by
      rw [m₂.reclaim_eq]
    unfold finishCall
    generalize eval literal.body frame m₁ = o at hbody
    cases o with
    | ok r m₂ => exact ⟨(hcount m₂).symm ▸ hbody.1, hbody.2.1.reclaim reclamation m.mark, C.plain (v := .void) trivial _⟩
    | error i m₂ =>
      have hle : m₁.closures.size ≤ (m₂.reclaim reclamation m.mark).closures.size := (hcount m₂).symm ▸ hbody.1
      have hm₂ := hbody.2.1.reclaim reclamation m.mark
      cases i with
      | returned v => exact ⟨hle, hm₂, (hcount m₂).symm ▸ hbody.2.2⟩
      | failed e => exact ⟨hle, hm₂, trivial⟩
      | exhausted => exact ⟨hle, hm₂, trivial⟩

/-- Each turn of a loop begins in a settled state. -/
theorem settles_loop (condition body : Expression) (turns : Nat) (hm : C.Settled m) (env : Environment) :
    C.Settles m C.Pending (loop eval condition body turns env m) := by
  induction turns generalizing m env with
  | zero => exact settles_error hm _ trivial
  | succ turns ih =>
    refine (settles_operand heval hm condition env "While").bind fun test m₁ _ hm₁ _ => ?_
    have htest : C.Settles m₁ (fun _ _ => True) (ofExcept (test.value.expectBool "While") m₁) :=
      settles_ofExcept hm₁ fun _ => trivial
    refine htest.bind fun b m₂ _ hm₂ _ => ?_
    cases b with
    | true => exact (heval body test.env m₂ hm₂).bind fun r m₃ _ hm₃ _ => ih hm₃ r.env
    | false => exact settles_plain hm₂ .void trivial _

/-- A value is computed from an operand. -/
theorem settles_applied {apply : Evaluated → Except EvalError α} (value : α → Value)
    (hvalue : ∀ {n r a}, C.Good n r.value → apply r = .ok a → C.Good n (value a)) (hm : C.Settled m) (e : Expression)
    (env : Environment) (context : String) : C.Settles m C.Pending ((do
      let r ← operand eval e env context
      return ⟨value (← ofExcept (apply r)), r.env⟩ : Evaluation σ Evaluated) m) := by
  refine (settles_operand heval hm e env context).bind fun r m₁ _ hm₁ hr => ?_
  have happly : C.Settles m₁ (fun n a => C.Good n (value a)) (ofExcept (apply r) m₁) :=
    settles_ofExcept hm₁ fun h => hvalue hr h
  exact happly.bind fun a m₂ _ hm₂ ha => settles_pure hm₂ (.inl ha)

/-- Operands are good, and operators make good values of good ones. -/
theorem settles_binary (left : Expression) (op : Operator) (right : Expression) (hm : C.Settled m) (env : Environment) :
    C.Settles m C.Pending (binary eval left op right env m) := by
  refine (settles_operand heval hm left env op.name).bind fun l m₁ _ hm₁ _ => ?_
  have hbool : ∀ {m₁ : Interpreter σ} {apply : Evaluated → Except EvalError Bool}, C.Settled m₁ → C.Settles m₁ C.Pending ((do
      let r ← operand eval right l.env op.name
      return ⟨.bool (← ofExcept (apply r)), r.env⟩ : Evaluation σ Evaluated) m₁) := fun hm₁ =>
    settles_applied heval .bool (fun _ _ => C.plain (v := .bool _) trivial _) hm₁ right l.env op.name
  have htest : C.Settles m₁ (fun _ _ => True) (ofExcept (l.value.expectBool op.name) m₁) :=
    settles_ofExcept hm₁ fun _ => trivial
  cases op with
  | arithmetic o =>
    exact settles_applied heval id (fun _ h => C.plain (Value.plain_of_arithmetic h) _) hm₁ right l.env _
  | comparison o => exact hbool hm₁
  | stringEqual => exact hbool hm₁
  | stringLess => exact hbool hm₁
  | and =>
    refine htest.bind fun b m₂ _ hm₂ _ => ?_
    cases b with
    | true => exact hbool hm₂
    | false => exact settles_plain hm₂ (.bool false) trivial _
  | or =>
    refine htest.bind fun b m₂ _ hm₂ _ => ?_
    cases b with
    | true => exact settles_plain hm₂ (.bool true) trivial _
    | false => exact hbool hm₂

/-! ## Expressions -/

variable (reclamation : Reclamation) (turns : Nat)

/-- A block hands on a good value and gives back its cells. -/
theorem settles_scope (hm : C.Settled m) (env : Environment) (body : Expression) :
    C.Settles m (fun n r => C.Good n r.value) (step reclamation eval turns (.scope body) env m) := by
  refine Condition.Settles.get ((heval body env m hm).bind fun r m₁ _ hm₁ hr => ?_)
  refine (settles_resolve hm₁ hr "Scope").bind fun v m₂ _ hm₂ hv => ?_
  have hcount : (m₂.reclaim reclamation m.mark).closures.size = m₂.closures.size := by rw [m₂.reclaim_eq]
  refine ⟨Nat.le_of_eq hcount.symm, hm₂.reclaim reclamation m.mark, ?_⟩
  rw [hcount]
  exact hv

/-- The value that is assigned is an operand, hence good in its cell; the result is a bare name. -/
theorem settles_assign (hm : C.Settled m) (env : Environment) (place a : Expression) :
    C.Settles m C.Pending (step reclamation eval turns (.assign place a) env m) := by
  refine (heval place env m hm).bind fun p m₁ _ hm₁ _ => ?_
  refine (settles_target hm₁ p).bind fun t m₂ _ hm₂ _ => ?_
  refine (settles_operand heval hm₂ a p.env "Assign").bind fun r m₃ _ hm₃ hr => ?_
  refine (settles_recapture hm₃ r.value r.env).bind fun _ m₄ hle hm₄ _ => ?_
  exact (settles_store hm₄ t.1 t.2 (C.mono hr hle)).bind fun _ m₅ _ hm₅ _ => settles_pure hm₅ (.inr ⟨t.1, rfl⟩)

/-- The arguments of a call are good, so its parameters may be bound to them. -/
theorem settles_call (hm : C.Settled m) (env : Environment) (f : Expression) (as : List Expression) :
    C.Settles m C.Pending (step reclamation eval turns (.call f as) env m) := by
  refine (settles_operand heval hm f env "Call").bind fun g m₁ _ hm₁ _ => ?_
  refine (settles_arguments heval as hm₁ g.env).bind fun vs m₂ _ hm₂ hvs => ?_
  refine (settles_callee hm₂ g.value vs.2).bind fun c m₃ hle hm₃ _ => ?_
  have hvs₃ : ∀ v ∈ vs.1, C.Good m₃.closures.size v := fun v hv => C.mono (hvs v hv) hle
  exact (settles_invoke heval reclamation c.1 hm₃ hvs₃ c.2).bind fun v m₄ _ hm₄ hv => settles_pure hm₄ (.inl hv)

theorem settles_conditional (hm : C.Settled m) (env : Environment) (a b : Expression) (c : Option Expression) :
    C.Settles m C.Pending (step reclamation eval turns (.conditional a b c) env m) := by
  refine (settles_operand heval hm a env "If").bind fun test m₁ _ hm₁ _ => ?_
  have htest : C.Settles m₁ (fun _ _ => True) (ofExcept (test.value.expectBool "If") m₁) :=
    settles_ofExcept hm₁ fun _ => trivial
  refine htest.bind fun t m₂ _ hm₂ _ => ?_
  cases t with
  | true => exact heval b test.env m₂ hm₂
  | false =>
    cases c with
    | some c => exact heval c test.env m₂ hm₂
    | none => exact settles_plain hm₂ .void trivial _

/-- Every kind of expression leaves good cells if its parts do. -/
theorem settles_step : SettledEvaluator C (step reclamation eval turns) := by
  intro e env m hm
  -- one case for each kind of expression, with the lemma about its helper
  cases e with
  | integer v => exact settles_plain hm (.int v) trivial env
  | float v => exact settles_plain hm (.float v) trivial env
  | boolean v => exact settles_plain hm (.bool v) trivial env
  | string v => exact settles_plain hm (.string v) trivial env
  | identifier name => exact settles_pure hm (.inr ⟨name, rfl⟩)
  | void => exact settles_plain hm .void trivial env
  | varDecl name =>
    refine (settles_bind hm env name .void (C.plain (v := .void) trivial _)).bind fun env' m₁ _ hm₁ _ => ?_
    exact settles_pure hm₁ (.inr ⟨name, rfl⟩)
  | funcDecl name f =>
    refine (settles_bind hm env name (.function f) (C.plain (v := .function f) trivial _)).bind fun env' m₁ _ hm₁ _ => ?_
    exact settles_pure hm₁ (.inr ⟨name, rfl⟩)
  | function f => exact settles_plain hm (.function f) trivial env
  | closure f => exact (settles_capture hm f env).bind fun v m₁ _ hm₁ hv => settles_pure hm₁ (.inl hv)
  | scope body => exact (settles_scope heval reclamation turns hm env body).imp fun _ _ hr => .inl hr
  | sequence es => exact settles_sequence heval es hm (.inl (C.plain (v := .void) trivial _))
  | not a =>
    refine (settles_operand heval hm a env "Not").bind fun r m₁ _ hm₁ _ => ?_
    have htest : C.Settles m₁ (fun _ _ => True) (ofExcept (r.value.expectBool "Not") m₁) :=
      settles_ofExcept hm₁ fun _ => trivial
    exact htest.bind fun b m₂ _ hm₂ _ => settles_plain hm₂ (.bool !b) trivial env
  | binary a op b => exact settles_binary heval a op b hm env
  | assign place a => exact settles_assign heval reclamation turns hm env place a
  | call f as => exact settles_call heval reclamation turns hm env f as
  | conditional a b c => exact settles_conditional heval reclamation turns hm env a b c
  | loop a b => exact settles_loop heval a b turns hm env
  | ret a => exact (settles_operand heval hm a env "Return").bind fun r m₁ _ hm₁ hr => settles_error hm₁ _ hr
  | print a =>
    refine (settles_operand heval hm a env "Print").bind fun r m₁ _ hm₁ _ => ?_
    exact (settles_printLine hm₁ _).bind fun _ m₂ _ hm₂ _ => settles_plain hm₂ .void trivial r.env
  | isType a name =>
    refine (settles_operand heval hm a env "IsType").bind fun r m₁ _ hm₁ _ => ?_
    exact settles_plain hm₁ (.bool (r.value.typeName == name)) trivial r.env
  | stringLength a =>
    exact settles_applied heval id (fun _ h => C.plain (Value.plain_of_stringLength h) _) hm a env _
  | substring a b c =>
    refine (settles_operand heval hm a env "Substring").bind fun x m₁ _ hm₁ _ => ?_
    refine (settles_operand heval hm₁ b x.env "Substring").bind fun y m₂ _ hm₂ _ => ?_
    exact settles_applied heval id (fun _ h => C.plain (Value.plain_of_substring h) _) hm₂ c y.env _
  | object fs =>
    refine (settles_fields heval fs hm env).bind fun vs m₁ _ hm₁ hvs => ?_
    exact settles_pure hm₁ (.inl (Condition.good_ofFields hvs))
  | field a name => exact settles_applied heval id (fun hr h => Condition.good_field hr h) hm a env _

end

end Evaluation

open Evaluation

/-- A condition that holds of cells still does after an evaluation, whatever the expression and however it ends. -/
theorem evaluate_settles (C : Condition σ) (reclamation : Reclamation) (steps : Nat) :
    SettledEvaluator C (evaluate reclamation steps) := by
  induction steps with
  | zero => exact fun e env m hm => settles_error hm _ trivial
  | succ steps ih => exact settles_step ih reclamation steps

/-- So it does after a program was run, and it holds of the value of the program. -/
theorem run_settles (C : Condition σ) (reclamation : Reclamation) (steps : Nat) (program : Expression) {m : Interpreter σ}
    (hm : C.Settled m) : C.Settles m C.Good (run reclamation steps program m) := by
  have he := evaluate_settles C reclamation steps program Environment.empty m hm
  unfold run
  generalize evaluate reclamation steps program Environment.empty m = o at he
  cases o with
  | ok r m₁ =>
    obtain ⟨hle, hm₁, hr⟩ := he
    exact (settles_resolve hm₁ hr program.kind).after hle
  | error i m₁ =>
    cases i with
    | returned v => exact ⟨he.1, he.2.1, trivial⟩
    | failed e => exact he
    | exhausted => exact he

end ExprLang
