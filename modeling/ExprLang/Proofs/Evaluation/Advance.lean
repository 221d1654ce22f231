import ExprLang.Evaluation.Evaluate
import ExprLang.Proofs.Computation
import ExprLang.Proofs.Environment

/-!
# What an evaluation does to the store

However an evaluation ends, the store is at least as large as before, and the closures are the same as before unless one was made or
bound anew (`Grows`, `Later`). The second part is what makes giving back cells harmless: it happens only where no closure changed, so
every closure reaches what it reached when the cells in question were not handed out yet (`Later.reclaim`).

If it ends with a result, the environment to go on with is the environment it began with, with bindings in front (`Advances`). Nothing
that is looked up or assigned to on the way has lost its cell (`Genuine`). A computation of which both hold is `Safe`, and safe
computations can be put one after the other (`Safe.bind`).
-/

namespace ExprLang

variable {σ : Type}

/-- Every closure has a well-formed environment. -/
def Interpreter.Sound (m : Interpreter σ) : Prop := ∀ c ∈ m.closures, c.env.WellFormed m.store.size

/-- The value of a name is in its cell. -/
theorem Interpreter.lookup_ok_iff {m : Interpreter σ} {env : Environment} {name context : String} {v : Value} :
    m.lookup env name context = .ok v ↔ ∃ slot, env.find? name = some slot ∧ m.store.get? slot = some v := by
  unfold Interpreter.lookup
  cases env.find? name with
  | none => simp
  | some slot => cases hcell : m.store.get? slot <;> simp [hcell]

/-- What an evaluation does to the state `m` whatever it looks at, and however it ends. -/
structure Grows (m m' : Interpreter σ) : Prop where
  /-- The store did not get smaller. -/
  size : m.store.size ≤ m'.store.size
  /-- Closures that are made or bound anew are counted. -/
  captures : m.captures ≤ m'.captures
  /-- If there are none, the closures are the same. -/
  closures : m'.captures = m.captures → m'.closures = m.closures

/-- What an evaluation may make of the state `m`, however it ends. -/
structure Later (m m' : Interpreter σ) : Prop extends Grows m m' where
  /-- Closures keep well-formed environments. -/
  sound : m.Sound → m'.Sound

/-- What an evaluation may make of the state `m` and the environment `env` if it ends with a result. -/
structure Advances (m : Interpreter σ) (env : Environment) (m' : Interpreter σ) (env' : Environment) : Prop
    extends Later m m' where
  /-- The environment to go on with is well-formed. -/
  wellFormed : env.WellFormed m.store.size → env'.WellFormed m'.store.size
  /-- It has bindings in front of the environment before, in cells that were handed out since. -/
  extended : env'.Extends env m.store.size

/-- The error is not that a name has lost its cell. -/
def EvalError.Genuine : EvalError → Prop
  | .vanished .. => False
  | _ => True

/-- The interruption is not that a name has lost its cell. -/
def Interrupt.Genuine : Interrupt → Prop
  | .failed e => e.Genuine
  | _ => True

/-! ## The order of states -/

theorem Grows.refl (m : Interpreter σ) : Grows m m := ⟨Nat.le_refl _, Nat.le_refl _, fun _ => rfl⟩

/-- Growth goes on. -/
theorem Grows.trans {m m' m'' : Interpreter σ} (h : Grows m m') (h' : Grows m' m'') : Grows m m'' := by
  refine ⟨Nat.le_trans h.size h'.size, Nat.le_trans h.captures h'.captures, ?_⟩
  intro he
  have hc := h.captures
  have hc' := h'.captures
  rw [h'.closures (by omega), h.closures (by omega)]

/-- A state that has the same closures, and no fewer cells, has grown. -/
theorem Grows.of_closures_eq {m m' : Interpreter σ} (hs : m.store.size ≤ m'.store.size) (hk : m'.captures = m.captures)
    (hc : m'.closures = m.closures) : Grows m m' :=
  ⟨hs, Nat.le_of_eq hk.symm, fun _ => hc⟩

/-- Where a closure is made or bound anew, the closures may change. -/
theorem grows_closures (m : Interpreter σ) (closures : Array Closure) :
    Grows m { m with closures, captures := m.captures + 1 } :=
  ⟨Nat.le_refl _, Nat.le_succ _, fun he => absurd he (Nat.succ_ne_self _)⟩

/-- Cells are given back only down to what the store was. -/
theorem Grows.reclaim {m m' : Interpreter σ} (h : Grows m m') (reclamation : Reclamation) :
    Grows m (m'.reclaim reclamation m.mark) := by
  cases reclamation with
  | never => exact h
  | onExit =>
    by_cases he : m'.captures = m.captures
    · rw [Interpreter.reclaim_of_captures_eq he]
      refine Grows.of_closures_eq ?_ he (h.closures he)
      simp only [Store.size_truncate, Interpreter.mark]
      exact Nat.le_min.2 ⟨Nat.le_refl _, h.size⟩
    · rwa [Interpreter.reclaim_of_captures_ne he .onExit]

theorem Later.refl (m : Interpreter σ) : Later m m := ⟨Grows.refl m, id⟩

/-- What is later than a later state is later. -/
theorem Later.trans {m m' m'' : Interpreter σ} (h : Later m m') (h' : Later m' m'') : Later m m'' :=
  ⟨h.toGrows.trans h'.toGrows, h'.sound ∘ h.sound⟩

/-- A state that has the same closures, and no fewer cells, is later. -/
theorem Later.of_closures_eq {m m' : Interpreter σ} (hs : m.store.size ≤ m'.store.size) (hk : m'.captures = m.captures)
    (hc : m'.closures = m.closures) : Later m m' := by
  refine ⟨Grows.of_closures_eq hs hk hc, ?_⟩
  intro hm c h
  rw [hc] at h
  exact (hm c h).mono hs

/-- A state with another closure is later. -/
theorem later_capture (m : Interpreter σ) (literal : FunctionLiteral) {env : Environment}
    (h : env.WellFormed m.store.size) :
    Later m { m with closures := m.closures.push ⟨literal, env⟩, captures := m.captures + 1 } := by
  refine ⟨grows_closures m _, ?_⟩
  intro hm c hc
  rcases Array.mem_push.1 hc with hc | rfl
  · exact hm c hc
  · exact h

/-- A state in which a closure has another environment is later. -/
theorem later_recapture (m : Interpreter σ) (number : Nat) {env : Environment} (h : env.WellFormed m.store.size) :
    Later m { m with closures := m.closures.modify number ({ · with env }), captures := m.captures + 1 } := by
  refine ⟨grows_closures m _, ?_⟩
  intro hm c hc
  obtain ⟨i, hi, rfl⟩ := Array.mem_iff_getElem.1 hc
  simp only [Array.getElem_modify]
  split
  · exact h
  · exact hm _ (Array.getElem_mem _)

/-- Cells are given back only if no closure can reach more than it did when they were not handed out yet. -/
theorem Later.reclaim {m m' : Interpreter σ} (h : Later m m') (reclamation : Reclamation) :
    Later m (m'.reclaim reclamation m.mark) := by
  refine ⟨h.toGrows.reclaim reclamation, ?_⟩
  cases reclamation with
  | never => exact h.sound
  | onExit =>
    by_cases he : m'.captures = m.captures
    · intro hm c hc
      have hgrows := h.toGrows.reclaim .onExit
      rw [Interpreter.reclaim_of_captures_eq he] at hc hgrows ⊢
      exact (hm c (h.closures he ▸ hc)).mono hgrows.size
    · rw [Interpreter.reclaim_of_captures_ne he .onExit]
      exact h.sound

/-- An evaluation may leave state and environment as they are. -/
theorem Advances.refl (m : Interpreter σ) (env : Environment) : Advances m env m env :=
  ⟨Later.refl m, id, Environment.Extends.refl env _⟩

/-- Evaluations may follow each other. -/
theorem Advances.trans {m m' m'' : Interpreter σ} {env env' env'' : Environment} (h : Advances m env m' env')
    (h' : Advances m' env' m'' env'') : Advances m env m'' env'' :=
  ⟨h.toLater.trans h'.toLater, h'.wellFormed ∘ h.wellFormed, h.extended.trans h'.extended h.size⟩

/-- Going back to the environment before. -/
theorem Later.advances {m m' : Interpreter σ} (h : Later m m') (env : Environment) : Advances m env m' env :=
  ⟨h, fun hw => hw.mono h.size, Environment.Extends.refl env _⟩

/-- Binding a name. -/
theorem advances_bind (m : Interpreter σ) (env : Environment) (name : String) (value : Value) :
    Advances m env (m.bind env name value).2 (m.bind env name value).1 := by
  refine ⟨Later.of_closures_eq ?_ rfl rfl, ?_, Environment.extends_bind env name (Nat.le_refl _)⟩
  · simp [Interpreter.bind]
  · intro h
    have := h.bind name
    simpa [Interpreter.bind] using this

/-! ## Safe ends -/

namespace Evaluation

variable {α β : Type}

/-- The end of a computation: a result with `ok`, or an interruption with `cut`. -/
def Ends (ok : α → Interpreter σ → Prop) (cut : Interrupt → Interpreter σ → Prop) :
    EStateM.Result Interrupt (Interpreter σ) α → Prop
  | .ok a m => ok a m
  | .error i m => cut i m

/-- What holds at the end of one computation holds at the beginning of the next. -/
theorem Ends.bind {x : Evaluation σ α} {f : α → Evaluation σ β} {m : Interpreter σ} {ok : α → Interpreter σ → Prop}
    {ok' : β → Interpreter σ → Prop} {cut : Interrupt → Interpreter σ → Prop} (hx : Ends ok cut (x m))
    (hf : ∀ a m', ok a m' → Ends ok' cut (f a m')) : Ends ok' cut ((x >>= f) m) := by
  show Ends ok' cut (EStateM.bind x f m)
  unfold EStateM.bind
  cases h : x m with
  | ok a m' =>
    rw [h] at hx
    exact hf a m' hx
  | error i m' =>
    rw [h] at hx
    exact hx

/-- What is known of either end may be weakened. -/
theorem Ends.imp {o : EStateM.Result Interrupt (Interpreter σ) α} {ok ok' : α → Interpreter σ → Prop}
    {cut cut' : Interrupt → Interpreter σ → Prop} (h : Ends ok cut o) (hok : ∀ a m, ok a m → ok' a m)
    (hcut : ∀ i m, cut i m → cut' i m) : Ends ok' cut' o := by
  cases o with
  | ok a m => exact hok a m h
  | error i m => exact hcut i m h

/-- A computation that began in the state `m` and the environment `env` ends as evaluations do; `next` is the environment to go on
with. -/
def Safe (m : Interpreter σ) (env : Environment) (next : α → Environment) :
    EStateM.Result Interrupt (Interpreter σ) α → Prop :=
  Ends (fun a m' => Advances m env m' (next a)) (fun i m' => Later m m' ∧ i.Genuine)

/-- A state and an environment in which an evaluation may begin. -/
structure Ready (m : Interpreter σ) (env : Environment) : Prop where
  /-- Every closure has a well-formed environment. -/
  sound : m.Sound
  /-- The environment is well-formed. -/
  wellFormed : env.WellFormed m.store.size

/-- Where one evaluation has ended, the next one may begin. -/
theorem Ready.advance {m m' : Interpreter σ} {env env' : Environment} (h : Ready m env) (ha : Advances m env m' env') :
    Ready m' env' :=
  ⟨ha.sound h.sound, ha.wellFormed h.wellFormed⟩

/-- What comes after an advance advances from where that began. -/
theorem Safe.after {o : EStateM.Result Interrupt (Interpreter σ) α} {m m₁ : Interpreter σ} {env env₁ : Environment}
    {next : α → Environment} (ha : Advances m env m₁ env₁) (h : Safe m₁ env₁ next o) : Safe m env next o :=
  h.imp (fun _ _ h => ha.trans h) fun _ _ h => ⟨ha.toLater.trans h.1, h.2⟩

/-- Safe computations one after the other. -/
theorem Safe.bind {x : Evaluation σ α} {f : α → Evaluation σ β} {m : Interpreter σ} {env : Environment}
    {next : α → Environment} {next' : β → Environment} (hx : Safe m env next (x m))
    (hf : ∀ a m', Advances m env m' (next a) → Safe m' (next a) next' (f a m')) : Safe m env next' ((x >>= f) m) :=
  Ends.bind hx fun a m' h => (hf a m' h).after h

/-- Where only the state matters, the environment can be another one. -/
theorem Safe.inside {o : EStateM.Result Interrupt (Interpreter σ) α} {m : Interpreter σ} {env : Environment}
    {next : α → Environment} (h : Safe m env next o) (site : Environment) : Safe m site (fun _ => site) o :=
  h.imp (fun _ _ h => h.toLater.advances site) fun _ _ h => h

theorem safe_pure (m : Interpreter σ) (env : Environment) (next : α → Environment) {a : α} (h : next a = env) :
    Safe m env next ((pure a : Evaluation σ α) m) := by
  show Advances m env m (next a)
  rw [h]
  exact Advances.refl m env

/-- An interruption that leaves the state alone. -/
theorem safe_error {m : Interpreter σ} (env : Environment) (next : α → Environment) {i : Interrupt} (h : i.Genuine) :
    Safe m env next (.error i m) :=
  ⟨Later.refl m, h⟩

/-- Looking at the state changes nothing. -/
theorem Safe.get {f : Interpreter σ → Evaluation σ β} {m : Interpreter σ} {env : Environment} {next : β → Environment}
    (h : Safe m env next (f m m)) : Safe m env next ((get >>= f) m) := h

/-! ## What is called -/

/-- A closure that was made is called with its own environment. -/
theorem callee_closure {m : Interpreter σ} {number : Nat} {closure : Closure} (h : m.closures[number]? = some closure)
    (env : Environment) : callee (.closure number) env m = .ok (closure.literal, closure.env) m := by
  unfold callee
  refine (bind_of_ok (x := get) rfl _).trans ?_
  rw [h]
  rfl

/-- A closure that was never made cannot be called. -/
theorem callee_closure_of_none {m : Interpreter σ} {number : Nat} (h : m.closures[number]? = none) (env : Environment) :
    callee (.closure number) env m = .error (.failed (.notCallable (Value.closure number).typeName)) m := by
  unfold callee
  refine (bind_of_ok (x := get) rfl _).trans ?_
  rw [h]
  rfl

end Evaluation

end ExprLang
