import ExprLang.Proofs.Evaluation.Safety

/-!
# Sessions with an interpreter

Names can be bound, expressions evaluated and programs run on one interpreter, in any order and however each call ends. Environments
that were handed out stay valid for the whole session: they are well-formed and every name they bind has its cell, although cells are
given back in between (`session_wellFormed`).
-/

namespace ExprLang

open Evaluation

variable {σ : Type} [Sink σ]

/-- `Session output m envs`: the interpreter that began with this output is `m` after some calls, and `envs` are the environments that
calls may be made in: the empty one, what calls handed out, and what was read off closures. -/
inductive Session (output : σ) : Interpreter σ → List Environment → Prop where
  /-- Nothing was done. -/
  | fresh : Session output (Interpreter.initial output) [Environment.empty]
  /-- A name was bound. -/
  | bound {m : Interpreter σ} {envs : List Environment} {env : Environment} (name : String) (value : Value) :
      Session output m envs → env ∈ envs → Session output (m.bind env name value).2 ((m.bind env name value).1 :: envs)
  /-- An expression was evaluated. -/
  | evaluated {m m' : Interpreter σ} {envs : List Environment} {env : Environment} {r : Evaluated} {steps : Nat}
      {e : Expression} :
      Session output m envs → env ∈ envs → evaluate .onExit steps e env m = .ok r m' → Session output m' (r.env :: envs)
  /-- The evaluation of an expression was interrupted. -/
  | interrupted {m m' : Interpreter σ} {envs : List Environment} {env : Environment} {i : Interrupt} {steps : Nat}
      {e : Expression} :
      Session output m envs → env ∈ envs → evaluate .onExit steps e env m = .error i m' → Session output m' envs
  /-- A program was run. -/
  | ran {m m' : Interpreter σ} {envs : List Environment} {value : Value} {steps : Nat} {program : Expression} :
      Session output m envs → run .onExit steps program m = .ok value m' → Session output m' envs
  /-- The run of a program was interrupted. -/
  | stopped {m m' : Interpreter σ} {envs : List Environment} {i : Interrupt} {steps : Nat} {program : Expression} :
      Session output m envs → run .onExit steps program m = .error i m' → Session output m' envs
  /-- The environment of a closure was read. -/
  | captured {m : Interpreter σ} {envs : List Environment} {c : Closure} :
      Session output m envs → c ∈ m.closures → Session output m (c.env :: envs)

/-- The store and the environments that are in use fit together. -/
structure Interpreter.Fits (m : Interpreter σ) (envs : List Environment) : Prop where
  /-- The environments of closures are well-formed. -/
  sound : m.Sound
  /-- So are those in use. -/
  wellFormed : ∀ env ∈ envs, env.WellFormed m.store.size

namespace Interpreter.Fits

variable {m m' : Interpreter σ} {envs : List Environment}

omit [Sink σ] in
/-- A call can be made in an environment in use. -/
theorem ready (h : m.Fits envs) {env : Environment} (he : env ∈ envs) : Ready m env := ⟨h.sound, h.wellFormed env he⟩

omit [Sink σ] in
/-- A call does no harm to the environments in use. -/
theorem later (h : m.Fits envs) (hl : Later m m') : m'.Fits envs :=
  ⟨hl.sound h.sound, fun env he => (h.wellFormed env he).mono hl.size⟩

omit [Sink σ] in
/-- A well-formed environment can be taken into use. -/
theorem cons (h : m.Fits envs) {env : Environment} (he : env.WellFormed m.store.size) : m.Fits (env :: envs) := by
  refine ⟨h.sound, fun env' hmem => ?_⟩
  rcases List.mem_cons.1 hmem with rfl | hmem
  · exact he
  · exact h.wellFormed env' hmem

omit [Sink σ] in
/-- What a call hands out can be taken into use. -/
theorem advance (h : m.Fits envs) {env env' : Environment} (he : env ∈ envs) (ha : Advances m env m' env') :
    m'.Fits (env' :: envs) :=
  (h.later ha.toLater).cons (ha.wellFormed (h.wellFormed env he))

end Interpreter.Fits

/-- Store and environments fit together throughout a session. -/
theorem Session.fits {output : σ} {m : Interpreter σ} {envs : List Environment} (h : Session output m envs) :
    m.Fits envs := by
  induction h with
  | fresh =>
    refine ⟨fun c hc => ?_, fun env he => ?_⟩
    · simp [Interpreter.initial] at hc
    · rw [List.mem_singleton.1 he]
      exact Environment.wellFormed_empty _
  | @bound m envs env name value _ he ih => exact ih.advance he (advances_bind m env name value)
  | @evaluated m m' envs env r steps e _ he hok ih =>
    have := evaluate_safe .onExit steps e env m (ih.ready he)
    rw [hok] at this
    exact ih.advance he this
  | @interrupted m m' envs env i steps e _ he herr ih =>
    have := evaluate_safe .onExit steps e env m (ih.ready he)
    rw [herr] at this
    exact ih.later this.1
  | @ran m m' envs value steps program _ hok ih =>
    have := run_safe .onExit steps program ih.sound
    rw [hok] at this
    exact ih.later this
  | @stopped m m' envs i steps program _ herr ih =>
    have := run_safe .onExit steps program ih.sound
    rw [herr] at this
    exact ih.later this.1
  | @captured m envs c _ hc ih => exact ih.cons (ih.sound c hc)

omit [Sink σ] in
/-- In a well-formed environment every name that is bound can be looked up. -/
theorem lookup_error_iff {m : Interpreter σ} {env : Environment} (h : env.WellFormed m.store.size) (name context : String) :
    (∃ e, m.lookup env name context = .error e) ↔ env.find? name = none := by
  unfold Interpreter.lookup
  cases hf : env.find? name with
  | none => simp
  | some slot =>
    have hlt := h.find?_lt hf
    rw [← Store.isSome_get?_iff] at hlt
    obtain ⟨value, hv⟩ := Option.isSome_iff_exists.1 hlt
    simp [hv]

/-- At every moment of a session, the environments that were handed out and those of all closures have cells that go down from the
innermost binding outward and are all handed out. Every further call leaves the store at least as large as it was; an evaluation
that ends with a result goes on with the environment it was given, with bindings in front in cells that were handed out since; and no
call ends because a name that is bound has lost its cell, be it looked up or assigned to. So a look-up fails exactly if the name is not
bound. -/
theorem session_wellFormed {output : σ} {m : Interpreter σ} {envs : List Environment} (h : Session output m envs) :
    (∀ env ∈ envs, env.WellFormed m.store.size) ∧
    (∀ c ∈ m.closures, c.env.WellFormed m.store.size) ∧
    (∀ env ∈ envs, ∀ name value, m.store.size ≤ (m.bind env name value).2.store.size ∧
      (m.bind env name value).1.Extends env m.store.size) ∧
    (∀ env ∈ envs, ∀ steps e,
      Ends (fun r m' => m.store.size ≤ m'.store.size ∧ r.env.Extends env m.store.size)
        (fun i m' => m.store.size ≤ m'.store.size ∧ ∀ name context, i ≠ .failed (.vanished name context))
        (evaluate .onExit steps e env m)) ∧
    (∀ steps program,
      Ends (fun _ m' => m.store.size ≤ m'.store.size)
        (fun i m' => m.store.size ≤ m'.store.size ∧ ∀ name context, i ≠ .failed (.vanished name context))
        (run .onExit steps program m)) ∧
    (∀ env ∈ envs, ∀ name context, (∃ e, m.lookup env name context = .error e) ↔ env.find? name = none) := by
  have hf := h.fits
  have hcut : ∀ {i : Interrupt} {m' : Interpreter σ}, Later m m' ∧ i.Genuine →
      m.store.size ≤ m'.store.size ∧ ∀ name context, i ≠ .failed (.vanished name context) := by
    rintro i m' ⟨hl, hi⟩
    refine ⟨hl.size, ?_⟩
    rintro name context rfl
    exact hi
  refine ⟨hf.wellFormed, hf.sound, ?_, ?_, ?_, fun env he => lookup_error_iff (hf.wellFormed env he)⟩
  · intro env _ name value
    have ha := advances_bind m env name value
    exact ⟨ha.size, ha.extended⟩
  · intro env he steps e
    exact (evaluate_safe .onExit steps e env m (hf.ready he)).imp (fun _ _ h => ⟨h.size, h.extended⟩) fun _ _ => hcut
  · intro steps program
    exact (run_safe .onExit steps program hf.sound).imp (fun _ _ h => h.size) fun _ _ => hcut

/-- A function that gives back its argument is made, assigned to a name and called. -/
def closureCalled : Expression :=
  .sequence [.declare "f" (.closure ⟨0, ["n"], .ret (.identifier "n")⟩), .call (.identifier "f") [.integer 3]]

/-- When it has been called, the cell of its argument is given back, and that of its own name is not. -/
theorem session_wellFormed_closureCalled :
    ∃ m envs, Session (Output.empty none) m envs ∧ m.store.size = 1 ∧ m.closures.toList.map (·.env.slots) = [[0]] ∧
      (∀ env ∈ envs, env.WellFormed m.store.size) ∧ (∀ c ∈ m.closures, c.env.WellFormed m.store.size) ∧
      (∀ env ∈ envs, ∀ name context, (∃ e, m.lookup env name context = .error e) ↔ env.find? name = none) := by
  have h : Session (Output.empty none) _ _ :=
    @Session.evaluated _ _ _ _ _ _ _ _ 9 closureCalled .fresh (List.mem_singleton_self _) rfl
  obtain ⟨hhanded, hclosures, -, -, -, hlookup⟩ := session_wellFormed h
  exact ⟨_, _, h, rfl, rfl, hhanded, hclosures, hlookup⟩

end ExprLang
