import ExprLang.Proofs.Evaluation.Simulation

/-!
# What an evaluation sees of an environment

An evaluation asks an environment for nothing but the cell of a name. Two environments `Match` if they give every name corresponding
cells, or both none, however long they are and whatever bindings are shadowed in them; and two interpreters may hold any other cells
and closures besides those that correspond. Evaluating the same expression in both ends in the same way (`evaluate_observes_lookup`).

Cells and closures that do not correspond are not seen, and the cells among them are not touched either (`Accord.Onward`). So an
interpreter that was used before is as good as a new one: a program begins with no names.
-/

namespace ExprLang

/-! ## Environments and sinks that cannot be told apart -/

/-- Every name stands for corresponding cells, or for none in both environments. -/
def Environment.Matches (cell : Nat → Nat → Prop) (env env' : Environment) : Prop :=
  ∀ name, Option.Rel cell (env.find? name) (env'.find? name)

theorem Environment.Matches.mono {R S : Nat → Nat → Prop} {env env' : Environment} (h : ∀ a b, R a b → S a b)
    (he : env.Matches R env') : env.Matches S env' := by
  intro name
  have hname := he name
  generalize env.find? name = a at hname ⊢
  generalize env'.find? name = b at hname ⊢
  cases hname with
  | none => exact .none
  | some hab => exact .some (h _ _ hab)

/-- A binding behind one of the same name makes no difference to what names stand for. -/
theorem Environment.find?_shadowed {before after : List (String × Nat)} {name : String} (slot : Nat)
    (h : name ∈ before.map Prod.fst) (other : String) :
    (⟨before ++ (name, slot) :: after⟩ : Environment).find? other = (⟨before ++ after⟩ : Environment).find? other := by
  simp only [find?, List.lookup_append, List.lookup_cons]
  by_cases ho : other = name
  · subst ho
    have hsome : (before.lookup other).isSome := List.lookup_isSome_iff.2 (by simpa using h)
    obtain ⟨found, hfound⟩ := Option.isSome_iff_exists.1 hsome
    rw [hfound, Option.some_or, Option.some_or]
  · rw [beq_false_of_ne ho]

/-- Sinks of two kinds, and when they take the same texts. -/
structure Accord (σ τ : Type) [Sink σ] [Sink τ] where
  /-- From now on the two take the same texts. -/
  Alike : σ → τ → Prop
  /-- The next text is taken by both or by none, and what comes after it as well. -/
  write : ∀ {o : σ} {o' : τ} (s : String), Alike o o' →
    (Sink.write o s).2 = (Sink.write o' s).2 ∧ Alike (Sink.write o s).1 (Sink.write o' s).1

/-- What becomes of a sink that is handed texts one after the other. -/
def handOver {σ : Type} [Sink σ] (o : σ) (texts : List String) : σ := texts.foldl (fun o s => (Sink.write o s).1) o

/-- Outputs that take any number of lines. -/
def unlimited : Accord Output Output where
  Alike o o' := o.maxLines = none ∧ o'.maxLines = none
  write s h := by
    obtain ⟨ho, ho'⟩ := h
    simp [Sink.write, Output.write?, Output.accepts, ho, ho']

section

variable {σ τ : Type} [Sink σ] [Sink τ]

/-- The texts that both sinks were handed since they were `o` and `o'` are the same. -/
def Accord.since (A : Accord σ τ) (o : σ) (o' : τ) : Accord σ τ where
  Alike p p' := A.Alike p p' ∧ ∃ texts, p = handOver o texts ∧ p' = handOver o' texts
  write s h := by
    obtain ⟨halike, texts, rfl, rfl⟩ := h
    obtain ⟨htaken, halike'⟩ := A.write s halike
    refine ⟨htaken, halike', texts ++ [s], ?_, ?_⟩ <;> simp [handOver]

/-- Environments count as alike if they cannot be told apart by looking up names. -/
def upToLookup (A : Accord σ τ) : Likeness σ τ where
  Env := Environment.Matches
  Output := A.Alike
  mono h he := he.mono h
  bind name hab he other := by
    simp only [Environment.find?_bind]
    split
    · exact .some hab
    · exact he other
  find? name he := he name
  write s h := A.write s h

/-! ## How two evaluations end -/

/-- What the states of `c` may become when both evaluations go on: the states of `d`. -/
structure Accord.Onward (A : Accord σ τ) (c d : Correspondence σ τ) : Prop where
  /-- Corresponding cells still correspond. -/
  cell : ∀ a b, c.cell a b → d.cell a b
  /-- So do closures. -/
  closure : ∀ i j, c.closure i j → d.closure i j
  /-- What corresponds holds related values, and closures that correspond have environments that match. -/
  sound : (upToLookup A).Sound d
  /-- Of the cells there were in the one interpreter none was touched that does not correspond to another. -/
  left : c.left.Spares (fun a => ∃ b, c.cell a b) d.left
  /-- Nor was one in the other. -/
  right : c.right.Spares (fun b => ∃ a, c.cell a b) d.right
  /-- The same texts were printed. -/
  printed : ∃ texts, d.left.output = handOver c.left.output texts ∧ d.right.output = handOver c.right.output texts

/-- Two evaluations that began in the states of `c` end in the same way. -/
inductive SameEnd (A : Accord σ τ) (c : Correspondence σ τ) {α β : Type} (P : Correspondence σ τ → α → β → Prop) :
    EStateM.Result Interrupt (Interpreter σ) α → EStateM.Result Interrupt (Interpreter τ) β → Prop where
  /-- Both have results, and `P` holds of them. -/
  | ok {a : α} {b : β} {m : Interpreter σ} {n : Interpreter τ} {cell closure : Nat → Nat → Prop}
      (hd : A.Onward c ⟨m, n, cell, closure⟩) (hp : P ⟨m, n, cell, closure⟩ a b) : SameEnd A c P (.ok a m) (.ok b n)
  /-- Both return, with related values. -/
  | returned {v w : Value} {m : Interpreter σ} {n : Interpreter τ} {cell closure : Nat → Nat → Prop}
      (hd : A.Onward c ⟨m, n, cell, closure⟩) (hv : v.Related closure w) :
      SameEnd A c P (.error (.returned v) m) (.error (.returned w) n)
  /-- Both fail with the same error. -/
  | failed (e : EvalError) {m : Interpreter σ} {n : Interpreter τ} {cell closure : Nat → Nat → Prop}
      (hd : A.Onward c ⟨m, n, cell, closure⟩) : SameEnd A c P (.error (.failed e) m) (.error (.failed e) n)
  /-- Neither ends within the steps allowed. -/
  | exhausted {m : Interpreter σ} {n : Interpreter τ} {cell closure : Nat → Nat → Prop}
      (hd : A.Onward c ⟨m, n, cell, closure⟩) : SameEnd A c P (.error .exhausted m) (.error .exhausted n)

variable {A : Accord σ τ} {c d : Correspondence σ τ}

/-- What corresponds at the beginning still does if one takes note of what is printed from then on. -/
theorem sound_since (h : (upToLookup A).Sound c) : (upToLookup (A.since c.left.output c.right.output)).Sound c :=
  ⟨h.cells, h.closures, h.value, h.literal, h.output, [], rfl, rfl⟩

theorem onward_of_leads (h : (upToLookup (A.since c.left.output c.right.output)).Leads c d) : A.Onward c d := by
  obtain ⟨halike, hprinted⟩ := h.sound.output
  exact ⟨h.cell, h.closure_of, ⟨h.sound.cells, h.sound.closures, h.sound.value, h.sound.literal, halike⟩, h.leftSpares,
    h.rightSpares, hprinted⟩

theorem sameEnd_of_parallel {α β : Type} {P Q : Correspondence σ τ → α → β → Prop} (hpq : ∀ d a b, P d a b → Q d a b)
    {o : EStateM.Result Interrupt (Interpreter σ) α} {o' : EStateM.Result Interrupt (Interpreter τ) β}
    (h : (upToLookup (A.since c.left.output c.right.output)).Parallel c P o o') : SameEnd A c Q o o' := by
  match o, o', h with
  | .ok a _, .ok b _, ⟨d, rfl, rfl, hd, hp⟩ => exact .ok (onward_of_leads hd) (hpq d a b hp)
  | .error i _, .error j _, ⟨d, rfl, rfl, hd, hij⟩ =>
    match i, j, hij with
    | .returned _, .returned _, hv => exact .returned (onward_of_leads hd) hv
    | .failed e, .failed _, rfl => exact .failed e (onward_of_leads hd)
    | .exhausted, .exhausted, _ => exact .exhausted (onward_of_leads hd)

/-- An expression is evaluated in the same way in environments that match. -/
theorem sameEnd_evaluate (A : Accord σ τ) {c : Correspondence σ τ} (hc : (upToLookup A).Sound c) {env env' : Environment}
    (he : env.Matches c.cell env') (steps : Nat) (e : Expression) :
    SameEnd A c (fun d r r' => r.value.Related d.closure r'.value ∧ r.env.Matches d.cell r'.env)
      (evaluate .onExit steps e env c.left) (evaluate .onExit steps e env' c.right) :=
  sameEnd_of_parallel (fun _ _ _ h => ⟨h.value, h.env⟩)
    (evaluate_simulates (upToLookup (A.since c.left.output c.right.output)) .onExit .onExit steps e env env' c
      (sound_since hc) he)

/-- Nothing corresponds in two interpreters of which only the sinks matter. -/
theorem sound_unrelated (A : Accord σ τ) {m : Interpreter σ} {n : Interpreter τ} (h : A.Alike m.output n.output) :
    (upToLookup A).Sound ⟨m, n, fun _ _ => False, fun _ _ => False⟩ := by
  refine ⟨⟨?_, ?_⟩, ⟨?_, ?_⟩, False.elim, False.elim, h⟩
  all_goals rintro a b c ⟨⟩

/-- Evaluation observes an environment only through the cells that it gives to names. Some cells and closures of two interpreters
correspond one to one, corresponding cells hold values that are the same up to corresponding closures, and corresponding closures have
the same literal and environments that match; nothing is assumed of the others. In environments that match, the same expression ends in
the same way in both: not at all, with the same error, or with related values and environments that match again. Cells and closures
that corresponded still do, the same texts were printed, and cells without a counterpart hold what they held.

In particular a shadowed binding makes no difference; and a program gives the same result on any two interpreters whatever they were
used for, if only their sinks take the same texts. -/
theorem evaluate_observes_lookup (A : Accord σ τ) :
    (∀ c : Correspondence σ τ, (upToLookup A).Sound c → ∀ env env' : Environment, env.Matches c.cell env' →
      ∀ (steps : Nat) (e : Expression),
        SameEnd A c (fun d r r' => r.value.Related d.closure r'.value ∧ r.env.Matches d.cell r'.env)
          (evaluate .onExit steps e env c.left) (evaluate .onExit steps e env' c.right)) ∧
    (∀ c : Correspondence σ τ, (upToLookup A).Sound c → ∀ (before after : List (String × Nat)) (name : String) (slot : Nat),
      name ∈ before.map Prod.fst → ∀ env' : Environment, Environment.Matches c.cell ⟨before ++ after⟩ env' →
      ∀ (steps : Nat) (e : Expression),
        SameEnd A c (fun d r r' => r.value.Related d.closure r'.value ∧ r.env.Matches d.cell r'.env)
          (evaluate .onExit steps e ⟨before ++ (name, slot) :: after⟩ c.left) (evaluate .onExit steps e env' c.right)) ∧
    (∀ (m : Interpreter σ) (n : Interpreter τ), A.Alike m.output n.output → ∀ (steps : Nat) (program : Expression),
      SameEnd A ⟨m, n, fun _ _ => False, fun _ _ => False⟩ (fun d v w => v.Related d.closure w ∧ v.text = w.text)
        (run .onExit steps program m) (run .onExit steps program n)) := by
  refine ⟨fun c hc env env' => sameEnd_evaluate A hc, ?_, ?_⟩
  · intro c hc before after name slot hname env' he steps e
    refine sameEnd_evaluate A hc (fun other => ?_) steps e
    rw [Environment.find?_shadowed slot hname]
    exact he other
  · intro m n houtput steps program
    have hempty : Environment.empty.Matches (fun _ _ => False) Environment.empty := fun _ => .none
    refine sameEnd_of_parallel ?_ (run_parallel .onExit .onExit steps program (sound_since (sound_unrelated A houtput)) hempty)
    exact fun _ _ _ hv => ⟨hv, hv.text_eq⟩

end

/-- A function without parameters that gives back the value of `k`. -/
def giveK : FunctionLiteral := ⟨0, [], .ret (.identifier "k")⟩

/-- Adds one to `k`, and prints what the function `g` gives back. -/
def addedAndPrinted : Expression :=
  .sequence [.assign (.identifier "k") (.binary (.identifier "k") (.arithmetic .add) (.integer 1)),
    .print (.call (.identifier "g") [])]

/-- A used interpreter: cell 1 belongs to `k` and cell 2 to `g`, and cell 0 to a `k` that is shadowed. -/
def usedBefore (k : Int32) (printed : String) : Interpreter :=
  ⟨⟨#[.int 50, .int k, .closure 1]⟩, #[⟨giveK, ⟨[("k", 0)]⟩⟩, ⟨giveK, ⟨[("k", 1)]⟩⟩], 2, ⟨printed, none⟩⟩

/-- Another interpreter: cell 0 belongs to `g` and cell 1 to `k`. -/
def usedLess (k : Int32) (printed : String) : Interpreter :=
  ⟨⟨#[.closure 0, .int k]⟩, #[⟨giveK, ⟨[("k", 1)]⟩⟩], 1, ⟨printed, none⟩⟩

/-- The cells of `k` and of `g` correspond, and the closures that `g` stands for. -/
def usedAlike : Correspondence Output Output :=
  ⟨usedBefore 4 "old", usedLess 4 "", fun a b => a = 1 ∧ b = 1 ∨ a = 2 ∧ b = 0, fun i j => i = 1 ∧ j = 0⟩

theorem sound_usedAlike : (upToLookup unlimited).Sound usedAlike := by
  have hk : (⟨[("k", 1)]⟩ : Environment).Matches usedAlike.cell ⟨[("k", 1)]⟩ := by
    intro name
    by_cases h : name = "k"
    · subst h
      exact .some (.inl ⟨rfl, rfl⟩)
    · rw [Environment.find?, List.lookup_cons, beq_false_of_ne h]
      exact .none
  refine ⟨⟨?_, ?_⟩, ⟨?_, ?_⟩, ?_, ?_, ⟨rfl, rfl⟩⟩
  · intro a a' b h h'
    simp only [usedAlike] at h h'
    omega
  · intro a b b' h h'
    simp only [usedAlike] at h h'
    omega
  · rintro i i' j ⟨rfl, rfl⟩ ⟨rfl, -⟩
    rfl
  · rintro i j j' ⟨rfl, rfl⟩ ⟨-, rfl⟩
    rfl
  · rintro a b (⟨rfl, rfl⟩ | ⟨rfl, rfl⟩)
    · exact ⟨.int 4, .int 4, rfl, rfl, rfl⟩
    · exact ⟨.closure 1, .closure 0, rfl, rfl, ⟨rfl, rfl⟩⟩
  · rintro i j ⟨rfl, rfl⟩
    exact ⟨⟨giveK, ⟨[("k", 1)]⟩⟩, ⟨giveK, ⟨[("k", 1)]⟩⟩, rfl, rfl, rfl, hk⟩

/-- The names `g` and `k`, where cell 1 belongs to `k`. -/
theorem matches_usedAlike : (⟨[("g", 2), ("k", 1)]⟩ : Environment).Matches usedAlike.cell ⟨[("k", 1), ("g", 0)]⟩ := by
  intro name
  by_cases hg : name = "g"
  · subst hg
    exact .some (.inr ⟨rfl, rfl⟩)
  by_cases hk : name = "k"
  · subst hk
    exact .some (.inl ⟨rfl, rfl⟩)
  · simp only [Environment.find?, List.lookup_cons, beq_false_of_ne hg, beq_false_of_ne hk]
    exact .none

/-- In front of a `k` that is shadowed, `k` is counted up and printed as in the other interpreter, and a program that begins with no
names does not see what was done before. -/
theorem evaluate_observes_lookup_usedAlike :
    (∃ d, unlimited.Onward usedAlike d ∧ d.left = usedBefore 5 "old5\n" ∧ d.right = usedLess 5 "5\n") ∧
    (∃ d, unlimited.Onward usedAlike d ∧ d.left = usedBefore 5 "old5\n" ∧ d.right = usedLess 5 "5\n") ∧
    SameEnd unlimited ⟨usedBefore 4 "old", usedLess 4 "", fun _ _ => False, fun _ _ => False⟩
      (fun d v w => v.Related d.closure w ∧ v.text = w.text) (run .onExit 9 addedAndPrinted (usedBefore 4 "old"))
      (run .onExit 9 addedAndPrinted (usedLess 4 "")) := by
  obtain ⟨hall, hshadowed, hrun⟩ := evaluate_observes_lookup unlimited
  have hone := hall _ sound_usedAlike _ _ matches_usedAlike 9 addedAndPrinted
  have htwo := hshadowed _ sound_usedAlike [("g", 2), ("k", 1)] [] "k" 0 (by simp) _ matches_usedAlike 9 addedAndPrinted
  have hm : evaluate .onExit 9 addedAndPrinted ⟨[("g", 2), ("k", 1)]⟩ usedAlike.left =
    .ok ⟨.void, ⟨[("g", 2), ("k", 1)]⟩⟩ (usedBefore 5 "old5\n") := rfl
  have hm' : evaluate .onExit 9 addedAndPrinted ⟨[("g", 2), ("k", 1)] ++ ("k", 0) :: []⟩ usedAlike.left =
    .ok ⟨.void, ⟨[("g", 2), ("k", 1), ("k", 0)]⟩⟩ (usedBefore 5 "old5\n") := rfl
  have hn : evaluate .onExit 9 addedAndPrinted ⟨[("k", 1), ("g", 0)]⟩ usedAlike.right =
    .ok ⟨.void, ⟨[("k", 1), ("g", 0)]⟩⟩ (usedLess 5 "5\n") := rfl
  rw [hm, hn] at hone
  rw [hm', hn] at htwo
  refine ⟨?_, ?_, hrun (usedBefore 4 "old") (usedLess 4 "") ⟨rfl, rfl⟩ 9 addedAndPrinted⟩
  · cases hone with
    | ok hd _ => exact ⟨_, hd, rfl, rfl⟩
  · cases htwo with
    | ok hd _ => exact ⟨_, hd, rfl, rfl⟩

end ExprLang
