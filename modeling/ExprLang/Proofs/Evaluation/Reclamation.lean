import ExprLang.Proofs.Evaluation.Results
import ExprLang.Proofs.Evaluation.Simulation

/-!
# Giving back cells is unobservable

Of two interpreters one gives back cells when calls and blocks end and the other one never does. They `Mirror` each other if the cells
of the one correspond one to one to some cells of the other and hold the same values, and all else is the same but for the cells in the
environments of closures. Evaluating the same expression in both ends in the same way and in states that mirror each other again. A
cell of the second interpreter is never handed out twice; so, since cells keep their counterparts, no cell that can still be reached in
the first one is given back or handed out for another binding.
-/

namespace ExprLang

/-- The two environments have the same names in the same order, and their cells correspond. -/
def Environment.Renamed (cell : Nat → Nat → Prop) (env env' : Environment) : Prop :=
  List.Forall₂ (fun b b' => b.1 = b'.1 ∧ cell b.2 b'.2) env.bindings env'.bindings

/-- Renamed environments give a name corresponding cells. -/
theorem Environment.Renamed.find? {cell : Nat → Nat → Prop} {env env' : Environment} (h : env.Renamed cell env')
    (name : String) : Option.Rel cell (env.find? name) (env'.find? name) := by
  obtain ⟨bs⟩ := env
  obtain ⟨bs'⟩ := env'
  change List.Forall₂ _ bs bs' at h
  simp only [Environment.find?]
  induction h with
  | nil => exact .none
  | @cons b b' bs bs' hb _ ih =>
    obtain ⟨n, a⟩ := b
    obtain ⟨_, a'⟩ := b'
    obtain ⟨rfl, hcell⟩ := hb
    by_cases hn : name = n
    · simpa [List.lookup_cons, hn] using Option.Rel.some hcell
    · simpa [List.lookup_cons, beq_false_of_ne hn] using ih

/-- Every closure inside the value is one of the first `count`. -/
def Value.Made (count : Nat) (v : Value) : Prop := v.Related (fun i j => i = j ∧ i < count) v

namespace Interpreter

variable {σ : Type}

/-- The two interpreters are the same but for their cells; `cell` says which of them correspond. -/
structure Mirrors (cell : Nat → Nat → Prop) (m n : Interpreter σ) : Prop where
  /-- Cells correspond one to one. -/
  oneToOne : Relator.BiUnique cell
  /-- Corresponding cells are handed out and hold the same value, and its closures were made. -/
  value : ∀ {a b : Nat}, cell a b → ∃ v, m.store.get? a = some v ∧ n.store.get? b = some v ∧ v.Made m.closures.size
  /-- As many closures were made. -/
  count : m.closures.size = n.closures.size
  /-- They have the same literals, and their environments differ in cells only. -/
  closure : ∀ {i : Nat} {f g : Closure}, m.closures[i]? = some f → n.closures[i]? = some g →
    f.literal = g.literal ∧ f.env.Renamed cell g.env
  /-- The same was printed. -/
  output : m.output = n.output

/-- Nothing has happened in either of two interpreters. -/
theorem mirrors_initial (output : σ) : Mirrors (fun _ _ => False) (initial output) (initial output) := by
  refine ⟨⟨?_, ?_⟩, False.elim, rfl, ?_, rfl⟩
  · rintro a b c ⟨⟩
  · rintro a b c ⟨⟩
  · intro i f g hf
    simp [initial] at hf

end Interpreter

namespace Evaluation

variable {σ α : Type}

/-- Two evaluations end in the same way, in states that mirror each other, where cells that corresponded before still do. -/
inductive Mirrored (cell : Nat → Nat → Prop) (P : (Nat → Nat → Prop) → α → α → Prop) :
    EStateM.Result Interrupt (Interpreter σ) α → EStateM.Result Interrupt (Interpreter σ) α → Prop where
  /-- Both end with results of which `P` holds. -/
  | ok {a b : α} {m n : Interpreter σ} (cell' : Nat → Nat → Prop) :
      (∀ a b, cell a b → cell' a b) → m.Mirrors cell' n → P cell' a b → Mirrored cell P (.ok a m) (.ok b n)
  /-- Both are interrupted in the same way. -/
  | error (i : Interrupt) {m n : Interpreter σ} (cell' : Nat → Nat → Prop) :
      (∀ a b, cell a b → cell' a b) → m.Mirrors cell' n → Mirrored cell P (.error i m) (.error i n)

end Evaluation

open Interpreter Evaluation

/-- Environments may differ in cells, and sinks not at all. -/
def upToCells (σ : Type) [Sink σ] : Likeness σ σ where
  Env := Environment.Renamed
  Output := Eq
  mono h he := he.imp fun _ _ hb => ⟨hb.1, h _ _ hb.2⟩
  bind _ hab he := .cons ⟨rfl, hab⟩ he
  find? name he := he.find? name
  write := by
    rintro o _ s rfl
    exact ⟨rfl, rfl⟩

/-- In interpreters that mirror each other, closures of the same number correspond. -/
def mirror {σ : Type} (cell : Nat → Nat → Prop) (m n : Interpreter σ) : Correspondence σ σ :=
  ⟨m, n, cell, fun i j => i = j ∧ i < m.closures.size⟩

section

variable {σ : Type} [Sink σ] {cell : Nat → Nat → Prop} {m n : Interpreter σ}

theorem Interpreter.Mirrors.sound (h : m.Mirrors cell n) : (upToCells σ).Sound (mirror cell m n) := by
  refine ⟨h.oneToOne, ⟨?_, ?_⟩, ?_, ?_, h.output⟩
  · rintro i j k ⟨rfl, -⟩ ⟨rfl, -⟩
    rfl
  · rintro i j k ⟨rfl, -⟩ ⟨rfl, -⟩
    rfl
  · intro a b hab
    obtain ⟨v, hv, hv', hmade⟩ := h.value hab
    exact ⟨v, v, hv, hv', hmade⟩
  · rintro i _ ⟨rfl, hlt⟩
    have hlt' : i < n.closures.size := h.count ▸ hlt
    exact ⟨m.closures[i], n.closures[i], Array.getElem?_eq_getElem hlt, Array.getElem?_eq_getElem hlt',
      h.closure (Array.getElem?_eq_getElem hlt) (Array.getElem?_eq_getElem hlt')⟩

/-- A correspondence that comes from interpreters that mirror each other is again one of the cells alone. -/
theorem closure_iff_of_leads (h : m.Mirrors cell n) {d : Correspondence σ σ}
    (hd : (upToCells σ).Leads (mirror cell m n) d) (i j : Nat) : d.closure i j ↔ i = j ∧ i < d.left.closures.size := by
  have hle : m.closures.size ≤ d.left.closures.size := by
    obtain ⟨k, hk, -⟩ := hd.count
    exact hk ▸ Nat.le_add_right _ _
  have hcount := h.count
  rw [hd.closure]
  simp only [mirror, InStep, hcount]
  constructor
  · rintro (⟨rfl, hlt⟩ | ⟨⟨k, rfl, rfl⟩, hlt⟩)
    · exact ⟨rfl, by omega⟩
    · exact ⟨rfl, hlt⟩
  · rintro ⟨rfl, hlt⟩
    by_cases hi : i < n.closures.size
    · exact .inl ⟨rfl, hi⟩
    · rw [hcount] at hle
      exact .inr ⟨⟨i - n.closures.size, by omega, by omega⟩, hlt⟩

/-- Values that are related are the same. -/
theorem eq_of_leads (h : m.Mirrors cell n) {d : Correspondence σ σ} (hd : (upToCells σ).Leads (mirror cell m n) d)
    {v w : Value} (hv : v.Related d.closure w) : v = w :=
  hv.eq fun i j hij => ((closure_iff_of_leads h hd i j).1 hij).1

/-- Two interpreters that mirrored each other do so again. -/
theorem mirrors_of_leads (h : m.Mirrors cell n) {d : Correspondence σ σ}
    (hd : (upToCells σ).Leads (mirror cell m n) d) : d.left.Mirrors d.cell d.right := by
  have hcl := closure_iff_of_leads h hd
  refine ⟨hd.sound.cells, ?_, ?_, ?_, hd.sound.output⟩
  · intro a b hab
    obtain ⟨v, w, hv, hw, hr⟩ := hd.sound.value hab
    obtain rfl := eq_of_leads h hd hr
    exact ⟨v, hv, hw, hr.mono fun i j => (hcl i j).1⟩
  · obtain ⟨k, hk, hk'⟩ := hd.count
    have := h.count
    simp only [mirror] at hk hk'
    omega
  · intro i f g hf hg
    obtain ⟨hlt, -⟩ := Array.getElem?_eq_some_iff.1 hf
    obtain ⟨f', g', hf', hg', hr⟩ := hd.sound.literal ((hcl i i).2 ⟨rfl, hlt⟩)
    obtain rfl : f = f' := Option.some.inj (hf.symm.trans hf')
    obtain rfl : g = g' := Option.some.inj (hg.symm.trans hg')
    exact hr

/-- Parallel computations from interpreters that mirror each other end in interpreters that do. -/
theorem mirrored_of_parallel {α : Type} {P : Correspondence σ σ → α → α → Prop} {Q : (Nat → Nat → Prop) → α → α → Prop}
    (h : m.Mirrors cell n)
    (hq : ∀ {d a b}, (upToCells σ).Leads (mirror cell m n) d → P d a b → Q d.cell a b)
    {o o' : EStateM.Result Interrupt (Interpreter σ) α} (ho : (upToCells σ).Parallel (mirror cell m n) P o o') :
    Mirrored cell Q o o' := by
  match o, o', ho with
  | .ok _ _, .ok _ _, ⟨d, rfl, rfl, hd, hp⟩ => exact .ok d.cell hd.cell (mirrors_of_leads h hd) (hq hd hp)
  | .error i _, .error j _, ⟨d, rfl, rfl, hd, hij⟩ =>
    obtain rfl : i = j := by
      match i, j, hij with
      | .returned _, .returned _, hv => exact congrArg _ (eq_of_leads h hd hv)
      | .failed _, .failed _, rfl => rfl
      | .exhausted, .exhausted, _ => rfl
    exact .error i d.cell hd.cell (mirrors_of_leads h hd)

end

/-- Whether cells are given back makes no difference to a program, whatever it prints to and however many steps it may take: it ends
with the same value, with the same error or not at all, having printed the same, and closures differ only in the numbers of the cells
in their environments.

The same holds for each evaluation along the way, in interpreters that mirror each other so far. Every cell that had a counterpart
before, be it in the environment of the expression, in that of an operand that is still needed or in that of a closure, keeps it and
holds the same value, so it was neither given back nor handed out again. -/
theorem reclaim_unobservable {σ : Type} [Sink σ] :
    (∀ (output : σ) (steps : Nat) (program : Expression),
      Mirrored (fun _ _ => False) (fun _ v w => v = w) (run .onExit steps program (initial output))
        (run .never steps program (initial output))) ∧
    (∀ (cell : Nat → Nat → Prop) (m n : Interpreter σ) (env env' : Environment), m.Mirrors cell n →
      env.Renamed cell env' → ∀ (steps : Nat) (e : Expression),
        Mirrored cell (fun cell' r r' => r.value = r'.value ∧ r.env.Renamed cell' r'.env) (evaluate .onExit steps e env m)
          (evaluate .never steps e env' n)) := by
  refine ⟨?_, ?_⟩
  · intro output steps program
    have h := mirrors_initial output
    exact mirrored_of_parallel h (fun hd hv => eq_of_leads h hd hv) (run_parallel .onExit .never steps program h.sound .nil)
  · intro cell m n env env' h he steps e
    refine mirrored_of_parallel h ?_ (evaluate_simulates (upToCells σ) .onExit .never steps e env env' _ h.sound he)
    exact fun hd hr => ⟨eq_of_leads h hd hr.value, hr.env⟩

/-- A call gives a name a closure that sees the call's argument; then another name is declared, and the closure is called. -/
def closureKept : Expression :=
  .sequence [.declare "g" .void,
    .call (.function ⟨0, ["k"], .void⟩) [.integer 1],
    .call (.function ⟨1, ["n"], .assign (.identifier "g") (.closure ⟨2, [], .ret (.identifier "n")⟩)⟩) [.integer 7],
    .declare "x" (.integer 9),
    .call (.identifier "g") []]

/-- The state after `closureKept`, given the values in the cells and the environment of the closure. -/
def keptClosure (cells : Array Value) (env : Environment) : Interpreter :=
  ⟨⟨cells⟩, #[⟨⟨2, [], .ret (.identifier "n")⟩, env⟩], 2, Output.empty none⟩

/-- The cell of the first argument is handed out again for the second one, which the closure keeps; so the name declared afterwards
has another cell. -/
theorem reclaim_unobservable_closureKept :
    evaluate .onExit 9 closureKept Environment.empty (initial (Output.empty none)) =
      .ok ⟨.int 7, ⟨[("x", 2), ("g", 0)]⟩⟩ (keptClosure #[.closure 0, .int 7, .int 9] ⟨[("n", 1), ("g", 0)]⟩) ∧
    evaluate .never 9 closureKept Environment.empty (initial (Output.empty none)) =
      .ok ⟨.int 7, ⟨[("x", 3), ("g", 0)]⟩⟩ (keptClosure #[.closure 0, .int 1, .int 7, .int 9] ⟨[("n", 2), ("g", 0)]⟩) ∧
    ∃ cell : Nat → Nat → Prop,
      (keptClosure #[.closure 0, .int 7, .int 9] ⟨[("n", 1), ("g", 0)]⟩).Mirrors cell
        (keptClosure #[.closure 0, .int 1, .int 7, .int 9] ⟨[("n", 2), ("g", 0)]⟩) ∧ cell 0 0 ∧ cell 2 3 := by
  obtain ⟨-, hevaluate⟩ := @reclaim_unobservable Output _
  have hempty : Environment.empty.Renamed (fun _ _ => False) Environment.empty := .nil
  have h := hevaluate _ _ _ _ _ (mirrors_initial (Output.empty none)) hempty 9 closureKept
  have hm : evaluate .onExit 9 closureKept Environment.empty (initial (Output.empty none)) =
      .ok ⟨.int 7, ⟨[("x", 2), ("g", 0)]⟩⟩ (keptClosure #[.closure 0, .int 7, .int 9] ⟨[("n", 1), ("g", 0)]⟩) := by
    refine (sequence_of_ok (r := ⟨.id "g", ⟨[("g", 0)]⟩⟩) (s := ⟨⟨#[.void]⟩, #[], 0, Output.empty none⟩) rfl _).trans ?_
    -- the cell of the first argument is given back here
    refine (sequence_of_ok (r := ⟨.void, ⟨[("g", 0)]⟩⟩) (s := ⟨⟨#[.void]⟩, #[], 0, Output.empty none⟩) rfl _).trans ?_
    refine (sequence_of_ok (r := ⟨.void, ⟨[("g", 0)]⟩⟩) (s := keptClosure #[.closure 0, .int 7] ⟨[("n", 1), ("g", 0)]⟩) rfl _).trans ?_
    rfl
  have hn : evaluate .never 9 closureKept Environment.empty (initial (Output.empty none)) =
      .ok ⟨.int 7, ⟨[("x", 3), ("g", 0)]⟩⟩ (keptClosure #[.closure 0, .int 1, .int 7, .int 9] ⟨[("n", 2), ("g", 0)]⟩) := by
    refine (sequence_of_ok (r := ⟨.id "g", ⟨[("g", 0)]⟩⟩) (s := ⟨⟨#[.void]⟩, #[], 0, Output.empty none⟩) rfl _).trans ?_
    refine (sequence_of_ok (r := ⟨.void, ⟨[("g", 0)]⟩⟩) (s := ⟨⟨#[.void, .int 1]⟩, #[], 0, Output.empty none⟩) rfl _).trans ?_
    refine (sequence_of_ok (r := ⟨.void, ⟨[("g", 0)]⟩⟩)
      (s := keptClosure #[.closure 0, .int 1, .int 7] ⟨[("n", 2), ("g", 0)]⟩) rfl _).trans ?_
    rfl
  rw [hm, hn] at h
  refine ⟨hm, hn, ?_⟩
  obtain ⟨cell, -, hmirrors, -, hrenamed⟩ | - := h
  obtain _ | ⟨⟨-, hx⟩, hrenamed⟩ := hrenamed
  obtain _ | ⟨⟨-, hg⟩, -⟩ := hrenamed
  exact ⟨cell, hmirrors, hg, hx⟩

end ExprLang
