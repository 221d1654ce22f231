import ExprLang.Proofs.Lowering.Success

/-!
# The two ways to take numbers

Whether numbers are taken as signed or as unsigned is looked at in two places, where a tag is dropped and where a quotient is computed.
So lowering in the two modes goes through the same states, but for the instructions made there: unsigned code is signed code in which
every signed shift and every signed quotient is replaced (`Alike`). This holds of everything that is made on the way, also if lowering
fails, and of functions inside of functions, which are lowered in the mode of the function around.
-/

namespace ExprLang

open Code

/-! ## Unsigned in place of signed -/

namespace Code

/-- The shift that takes numbers as unsigned. -/
def Shift.unsigned : Shift → Shift
  | signed => logical
  | op => op

/-- The operation that takes numbers as unsigned. -/
def BinaryOp.unsigned : BinaryOp → BinaryOp
  | sdiv => udiv
  | op => op

/-- The instruction that takes numbers as unsigned. -/
def Instruction.unsigned : Instruction → Instruction
  | shift dest op value amount => shift dest op.unsigned value amount
  | binary op dest left right => binary op.unsigned dest left right
  | i => i

/-- The definition whose instructions take numbers as unsigned. -/
def Definition.unsigned (d : Definition) : Definition := { d with body := d.body.map Instruction.unsigned }

/-- The module whose instructions take numbers as unsigned. -/
def Module.unsigned (m : Module) : Module :=
  { m with functions := m.functions.map Definition.unsigned, entry := m.entry.unsigned }

end Code

/-- The state in which the instructions that were made take numbers as unsigned. -/
def Generator.unsigned (g : Generator) : Generator :=
  { g with instructions := g.instructions.map Instruction.unsigned, functions := g.functions.map Definition.unsigned }

/-- Unsigned code is added where signed code is. -/
theorem Generator.unsigned_push (g : Generator) (i : Instruction) (next : Nat) :
    { g with nextRegister := next, instructions := g.instructions.push i }.unsigned =
      { g.unsigned with nextRegister := next, instructions := g.unsigned.instructions.push i.unsigned } := by
  simp [Generator.unsigned]

/-- How a computation ends when its last state is changed. -/
def mapState {ε σ α : Type} (f : σ → σ) : EStateM.Result ε σ α → EStateM.Result ε σ α
  | .ok a s => .ok a (f s)
  | .error e s => .error e (f s)

/-- The last state is the changed one, whether there is a result or an error. -/
theorem finalState_mapState {ε σ α : Type} (f : σ → σ) (r : EStateM.Result ε σ α) : finalState (mapState f r) = f (finalState r) := by
  cases r <;> rfl

namespace Lowering

/-- From states that are alike the computations end alike, with the same result or the same error. -/
def Alike {α : Type} (x y : Lowering α) : Prop := ∀ g : Generator, y g.unsigned = mapState Generator.unsigned (x g)

variable {α β : Type} {x y : Lowering α}

theorem alike_pure (a : α) : Alike (pure a : Lowering α) (pure a) := fun _ => rfl

theorem alike_throw (e : LoweringError) : Alike (throw e : Lowering α) (throw e) := fun _ => rfl

/-- What follows alike results goes on alike. -/
theorem Alike.bind {f f' : α → Lowering β} (hx : Alike x y) (hf : ∀ a, Alike (f a) (f' a)) : Alike (x >>= f) (y >>= f') := by
  intro g
  have hg := hx g
  cases h : x g with
  | ok a g' =>
    rw [h] at hg
    rw [bind_of_ok h, bind_of_ok hg]
    exact hf a g'
  | error e g' =>
    rw [h] at hg
    rw [bind_of_error h, bind_of_error hg]
    rfl

/-! ## Single steps -/

/-- An instruction that is the same in both modes is added alike. -/
theorem alike_emit {i : Instruction} (hi : i.unsigned = i) : Alike (emit i) (emit i) := by
  intro g
  refine congrArg (EStateM.Result.ok ()) ((Generator.unsigned_push g i g.nextRegister).trans ?_).symm
  rw [hi]
  rfl

/-- An instruction and its unsigned form are added alike. -/
theorem alike_emitTo {i j : Nat → Instruction} (h : ∀ r, (i r).unsigned = j r) : Alike (emitTo i) (emitTo j) := by
  intro g
  refine congrArg (EStateM.Result.ok g.nextRegister) ((Generator.unsigned_push g (i g.nextRegister) (g.nextRegister + 1)).trans ?_).symm
  rw [h]
  rfl

theorem alike_reserveLabels (count : Nat) : Alike (reserveLabels count) (reserveLabels count) := fun _ => rfl

theorem alike_noteBoxed (cell : Nat) : Alike (noteBoxed cell) (noteBoxed cell) := fun _ => rfl

/-- A name is declared in both modes in the same frame. -/
theorem alike_declare (name : String) (initial : Option Int32) : Alike (declare name initial) (declare name initial) := fun _ => rfl

/-- What depends on the state depends on nothing in which states that are alike differ. -/
theorem alike_reading {f f' : Generator → Lowering β} (h : ∀ g, Alike (f g) (f' g.unsigned)) : Alike (get >>= f) (get >>= f') :=
  fun g => h g g

theorem alike_box (value : Operand) : Alike (box value) (box value) := by
  refine (alike_emitTo fun _ => rfl).bind fun cell => ?_
  refine (alike_emit rfl).bind fun _ => ?_
  exact alike_noteBoxed cell

theorem alike_constant (tagged : Int32) : Alike (constant tagged) (constant tagged) :=
  Alike.bind (fun _ => rfl) fun _ => alike_box (.constant tagged)

/-- Reading a result does not depend on the mode. -/
theorem alike_load (l : Lowered) (kind : String) : Alike (load l kind) (load l kind) := by
  cases l with
  | boxed pointer => exact (alike_emitTo fun _ => rfl).bind fun r => alike_pure (Operand.register r)
  | flag r => exact alike_throw _
  | nothing => exact alike_throw _

/-- A tag is dropped by a signed shift or by one that is not. -/
theorem alike_unbox (l : Lowered) (kind : String) : Alike (unbox .signed l kind) (unbox .unsigned l kind) := by
  refine (alike_load l kind).bind fun _ => ?_
  refine (alike_emitTo fun _ => rfl).bind fun r => ?_
  exact alike_pure (Operand.register r)

/-- A name has the same slot in both modes. -/
theorem alike_ownSlot (name kind : String) : Alike (ownSlot name kind) (ownSlot name kind) := by
  refine alike_reading fun g => ?_
  have hframes : g.unsigned.frames = g.frames := rfl
  rw [hframes]
  rcases g.frames.resolve? name with _ | slot | _
  · exact alike_throw _
  · exact alike_pure slot
  · exact alike_throw _

theorem alike_slotAddress (slot : Nat) : Alike (slotAddress slot) (slotAddress slot) :=
  alike_reading fun _ => alike_emitTo fun _ => rfl

/-- Storing to a slot does not depend on the mode. -/
theorem alike_storeSlot (slot : Nat) (value : Operand) : Alike (storeSlot slot value) (storeSlot slot value) := by
  refine (alike_slotAddress slot).bind fun pointer => ?_
  refine (alike_emit rfl).bind fun _ => ?_
  exact alike_noteBoxed pointer

/-- Reading a variable does not depend on the mode. -/
theorem alike_readName (name : String) : Alike (readName name) (readName name) := by
  refine (alike_ownSlot name "Identifier").bind fun slot => ?_
  refine (alike_slotAddress slot).bind fun _ => ?_
  refine (alike_emitTo fun _ => rfl).bind fun value => ?_
  exact alike_box (.register value)

/-- A test compares words as they are, in both modes. -/
theorem alike_test (l : Lowered) (kind : String) : Alike (test l kind) (test l kind) := by
  cases l with
  | flag r => exact alike_pure r
  | boxed cell => exact (alike_load (.boxed cell) kind).bind fun _ => alike_emitTo fun _ => rfl
  | nothing => exact alike_throw _

/-- A quotient is signed or is not; every other operation is the same. -/
theorem alike_arithmetic (op : Arithmetic) (l : Lowered) (leftKind : String) (r : Lowered) (rightKind : String) :
    Alike (arithmetic .signed op l leftKind r rightKind) (arithmetic .unsigned op l leftKind r rightKind) := by
  cases op with
  | add =>
    refine (alike_load l leftKind).bind fun _ => ?_
    refine (alike_load r rightKind).bind fun _ => ?_
    refine (alike_emitTo fun _ => rfl).bind fun sum => ?_
    exact alike_box (.register sum)
  | sub | mul | div =>
    refine (alike_unbox l leftKind).bind fun _ => ?_
    refine (alike_unbox r rightKind).bind fun _ => ?_
    refine (alike_emitTo fun _ => rfl).bind fun _ => ?_
    refine (alike_emitTo fun _ => rfl).bind fun value => ?_
    exact alike_box (.register value)

/-- Comparisons are signed in both modes. -/
theorem alike_comparison (op : Comparison) (l : Lowered) (leftKind : String) (r : Lowered) (rightKind : String) :
    Alike (comparison op l leftKind r rightKind) (comparison op l leftKind r rightKind) := by
  refine (alike_load l leftKind).bind fun _ => ?_
  refine (alike_load r rightKind).bind fun _ => ?_
  refine (alike_emitTo fun _ => rfl).bind fun flag => ?_
  exact alike_pure (Lowered.flag flag)

theorem alike_ret (value : Operand) : Alike (ret value) (ret value) := by
  refine (alike_emit rfl).bind fun _ => ?_
  refine (alike_reserveLabels 1).bind fun _ => ?_
  refine (alike_emit rfl).bind fun _ => ?_
  exact alike_pure _

/-- Parameters are stored alike. -/
theorem alike_spill (parameters : List String) : Alike (spill parameters) (spill parameters) := by
  induction parameters with
  | nil => exact alike_pure ()
  | cons p rest ih =>
    refine (alike_declare p none).bind fun slot => ?_
    refine (alike_storeSlot slot (.named p)).bind fun _ => ?_
    exact ih

/-! ## Branching code -/

/-- A condition is alike if the expression that is tested is. -/
theorem Alike.condition {t t' : Lowering Lowered} (h : Alike t t') (kind : String) :
    Alike (t >>= fun l => test l kind) (t' >>= fun l => test l kind) := by
  refine h.bind fun l => ?_
  exact alike_test l kind

/-- A branch whose value is not used is alike if it was before. -/
theorem Alike.branch (h : Alike x y) : Alike (x >>= fun _ => pure ()) (y >>= fun _ => pure ()) := by
  refine h.bind fun _ => ?_
  exact alike_pure ()

/-- Code between branches is alike if what it is made of is. -/
theorem alike_branching {code code' : Lowering Unit} (h : Alike code code') : Alike (branching code) (branching code') :=
  alike_reading fun _ => h.bind fun _ => Alike.bind (fun _ => rfl) fun _ => alike_pure _

/-- A choice is alike if its test and its branches are. -/
theorem alike_conditional {t t' : Lowering Nat} {c c' a a' : Lowering Unit} (ht : Alike t t') (hc : Alike c c') (ha : Alike a a') :
    Alike (conditional t c a) (conditional t' c' a') := by
  refine alike_branching ((alike_reserveLabels 4).bind fun start => ?_)
  refine (alike_emit rfl).bind fun _ => ?_
  refine (alike_emit rfl).bind fun _ => ?_
  refine ht.bind fun flag => ?_
  refine (alike_emit rfl).bind fun _ => ?_
  refine (alike_emit rfl).bind fun _ => ?_
  refine hc.bind fun _ => ?_
  refine (alike_emit rfl).bind fun _ => ?_
  refine (alike_emit rfl).bind fun _ => ?_
  refine ha.bind fun _ => ?_
  exact (alike_emit rfl).bind fun _ => alike_emit rfl

/-- A loop is alike if its test and its body are. -/
theorem alike_loop {t t' : Lowering Nat} {b b' : Lowering Unit} (ht : Alike t t') (hb : Alike b b') :
    Alike (loop t b) (loop t' b') := by
  refine alike_branching ((alike_reserveLabels 3).bind fun start => ?_)
  refine (alike_emit rfl).bind fun _ => ?_
  refine (alike_emit rfl).bind fun _ => ?_
  refine ht.bind fun flag => ?_
  refine (alike_emit rfl).bind fun _ => ?_
  refine (alike_emit rfl).bind fun _ => ?_
  refine hb.bind fun _ => ?_
  exact (alike_emit rfl).bind fun _ => alike_emit rfl

/-! ## Functions -/

/-- The cell that is read at the end is the same. -/
theorem cellAtEnd_unsigned (g : Generator) : cellAtEnd g.unsigned = cellAtEnd g := by
  have hlast : g.unsigned.instructions.back? = g.instructions.back?.map Instruction.unsigned := by simp [Generator.unsigned]
  unfold cellAtEnd
  rw [hlast]
  rcases g.instructions.back? with _ | i
  · rfl
  · cases i <;> rfl

/-- The end of a function is the same in both modes. -/
theorem close_unsigned (g : Generator) : g.unsigned.close = g.close.unsigned := by
  rw [close_eq, close_eq, cellAtEnd_unsigned]
  cases cellAtEnd g <;> simp [Generator.unsigned, Instruction.unsigned]

/-- A function is begun in the same state in both modes. -/
theorem nested_unsigned (g : Generator) : g.unsigned.nested = g.nested.unsigned := by
  simp [Generator.nested, Generator.unsigned, Generator.initial]

/-- The instructions that make the frame take no numbers. -/
theorem map_unsigned_prologue (frame : Frame) (allocation pointer : Nat) :
    (Generator.prologue frame allocation pointer).map Instruction.unsigned = Generator.prologue frame allocation pointer := rfl

/-- The definition made in the one mode is the one made in the other, but for the instructions that take numbers. -/
theorem definition_unsigned (name : String) (parameters : List String) {body body' : Lowering Lowered} (h : Alike body body')
    (g : Generator) : definition name parameters body' g.unsigned =
      match definition name parameters body g with
      | .ok d g' => .ok d.unsigned g'.unsigned
      | .error e g' => .error e g'.unsigned := by
  have hcode : (spill parameters >>= fun _ => body') g.unsigned.begun =
      mapState Generator.unsigned ((spill parameters >>= fun _ => body) g.begun) :=
    (alike_spill parameters).bind (fun _ => h) g.begun
  rw [definition_eq, definition_eq, hcode]
  cases (spill parameters >>= fun _ => body) g.begun with
  | ok l g' =>
    dsimp only [mapState]
    rw [close_unsigned]
    simp [Definition.unsigned, Generator.unsigned, map_unsigned_prologue]
  | error e g' => rfl

/-- A function is alike if its body is; where it fails, both states are as before. -/
theorem alike_define (name : String) (parameters : List String) {body body' : Lowering Lowered} (h : Alike body body') :
    Alike (define name parameters body) (define name parameters body') := by
  intro g
  unfold define
  rw [nested_unsigned, definition_unsigned name parameters h]
  cases definition name parameters body g.nested with
  | ok d inner => simp [mapState, Generator.unsigned]
  | error e inner => rfl

/-! ## Expressions -/

mutual

/-- An expression is lowered alike in the two modes. -/
theorem alike_lower : ∀ e : Expression, Alike (lower .signed e) (lower .unsigned e)
  | .integer v => alike_constant (tagInteger v)
  | .boolean v => alike_constant (tagBoolean v)
  | .identifier name => alike_readName name
  | .void => alike_pure _
  | .varDecl name => by
    refine alike_reading fun g => ?_
    refine (alike_declare name g.lastConstant).bind fun _ => ?_
    exact alike_pure Lowered.nothing
  | .funcDecl name ⟨_, parameters, body⟩ => alike_define name parameters (alike_lower body)
  | .scope a => alike_lower a
  | .sequence as => alike_lowerSequence as .nothing
  | .binary a (.arithmetic o) b => by
    refine (alike_lower a).bind fun l => ?_
    refine (alike_lower b).bind fun r => ?_
    exact alike_arithmetic o l a.kind r b.kind
  | .binary a (.comparison o) b => by
    refine (alike_lower a).bind fun l => ?_
    refine (alike_lower b).bind fun r => ?_
    exact alike_comparison o l a.kind r b.kind
  | .binary _ .and _ | .binary _ .or _ | .binary _ .stringEqual _ | .binary _ .stringLess _ => alike_throw _
  | .assign place a => by
    cases place with
    | varDecl name =>
      refine (alike_lower a).bind fun l => ?_
      refine (alike_load l a.kind).bind fun value => ?_
      refine alike_reading fun g => ?_
      refine (alike_declare name g.lastConstant).bind fun slot => ?_
      exact alike_storeSlot slot value
    | identifier name =>
      refine (alike_ownSlot name "Assign").bind fun slot => ?_
      refine (alike_lower a).bind fun l => ?_
      refine (alike_load l a.kind).bind fun value => ?_
      exact alike_storeSlot slot value
    | _ => exact alike_throw _
  | .call f as => by
    cases f with
    | identifier name =>
      refine (alike_lowerArguments as).bind fun operands => ?_
      refine (alike_emitTo fun _ => rfl).bind fun value => ?_
      exact alike_box (.register value)
    | _ => exact alike_throw _
  | .conditional a b none => alike_conditional ((alike_lower a).condition a.kind) (alike_lower b).branch (alike_pure ())
  | .conditional a b (some c) => alike_conditional ((alike_lower a).condition a.kind) (alike_lower b).branch (alike_lower c).branch
  | .loop a b => alike_loop ((alike_lower a).condition a.kind) (alike_lower b).branch
  | .ret a => by
    refine (alike_lower a).bind fun l => ?_
    refine (alike_load l a.kind).bind fun value => ?_
    exact alike_ret value
  | .float _ | .string _ | .function _ | .closure _ | .not _ | .print _ | .isType _ _ | .stringLength _ | .substring _ _ _
  | .object _ | .field _ _ => alike_throw _

/-- Expressions one after the other are lowered alike. -/
theorem alike_lowerSequence : ∀ (es : List Expression) (last : Lowered),
    Alike (lowerSequence .signed es last) (lowerSequence .unsigned es last)
  | [], last => alike_pure last
  | a :: rest, _ => (alike_lower a).bind fun l => alike_lowerSequence rest l

/-- Arguments are lowered alike. -/
theorem alike_lowerArguments : ∀ es : List Expression, Alike (lowerArguments .signed es) (lowerArguments .unsigned es)
  | [] => alike_pure []
  | a :: rest => by
    refine (alike_lower a).bind fun l => ?_
    refine (alike_load l a.kind).bind fun operand => ?_
    refine (alike_lowerArguments rest).bind fun operands => ?_
    exact alike_pure (operand :: operands)

end

/-! ## Modules -/

theorem unsigned_initial : Generator.initial.unsigned = Generator.initial := by
  simp [Generator.unsigned, Generator.initial]

/-- The unsigned module is made of the unsigned state. -/
theorem toModule_unsigned (g : Generator) : g.unsigned.toModule = g.toModule.unsigned := by
  unfold Generator.toModule
  rw [close_unsigned]
  simp [Module.unsigned, Definition.unsigned, Generator.unsigned, map_unsigned_prologue]

/-- The modules of a program in the two modes, or the errors. -/
theorem compile?_unsigned (program : Expression) :
    program.compile? .unsigned = (program.compile? .signed).map Module.unsigned := by
  have h := alike_lower program Generator.initial
  rw [unsigned_initial] at h
  unfold Expression.compile?
  rw [h]
  cases lower .signed program Generator.initial with
  | ok l g => exact congrArg Except.ok (toModule_unsigned g)
  | error e g => rfl

/-- How lowering each of some expressions ends, the next one from the state that was left also where one cannot be lowered. -/
def outcomes (mode : Signedness) : List Expression → Generator → List (EStateM.Result LoweringError Generator Lowered)
  | [], _ => []
  | e :: es, g => lower mode e g :: outcomes mode es (finalState (lower mode e g))

/-- Expressions that are lowered one after the other end alike, each from the state that the ones before it left. -/
theorem outcomes_unsigned (es : List Expression) (g : Generator) :
    outcomes .unsigned es g.unsigned = (outcomes .signed es g).map (mapState Generator.unsigned) := by
  induction es generalizing g with
  | nil => rfl
  | cons e es ih =>
    unfold outcomes
    rw [alike_lower e g, finalState_mapState, ih, List.map_cons]

end Lowering

open Lowering

/-- A program has a module in both modes or in none. In none there is the same error in both; else the unsigned module is the signed one
with every signed shift and every signed quotient replaced, and nothing else: the functions and the entry, their names and parameters,
the slots of the frame and every other instruction are the same. The same holds of every single step if any expressions are lowered one
after the other, beginning anew or in any two states that are alike: each step succeeds in both modes, or fails with the same error in
both, and leaves states that are alike. -/
theorem lowering_unsigned_eq :
    (∀ program : Expression, program.compile? .unsigned = (program.compile? .signed).map Module.unsigned) ∧
      Generator.initial.unsigned = Generator.initial ∧
      ∀ es g, outcomes .unsigned es g.unsigned = (outcomes .signed es g).map (mapState Generator.unsigned) :=
  ⟨compile?_unsigned, unsigned_initial, outcomes_unsigned⟩

/-- The modes differ also inside of functions. -/
example : ((Expression.funcDecl "f" ⟨0, ["a"], .binary (.identifier "a") (.arithmetic .div) (.integer 2)⟩).compile? .signed).toOption ≠
    ((Expression.funcDecl "f" ⟨0, ["a"], .binary (.identifier "a") (.arithmetic .div) (.integer 2)⟩).compile? .unsigned).toOption := by
  decide +kernel

end ExprLang
