import ExprLang.Proofs.Lowering.Success

/-!
# What holds of everything that lowering does

`lower` is put together from a few steps: an instruction that writes a new register, a store, a note in the generator's state, a
choice, a loop, a return and the definition of a function. A property of computations that these steps have, and that computations
one after the other have if each of them has it, is `Compositional`; such a property holds of lowering any expression, in either mode
(`Compositional.lower`). Steps that neither address a slot nor call a function nor branch are enough for the code of constants, operators
and tests (`Elementary`).

Many properties say how the state in which a computation ends is related to the one from which it began, in whichever way it ends
(`Throughout`). For these it is enough to look at single changes of the state (`Gradual`, `Stepwise`).
-/

namespace ExprLang

open Code

/-- An instruction that writes the register `r`, and neither ends a block nor begins one. -/
structure Code.Instruction.Computes (i : Instruction) (r : Nat) : Prop where
  /-- It writes the register. -/
  dest : i.dest? = some r
  /-- It ends no block. -/
  goesOn : i.isTerminator = false
  /-- It begins no block. -/
  plain : i.isLabel = false

/-- Whether an instruction neither addresses a slot nor calls a function. -/
def Code.Instruction.isPlain : Instruction → Bool
  | slotAddress .. | call .. => false
  | _ => true

namespace Lowering

/-! ## Elementary steps -/

/-- A property of computations that those have which neither address a slot nor call a function nor branch. -/
structure Elementary (P : ∀ ⦃α : Type⦄, Lowering α → Prop) : Prop where
  /-- Nothing is done. -/
  pure {α : Type} (a : α) : P (Pure.pure a : Lowering α)
  /-- There is an error. -/
  throw {α : Type} (e : LoweringError) : P (MonadExcept.throw e : Lowering α)
  /-- Two computations are done one after the other. -/
  bind {α β : Type} {x : Lowering α} {f : α → Lowering β} : P x → (∀ a, P (f a)) → P (x >>= f)
  /-- The state is looked at. -/
  get : P (MonadState.get : Lowering Generator)
  /-- An instruction writes a new register. -/
  emitTo (i : Nat → Instruction) : (∀ r, (i r).Computes r) → (∀ r, (i r).isPlain) → P (emitTo i)
  /-- A cell is written. -/
  store (value : Operand) (pointer : Nat) : P (emit (.store value pointer))
  /-- The last cell is noted. -/
  noteBoxed (cell : Nat) : P (noteBoxed cell)
  /-- The last constant is noted. -/
  noteConstant (tagged : Int32) : P (modify fun g => { g with lastConstant := some tagged } : Lowering Unit)
  /-- There is a return. -/
  ret (value : Operand) : P (ret value)

namespace Elementary

variable {P : ∀ ⦃α : Type⦄, Lowering α → Prop} (h : Elementary P)

include h

/-- A cell is made for a value. -/
theorem box (value : Operand) : P (Lowering.box value) := by
  have hmalloc : P (Lowering.emitTo (.malloc · "i32")) := h.emitTo _ (fun _ => ⟨rfl, rfl, rfl⟩) fun _ => rfl
  refine h.bind hmalloc fun cell => ?_
  refine h.bind (h.store value cell) fun _ => ?_
  exact h.noteBoxed cell

/-- A constant is noted before its cell is made. -/
theorem constant (tagged : Int32) : P (Lowering.constant tagged) := by
  refine h.bind (h.noteConstant tagged) fun _ => ?_
  exact h.box (.constant tagged)

/-- A cell is read; nothing else can be. -/
theorem load (lowered : Lowered) (kind : String) : P (Lowering.load lowered kind) := by
  cases lowered with
  | boxed pointer =>
    have hload : P (Lowering.emitTo (.load · pointer)) := h.emitTo _ (fun _ => ⟨rfl, rfl, rfl⟩) fun _ => rfl
    refine h.bind hload fun r => ?_
    exact h.pure (Operand.register r)
  | flag r => exact h.throw _
  | nothing => exact h.throw _

/-- A value is read and its tag is shifted off. -/
theorem unbox (mode : Signedness) (lowered : Lowered) (kind : String) : P (Lowering.unbox mode lowered kind) := by
  refine h.bind (h.load lowered kind) fun value => ?_
  refine h.bind (h.emitTo _ (fun _ => ⟨rfl, rfl, rfl⟩) fun _ => rfl) fun r => ?_
  exact h.pure (Operand.register r)

/-- A name is looked up in the frames; only slots of the innermost one can be used. -/
theorem ownSlot (name kind : String) : P (Lowering.ownSlot name kind) := by
  refine h.bind h.get fun g => ?_
  cases g.frames.resolve? name with
  | none => exact h.throw _
  | some place =>
    cases place with
    | own slot => exact h.pure slot
    | enclosing => exact h.throw _

/-- A condition is an outcome as it is, or a cell that is compared with the tagged truth value. -/
theorem test (lowered : Lowered) (kind : String) : P (Lowering.test lowered kind) := by
  cases lowered with
  | flag flag => exact h.pure flag
  | boxed cell =>
    refine h.bind (h.load (.boxed cell) kind) fun value => ?_
    exact h.emitTo (.compare · .equal value (.constant (tagBoolean true))) (fun _ => ⟨rfl, rfl, rfl⟩) fun _ => rfl
  | nothing => exact h.throw _

/-- Sums are made of tagged values; for the other operations the tags are shifted off first, and the result is tagged again. -/
theorem arithmetic (mode : Signedness) (op : Arithmetic) (l : Lowered) (leftKind : String) (r : Lowered) (rightKind : String) :
    P (Lowering.arithmetic mode op l leftKind r rightKind) := by
  have hbinary (op : BinaryOp) (a b : Operand) : P (Lowering.emitTo (.binary op · a b)) :=
    h.emitTo _ (fun _ => ⟨rfl, rfl, rfl⟩) fun _ => rfl
  have hshift (raw : Nat) : P (Lowering.emitTo (.shift · .left (.register raw) tagBits)) :=
    h.emitTo _ (fun _ => ⟨rfl, rfl, rfl⟩) fun _ => rfl
  cases op with
  | add =>
    refine h.bind (h.load l leftKind) fun a => ?_
    refine h.bind (h.load r rightKind) fun b => ?_
    refine h.bind (hbinary .add a b) fun sum => ?_
    exact h.box (.register sum)
  | sub | mul | div =>
    refine h.bind (h.unbox mode l leftKind) fun a => ?_
    refine h.bind (h.unbox mode r rightKind) fun b => ?_
    refine h.bind (hbinary _ a b) fun raw => ?_
    refine h.bind (hshift raw) fun value => ?_
    exact h.box (.register value)

/-- Two values are read and compared. -/
theorem comparison (op : Comparison) (l : Lowered) (leftKind : String) (r : Lowered) (rightKind : String) :
    P (Lowering.comparison op l leftKind r rightKind) := by
  refine h.bind (h.load l leftKind) fun a => ?_
  refine h.bind (h.load r rightKind) fun b => ?_
  have hcompare : P (Lowering.emitTo (.compare · (predicate op) a b)) := h.emitTo _ (fun _ => ⟨rfl, rfl, rfl⟩) fun _ => rfl
  refine h.bind hcompare fun flag => ?_
  exact h.pure (Lowered.flag flag)

/-! Where slots may be addressed, they may be written and read; where names may be declared too, parameters may be stored. -/

variable (haddress : ∀ slot, P (Lowering.slotAddress slot))

include haddress

/-- A slot is written through its address. -/
theorem storeSlot (slot : Nat) (value : Operand) : P (Lowering.storeSlot slot value) := by
  refine h.bind (haddress slot) fun pointer => ?_
  refine h.bind (h.store value pointer) fun _ => ?_
  exact h.noteBoxed pointer

/-- The slot of a name is read, and a new cell is made for what was read. -/
theorem readName (name : String) : P (Lowering.readName name) := by
  refine h.bind (h.ownSlot name "Identifier") fun slot => ?_
  refine h.bind (haddress slot) fun pointer => ?_
  have hload : P (Lowering.emitTo (.load · pointer)) := h.emitTo _ (fun _ => ⟨rfl, rfl, rfl⟩) fun _ => rfl
  refine h.bind hload fun value => ?_
  exact h.box (.register value)

/-- Parameters are declared and stored one after the other. -/
theorem spill (hdeclare : ∀ name initial, P (Lowering.declare name initial)) (names : List String) : P (Lowering.spill names) := by
  induction names with
  | nil => exact h.pure ()
  | cons p rest ih =>
    refine h.bind (hdeclare p none) fun slot => ?_
    refine h.bind (h.storeSlot haddress slot (.named p)) fun _ => ?_
    exact ih

end Elementary

/-! ## All steps -/

/-- A property of computations that lowering has if each of its steps has it. -/
structure Compositional (P : ∀ ⦃α : Type⦄, Lowering α → Prop) : Prop where
  /-- Nothing is done. -/
  pure {α : Type} (a : α) : P (Pure.pure a : Lowering α)
  /-- There is an error. -/
  throw {α : Type} (e : LoweringError) : P (MonadExcept.throw e : Lowering α)
  /-- Two computations are done one after the other. -/
  bind {α β : Type} {x : Lowering α} {f : α → Lowering β} : P x → (∀ a, P (f a)) → P (x >>= f)
  /-- The state is looked at. -/
  get : P (MonadState.get : Lowering Generator)
  /-- An instruction writes a new register. -/
  emitTo (i : Nat → Instruction) : (∀ r, (i r).Computes r) → P (emitTo i)
  /-- A cell is written. -/
  store (value : Operand) (pointer : Nat) : P (emit (.store value pointer))
  /-- The last cell is noted. -/
  noteBoxed (cell : Nat) : P (noteBoxed cell)
  /-- The last constant is noted. -/
  noteConstant (tagged : Int32) : P (modify fun g => { g with lastConstant := some tagged } : Lowering Unit)
  /-- A name is declared. -/
  declare (name : String) (initial : Option Int32) : P (declare name initial)
  /-- There is a choice. -/
  conditional {test : Lowering Nat} {consequence alternative : Lowering Unit} :
    P test → P consequence → P alternative → P (conditional test consequence alternative)
  /-- There is a loop. -/
  loop {test : Lowering Nat} {body : Lowering Unit} : P test → P body → P (loop test body)
  /-- There is a return. -/
  ret (value : Operand) : P (ret value)
  /-- A function is defined: its parameters are stored, then its body is lowered. -/
  define (name : String) (parameters : List String) {body : Lowering Lowered} :
    P (spill parameters >>= fun _ => body) → P (define name parameters body)

namespace Compositional

variable {P : ∀ ⦃α : Type⦄, Lowering α → Prop} (h : Compositional P)

include h

/-- A property that all steps have is one that the elementary ones have. -/
theorem elementary : Elementary P where
  pure := h.pure
  throw := h.throw
  bind := h.bind
  get := h.get
  emitTo i hi _ := h.emitTo i hi
  store := h.store
  noteBoxed := h.noteBoxed
  noteConstant := h.noteConstant
  ret := h.ret

/-- The address of a slot is computed from the frame pointer. -/
theorem slotAddress (slot : Nat) : P (Lowering.slotAddress slot) := by
  refine h.bind h.get fun g => ?_
  exact h.emitTo (.slotAddress · g.framePointer slot) fun _ => ⟨rfl, rfl, rfl⟩

/-- A slot is written. -/
theorem storeSlot (slot : Nat) (value : Operand) : P (Lowering.storeSlot slot value) :=
  h.elementary.storeSlot h.slotAddress slot value

/-- A name is read. -/
theorem readName (name : String) : P (Lowering.readName name) := h.elementary.readName h.slotAddress name

/-- Parameters are stored. -/
theorem spill (names : List String) : P (Lowering.spill names) := h.elementary.spill h.slotAddress h.declare names

/-- A condition is lowered and tested. -/
theorem condition {x : Lowering Lowered} (hx : P x) (kind : String) : P (x >>= fun l => Lowering.test l kind) := by
  refine h.bind hx fun l => ?_
  exact h.elementary.test l kind

/-- A branch leaves nothing. -/
theorem branch {x : Lowering Lowered} (hx : P x) : P (x >>= fun _ => (Pure.pure () : Lowering Unit)) := by
  refine h.bind hx fun _ => ?_
  exact h.pure ()

mutual

/-- A property of the steps of lowering holds of lowering every expression. -/
theorem lower (mode : Signedness) : ∀ e : Expression, P (ExprLang.lower mode e)
  | .integer v => h.elementary.constant (tagInteger v)
  | .boolean v => h.elementary.constant (tagBoolean v)
  | .identifier name => h.readName name
  | .void => h.pure Lowered.nothing
  | .varDecl name => by
    refine h.bind h.get fun g => ?_
    refine h.bind (h.declare name g.lastConstant) fun _ => ?_
    exact h.pure Lowered.nothing
  | .funcDecl name ⟨_, parameters, body⟩ => by
    refine h.define name parameters ?_
    refine h.bind (h.spill parameters) fun _ => ?_
    exact lower mode body
  | .scope a => lower mode a
  | .sequence as => lowerSequence mode as .nothing
  | .binary a (.arithmetic o) b => by
    refine h.bind (lower mode a) fun l => ?_
    refine h.bind (lower mode b) fun r => ?_
    exact h.elementary.arithmetic mode o l a.kind r b.kind
  | .binary a (.comparison o) b => by
    refine h.bind (lower mode a) fun l => ?_
    refine h.bind (lower mode b) fun r => ?_
    exact h.elementary.comparison o l a.kind r b.kind
  | .binary _ .and _ | .binary _ .or _ | .binary _ .stringEqual _ | .binary _ .stringLess _ => h.throw _
  | .assign place a => by
    cases place with
    | varDecl name =>
      refine h.bind (lower mode a) fun l => ?_
      refine h.bind (h.elementary.load l a.kind) fun value => ?_
      refine h.bind h.get fun g => ?_
      refine h.bind (h.declare name g.lastConstant) fun slot => ?_
      exact h.storeSlot slot value
    | identifier name =>
      refine h.bind (h.elementary.ownSlot name "Assign") fun slot => ?_
      refine h.bind (lower mode a) fun l => ?_
      refine h.bind (h.elementary.load l a.kind) fun value => ?_
      exact h.storeSlot slot value
    | _ => exact h.throw _
  | .call f as => by
    cases f with
    | identifier name =>
      refine h.bind (lowerArguments mode as) fun operands => ?_
      refine h.bind (h.emitTo (.call · name operands) fun _ => ⟨rfl, rfl, rfl⟩) fun value => ?_
      exact h.elementary.box (.register value)
    | _ => exact h.throw _
  | .conditional a b none => h.conditional (h.condition (lower mode a) a.kind) (h.branch (lower mode b)) (h.pure ())
  | .conditional a b (some c) =>
    h.conditional (h.condition (lower mode a) a.kind) (h.branch (lower mode b)) (h.branch (lower mode c))
  | .loop a b => h.loop (h.condition (lower mode a) a.kind) (h.branch (lower mode b))
  | .ret a => by
    refine h.bind (lower mode a) fun l => ?_
    refine h.bind (h.elementary.load l a.kind) fun value => ?_
    exact h.ret value
  | .float _ | .string _ | .function _ | .closure _ | .not _ | .print _ | .isType _ _ | .stringLength _ | .substring _ _ _
  | .object _ | .field _ _ => h.throw _

/-- A property of the steps of lowering holds of lowering expressions one after the other. -/
theorem lowerSequence (mode : Signedness) : ∀ (es : List Expression) (last : Lowered), P (ExprLang.lowerSequence mode es last)
  | [], last => h.pure last
  | a :: rest, _ => by
    refine h.bind (lower mode a) fun l => ?_
    exact lowerSequence mode rest l

/-- A property of the steps of lowering holds of lowering arguments. -/
theorem lowerArguments (mode : Signedness) : ∀ es : List Expression, P (ExprLang.lowerArguments mode es)
  | [] => h.pure []
  | a :: rest => by
    refine h.bind (lower mode a) fun l => ?_
    refine h.bind (h.elementary.load l a.kind) fun operand => ?_
    refine h.bind (lowerArguments mode rest) fun operands => ?_
    exact h.pure (operand :: operands)

end

end Compositional

/-! ## Relations between states -/

/-- From every state the relation leads to the state in which the computation ends, in whichever way it ends. -/
def Throughout (R : Generator → Generator → Prop) ⦃α : Type⦄ (x : Lowering α) : Prop := ∀ g, R g (finalState (x g))

/-- A relation between states that the changes have which elementary steps make. -/
structure Gradual (R : Generator → Generator → Prop) : Prop where
  /-- Nothing is changed. -/
  refl (g : Generator) : R g g
  /-- There are two changes, one after the other. -/
  trans {g g' g'' : Generator} : R g g' → R g' g'' → R g g''
  /-- An instruction writes a new register. -/
  write (g : Generator) (i : Instruction) : i.Computes g.nextRegister → i.isPlain →
    R g { g with nextRegister := g.nextRegister + 1, instructions := g.instructions.push i }
  /-- An instruction writes no register. -/
  push (g : Generator) (i : Instruction) : i.dest? = none → R g { g with instructions := g.instructions.push i }
  /-- Labels are taken. -/
  label (g : Generator) (count : Nat) : R g { g with nextLabel := g.nextLabel + count }
  /-- The last cell is noted or forgotten. -/
  boxed (g : Generator) (cell : Option Nat) : R g { g with lastBoxed := cell }
  /-- The last constant is noted. -/
  constant (g : Generator) (tagged : Int32) : R g { g with lastConstant := some tagged }

/-- A relation between states that the changes have which the steps of lowering make. -/
structure Stepwise (R : Generator → Generator → Prop) : Prop extends Gradual R where
  /-- An instruction writes a new register, of whichever kind it is. -/
  compute (g : Generator) (i : Instruction) : i.Computes g.nextRegister →
    R g { g with nextRegister := g.nextRegister + 1, instructions := g.instructions.push i }
  /-- A name is declared. -/
  declare (g : Generator) (name : String) (initial : Option Int32) : R g { g with frames := (g.frames.declare name initial).2 }
  /-- A function is defined: its parameters are stored, then its body is lowered. -/
  define (name : String) (parameters : List String) {body : Lowering Lowered} :
    Throughout R (spill parameters >>= fun _ => body) → Throughout R (define name parameters body)

namespace Gradual

variable {R : Generator → Generator → Prop} (h : Gradual R) {α β : Type}

include h

/-- Nothing is done. -/
theorem pure (a : α) : Throughout R (Pure.pure a : Lowering α) := h.refl

/-- Two computations one after the other, of which the second is left out if the first one fails. -/
theorem bind {x : Lowering α} {f : α → Lowering β} (hx : Throughout R x) (hf : ∀ a, Throughout R (f a)) :
    Throughout R (x >>= f) := by
  intro g
  have hg := hx g
  cases hr : x g with
  | ok a g' =>
    rw [hr] at hg
    rw [bind_of_ok hr]
    exact h.trans hg (hf a g')
  | error e g' =>
    rw [hr] at hg
    rw [bind_of_error hr]
    exact hg

/-- An instruction that writes no register. -/
theorem emit (i : Instruction) (hi : i.dest? = none) : Throughout R (emit i) := by
  intro g
  exact h.push g i hi

/-- New labels. -/
theorem reserveLabels (count : Nat) : Throughout R (reserveLabels count) := by
  intro g
  exact h.label g count

/-- A return, and the label of the block after it. -/
theorem ret (value : Operand) : Throughout R (ret value) := by
  refine h.bind (h.emit _ rfl) fun _ => ?_
  refine h.bind (h.reserveLabels 1) fun _ => ?_
  refine h.bind (h.emit _ rfl) fun _ => ?_
  exact h.pure _

/-- A relation that small changes have holds throughout elementary steps. -/
theorem elementary : Elementary (Throughout R) where
  pure := h.pure
  throw _ := h.refl
  bind := h.bind
  get := h.refl
  emitTo i hi hplain := fun g => h.write g (i g.nextRegister) (hi _) (hplain _)
  store value pointer := h.emit (.store value pointer) rfl
  noteBoxed cell := fun g => h.boxed g (some cell)
  noteConstant tagged := fun g => h.constant g tagged
  ret := h.ret

/-- Code with branches, after which the cell from before is the last one again. -/
theorem branching {code : Lowering Unit} (hcode : Throughout R code) : Throughout R (branching code) := by
  refine h.bind (x := get) h.refl fun g => ?_
  refine h.bind hcode fun _ => ?_
  have hboxed : Throughout R (modify fun g' => { g' with lastBoxed := g.lastBoxed }) := fun g' => h.boxed g' g.lastBoxed
  refine h.bind hboxed fun _ => ?_
  exact h.pure _

/-- A choice: the jump to the test, the test, the jump that depends on it, and each branch between a label and a jump. -/
theorem conditional {test : Lowering Nat} {consequence alternative : Lowering Unit} (ht : Throughout R test)
    (hc : Throughout R consequence) (ha : Throughout R alternative) :
    Throughout R (conditional test consequence alternative) := by
  refine h.branching (h.bind (h.reserveLabels 4) fun start => ?_)
  refine h.bind (h.emit _ rfl) fun _ => ?_
  refine h.bind (h.emit _ rfl) fun _ => ?_
  refine h.bind ht fun flag => ?_
  refine h.bind (h.emit _ rfl) fun _ => ?_
  refine h.bind (h.emit _ rfl) fun _ => ?_
  refine h.bind hc fun _ => ?_
  refine h.bind (h.emit _ rfl) fun _ => ?_
  refine h.bind (h.emit _ rfl) fun _ => ?_
  refine h.bind ha fun _ => ?_
  refine h.bind (h.emit _ rfl) fun _ => ?_
  exact h.emit _ rfl

/-- A loop: the jump to the test, the test, the jump that depends on it, and the body between a label and the jump back. -/
theorem loop {test : Lowering Nat} {body : Lowering Unit} (ht : Throughout R test) (hb : Throughout R body) :
    Throughout R (loop test body) := by
  refine h.branching (h.bind (h.reserveLabels 3) fun start => ?_)
  refine h.bind (h.emit _ rfl) fun _ => ?_
  refine h.bind (h.emit _ rfl) fun _ => ?_
  refine h.bind ht fun flag => ?_
  refine h.bind (h.emit _ rfl) fun _ => ?_
  refine h.bind (h.emit _ rfl) fun _ => ?_
  refine h.bind hb fun _ => ?_
  refine h.bind (h.emit _ rfl) fun _ => ?_
  exact h.emit _ rfl

end Gradual

/-- A relation that the changes of single steps have holds throughout lowering. -/
theorem Stepwise.compositional {R : Generator → Generator → Prop} (h : Stepwise R) : Compositional (Throughout R) where
  pure := h.elementary.pure
  throw := h.elementary.throw
  bind := h.elementary.bind
  get := h.elementary.get
  emitTo i hi := fun g => h.compute g (i g.nextRegister) (hi _)
  store := h.elementary.store
  noteBoxed := h.elementary.noteBoxed
  noteConstant := h.elementary.noteConstant
  declare name initial := fun g => h.declare g name initial
  conditional := h.conditional
  loop := h.loop
  ret := h.ret
  define := h.define

end Lowering

end ExprLang
