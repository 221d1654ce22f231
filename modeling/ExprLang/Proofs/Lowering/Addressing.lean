import ExprLang.Proofs.Code.Frames
import ExprLang.Proofs.Lowering.Events
import ExprLang.Proofs.Lowering.Growth
import ExprLang.Proofs.Lowering.Registers

/-!
# Slots are addressed in their own frame

The code that is made addresses the slots that `events` says, in that order (`Adds`). If lowering fails, what was done until then is a
beginning of what is expected (`Done`), and a function in which it fails leaves nothing behind. Every address is computed from the frame
of the function around it. While a function is made its frame grows, so the slots that its code addresses are smaller than the size of
the frame at the end, with which its prologue makes the frame.
-/

namespace ExprLang

open Code

namespace Code

/-- The slot whose address an instruction computes. -/
def Instruction.slot? : Instruction → Option Nat
  | slotAddress _ _ slot => some slot
  | _ => none

/-- The slots whose addresses code computes, in the order of the instructions. -/
def slotsOf (code : List Instruction) : List Nat := code.filterMap Instruction.slot?

@[simp] theorem slotsOf_append (code code' : List Instruction) : slotsOf (code ++ code') = slotsOf code ++ slotsOf code' :=
  List.filterMap_append

/-- Code computes addresses from the frame in `pointer` only, and only those of its first `size` slots. -/
def Within (pointer size : Nat) (code : List Instruction) : Prop :=
  ∀ dest frame slot, .slotAddress dest frame slot ∈ code → frame = pointer ∧ slot < size

namespace Within

variable {pointer size larger : Nat} {code code' : List Instruction}

/-- Two pieces of code compute addresses within the frame if each does. -/
theorem append (h : Within pointer size code) (h' : Within pointer size code') : Within pointer size (code ++ code') := by
  intro dest frame slot hmem
  rcases List.mem_append.1 hmem with hmem | hmem
  · exact h dest frame slot hmem
  · exact h' dest frame slot hmem

/-- Addresses stay within a frame that has grown. -/
theorem mono (h : Within pointer size code) (hle : size ≤ larger) : Within pointer larger code := by
  intro dest frame slot hmem
  obtain ⟨hframe, hslot⟩ := h dest frame slot hmem
  exact ⟨hframe, Nat.lt_of_lt_of_le hslot hle⟩

/-- Code that computes no address. -/
theorem of_slotsOf_eq_nil (h : slotsOf code = []) : Within pointer size code := by
  intro dest frame slot hmem
  have hslot := List.filterMap_eq_nil_iff.1 h _ hmem
  exact absurd hslot (Option.some_ne_none slot)

end Within

end Code

namespace Generator

/-- Declares a name and stores a value in its slot. -/
def introduced (g : Generator) (name : String) (initial : Option Int32) (value : Operand) : Generator :=
  { g with
    frames := (g.frames.declare name initial).2
    nextRegister := g.nextRegister + 1
    instructions :=
      (g.instructions.push (.slotAddress g.nextRegister g.framePointer g.frames.current.size)).push (.store value g.nextRegister)
    lastBoxed := some g.nextRegister }

end Generator

namespace Lowering

/-! ## Bodies -/

/-- The code that stores a parameter into the slot of its position. -/
def storeParameter (pointer : Nat) (parameter : String × Nat) : List Instruction :=
  [.slotAddress (pointer + 1 + parameter.2) pointer parameter.2, .store (.named parameter.1) (pointer + 1 + parameter.2)]

/-- A body first makes a frame, whose address its second instruction writes to `pointer`, and then stores the parameters into the first
slots. The frame has a slot for each parameter and for each name that is declared. Addresses are computed from `pointer` only and are
those of slots of the frame; behind the parameters they are the expected ones. -/
def Framed (body : List Instruction) (parameters : List String) (done : List Event) : Prop :=
  ∃ frame allocation pointer code,
    body = Generator.prologue frame allocation pointer ++ (parameters.zipIdx.flatMap (storeParameter pointer) ++ code) ∧
    frame.names = parameters ++ declaredNames done ∧ Within pointer frame.size body ∧ slotsOf code = addressedSlots done

/-- The definition is that of the function, and its body does what is expected of the function's body. -/
def Defines (d : Definition) (function : String × FunctionLiteral) : Prop :=
  d.name = function.1 ∧ d.parameters = function.2.parameters ∧
    Framed d.body function.2.parameters (events function.2.body function.2.parameters)

/-! ## What is added -/

variable {mode : Signedness} {α β : Type} {g g' g'' : Generator} {x : Lowering α} {expected : List Event}

/-- From one state to another names are declared, code is added and functions are finished as the events say. -/
structure Adds (g g' : Generator) (done : List Event) : Prop where
  /-- The frame stays where it is. -/
  framePointer : g'.framePointer = g.framePointer
  /-- The names are declared. -/
  names : g'.frames.current.names = g.frames.current.names ++ declaredNames done
  /-- They are entered in the index. -/
  indexed : g.frames.current.Indexed → g'.frames.current.Indexed
  /-- The slots are addressed, which are slots of the current frame. -/
  code : ∃ code, g'.instructions.toList = g.instructions.toList ++ code ∧ slotsOf code = addressedSlots done ∧
    Within g.framePointer g'.frames.current.size code
  /-- The functions are finished. -/
  functions : ∃ definitions, g'.functions.toList = g.functions.toList ++ definitions ∧
    List.Forall₂ Defines definitions (finishedFunctions done)

namespace Adds

/-- A frame never becomes smaller. -/
theorem size_le {done : List Event} (h : Adds g g' done) : g.frames.current.size ≤ g'.frames.current.size := by
  rw [← Frame.length_names, ← Frame.length_names, h.names, List.length_append]
  exact Nat.le_add_right _ _

/-- Code that computes no address, without a declaration. -/
theorem silent (code : List Instruction) (hi : g'.instructions.toList = g.instructions.toList ++ code) (hcode : slotsOf code = [])
    (hpointer : g'.framePointer = g.framePointer) (hframes : g'.frames = g.frames) (hfunctions : g'.functions = g.functions) :
    Adds g g' [] where
  framePointer := hpointer
  names := by rw [hframes]; exact (List.append_nil _).symm
  indexed hg := by rwa [hframes]
  code := ⟨code, hi, hcode, .of_slotsOf_eq_nil hcode⟩
  functions := ⟨[], by rw [hfunctions, List.append_nil], .nil⟩

/-- A change that concerns neither code nor frames nor functions. -/
theorem of_eq (hi : g'.instructions = g.instructions) (hpointer : g'.framePointer = g.framePointer) (hframes : g'.frames = g.frames)
    (hfunctions : g'.functions = g.functions) : Adds g g' [] :=
  .silent [] (by rw [hi, List.append_nil]) rfl hpointer hframes hfunctions

theorem refl (g : Generator) : Adds g g [] := .of_eq rfl rfl rfl rfl

/-- Events follow each other as the states do. -/
theorem trans {done later : List Event} (h : Adds g g' done) (h' : Adds g' g'' later) : Adds g g'' (done ++ later) := by
  obtain ⟨code, hi, hcode, hwithin⟩ := h.code
  obtain ⟨code', hi', hcode', hwithin'⟩ := h'.code
  obtain ⟨definitions, hf, hdefinitions⟩ := h.functions
  obtain ⟨definitions', hf', hdefinitions'⟩ := h'.functions
  refine ⟨h'.framePointer.trans h.framePointer, ?_, fun hg => h'.indexed (h.indexed hg), ⟨code ++ code', ?_, ?_, ?_⟩,
    ⟨definitions ++ definitions', ?_, ?_⟩⟩
  · rw [h'.names, h.names, declaredNames_append, List.append_assoc]
  · rw [hi', hi, List.append_assoc]
  · rw [slotsOf_append, hcode, hcode', addressedSlots_append]
  · rw [h.framePointer] at hwithin'
    exact (hwithin.mono h'.size_le).append hwithin'
  · rw [hf', hf, List.append_assoc]
  · rw [finishedFunctions_append]
    exact List.rel_append hdefinitions hdefinitions'

end Adds

/-- After a success everything that is expected is done, after a failure a beginning of it. -/
def Done (r : EStateM.Result LoweringError Generator α) (done expected : List Event) : Prop :=
  match r with
  | .ok _ _ => done = expected
  | .error _ _ => done <+: expected

/-- From this state the computation does what is expected until it ends. -/
def Performs (g : Generator) (x : Lowering α) (expected : List Event) : Prop :=
  ∃ done, Done (x g) done expected ∧ Adds g (finalState (x g)) done

/-- The computation does nothing that concerns slots, however it ends. -/
def Silent (x : Lowering α) : Prop := ∀ g, Adds g (finalState (x g)) []

/-- From every state the computation does what the course says. -/
def Follows (x : Lowering α) (course : Course) : Prop :=
  ∀ g, g.frames.current.Indexed → Performs g x (course g.frames.current.names)

/-- A computation that succeeds does all that is expected. -/
theorem performs_of_ok {a : α} (h : x g = .ok a g') (hadds : Adds g g' expected) : Performs g x expected := by
  refine ⟨expected, ?_, ?_⟩
  · rw [h]
    rfl
  · rw [h]
    exact hadds

/-- What is silent does what is expected of it, which is nothing. -/
theorem Silent.performs (h : Silent x) (g : Generator) : Performs g x [] := by
  refine ⟨[], ?_, h g⟩
  cases x g with
  | ok a g' => exact rfl
  | error e g' => exact List.prefix_rfl

/-- What follows a success goes on from there, and nothing follows a failure. -/
theorem Performs.bind {f : α → Lowering β} {later : List Event} (hx : Performs g x expected)
    (hf : ∀ a g', Adds g g' expected → Performs g' (f a) later) : Performs g (x >>= f) (expected ++ later) := by
  obtain ⟨done, hdone, hadds⟩ := hx
  cases h : x g with
  | ok a g' =>
    rw [h] at hdone hadds
    cases hdone
    obtain ⟨done', hdone', hadds'⟩ := hf a g' hadds
    rw [Performs, bind_of_ok h]
    refine ⟨expected ++ done', ?_, hadds.trans hadds'⟩
    cases hr : f a g' with
    | ok b g'' =>
      rw [hr] at hdone'
      exact congrArg (expected ++ ·) hdone'
    | error e g'' =>
      rw [hr] at hdone'
      exact (List.prefix_append_right_inj expected).2 hdone'
  | error e g' =>
    rw [h] at hdone hadds
    rw [Performs, bind_of_error h]
    exact ⟨done, List.IsPrefix.trans hdone (List.prefix_append expected later), hadds⟩

/-- Courses follow each other; the second one begins with the names that the first one declared. -/
theorem Follows.bind {f : α → Lowering β} {course later : Course} (hx : Follows x course) (hf : ∀ a, Follows (f a) later) :
    Follows (x >>= f) (course.andThen later) := by
  intro g hg
  refine (hx g hg).bind fun a g' hadds => ?_
  rw [← hadds.names]
  exact hf a g' (hadds.indexed hg)

/-- What is silent may come first. -/
theorem Silent.bind_follows {f : α → Lowering β} {course : Course} (hx : Silent x) (hf : ∀ a, Follows (f a) course) :
    Follows (x >>= f) course := by
  intro g hg
  refine (hx.performs g).bind fun a g' hadds => ?_
  have hnames : g'.frames.current.names = g.frames.current.names := hadds.names.trans (List.append_nil _)
  rw [← hnames]
  exact hf a g' (hadds.indexed hg)

/-- What is silent may come last. -/
theorem Performs.bind_silent {f : α → Lowering β} (hx : Performs g x expected) (hf : ∀ a, Silent (f a)) :
    Performs g (x >>= f) expected := by
  rw [← List.append_nil expected]
  exact hx.bind fun a g' _ => (hf a).performs g'

theorem Follows.bind_silent {f : α → Lowering β} {course : Course} (hx : Follows x course) (hf : ∀ a, Silent (f a)) :
    Follows (x >>= f) course := fun g hg => (hx g hg).bind_silent hf

theorem Silent.follows (h : Silent x) : Follows x fun _ => [] := fun g _ => h.performs g

/-! ## What is silent -/

/-- An instruction is silent unless it computes the address of a slot. -/
theorem silent_emit (i : Instruction) (hi : i.slot? = none) : Silent (emit i) := fun _ =>
  .silent [i] Array.toList_push (List.filterMap_cons_none hi) rfl rfl rfl

theorem silent_emitTo (i : Nat → Instruction) (hi : ∀ r, (i r).slot? = none) : Silent (emitTo i) := fun _ =>
  .silent [i _] Array.toList_push (List.filterMap_cons_none (hi _)) rfl rfl rfl

theorem silent_reserveLabels (count : Nat) : Silent (reserveLabels count) := fun _ => .of_eq rfl rfl rfl rfl

/-- An instruction that writes no register addresses no slot, and neither does one that is plain. -/
theorem slot?_of_dest? {i : Instruction} (h : i.dest? = none) : i.slot? = none := by
  cases i with
  | slotAddress => cases h
  | _ => rfl

/-- Plain instructions compute no address of a slot. -/
theorem slot?_of_isPlain {i : Instruction} (h : i.isPlain) : i.slot? = none := by
  cases i with
  | slotAddress => cases h
  | _ => rfl

/-- Small changes that neither address a slot nor declare a name. -/
theorem gradual_silent : Gradual fun g g' => Adds g g' [] where
  refl := Adds.refl
  trans h h' := h.trans h'
  write _ i _ hplain := .silent [i] Array.toList_push (List.filterMap_cons_none (slot?_of_isPlain hplain)) rfl rfl rfl
  push _ i hi := .silent [i] Array.toList_push (List.filterMap_cons_none (slot?_of_dest? hi)) rfl rfl rfl
  label _ _ := .of_eq rfl rfl rfl rfl
  boxed _ _ := .of_eq rfl rfl rfl rfl
  constant _ _ := .of_eq rfl rfl rfl rfl

/-- The elementary steps are silent. -/
theorem elementary_silent : Elementary fun _ x => Silent x := gradual_silent.elementary

/-! ## Names and slots -/

/-- A failure at the start does nothing of what is expected. -/
theorem follows_throw (e : LoweringError) (course : Course) : Follows (throw e : Lowering α) course :=
  fun g _ => ⟨[], List.nil_prefix, .refl g⟩

/-- To declare a name is an event of its own. -/
theorem follows_declare (name : String) (initial : Option Int32) : Follows (declare name initial) fun _ => [.declare name] :=
  fun _ _ => performs_of_ok rfl
    ⟨rfl, Frame.names_declare _ _ _, fun hg => hg.declare name initial, ⟨[], (List.append_nil _).symm, rfl, .of_slotsOf_eq_nil rfl⟩,
      ⟨[], (List.append_nil _).symm, .nil⟩⟩

/-- Looking up a name gives the slot of its latest declaration or fails, and changes nothing. -/
theorem ownSlot_of_indexed (hg : g.frames.current.Indexed) (name kind : String) :
    (latest? name g.frames.current.names = none ∧ ∃ e, ownSlot name kind g = .error e g) ∨
      ∃ slot, latest? name g.frames.current.names = some slot ∧ slot < g.frames.current.size ∧
        ownSlot name kind g = .ok slot g := by
  cases hlatest : latest? name g.frames.current.names with
  | none => exact .inl ⟨rfl, ownSlot_of_slot?_eq_none ((hg name).trans hlatest) kind⟩
  | some slot =>
    refine .inr ⟨slot, rfl, ?_, ownSlot_of_slot? ((hg name).trans hlatest) kind⟩
    rw [← Frame.length_names]
    exact lt_of_latest? hlatest

/-- A slot of the current frame is addressed. -/
theorem performs_slotAddress {slot : Nat} (hslot : slot < g.frames.current.size) : Performs g (slotAddress slot) [.address slot] := by
  have hwithin : Within g.framePointer g.frames.current.size [.slotAddress g.nextRegister g.framePointer slot] := by
    intro dest frame slot' hmem
    cases List.mem_singleton.1 hmem
    exact ⟨rfl, hslot⟩
  exact performs_of_ok rfl
    ⟨rfl, (List.append_nil _).symm, id, ⟨_, Array.toList_push, rfl, hwithin⟩, ⟨[], (List.append_nil _).symm, .nil⟩⟩

/-- To store to a slot its address is computed once. -/
theorem performs_storeSlot {slot : Nat} (hslot : slot < g.frames.current.size) (value : Operand) :
    Performs g (storeSlot slot value) [.address slot] := by
  refine (performs_slotAddress hslot).bind_silent fun pointer => ?_
  exact elementary_silent.bind (silent_emit _ rfl) fun _ => elementary_silent.noteBoxed pointer

/-- The slot of a new name is addressed. -/
theorem adds_introduced (g : Generator) (name : String) (initial : Option Int32) (value : Operand) :
    Adds g (g.introduced name initial value) [.declare name, .address g.frames.current.size] where
  framePointer := rfl
  names := Frame.names_declare _ _ _
  indexed hg := hg.declare name initial
  code := by
    refine ⟨[.slotAddress g.nextRegister g.framePointer g.frames.current.size, .store value g.nextRegister], ?_, rfl, ?_⟩
    · simp [Generator.introduced]
    · intro dest frame slot hmem
      have hsize : (g.introduced name initial value).frames.current.size = g.frames.current.size + 1 := Frame.size_declare _ _ _
      rw [hsize]
      rcases List.mem_cons.1 hmem with hmem | hmem
      · cases hmem
        exact ⟨rfl, Nat.lt_succ_self _⟩
      · cases List.mem_singleton.1 hmem
  functions := ⟨[], (List.append_nil _).symm, .nil⟩

/-- To read a name the slot of its latest declaration is addressed. -/
theorem follows_readName (name : String) : Follows (readName name) (.resolve name) := by
  intro g hg
  obtain ⟨hnone, e, he⟩ | ⟨slot, hsome, hslot, hok⟩ := ownSlot_of_indexed hg name "Identifier"
  · rw [Course.resolve, hnone, readName, Performs, bind_of_error he]
    exact ⟨[], List.prefix_rfl, .refl g⟩
  · rw [Course.resolve, hsome, readName, Performs, bind_of_ok hok]
    refine (performs_slotAddress hslot).bind_silent fun pointer => ?_
    exact elementary_silent.bind (silent_emitTo _ fun _ => rfl) fun _ => elementary_silent.box _

/-- The name that is assigned to is looked up before the value is lowered, and its slot is addressed after that. -/
theorem follows_assign (name : String) {value : Lowering Lowered} (kind : String) {course : Course} (h : Follows value course) :
    Follows (ownSlot name "Assign" >>= fun slot => value >>= fun l => load l kind >>= fun v => storeSlot slot v)
      fun names => course names ++ Course.resolve name names := by
  intro g hg
  dsimp only
  obtain ⟨hnone, e, he⟩ | ⟨slot, hsome, hslot, hok⟩ := ownSlot_of_indexed hg name "Assign"
  · rw [Performs, bind_of_error he]
    exact ⟨[], List.nil_prefix, .refl g⟩
  · have hresolve : Course.resolve name g.frames.current.names = [.address slot] := by rw [Course.resolve, hsome]; rfl
    rw [hresolve, Performs, bind_of_ok hok]
    -- The value may declare names, but the slot stays one of the frame.
    refine (h g hg).bind fun l g₁ h₁ => ?_
    refine ((elementary_silent.load l kind).performs g₁).bind fun v g₂ h₂ => ?_
    exact performs_storeSlot (Nat.lt_of_lt_of_le hslot (Nat.le_trans h₁.size_le h₂.size_le)) v

/-- A name is declared and its first value stored. -/
theorem follows_introduce (name : String) (initial : Option Int32) (value : Operand) :
    Follows (declare name initial >>= fun slot => storeSlot slot value) (.introduce name) := by
  intro g hg
  rw [Course.introduce, Frame.length_names]
  exact performs_of_ok rfl (adds_introduced g name initial value)

/-! ## Branching code -/

/-- Remembering and restoring the last cell concerns no slot. -/
theorem follows_branching {code : Lowering Unit} {course : Course} (h : Follows code course) : Follows (branching code) course := by
  refine elementary_silent.get.bind_follows fun _ => ?_
  refine h.bind_silent fun _ => ?_
  refine elementary_silent.bind (fun _ => .of_eq rfl rfl rfl rfl) fun _ => ?_
  exact elementary_silent.pure _

/-- In a choice the test, the consequence and the alternative follow each other, on one frame. -/
theorem follows_conditional {test : Lowering Nat} {consequence alternative : Lowering Unit} {first second third : Course}
    (ht : Follows test first) (hc : Follows consequence second) (ha : Follows alternative third) :
    Follows (conditional test consequence alternative) (first.andThen (second.andThen third)) := by
  refine follows_branching ((silent_reserveLabels 4).bind_follows fun start => ?_)
  refine (silent_emit _ rfl).bind_follows fun _ => ?_
  refine (silent_emit _ rfl).bind_follows fun _ => ?_
  refine ht.bind fun flag => ?_
  refine (silent_emit _ rfl).bind_follows fun _ => ?_
  refine (silent_emit _ rfl).bind_follows fun _ => ?_
  refine hc.bind fun _ => ?_
  refine (silent_emit _ rfl).bind_follows fun _ => ?_
  refine (silent_emit _ rfl).bind_follows fun _ => ?_
  refine ha.bind_silent fun _ => ?_
  exact elementary_silent.bind (silent_emit _ rfl) fun _ => silent_emit _ rfl

/-- In a loop the body follows the test, on one frame. -/
theorem follows_loop {test : Lowering Nat} {body : Lowering Unit} {first second : Course} (ht : Follows test first)
    (hb : Follows body second) : Follows (loop test body) (first.andThen second) := by
  refine follows_branching ((silent_reserveLabels 3).bind_follows fun start => ?_)
  refine (silent_emit _ rfl).bind_follows fun _ => ?_
  refine (silent_emit _ rfl).bind_follows fun _ => ?_
  refine ht.bind fun flag => ?_
  refine (silent_emit _ rfl).bind_follows fun _ => ?_
  refine (silent_emit _ rfl).bind_follows fun _ => ?_
  refine hb.bind_silent fun _ => ?_
  exact elementary_silent.bind (silent_emit _ rfl) fun _ => silent_emit _ rfl

/-! ## Functions -/

/-- The code that stores parameters addresses the slots at their positions. -/
theorem within_storeParameters (pointer first : Nat) (parameters : List String) :
    Within pointer (first + parameters.length) ((parameters.zipIdx first).flatMap (storeParameter pointer)) := by
  intro dest frame slot hmem
  obtain ⟨⟨p, i⟩, hp, hi⟩ := List.mem_flatMap.1 hmem
  have hbound := List.mem_zipIdx hp
  rcases List.mem_cons.1 hi with hi | hi
  · cases hi
    exact ⟨rfl, by omega⟩
  · cases List.mem_singleton.1 hi

/-- The parameters get the next slots in their order, and each is stored there. -/
theorem exists_spill (parameters : List String) (hg : g.frames.current.Indexed)
    (hr : g.nextRegister = g.framePointer + 1 + g.frames.current.size) :
    ∃ g', spill parameters g = .ok () g' ∧ g'.framePointer = g.framePointer ∧ g'.functions = g.functions ∧
      g'.frames.current.Indexed ∧ g'.frames.current.names = g.frames.current.names ++ parameters ∧
      g'.instructions.toList = g.instructions.toList ++
        (parameters.zipIdx g.frames.current.size).flatMap (storeParameter g.framePointer) := by
  induction parameters generalizing g with
  | nil => exact ⟨g, rfl, rfl, rfl, hg, (List.append_nil _).symm, (List.append_nil _).symm⟩
  | cons p rest ih =>
    let g₁ := g.introduced p none (.named p)
    have hsize : g₁.frames.current.size = g.frames.current.size + 1 := Frame.size_declare _ _ _
    have hnames : g₁.frames.current.names = g.frames.current.names ++ [p] := Frame.names_declare _ _ _
    have hcode : g₁.instructions.toList = g.instructions.toList ++ storeParameter g.framePointer (p, g.frames.current.size) := by
      simp [g₁, Generator.introduced, storeParameter, hr]
    have hr₁ : g₁.nextRegister = g₁.framePointer + 1 + g₁.frames.current.size := by
      rw [hsize]
      show g.nextRegister + 1 = g.framePointer + 1 + (g.frames.current.size + 1)
      omega
    obtain ⟨g', hok, hpointer, hfunctions, hindexed, hnames', hcode'⟩ := ih (g := g₁) (hg.declare p none) hr₁
    refine ⟨g', hok, hpointer, hfunctions, hindexed, ?_, ?_⟩
    · rw [hnames', hnames, List.append_assoc]
      rfl
    · rw [hcode', hcode, hsize, List.append_assoc, List.zipIdx_cons, List.flatMap_cons]
      rfl

/-- What ends a function computes no address. -/
theorem adds_close (g : Generator) : Adds g g.close [] := by
  rcases close_cases g with ⟨pointer, -, h⟩ | h
  · rw [h]
    exact .silent [.load g.nextRegister pointer, .ret (.register g.nextRegister)] (by simp) rfl rfl rfl rfl
  · rw [h]
    exact .silent [.ret (.constant 0)] (by simp) rfl rfl rfl rfl

/-- A body that begins by storing the parameters and goes on as the events say is framed by the frame that it has at its end. -/
theorem framed_of_adds {parameters : List String} {done : List Event} (hnames : g.frames.current.names = parameters)
    (hstored : g.instructions.toList = parameters.zipIdx.flatMap (storeParameter g.framePointer)) (h : Adds g g' done)
    (allocation : Nat) :
    Framed (Generator.prologue g'.frames.current allocation g.framePointer ++ g'.instructions.toList) parameters done := by
  obtain ⟨code, hi, hslots, hwithin⟩ := h.code
  have hparameters : 0 + parameters.length ≤ g'.frames.current.size := by
    rw [Nat.zero_add, ← hnames, Frame.length_names]
    exact h.size_le
  have hprologue : Within g.framePointer g'.frames.current.size
      (Generator.prologue g'.frames.current allocation g.framePointer) := .of_slotsOf_eq_nil rfl
  have hbody := hprologue.append (((within_storeParameters g.framePointer 0 parameters).mono hparameters).append hwithin)
  rw [hi, hstored]
  exact ⟨g'.frames.current, allocation, g.framePointer, code, rfl, by rw [h.names, hnames], hbody, hslots⟩

/-- A definition is that of its function, and the functions finished meanwhile are those inside. -/
theorem defines_of_definition_ok {name : String} {function : FunctionLiteral} {body : Lowering Lowered} {d : Definition}
    (h : Follows body (events function.body)) (hd : definition name function.parameters body g.nested = .ok d g') :
    Defines d (name, function) ∧
      List.Forall₂ Defines g'.functions.toList (finishedFunctions (events function.body function.parameters)) := by
  obtain ⟨l, g₁, hcode, rfl, rfl⟩ := definition_ok_iff.1 hd
  obtain ⟨g₀, hspill, hpointer, hnone, hindexed, hnames, hstored⟩ :=
    exists_spill (g := g.nested.begun)
      function.parameters Frame.indexed_empty rfl
  have hnames₀ : g₀.frames.current.names = function.parameters := hnames
  have hbody : body g₀ = .ok l g₁ := (bind_of_ok hspill fun _ => body).symm.trans hcode
  obtain ⟨done, hdone, hadds⟩ := h g₀ hindexed
  rw [hbody] at hdone hadds
  cases hdone
  have hclosed := hadds.trans (adds_close g₁)
  rw [List.append_nil, hnames₀] at hclosed
  have hframed := framed_of_adds hnames₀ (by rw [hpointer]; exact hstored) hclosed g.nextRegister
  rw [hpointer] at hframed
  obtain ⟨definitions, hinner, hdefines⟩ := hclosed.functions
  have hdefinitions : g₁.close.functions.toList = definitions := by
    rw [hinner, hnone]
    rfl
  exact ⟨⟨rfl, rfl, hframed⟩, hdefinitions ▸ hdefines⟩

/-- A function is finished with those inside of it before it; one that cannot be lowered leaves nothing. -/
theorem follows_define (name : String) (function : FunctionLiteral) {body : Lowering Lowered}
    (hkept : Throughout Generator.Extends (spill function.parameters >>= fun _ => body)) (h : Follows body (events function.body)) :
    Follows (define name function.parameters body) fun _ =>
      finishing (finishedFunctions (events function.body function.parameters)) ++ [.define name function] := by
  intro g _
  cases hd : definition name function.parameters body g.nested with
  | error e inner =>
    rw [Performs, define_of_error hkept hd]
    exact ⟨[], List.nil_prefix, .refl g⟩
  | ok d inner =>
    obtain ⟨hdefines, hinner⟩ := defines_of_definition_ok h hd
    refine performs_of_ok (define_of_ok hkept hd) ⟨rfl, ?_, id, ⟨[], (List.append_nil _).symm, ?_, .of_slotsOf_eq_nil rfl⟩,
      ⟨inner.functions.toList ++ [d], ?_, ?_⟩⟩
    · rw [declaredNames_append, declaredNames_finishing]
      exact (List.append_nil _).symm
    · rw [addressedSlots_append, addressedSlots_finishing]
      rfl
    · simp
    · rw [finishedFunctions_append, finishedFunctions_finishing]
      exact List.rel_append hinner (.cons hdefines .nil)

/-! ## Expressions -/

/-- A condition does what the expression that is tested does. -/
theorem Follows.condition {t : Lowering Lowered} {course : Course} (h : Follows t course) (kind : String) :
    Follows (t >>= fun l => test l kind) course := by
  refine h.bind_silent fun l => ?_
  exact elementary_silent.test l kind

/-- A branch whose value is not used does what it did before. -/
theorem Follows.branch {course : Course} (h : Follows x course) : Follows (x >>= fun _ => pure ()) course := by
  refine h.bind_silent fun _ => ?_
  exact elementary_silent.pure ()

mutual

/-- Lowering an expression does what `events` says. -/
theorem follows_lower (mode : Signedness) : ∀ e : Expression, Follows (lower mode e) (events e)
  | .integer v => (elementary_silent.constant (tagInteger v)).follows
  | .boolean v => (elementary_silent.constant (tagBoolean v)).follows
  | .identifier name => follows_readName name
  | .void => (elementary_silent.pure _).follows
  | .varDecl name => by
    refine elementary_silent.get.bind_follows fun g => ?_
    refine (follows_declare name g.lastConstant).bind_silent fun _ => ?_
    exact elementary_silent.pure _
  | .funcDecl name ⟨identity, parameters, body⟩ =>
    follows_define name ⟨identity, parameters, body⟩ (extends_body mode parameters body) (follows_lower mode body)
  | .scope a => follows_lower mode a
  | .sequence as => follows_lowerSequence mode as .nothing
  | .binary a (.arithmetic o) b => by
    refine (follows_lower mode a).bind fun l => ?_
    refine (follows_lower mode b).bind_silent fun r => ?_
    exact elementary_silent.arithmetic mode o l a.kind r b.kind
  | .binary a (.comparison o) b => by
    refine (follows_lower mode a).bind fun l => ?_
    refine (follows_lower mode b).bind_silent fun r => ?_
    exact elementary_silent.comparison o l a.kind r b.kind
  | .binary _ .and _ | .binary _ .or _ | .binary _ .stringEqual _ | .binary _ .stringLess _ => follows_throw _ _
  | .assign place a => by
    cases place with
    | varDecl name =>
      refine (follows_lower mode a).bind fun l => ?_
      refine (elementary_silent.load l a.kind).bind_follows fun value => ?_
      refine elementary_silent.get.bind_follows fun g => ?_
      exact follows_introduce name g.lastConstant value
    | identifier name => exact follows_assign name a.kind (follows_lower mode a)
    | _ => exact follows_throw _ _
  | .call f as => by
    cases f with
    | identifier name =>
      refine (follows_lowerArguments mode as).bind_silent fun operands => ?_
      refine elementary_silent.bind (silent_emitTo _ fun _ => rfl) fun value => ?_
      exact elementary_silent.box (.register value)
    | _ => exact follows_throw _ _
  | .conditional a b none => by
    have hnothing : Follows (pure ()) fun _ => [] := (elementary_silent.pure ()).follows
    have h := follows_conditional ((follows_lower mode a).condition a.kind) (follows_lower mode b).branch hnothing
    rwa [Course.andThen_nothing] at h
  | .conditional a b (some c) =>
    follows_conditional ((follows_lower mode a).condition a.kind) (follows_lower mode b).branch (follows_lower mode c).branch
  | .loop a b => follows_loop ((follows_lower mode a).condition a.kind) (follows_lower mode b).branch
  | .ret a => by
    refine (follows_lower mode a).bind_silent fun l => ?_
    refine elementary_silent.bind (elementary_silent.load l a.kind) fun value => ?_
    exact elementary_silent.ret value
  | .float _ | .string _ | .function _ | .closure _ | .not _ | .print _ | .isType _ _ | .stringLength _ | .substring _ _ _
  | .object _ | .field _ _ => follows_throw _ _

/-- Lowering expressions one after the other does what `eventsAll` says. -/
theorem follows_lowerSequence (mode : Signedness) : ∀ (es : List Expression) (last : Lowered),
    Follows (lowerSequence mode es last) (eventsAll es)
  | [], last => (elementary_silent.pure last).follows
  | a :: rest, _ => (follows_lower mode a).bind fun l => follows_lowerSequence mode rest l

/-- Lowering arguments does what `eventsAll` says. -/
theorem follows_lowerArguments (mode : Signedness) : ∀ es : List Expression, Follows (lowerArguments mode es) (eventsAll es)
  | [] => (elementary_silent.pure []).follows
  | a :: rest => by
    refine (follows_lower mode a).bind fun l => ?_
    refine (elementary_silent.load l a.kind).bind_follows fun operand => ?_
    refine (follows_lowerArguments mode rest).bind_silent fun operands => ?_
    exact elementary_silent.pure (operand :: operands)

end

/-! ## Expressions one after the other -/

/-- What is done while expressions are lowered one after the other, each from the state in which the one before ended, whether that
was lowered or not. -/
inductive Session (mode : Signedness) : Generator → List String → List Expression → List Event → Prop where
  /-- There is nothing left. -/
  | nil (g : Generator) (names : List String) : Session mode g names [] []
  /-- The first expression is lowered with the names declared so far, the others with those that it declares as well. -/
  | cons {g : Generator} {names : List String} {e : Expression} {es : List Expression} {done later : List Event}
    (first : Done (lower mode e g) done (events e names))
    (rest : Session mode (finalState (lower mode e g)) (names ++ declaredNames done) es later) :
    Session mode g names (e :: es) (done ++ later)

/-- Expressions that are lowered one after the other are a session, whichever of them fail. -/
theorem exists_session (mode : Signedness) (es : List Expression) (hg : g.frames.current.Indexed) :
    ∃ done, Session mode g g.frames.current.names es done ∧ Adds g (lowerEach mode es g) done := by
  induction es generalizing g with
  | nil => exact ⟨[], .nil g _, .refl g⟩
  | cons e es ih =>
    obtain ⟨done, hfirst, hadds⟩ := follows_lower mode e g hg
    obtain ⟨later, hrest, hlater⟩ := ih (hadds.indexed hg)
    rw [hadds.names] at hrest
    exact ⟨done ++ later, .cons hfirst hrest, hadds.trans hlater⟩

end Lowering

open Lowering

/-- Lower any expressions one after the other on a new generator, each of which may be lowered or fail anywhere, and make a module of
the code. Every body of the module, the entry included, makes a frame first and stores its parameters into the first slots of it;
addresses are computed from that frame only and are those of its slots. Which slots these are, in the order of the instructions, is
what `events` says: a name that is read or assigned to stands for its latest declaration in the function around, at the time at which
lowering of that expression began. -/
theorem slots_addressed_toModule (mode : Signedness) (es : List Expression) :
    ∃ done, Session mode Generator.initial [] es done ∧
      Framed (lowerEach mode es Generator.initial).toModule.entry.body [] done ∧
      List.Forall₂ Defines (lowerEach mode es Generator.initial).toModule.functions (finishedFunctions done) := by
  obtain ⟨done, hsession, hadds⟩ := exists_session mode es (g := Generator.initial) Frame.indexed_empty
  have hclosed := hadds.trans (adds_close (lowerEach mode es Generator.initial))
  rw [List.append_nil] at hclosed
  obtain ⟨definitions, hfunctions, hdefines⟩ := hclosed.functions
  have hdefinitions : (lowerEach mode es Generator.initial).toModule.functions = definitions := hfunctions
  rw [hdefinitions]
  exact ⟨done, hsession, framed_of_adds rfl rfl hclosed Generator.rootAllocation, hdefines⟩

/-- The second expression fails behind its left operand, which stays. The third declares the name again before it assigns to the slot
that the name stood for. -/
example : slotsOf (lowerEach .signed [.declare "x" (.integer 1), .binary (.identifier "x") (.arithmetic .add) (.identifier "y"),
    .assign (.identifier "x") (.declare "x" (.integer 2))] Generator.initial).toModule.entry.body = [0, 0, 1, 0] := by
  rfl

end ExprLang
