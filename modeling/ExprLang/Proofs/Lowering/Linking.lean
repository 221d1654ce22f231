import Mathlib.Data.List.Forall2
import ExprLang.Proofs.Expression.Outline
import ExprLang.Proofs.Lowering.Composition

/-!
# Calls are those of the program

A program that can be lowered is lowered completely: behind what was there before come the functions that it declares, and the code makes
the calls that it makes, in their order (`Makes`). Neither names nor numbers of arguments are looked at meanwhile. So the module is
linkable exactly if the program is linked (`linkable_iff_linked`); an unlinked program has a module as well.
-/

namespace ExprLang

open Code

namespace Code

/-- The name that an instruction calls, and the number of arguments. -/
def Instruction.call? : Instruction → Option (String × Nat)
  | call _ function arguments => some (function, arguments.length)
  | _ => none

/-- The calls in code, in the order of the instructions. -/
def callsIn (code : List Instruction) : List (String × Nat) := code.filterMap Instruction.call?

@[simp] theorem callsIn_append (code code' : List Instruction) : callsIn (code ++ code') = callsIn code ++ callsIn code' :=
  List.filterMap_append

/-- A call with its name and the number of its arguments is one of an instruction. -/
theorem mem_callsIn {code : List Instruction} {name : String} {count : Nat} :
    (name, count) ∈ callsIn code ↔ ∃ dest arguments, .call dest name arguments ∈ code ∧ arguments.length = count := by
  rw [callsIn, List.mem_filterMap]
  constructor
  · rintro ⟨i, hi, hcall⟩
    cases i with
    | call dest function arguments =>
      cases hcall
      exact ⟨dest, arguments, hi, rfl⟩
    | _ => cases hcall
  · rintro ⟨dest, arguments, hi, rfl⟩
    exact ⟨_, hi, rfl⟩

/-- The definitions of a module: its functions and its entry. -/
def Module.definitions (m : Module) : List Definition := m.functions ++ [m.entry]

/-- Every call in a module names exactly one of its definitions and passes as many arguments as that has parameters. -/
def Module.Linkable (m : Module) : Prop :=
  ∀ d ∈ m.definitions, ∀ dest name arguments, .call dest name arguments ∈ d.body →
    ∃ callee, m.definitions.filter (fun d => d.name = name) = [callee] ∧ arguments.length = callee.parameters.length

/-- The name of a definition and the number of its parameters. -/
def Definition.signature (d : Definition) : String × Nat := (d.name, d.parameters.length)

/-- A call is resolved by signatures if it names exactly one of the definitions and passes as many arguments as it has parameters. -/
theorem resolves_signatures_iff {definitions : List Definition} {name : String} {count : Nat} :
    Resolves (definitions.map Definition.signature) (name, count) ↔
      ∃ callee, definitions.filter (fun d => d.name = name) = [callee] ∧ count = callee.parameters.length := by
  rw [Resolves, List.filter_map, List.map_eq_singleton_iff]
  constructor
  · rintro ⟨callee, hfilter, hsignature⟩
    exact ⟨callee, hfilter, (Prod.mk.inj hsignature).2.symm⟩
  · rintro ⟨callee, hfilter, rfl⟩
    have hcallee : callee ∈ definitions.filter fun d => d.name = name := hfilter ▸ List.mem_singleton_self callee
    have hname : callee.name = name := of_decide_eq_true (List.mem_filter.1 hcallee).2
    exact ⟨callee, hfilter, Prod.ext hname rfl⟩

/-- A module can be linked if each call resolves to a definition. -/
theorem Module.linkable_iff {m : Module} :
    m.Linkable ↔ ∀ call ∈ m.definitions.flatMap fun d => callsIn d.body, Resolves (m.definitions.map Definition.signature) call := by
  constructor
  · rintro h ⟨name, count⟩ hcall
    obtain ⟨d, hd, hmem⟩ := List.mem_flatMap.1 hcall
    obtain ⟨dest, arguments, hi, rfl⟩ := mem_callsIn.1 hmem
    exact resolves_signatures_iff.2 (h d hd dest name arguments hi)
  · intro h d hd dest name arguments hi
    exact resolves_signatures_iff.1 (h _ (List.mem_flatMap.2 ⟨d, hd, mem_callsIn.2 ⟨dest, arguments, hi, rfl⟩⟩))

end Code

namespace Lowering

/-- The definition has the name and the parameters of the function, and its code makes the calls of the function's body. -/
def Implements (d : Definition) (function : String × FunctionLiteral) : Prop :=
  d.name = function.1 ∧ d.parameters = function.2.parameters ∧ callsIn d.body = function.2.body.calls

/-- From one state to another code was added that makes these calls, and definitions of these functions were. -/
structure Makes (g g' : Generator) (calls : List (String × Nat)) (functions : List (String × FunctionLiteral)) : Prop where
  /-- The calls are made. -/
  code : ∃ code, g'.instructions.toList = g.instructions.toList ++ code ∧ callsIn code = calls
  /-- The functions are defined. -/
  functions : ∃ definitions, g'.functions.toList = g.functions.toList ++ definitions ∧ List.Forall₂ Implements definitions functions

/-- If the computation succeeds, these calls are made and these functions are defined. -/
def Compiles {α : Type} (x : Lowering α) (calls : List (String × Nat)) (functions : List (String × FunctionLiteral)) : Prop :=
  ∀ ⦃g a g'⦄, x g = .ok a g' → Makes g g' calls functions

variable {α β : Type} {g g' g'' : Generator} {x : Lowering α} {calls later : List (String × Nat)}
  {functions further : List (String × FunctionLiteral)}

namespace Makes

/-- Code without calls, and no function. -/
theorem quiet (code : List Instruction) (hi : g'.instructions.toList = g.instructions.toList ++ code) (hcode : callsIn code = [])
    (hf : g'.functions = g.functions) : Makes g g' [] [] :=
  ⟨⟨code, hi, hcode⟩, ⟨[], by rw [hf, List.append_nil], .nil⟩⟩

/-- Where neither code nor functions change, nothing is called and nothing defined. -/
theorem of_eq (hi : g'.instructions = g.instructions) (hf : g'.functions = g.functions) : Makes g g' [] [] :=
  .quiet [] (by rw [hi, List.append_nil]) rfl hf

/-- Calls and functions add up along a computation. -/
theorem trans (h : Makes g g' calls functions) (h' : Makes g' g'' later further) :
    Makes g g'' (calls ++ later) (functions ++ further) := by
  obtain ⟨⟨code, hi, hcode⟩, definitions, hf, hdefinitions⟩ := h
  obtain ⟨⟨code', hi', hcode'⟩, definitions', hf', hdefinitions'⟩ := h'
  refine ⟨⟨code ++ code', ?_, ?_⟩, definitions ++ definitions', ?_, List.rel_append hdefinitions hdefinitions'⟩
  · rw [hi', hi, List.append_assoc]
  · rw [callsIn_append, hcode, hcode']
  · rw [hf', hf, List.append_assoc]

end Makes

/-! ## What makes no call -/

/-- An instruction that writes no register calls nothing, and neither does one that is plain. -/
theorem call?_of_dest? {i : Instruction} (h : i.dest? = none) : i.call? = none := by
  cases i with
  | call => cases h
  | _ => rfl

/-- Plain instructions call nothing. -/
theorem call?_of_isPlain {i : Instruction} (h : i.isPlain) : i.call? = none := by
  cases i with
  | call => cases h
  | _ => rfl

/-- Small changes that make no call and define no function. -/
theorem gradual_quiet : Gradual fun g g' => Makes g g' [] [] where
  refl _ := .of_eq rfl rfl
  trans h h' := h.trans h'
  write _ i _ hplain := .quiet [i] Array.toList_push (List.filterMap_cons_none (call?_of_isPlain hplain)) rfl
  push _ i hi := .quiet [i] Array.toList_push (List.filterMap_cons_none (call?_of_dest? hi)) rfl
  label _ _ := .of_eq rfl rfl
  boxed _ _ := .of_eq rfl rfl
  constant _ _ := .of_eq rfl rfl

/-- However the computation ends, it makes no call and defines no function. -/
def Quiet ⦃α : Type⦄ (x : Lowering α) : Prop := Throughout (fun g g' => Makes g g' [] []) x

/-- What is quiet makes no call and defines no function. -/
theorem Quiet.compiles (h : Quiet x) : Compiles x [] [] := by
  intro g a g' hx
  have hg := h g
  rw [hx] at hg
  exact hg

theorem elementary_quiet : Elementary Quiet := gradual_quiet.elementary

theorem quiet_declare (name : String) (initial : Option Int32) : Quiet (declare name initial) := fun _ => .of_eq rfl rfl

/-- The address of a slot is computed without a call. -/
theorem quiet_slotAddress (slot : Nat) : Quiet (slotAddress slot) :=
  elementary_quiet.bind elementary_quiet.get fun _ _ => .quiet [_] Array.toList_push rfl rfl

theorem quiet_storeSlot (slot : Nat) (value : Operand) : Quiet (storeSlot slot value) :=
  elementary_quiet.storeSlot quiet_slotAddress slot value

/-- A name is read without a call. -/
theorem quiet_readName (name : String) : Quiet (readName name) := elementary_quiet.readName quiet_slotAddress name

/-- Parameters are stored without a call. -/
theorem quiet_spill (parameters : List String) : Quiet (spill parameters) :=
  elementary_quiet.spill quiet_slotAddress quiet_declare parameters

/-- The end of a function makes no call. -/
theorem makes_close (g : Generator) : Makes g g.close [] [] := by
  rcases close_cases g with ⟨pointer, -, h⟩ | h <;> rw [h]
  · exact .quiet [.load g.nextRegister pointer, .ret (.register g.nextRegister)] (by simp) rfl rfl
  · exact .quiet [.ret (.constant 0)] (by simp) rfl rfl

/-! ## Computations one after the other -/

/-- Calls and functions of two computations follow each other. -/
theorem Compiles.bind {f : α → Lowering β} (hx : Compiles x calls functions) (hf : ∀ a, Compiles (f a) later further) :
    Compiles (x >>= f) (calls ++ later) (functions ++ further) := by
  intro g b g' h
  obtain ⟨a, g₁, ha, hb⟩ := bind_ok_iff.1 h
  exact (hx ha).trans (hf a hb)

/-- What is quiet may come first. -/
theorem Quiet.bind {f : α → Lowering β} (hx : Quiet x) (hf : ∀ a, Compiles (f a) calls functions) :
    Compiles (x >>= f) calls functions :=
  hx.compiles.bind hf

/-- What is quiet may come last. -/
theorem Compiles.bind_quiet {f : α → Lowering β} (hx : Compiles x calls functions) (hf : ∀ a, Quiet (f a)) :
    Compiles (x >>= f) calls functions := by
  have h := hx.bind fun a => (hf a).compiles
  rwa [List.append_nil, List.append_nil] at h

/-- An error is no success. -/
theorem compiles_throw (e : LoweringError) : Compiles (throw e : Lowering α) calls functions := fun _ _ _ h => nomatch h

/-- Remembering and restoring the last cell makes no call. -/
theorem compiles_branching {code : Lowering Unit} (h : Compiles code calls functions) : Compiles (branching code) calls functions := by
  refine Quiet.bind elementary_quiet.get fun _ => ?_
  refine h.bind_quiet fun _ => ?_
  refine elementary_quiet.bind (fun _ => .of_eq rfl rfl) fun _ => ?_
  exact elementary_quiet.pure _

/-- A choice makes the calls of its test and of both its branches. -/
theorem compiles_conditional {test : Lowering Nat} {consequence alternative : Lowering Unit} {third : List (String × Nat)}
    {last : List (String × FunctionLiteral)} (ht : Compiles test calls functions) (hc : Compiles consequence later further)
    (ha : Compiles alternative third last) :
    Compiles (conditional test consequence alternative) (calls ++ (later ++ third)) (functions ++ (further ++ last)) := by
  have hpush {i : Instruction} (hi : i.dest? = none) : Quiet (emit i) := gradual_quiet.emit i hi
  refine compiles_branching (Quiet.bind (gradual_quiet.reserveLabels 4) fun start => ?_)
  refine Quiet.bind (hpush rfl) fun _ => ?_
  refine Quiet.bind (hpush rfl) fun _ => ?_
  refine ht.bind fun flag => ?_
  refine Quiet.bind (hpush rfl) fun _ => ?_
  refine Quiet.bind (hpush rfl) fun _ => ?_
  refine hc.bind fun _ => ?_
  refine Quiet.bind (hpush rfl) fun _ => ?_
  refine Quiet.bind (hpush rfl) fun _ => ?_
  refine ha.bind_quiet fun _ => ?_
  exact elementary_quiet.bind (hpush rfl) fun _ => hpush rfl

/-- A loop makes the calls of its test and of its body. -/
theorem compiles_loop {test : Lowering Nat} {body : Lowering Unit} (ht : Compiles test calls functions)
    (hb : Compiles body later further) : Compiles (loop test body) (calls ++ later) (functions ++ further) := by
  have hpush {i : Instruction} (hi : i.dest? = none) : Quiet (emit i) := gradual_quiet.emit i hi
  refine compiles_branching (Quiet.bind (gradual_quiet.reserveLabels 3) fun start => ?_)
  refine Quiet.bind (hpush rfl) fun _ => ?_
  refine Quiet.bind (hpush rfl) fun _ => ?_
  refine ht.bind fun flag => ?_
  refine Quiet.bind (hpush rfl) fun _ => ?_
  refine Quiet.bind (hpush rfl) fun _ => ?_
  refine hb.bind_quiet fun _ => ?_
  exact elementary_quiet.bind (hpush rfl) fun _ => hpush rfl

/-- The code behind a prologue makes the calls that were made since the function began. -/
theorem Makes.callsIn_framed (h : Makes g g' calls functions) (hg : g.instructions = #[]) (frame : Frame) (allocation pointer : Nat) :
    callsIn (Generator.prologue frame allocation pointer ++ g'.close.instructions.toList) = calls := by
  obtain ⟨⟨code, hi, hcode⟩, -⟩ := h.trans (makes_close g')
  rw [hi, hg, callsIn_append]
  exact hcode.trans (List.append_nil _)

/-- A definition implements its function, and the functions defined meanwhile are those inside. -/
theorem implements_of_definition_ok {name : String} {function : FunctionLiteral} {body : Lowering Lowered} {d : Definition}
    (h : Compiles body function.body.calls functions) (hd : definition name function.parameters body g.nested = .ok d g') :
    Implements d (name, function) ∧ List.Forall₂ Implements g'.functions.toList functions := by
  obtain ⟨l, g₁, hcode, rfl, rfl⟩ := definition_ok_iff.1 hd
  have hmakes := Quiet.bind (quiet_spill function.parameters) (fun _ => h) hcode
  obtain ⟨definitions, hf, hdefinitions⟩ := hmakes.functions
  have hinner : g₁.close.functions.toList = definitions := by
    rw [functions_close, hf]
    rfl
  exact ⟨⟨rfl, rfl, hmakes.callsIn_framed rfl _ _ _⟩, hinner ▸ hdefinitions⟩

/-- A function is defined behind those inside of it, and its calls are not made where it is declared. -/
theorem compiles_define (name : String) (function : FunctionLiteral) {body : Lowering Lowered}
    (h : Compiles body function.body.calls functions) :
    Compiles (define name function.parameters body) [] (functions ++ [(name, function)]) := by
  intro g l g' hg
  unfold define at hg
  cases hd : definition name function.parameters body g.nested with
  | error e inner =>
    rw [hd] at hg
    cases hg
  | ok d inner =>
    rw [hd] at hg
    cases hg
    obtain ⟨himplements, hinner⟩ := implements_of_definition_ok h hd
    refine ⟨⟨[], (List.append_nil _).symm, rfl⟩, inner.functions.toList ++ [d], ?_, ?_⟩
    · rw [Array.toList_push, Array.toList_append, List.append_assoc]
    · exact List.rel_append hinner (.cons himplements .nil)

/-! ## Expressions -/

/-- There is an operand for each argument. -/
theorem length_of_lowerArguments {mode : Signedness} {es : List Expression} {operands : List Operand}
    (h : lowerArguments mode es g = .ok operands g') : operands.length = es.length := by
  induction es generalizing g g' operands with
  | nil =>
    obtain ⟨rfl, -⟩ := pure_ok_iff.1 h
    rfl
  | cons a rest ih =>
    obtain ⟨l, g₁, -, h⟩ := bind_ok_iff.1 h
    obtain ⟨operand, g₂, -, h⟩ := bind_ok_iff.1 h
    obtain ⟨others, g₃, hrest, h⟩ := bind_ok_iff.1 h
    obtain ⟨rfl, -⟩ := pure_ok_iff.1 h
    rw [List.length_cons, List.length_cons, ih hrest]

/-- The instruction for a call makes that call. -/
theorem compiles_emitCall (name : String) (operands : List Operand) :
    Compiles (emitTo (.call · name operands)) [(name, operands.length)] [] := by
  intro g a g' h
  cases h
  exact ⟨⟨[_], Array.toList_push, rfl⟩, ⟨[], (List.append_nil _).symm, .nil⟩⟩

/-- A condition makes the calls of the expression that is tested. -/
theorem Compiles.condition {t : Lowering Lowered} (h : Compiles t calls functions) (kind : String) :
    Compiles (t >>= fun l => test l kind) calls functions := by
  refine h.bind_quiet fun l => ?_
  exact elementary_quiet.test l kind

/-- A branch whose value is not used makes the calls that it made before. -/
theorem Compiles.branch (h : Compiles x calls functions) : Compiles (x >>= fun _ => pure ()) calls functions := by
  refine h.bind_quiet fun _ => ?_
  exact elementary_quiet.pure ()

mutual

/-- The code of an expression makes the calls of the expression, and the functions that it declares are defined. -/
theorem compiles_lower (mode : Signedness) : ∀ e : Expression, Compiles (lower mode e) e.calls e.declarations
  | .integer v => Quiet.compiles (elementary_quiet.constant (tagInteger v))
  | .boolean v => Quiet.compiles (elementary_quiet.constant (tagBoolean v))
  | .identifier name => Quiet.compiles (quiet_readName name)
  | .void => Quiet.compiles (elementary_quiet.pure _)
  | .varDecl name => by
    refine Quiet.compiles ?_
    refine elementary_quiet.bind elementary_quiet.get fun g => ?_
    refine elementary_quiet.bind (quiet_declare name g.lastConstant) fun _ => ?_
    exact elementary_quiet.pure _
  | .funcDecl name ⟨identity, parameters, body⟩ => compiles_define name ⟨identity, parameters, body⟩ (compiles_lower mode body)
  | .scope a => compiles_lower mode a
  | .sequence as => compiles_lowerSequence mode as .nothing
  | .binary a (.arithmetic o) b => by
    refine (compiles_lower mode a).bind fun l => ?_
    refine (compiles_lower mode b).bind_quiet fun r => ?_
    exact elementary_quiet.arithmetic mode o l a.kind r b.kind
  | .binary a (.comparison o) b => by
    refine (compiles_lower mode a).bind fun l => ?_
    refine (compiles_lower mode b).bind_quiet fun r => ?_
    exact elementary_quiet.comparison o l a.kind r b.kind
  | .binary _ .and _ | .binary _ .or _ | .binary _ .stringEqual _ | .binary _ .stringLess _ => compiles_throw _
  | .assign place a => by
    cases place with
    | varDecl name =>
      refine (compiles_lower mode a).bind_quiet fun l => ?_
      refine elementary_quiet.bind (elementary_quiet.load l a.kind) fun value => ?_
      refine elementary_quiet.bind elementary_quiet.get fun g => ?_
      refine elementary_quiet.bind (quiet_declare name g.lastConstant) fun slot => ?_
      exact quiet_storeSlot slot value
    | identifier name =>
      refine Quiet.bind (elementary_quiet.ownSlot name "Assign") fun slot => ?_
      refine (compiles_lower mode a).bind_quiet fun l => ?_
      refine elementary_quiet.bind (elementary_quiet.load l a.kind) fun value => ?_
      exact quiet_storeSlot slot value
    | _ => exact compiles_throw _
  | .call f as => by
    cases f with
    | identifier name =>
      intro g l g' h
      obtain ⟨operands, g₁, hoperands, h⟩ := bind_ok_iff.1 h
      have hcall := (compiles_emitCall name operands).bind_quiet (fun value => elementary_quiet.box (.register value)) h
      rw [length_of_lowerArguments hoperands] at hcall
      have hcompiles := (compiles_lowerArguments mode as hoperands).trans hcall
      rwa [List.append_nil] at hcompiles
    | _ => exact compiles_throw _
  | .conditional a b none => by
    have hnone : Compiles (pure ()) [] [] := Quiet.compiles (elementary_quiet.pure ())
    have h := compiles_conditional ((compiles_lower mode a).condition a.kind) (compiles_lower mode b).branch hnone
    rwa [List.append_nil, List.append_nil] at h
  | .conditional a b (some c) =>
    compiles_conditional ((compiles_lower mode a).condition a.kind) (compiles_lower mode b).branch (compiles_lower mode c).branch
  | .loop a b => compiles_loop ((compiles_lower mode a).condition a.kind) (compiles_lower mode b).branch
  | .ret a => by
    refine (compiles_lower mode a).bind_quiet fun l => ?_
    refine elementary_quiet.bind (elementary_quiet.load l a.kind) fun value => ?_
    exact elementary_quiet.ret value
  | .float _ | .string _ | .function _ | .closure _ | .not _ | .print _ | .isType _ _ | .stringLength _ | .substring _ _ _
  | .object _ | .field _ _ => compiles_throw _

/-- A sequence makes the calls of its expressions, in their order. -/
theorem compiles_lowerSequence (mode : Signedness) : ∀ (es : List Expression) (last : Lowered),
    Compiles (lowerSequence mode es last) (Expression.callsOfAll es) (Expression.declarationsOfAll es)
  | [], last => Quiet.compiles (elementary_quiet.pure last)
  | a :: rest, _ => (compiles_lower mode a).bind fun l => compiles_lowerSequence mode rest l

/-- Arguments make their own calls before the call they belong to. -/
theorem compiles_lowerArguments (mode : Signedness) : ∀ es : List Expression,
    Compiles (lowerArguments mode es) (Expression.callsOfAll es) (Expression.declarationsOfAll es)
  | [] => Quiet.compiles (elementary_quiet.pure [])
  | a :: rest => by
    refine (compiles_lower mode a).bind fun l => ?_
    refine Quiet.bind (elementary_quiet.load l a.kind) fun operand => ?_
    refine (compiles_lowerArguments mode rest).bind_quiet fun operands => ?_
    exact elementary_quiet.pure (operand :: operands)

end

/-! ## Modules -/

/-- Definitions that implement functions have their names and parameters. -/
theorem map_name_parameters_of_implements {definitions : List Definition} (h : List.Forall₂ Implements definitions functions) :
    definitions.map (fun d => (d.name, d.parameters)) = functions.map fun f => (f.1, f.2.parameters) := by
  induction h with
  | nil => rfl
  | cons hd _ ih => rw [List.map_cons, List.map_cons, ih, hd.1, hd.2.1]

/-- Definitions that implement functions have their names and as many parameters. -/
theorem map_signature_of_implements {definitions : List Definition} (h : List.Forall₂ Implements definitions functions) :
    definitions.map Definition.signature = functions.map fun f => (f.1, f.2.parameters.length) := by
  have hcounted := congrArg (List.map fun d => (d.1, d.2.length)) (map_name_parameters_of_implements h)
  rwa [List.map_map, List.map_map] at hcounted

/-- Definitions that implement functions make the calls of their bodies. -/
theorem flatMap_callsIn_of_implements {definitions : List Definition} (h : List.Forall₂ Implements definitions functions) :
    definitions.flatMap (fun d => callsIn d.body) = functions.flatMap fun f => f.2.body.calls := by
  induction h with
  | nil => rfl
  | cons hd _ ih => rw [List.flatMap_cons, List.flatMap_cons, ih, hd.2.2]

variable {mode : Signedness} {program : Expression} {m : Module}

/-- The functions of a module implement those of the program, and its entry makes the calls outside of functions. -/
theorem implements_of_compile? (h : program.compile? mode = .ok m) :
    List.Forall₂ Implements m.functions program.declarations ∧ m.entry.signature = (Module.entryName, 0) ∧
      callsIn m.entry.body = program.calls := by
  obtain ⟨l, g, hg, rfl⟩ := compile?_ok_iff.1 h
  have hmakes := compiles_lower mode program hg
  obtain ⟨definitions, hf, hdefinitions⟩ := hmakes.functions
  have hfunctions : g.toModule.functions = definitions := by
    show g.close.functions.toList = definitions
    rw [functions_close, hf]
    rfl
  exact ⟨hfunctions ▸ hdefinitions, rfl, hmakes.callsIn_framed rfl _ _ _⟩

/-- The signatures of a module are those of the program's functions and of its entry. -/
theorem map_signature_definitions (h : program.compile? mode = .ok m) :
    m.definitions.map Definition.signature = program.signatures := by
  obtain ⟨hfunctions, hentry, -⟩ := implements_of_compile? h
  rw [Module.definitions, List.map_append, List.map_singleton, hentry, map_signature_of_implements hfunctions, Expression.signatures]

/-- The calls in a module are those of the program. -/
theorem flatMap_callsIn_definitions (h : program.compile? mode = .ok m) :
    (m.definitions.flatMap fun d => callsIn d.body) = program.allCalls := by
  obtain ⟨hfunctions, -, hentry⟩ := implements_of_compile? h
  rw [Module.definitions, List.flatMap_append, List.flatMap_singleton, hentry, flatMap_callsIn_of_implements hfunctions,
    Expression.allCalls]

/-- Whether calls find their definitions is decided by the program alone. -/
theorem linkable_iff_linked (h : program.compile? mode = .ok m) : m.Linkable ↔ program.Linked := by
  rw [Module.linkable_iff, flatMap_callsIn_definitions h, map_signature_definitions h]
  rfl

end Lowering

open Lowering

/-- The definitions of a module are, in their order, those of the functions that the program declares, with their names and parameters,
and the entry, which has no parameters. Each makes the calls of its function's body, the entry those outside of functions, with the
same names and numbers of arguments. So every call in the module names exactly one definition, with the right number of arguments, if
and only if every call of the program names exactly one of its functions or the entry, with the right number of arguments. -/
theorem compile?_linkable_iff {mode : Signedness} {program : Expression} {m : Module} (h : program.compile? mode = .ok m) :
    List.Forall₂ Implements m.functions program.declarations ∧
      (m.entry.signature = (Module.entryName, 0) ∧ callsIn m.entry.body = program.calls) ∧ (m.Linkable ↔ program.Linked) :=
  ⟨(implements_of_compile? h).1, (implements_of_compile? h).2, linkable_iff_linked h⟩

/-- A function that is called before it is declared, declares one inside, and calls the entry. -/
def calledBefore : Expression :=
  .sequence [.call (.identifier "f") [.integer 1, .integer 2],
    .funcDecl "f" ⟨0, ["a", "b"], .sequence [.funcDecl "g" ⟨1, ["c"], .ret (.call (.identifier "f") [.identifier "c", .integer 3])⟩,
      .ret (.binary (.call (.identifier "g") [.identifier "a"]) (.arithmetic .add) (.call (.identifier "llvm_main") []))]⟩]

/-- All of its calls find their definitions. -/
theorem compile?_linkable_iff_calledBefore :
    ∃ m, calledBefore.compile? .signed = .ok m ∧ m.definitions.map (fun d => (d.name, callsIn d.body)) =
      [("g", [("f", 2)]), ("f", [("g", 1), ("llvm_main", 0)]), ("llvm_main", [("f", 2)])] ∧ m.Linkable := by
  have h : ∃ m ∈ (calledBefore.compile? .signed).toOption, m.definitions.map (fun d => (d.name, callsIn d.body)) =
      [("g", [("f", 2)]), ("f", [("g", 1), ("llvm_main", 0)]), ("llvm_main", [("f", 2)])] := by
    decide +kernel
  obtain ⟨m, hm, hcalls⟩ := h
  have hok := ok_of_mem_toOption hm
  exact ⟨m, hok, hcalls, (compile?_linkable_iff hok).2.2.2 (by decide)⟩

/-- Programs with a call of nothing, a call with an argument too few, and a call of one of two functions. -/
def unlinked : List Expression :=
  [.call (.identifier "f") [],
    .sequence [.funcDecl "f" ⟨0, ["a"], .void⟩, .call (.identifier "f") []],
    .sequence [.funcDecl "f" ⟨0, [], .void⟩, .funcDecl "f" ⟨1, [], .void⟩, .call (.identifier "f") []]]

/-- Each of them has a module, whose call does not find its definition. -/
theorem unlinked_compiles : unlinked.Forall fun program => ∃ m, program.compile? .unsigned = .ok m ∧ ¬m.Linkable := by
  have h : ∀ program ∈ unlinked, (program.compile? .unsigned).toOption.isSome ∧ ¬program.Linked := by decide +kernel
  refine List.forall_iff_forall_mem.2 fun program hprogram => ?_
  obtain ⟨hsome, hlinked⟩ := h program hprogram
  obtain ⟨m, hm⟩ := Option.isSome_iff_exists.1 hsome
  have hok := ok_of_mem_toOption hm
  exact ⟨m, hok, fun hlinkable => hlinked ((linkable_iff_linked hok).1 hlinkable)⟩

end ExprLang
