import Mathlib.Data.List.Nodup
import ExprLang.Proofs.Lowering.Dominance
import ExprLang.Proofs.Lowering.Linking
import ExprLang.Proofs.Lowering.Registers
import ExprLang.Proofs.Number.Decimal

/-!
# Names in the text of functions

In the text of a function a register and a parameter are both names behind a percent sign, and parameters are named as in the program:
nothing is renamed and nothing is refused. A register is told from other registers, since each is written once in a module; but a
function may have two parameters of one name, or a parameter that is named like a register which the function writes. These are the
only ways in which two names in a text can be the same (`Operand.eq_of_text_eq`, `Definition.nodup_definedNames_iff`).
-/

namespace ExprLang

open Code Number

namespace Code

/-! ## The text of operands -/

/-- The name of a register, without the percent sign in front of it. -/
def registerName (register : Nat) : String := "r" ++ toString register

/-- An operand that is a register is written with its name. -/
theorem text_register (register : Nat) : (Operand.register register).text = "%" ++ registerName register := by
  rw [Operand.text, registerText, registerName, ← String.append_assoc]
  rfl

theorem toList_registerText (register : Nat) : (registerText register).toList = '%' :: 'r' :: Nat.toDigits 10 register := by
  rw [registerText, String.toList_append, Nat.toString_eq_repr, Nat.toList_repr]
  rfl

/-- Two registers have different names, since their numbers have different digits. -/
theorem registerName_injective : Function.Injective registerName := by
  intro r r' h
  have htext : r.repr = r'.repr := (String.append_right_inj "r").1 h
  refine toDigits_injective ?_
  rw [← Nat.toList_repr, htext, Nat.toList_repr]

/-- Names differ behind a percent sign as they do without. -/
theorem percent_injective : Function.Injective ("%" ++ · : String → String) := fun _ _ h => (String.append_right_inj "%").1 h

/-- The text of a constant is no name. -/
theorem percent_append_ne_toString (name : String) (n : Int) : "%" ++ name ≠ toString n := by
  intro h
  have htext : (toString n).toList = '%' :: name.toList := by
    rw [← h, String.toList_append]
    rfl
  cases n with
  | ofNat n =>
    rw [toList_toString_ofNat] at htext
    exact notMem_toDigits (c := '%') rfl n (htext ▸ List.mem_cons_self)
  | negSucc n =>
    rw [toList_toString_negSucc] at htext
    exact absurd (List.cons.inj htext).1 (by decide)

/-- Operands of the same text are the same, but for a register and a parameter that is named like it. -/
theorem Operand.eq_of_text_eq {o o' : Operand} (h : o.text = o'.text) :
    o = o' ∨ ∃ r, (o = .register r ∧ o' = .named (registerName r)) ∨ (o = .named (registerName r) ∧ o' = .register r) := by
  cases o with
  | register r =>
    rw [text_register] at h
    cases o' with
    | register r' =>
      rw [text_register] at h
      exact .inl (congrArg Operand.register (registerName_injective (percent_injective h)))
    | named name => exact .inr ⟨r, .inl ⟨rfl, congrArg Operand.named (percent_injective h).symm⟩⟩
    | constant v => exact absurd h (percent_append_ne_toString _ _)
  | named name =>
    cases o' with
    | register r =>
      rw [text_register] at h
      exact .inr ⟨r, .inr ⟨congrArg Operand.named (percent_injective h), rfl⟩⟩
    | named name' => exact .inl (congrArg Operand.named (percent_injective h))
    | constant v => exact absurd h (percent_append_ne_toString _ _)
  | constant v =>
    cases o' with
    | register r =>
      rw [text_register] at h
      exact absurd h.symm (percent_append_ne_toString _ _)
    | named name => exact absurd h.symm (percent_append_ne_toString _ _)
    | constant v' => exact .inl (congrArg Operand.constant (Int32.toInt_inj.1 (toString_int_injective h)))

/-! ## The names that a text defines -/

/-- What stands in front of the first blank in the text of an instruction, if the text begins with a name. -/
def leftHandSide? (text : String) : Option String :=
  if text.toList.head? = some '%' then some (String.ofList (text.toList.takeWhile (· ≠ ' '))) else none

/-- There is no blank in the name of a register. -/
theorem leftHandSide?_assignment (dest : Nat) (operation : String) :
    leftHandSide? (Instruction.assignment dest operation) = some (registerText dest) := by
  have htext : (Instruction.assignment dest operation).toList = (registerText dest).toList ++ ' ' :: "= ".toList ++ operation.toList := by
    simp [Instruction.assignment]
  have hnone : ' ' ∉ (registerText dest).toList := by
    rw [toList_registerText]
    simp [notMem_toDigits (c := ' ') rfl dest]
  have hblank : ∀ c ∈ (registerText dest).toList, decide (c ≠ ' ') = true := fun c hc =>
    decide_eq_true fun heq => hnone (heq ▸ hc)
  have hbegins : (Instruction.assignment dest operation).toList.head? = some '%' := by
    rw [htext, toList_registerText]
    rfl
  rw [leftHandSide?, if_pos hbegins, htext, List.append_assoc, List.takeWhile_append_of_pos hblank]
  rw [List.cons_append, List.takeWhile_cons_of_neg (by decide), List.append_nil, String.ofList_toList]

/-- The left-hand side of an instruction is the register that it writes. -/
theorem leftHandSide?_text (i : Instruction) : leftHandSide? i.text = i.dest?.map registerText := by
  cases i with
  | store | ret => simp [Instruction.text, leftHandSide?, Instruction.dest?]
  | branch condition => cases condition <;> simp [Instruction.text, leftHandSide?, Instruction.dest?]
  | label => simp [Instruction.text, leftHandSide?, Instruction.dest?, labelText]
  | _ => exact leftHandSide?_assignment _ _

namespace Definition

variable {d : Definition}

/-- The left-hand sides in the text of a definition. -/
def leftHandSides (d : Definition) : List String := d.body.filterMap fun i => leftHandSide? i.text

/-- The names that the text of a definition defines: those of its parameters and the left-hand sides of its instructions. -/
def definedNames (d : Definition) : List String := d.parameters.map (fun p => (Operand.named p).text) ++ d.leftHandSides

/-- All operands of a definition: its parameters, the registers that it writes and whatever it reads. -/
def operands (d : Definition) : List Operand :=
  d.parameters.map .named ++ (destinations d.body).map .register ++ d.body.flatMap Instruction.reads

/-- The lines of a body assign to the registers that its instructions write. -/
theorem leftHandSides_eq (d : Definition) : d.leftHandSides = (destinations d.body).map fun r => "%" ++ registerName r := by
  have htext : (fun i => leftHandSide? i.text) = fun i : Instruction => i.dest?.map fun r => "%" ++ registerName r := by
    funext i
    rw [leftHandSide?_text]
    exact congrArg (i.dest?.map ·) (funext text_register)
  rw [leftHandSides, htext, destinations, List.map_filterMap]

/-- Where registers are written once, left-hand sides are distinct. -/
theorem nodup_leftHandSides (h : (destinations d.body).Nodup) : d.leftHandSides.Nodup := by
  rw [leftHandSides_eq]
  exact h.map fun _ _ heq => registerName_injective (percent_injective heq)

/-- The names that a definition assigns to are its parameters and the registers that its body writes. -/
theorem definedNames_eq (d : Definition) : d.definedNames = (d.parameters ++ (destinations d.body).map registerName).map ("%" ++ ·) := by
  rw [definedNames, leftHandSides_eq, List.map_append, List.map_map]
  rfl

/-- Where registers are written once, names are distinct if those of the parameters are and none of them is that of a register. -/
theorem nodup_definedNames_iff (h : (destinations d.body).Nodup) :
    d.definedNames.Nodup ↔ d.parameters.Nodup ∧ ∀ r ∈ destinations d.body, registerName r ∉ d.parameters := by
  rw [definedNames_eq, List.nodup_map_iff percent_injective, List.nodup_append', List.nodup_map_iff registerName_injective]
  constructor
  · rintro ⟨hparameters, -, hdisjoint⟩
    exact ⟨hparameters, fun r hr hname => hdisjoint hname (List.mem_map_of_mem hr)⟩
  · rintro ⟨hparameters, hnames⟩
    refine ⟨hparameters, h, fun name hname hregister => ?_⟩
    obtain ⟨r, hr, rfl⟩ := List.mem_map.1 hregister
    exact hnames r hr hname

/-- In code in SSA form every register is one that is written, and every name is a parameter's. -/
theorem mem_of_mem_operands (h : d.IsSSA) {o : Operand} (ho : o ∈ d.operands) :
    match o with
    | .register r => r ∈ destinations d.body
    | .named name => name ∈ d.parameters
    | .constant _ => True := by
  rcases List.mem_append.1 ho with hdefined | hread
  · rcases List.mem_append.1 hdefined with hparameter | hwritten
    · obtain ⟨name, hname, rfl⟩ := List.mem_map.1 hparameter
      exact hname
    · obtain ⟨r, hr, rfl⟩ := List.mem_map.1 hwritten
      exact hr
  · obtain ⟨i, hi, ho⟩ := List.mem_flatMap.1 hread
    obtain ⟨u, hu⟩ := List.mem_iff_getElem?.1 hi
    have hssa := h u i hu o ho
    cases o with
    | register r =>
      obtain ⟨w, ⟨j, hj, hdest⟩, -⟩ := hssa
      exact List.mem_filterMap.2 ⟨j, List.mem_of_getElem? hj, hdest⟩
    | named name => exact hssa
    | constant v => trivial

/-- If no parameter is named like a register that is written, different operands have different texts. -/
theorem injOn_text (h : d.IsSSA) (hnames : ∀ r ∈ destinations d.body, registerName r ∉ d.parameters) :
    Set.InjOn Operand.text {o | o ∈ d.operands} := by
  intro o ho o' ho' htext
  rcases Operand.eq_of_text_eq htext with heq | ⟨r, ⟨rfl, rfl⟩ | ⟨rfl, rfl⟩⟩
  · exact heq
  · exact absurd (mem_of_mem_operands h ho') (hnames r (mem_of_mem_operands h ho))
  · exact absurd (mem_of_mem_operands h ho) (hnames r (mem_of_mem_operands h ho'))

end Definition

end Code

namespace Lowering

variable {mode : Signedness} {program : Expression} {m : Module}

/-- No definition of a module writes a register twice. -/
theorem nodup_destinations (h : program.compile? mode = .ok m) : ∀ d ∈ m.definitions, (destinations d.body).Nodup := by
  obtain ⟨l, g, hg, rfl⟩ := compile?_ok_iff.1 h
  have htakes := compositional_takesRegisters.lower mode program Generator.initial
  rw [hg] at htakes
  exact (List.nodup_flatMap.1 (Takes.numbers_toModule htakes).nodup).1

/-- The entry has no parameters. -/
theorem parameters_entry (h : program.compile? mode = .ok m) : m.entry.parameters = [] := by
  obtain ⟨l, g, -, rfl⟩ := compile?_ok_iff.1 h
  rfl

end Lowering

open Lowering

/-- In the text of every function, and of the entry, the left-hand sides of the instructions are distinct. All names that the text
defines are distinct if and only if no two parameters have the same name and none is named like a register that this function writes;
those of the entry always are. If they are distinct, no two operands anywhere in the function read the same in its text. -/
theorem nodup_definedNames_of_compile? {mode : Signedness} {program : Expression} {m : Module} (h : program.compile? mode = .ok m) :
    m.entry.definedNames.Nodup ∧ ∀ d ∈ m.definitions, d.leftHandSides.Nodup ∧
      (d.definedNames.Nodup ↔ d.parameters.Nodup ∧ ∀ r ∈ destinations d.body, registerName r ∉ d.parameters) ∧
      (d.definedNames.Nodup → Set.InjOn Operand.text {o | o ∈ d.operands}) := by
  have hwrites := nodup_destinations h
  have hentry : m.entry ∈ m.definitions := List.mem_append_right _ (List.mem_singleton_self _)
  refine ⟨(Definition.nodup_definedNames_iff (hwrites _ hentry)).2 ?_, fun d hd => ⟨?_, ?_, fun hnames => ?_⟩⟩
  · rw [parameters_entry h]
    exact ⟨List.nodup_nil, fun r _ => List.not_mem_nil⟩
  · exact Definition.nodup_leftHandSides (hwrites d hd)
  · exact Definition.nodup_definedNames_iff (hwrites d hd)
  · exact Definition.injOn_text (isSSA_of_compile? h d hd) ((Definition.nodup_definedNames_iff (hwrites d hd)).1 hnames).2

/-- A function with a parameter that is named like a register of the entry, and code that calls it. -/
def namedApart : Expression :=
  .sequence [.funcDecl "f" ⟨0, ["a", "r1"], .ret (.binary (.identifier "a") (.arithmetic .add) (.identifier "r1"))⟩,
    .call (.identifier "f") [.integer 1, .integer 2]]

/-- The function itself does not write that register, so that its names are distinct. -/
theorem nodup_definedNames_namedApart :
    ∃ m, namedApart.compile? .signed = .ok m ∧
      m.functions.map (fun d => (d.parameters, destinations d.body)) =
        [(["a", "r1"], [2, 3, 4, 5, 6, 7, 8, 9, 10, 11, 12, 13, 14, 15, 16, 17])] ∧
      ∀ d ∈ m.definitions, d.definedNames.Nodup ∧ Set.InjOn Operand.text {o | o ∈ d.operands} := by
  have h : ∃ m ∈ (namedApart.compile? .signed).toOption,
      m.functions.map (fun d => (d.parameters, destinations d.body)) =
        [(["a", "r1"], [2, 3, 4, 5, 6, 7, 8, 9, 10, 11, 12, 13, 14, 15, 16, 17])] ∧
      ∀ d ∈ m.definitions, d.parameters.Nodup ∧ ∀ r ∈ destinations d.body, registerName r ∉ d.parameters := by
    decide +kernel
  obtain ⟨m, hm, hfunctions, hnames⟩ := h
  have hok := ok_of_mem_toOption hm
  refine ⟨m, hok, hfunctions, fun d hd => ?_⟩
  obtain ⟨-, hiff, hinj⟩ := (nodup_definedNames_of_compile? hok).2 d hd
  exact ⟨hiff.2 (hnames d hd), hinj (hiff.2 (hnames d hd))⟩

/-- A function with two parameters of one name, and one with a parameter that is named like the last register of the function. -/
def clashing : List Expression := [.funcDecl "f" ⟨0, ["a", "a"], .void⟩, .funcDecl "f" ⟨0, ["a", "r6"], .void⟩]

/-- Each of them is lowered, and its text defines a name twice. -/
theorem clashing_compiles : clashing.Forall fun program =>
    ∃ m, program.compile? .unsigned = .ok m ∧ ∃ d ∈ m.functions, ¬d.definedNames.Nodup := by
  have h : ∀ program ∈ clashing, ∃ m ∈ (program.compile? .unsigned).toOption, ∃ d ∈ m.functions,
      ¬(d.parameters.Nodup ∧ ∀ r ∈ destinations d.body, registerName r ∉ d.parameters) := by
    decide +kernel
  refine List.forall_iff_forall_mem.2 fun program hprogram => ?_
  obtain ⟨m, hm, d, hd, hnames⟩ := h program hprogram
  have hok := ok_of_mem_toOption hm
  refine ⟨m, hok, d, hd, fun hnodup => hnames ?_⟩
  exact (Definition.nodup_definedNames_iff (nodup_destinations hok d (List.mem_append_left _ hd))).1 hnodup

end ExprLang
