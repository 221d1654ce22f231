import ExprLang.Expression.Reader
import ExprLang.Program
import ExprLang.Proofs.Expression.Spelling
import ExprLang.Proofs.Json.Records
import ExprLang.Proofs.Json.Writing
import Mathlib.Order.CompletePartialOrder

/-!
# Programs are read if they are spelled

The reader of expressions follows a table of forms. Each form reads what the spellings of its expressions say, so the reader reads an
expression exactly when a spelling of it stands at the front (`recognizes_reader`), by induction on the fuel; and a text is a program
exactly when it is a spelling of one with blanks around it.
-/

namespace ExprLang

open Json
open Json.Reader (Recognizes anything)

namespace Json.Reader

variable {α β : Type} {fuel : Nat} {follow : List Char → Prop} {r : Reader α} {spellings : α → Nat → Language Char}

/-- The spellings of what is made of values. -/
def made (spellings : α → Nat → Language Char) (f : α → β) (b : β) (n : Nat) : Language Char :=
  ⨆ a : {a // f a = b}, spellings a n

/-- A value is spelled as what it is made of. -/
theorem mem_made {f : α → β} {b : β} {n : Nat} {s : List Char} :
    s ∈ made spellings f b n ↔ ∃ a, f a = b ∧ s ∈ spellings a n := by
  rw [made, Language.mem_iSup, Subtype.exists]
  simp only [exists_prop]

/-- What a value is made of stands at the front. -/
theorem starts_made {f : α → β} {b : β} {n : Nat} {s rest : List Char} :
    Starts (made spellings f b n) s rest ↔ ∃ a, f a = b ∧ Starts (spellings a n) s rest := by
  simp only [Starts, mem_made]
  constructor
  · rintro ⟨t, ⟨a, ha, ht⟩, h⟩
    exact ⟨a, ha, t, ht, h⟩
  · rintro ⟨a, ha, t, ht, h⟩
    exact ⟨t, ⟨a, ha, ht⟩, h⟩

/-- A reader may make something of the values it recognizes. -/
theorem Recognizes.map (h : Recognizes fuel follow r spellings) (f : α → β) :
    Recognizes fuel follow (do return f (← r)) (made spellings f) := by
  refine ⟨fun b n t ht => ?_, fun {b n s rest} hs hr => ?_⟩
  · obtain ⟨a, -, ht⟩ := mem_made.1 ht
    exact h.opens a n t ht
  rw [bind_ok_iff, starts_made]
  constructor
  · rintro ⟨a, mid, ha, hb⟩
    obtain ⟨rfl, rfl⟩ := pure_ok_iff.1 hb
    exact ⟨a, rfl, (h.ok_iff hs hr).1 ha⟩
  · rintro ⟨a, rfl, ha⟩
    exact ⟨a, rest, (h.ok_iff hs hr).2 ha, rfl⟩

/-- The spellings may be given in another form. -/
theorem Recognizes.congr {spellings' : α → Nat → Language Char} (h : Recognizes fuel follow r spellings)
    (heq : ∀ a n, spellings a n = spellings' a n) : Recognizes fuel follow r spellings' :=
  (funext fun a => funext (heq a) : spellings = spellings') ▸ h

/-- A reader that is right for longer texts is right for shorter ones. -/
theorem Recognizes.of_succ (h : Recognizes (fuel + 1) follow r spellings) : Recognizes fuel follow r spellings :=
  ⟨h.opens, fun hs hr => h.ok_iff (Nat.lt_succ_of_lt hs) hr⟩

/-- Whatever a member holds is made of something. -/
theorem mem_variant_made {key : String} {f : α → β} {b : β} {n : Nat} {s : List Char} :
    s ∈ variant key (made spellings f b) n ↔ ∃ a, f a = b ∧ s ∈ variant key (spellings a) n := by
  cases n with
  | zero => exact ⟨fun h => (Language.notMem_zero _ h).elim, fun ⟨_, _, h⟩ => (Language.notMem_zero _ h).elim⟩
  | succ n =>
    simp only [variant, inside, object, enclosed, separated, member, made, Language.mul_iSup, Language.iSup_mul, Language.mem_iSup,
      Subtype.exists, exists_prop]

end Json.Reader

/-! ### Operators -/

/-- An operator is found under its name and under no other. -/
theorem Operator.lookup_eq_some {key : String} {op : Operator} :
    (Operator.all.map fun op => (op.name, op)).lookup key = some op ↔ key = op.name := by
  constructor
  · intro h
    obtain ⟨l₁, l₂, h, -⟩ := List.lookup_eq_some_iff.1 h
    have hmem : (key, op) ∈ Operator.all.map fun op => (op.name, op) := h ▸ List.mem_append_right _ List.mem_cons_self
    obtain ⟨op', -, h⟩ := List.mem_map.1 hmem
    obtain ⟨rfl, rfl⟩ := Prod.mk.inj h
    rfl
  · rintro rfl
    rcases op with (_ | _ | _ | _) | (_ | _ | _ | _ | _) | _ | _ | _ | _ <;> rfl

namespace Expression

variable {fuel : Nat}

/-- An operator is read as it is spelled. -/
theorem recognizes_operator : Recognizes (fuel + 1) anything readOperator Operator.spellings := by
  have hcontent (op : Operator) : Recognizes fuel EndsNumber (do Reader.unit; return op) (Reader.made (fun _ _ => null) fun _ => op) :=
    (Reader.recognizes_unit.mono fun _ _ => trivial).map fun _ => op
  refine (Recognizes.choice fun _ op _ => hcontent op).congr fun op n => ?_
  ext s
  rw [Operator.spellings, nameText, Language.mem_add]
  constructor
  · rintro ⟨key, op', hk, ⟨⟨⟩, hs⟩ | hs⟩
    · rw [← Operator.lookup_eq_some.1 hk]
      exact .inl hs
    · obtain ⟨_, rfl, hnull⟩ := Reader.mem_variant_made.1 hs
      rw [← Operator.lookup_eq_some.1 hk]
      exact .inr hnull
  · rintro (hs | hs)
    · exact ⟨op.name, op, Operator.lookup_eq_some.2 rfl, .inl ⟨rfl, hs⟩⟩
    · exact ⟨op.name, op, Operator.lookup_eq_some.2 rfl, .inr (Reader.mem_variant_made.2 ⟨(), rfl, hs⟩)⟩

/-! ### Parts -/

/-- The spellings of the parts of a function literal. -/
def LiteralPart.spellings (J : Expression → Nat → Language Char) : (part : LiteralPart) → part.Denotes → Nat → Language Char
  | .parameters, ps => arrayText fun _ => ps.map quoted
  | .body, e => J e

/-- The spellings of the fields of an object. -/
def fieldText (J : Expression → Nat → Language Char) (p : String × Expression) : Nat → Language Char :=
  arrayText fun n => [quoted p.1, J p.2 n]

/-- The spellings of a part. -/
def Part.spellings (J : Expression → Nat → Language Char) : (part : Part) → part.Denotes → Nat → Language Char
  | .integer, v => fun _ => Json.integer v
  | .float, x => fun _ => Json.float x
  | .boolean, b => fun _ => Json.boolean b
  | .text, s => fun _ => quoted s
  | .operator, op => op.spellings
  | .expression, e => J e
  | .optional, o => orNull J o
  | .expressions, es => arrayText fun n => es.map (J · n)
  | .fields, fs => arrayText fun n => fs.map (fieldText J · n)
  | .function, f => functionText f.identity f.parameters (J f.body)

variable {J : Expression → Nat → Language Char} {expression : Reader Expression}

/-- Both parts of a function literal are read as they are spelled. -/
theorem recognizes_literalPart (h : Recognizes fuel anything expression J) (part : LiteralPart) :
    Recognizes fuel EndsNumber (part.read fuel expression) (part.spellings J) := by
  cases part with
  | parameters => exact ((Reader.recognizes_text.mono fun _ _ => trivial).list).mono fun _ _ => trivial
  | body => exact h.mono fun _ _ => trivial

/-- A function literal is read as it is spelled, if expressions are. -/
theorem recognizes_function (h : Recognizes fuel anything expression J) :
    Recognizes fuel anything (readFunction fuel expression) fun f => functionText f.identity f.parameters (J f.body) := by
  have hrecord : Recognizes fuel anything
      (Reader.record fuel "struct FunctionLiteral" (LiteralPart.read fuel expression) (fun _ => none)
        [("parameters", .parameters), ("body", .body)]) _ := Recognizes.record (recognizes_literalPart h) (by decide)
  refine (hrecord.map fun row => (⟨0, row.1, row.2.1⟩ : FunctionLiteral)).congr fun f n => ?_
  obtain ⟨i, ps, e⟩ := f
  ext s
  simp only [Reader.mem_made, functionText]
  constructor
  · rintro ⟨⟨ps, e, u⟩, hf, hs⟩
    cases hf
    rw [if_pos rfl]
    simp only [Row.fields, fieldOf_required] at hs
    exact hs
  · intro hs
    split_ifs at hs with hi
    · refine ⟨(ps, e, ()), by rw [hi], ?_⟩
      simp only [Row.fields, fieldOf_required]
      exact hs
    · exact (Language.notMem_zero _ hs).elim

/-- Every part is read as it is spelled, if expressions are. -/
theorem recognizes_part (h : Recognizes fuel anything expression J) (hn : ∀ e n, Opens (fun c => c ≠ 'n') (J e n)) (part : Part) :
    Recognizes fuel EndsNumber (part.read fuel expression) (part.spellings J) := by
  cases part with
  | integer => exact Reader.recognizes_int32
  | float => exact Reader.recognizes_float32
  | boolean => exact Reader.recognizes_boolean.mono fun _ _ => trivial
  | text => exact Reader.recognizes_text.mono fun _ _ => trivial
  | operator => exact recognizes_operator.of_succ.mono fun _ _ => trivial
  | expression => exact h.mono fun _ _ => trivial
  | optional => exact (h.optional hn).mono fun _ _ => trivial
  | expressions => exact (h.mono fun _ _ => trivial).list.mono fun _ _ => trivial
  | fields =>
    have hvalue : Recognizes fuel EndsNumber expression J := h.mono fun _ _ => trivial
    have hpair := (Reader.recognizes_text.mono fun _ _ => trivial).pair hvalue
    exact (hpair.mono fun _ _ => trivial).list.mono fun _ _ => trivial
  | function => exact (recognizes_function h).mono fun _ _ => trivial

/-! ### Forms -/

/-- The spellings of what an expression of a form holds. -/
def Form.spellings (J : Expression → Nat → Language Char) : String × Form → Expression → Nat → Language Char
  | (_, .bare value) => Reader.made (fun _ _ => null) fun (_ : Unit) => value
  | (_, .record parts make) => Reader.made (fun row => Json.record fun n => Row.fields Part.absent (Part.spellings J) n parts row) make

/-- A form is found under its own name. -/
theorem mem_forms_of_lookup {key : String} {form : String × Form} (h : (forms.map fun form => (form.1, form)).lookup key = some form) :
    form ∈ forms ∧ key = form.1 := by
  obtain ⟨l₁, l₂, h, -⟩ := List.lookup_eq_some_iff.1 h
  have hmem : (key, form) ∈ forms.map fun form => (form.1, form) := h ▸ List.mem_append_right _ List.mem_cons_self
  obtain ⟨form', hform, h⟩ := List.mem_map.1 hmem
  obtain ⟨rfl, rfl⟩ := Prod.mk.inj h
  exact ⟨hform, rfl⟩

/-- The names of the parts of a form. -/
def Form.names : Form → List String
  | .bare _ => []
  | .record parts _ => parts.map Prod.fst

theorem nodup_names : ∀ form ∈ forms, form.2.names.Nodup := by decide

/-- Every form of the table is read as it is spelled, if expressions are. -/
theorem recognizes_form (h : Recognizes fuel anything expression J) (hn : ∀ e n, Opens (fun c => c ≠ 'n') (J e n))
    {form : String × Form} (hform : form ∈ forms) :
    Recognizes fuel EndsNumber (Form.read fuel expression form) (Form.spellings J form) := by
  obtain ⟨name, value | ⟨parts, make⟩⟩ := form
  · exact (Reader.recognizes_unit.mono fun _ _ => trivial).map fun _ => value
  · have hrecord : Recognizes fuel EndsNumber
        (Reader.record fuel ("struct variant Expression::" ++ name) (Part.read fuel expression) Part.absent parts) _ :=
      (Recognizes.record (recognizes_part h hn) (nodup_names _ hform)).mono fun _ _ => trivial
    exact hrecord.map make

/-- A form without parts is spelled as nothing behind its name. -/
theorem mem_bare_form {key name : String} {value e : Expression} {n : Nat} {s : List Char} :
    s ∈ variant key (Form.spellings J (name, .bare value) e) n ↔ value = e ∧ s ∈ variant key (fun _ => null) n := by
  rw [show Form.spellings J (name, .bare value) = Reader.made (fun _ _ => null) fun (_ : Unit) => value from rfl,
    Reader.mem_variant_made]
  exact ⟨fun ⟨_, h⟩ => h, fun h => ⟨(), h⟩⟩

/-- A form with parts is spelled as the record of them. -/
theorem mem_record_form {key name : String} {parts : List (String × Part)} {make : Row Part.Denotes parts → Expression} {e : Expression}
    {n : Nat} {s : List Char} : s ∈ variant key (Form.spellings J (name, .record parts make) e) n ↔
      ∃ row, make row = e ∧ s ∈ partsText key (fun n => Row.fields Part.absent (Part.spellings J) n parts row) n := by
  rw [show Form.spellings J (name, .record parts make) =
    Reader.made (fun row => Json.record fun n => Row.fields Part.absent (Part.spellings J) n parts row) make from rfl,
    Reader.mem_variant_made]
  rfl

theorem map_spellings (as : List Expression) (n : Nat) : as.map (spellings · n) = spellingsList as n := by
  induction as with
  | nil => rfl
  | cons a as ih => rw [List.map_cons, ih, spellingsList]

theorem map_fieldText (fs : List (String × Expression)) (n : Nat) : fs.map (fieldText spellings · n) = spellingsFields fs n := by
  induction fs with
  | nil => rfl
  | cons p fs ih => rw [List.map_cons, ih, spellingsFields, fieldText]

/-- A list of expressions is spelled as their spellings in an array. -/
theorem Part.spellings_expressions (as : List Expression) :
    Part.spellings Expression.spellings .expressions as = arrayText (spellingsList as) := by
  simp only [Part.spellings, map_spellings]

/-- The fields of an object are spelled as pairs in an array. -/
theorem Part.spellings_fields (fs : List (String × Expression)) :
    Part.spellings Expression.spellings .fields fs = arrayText (spellingsFields fs) := by
  simp only [Part.spellings, map_fieldText]

/-- The expressions of a form are spelled as the form says. -/
def Form.IsSpelled : String × Form → Prop
  | (name, .bare value) => value.spellings = nameText name
  | (name, .record parts make) => ∀ row : Row Part.Denotes parts,
    (make row).spellings = partsText name fun n => Row.fields Part.absent (Part.spellings Expression.spellings) n parts row

/-- Only a part that may be left out may be missing. -/
theorem fieldOf_part {part : Part} (h : part ≠ .optional) (spell : (part : Part) → part.Denotes → Nat → Language Char) (n : Nat)
    (name : String) (value : part.Denotes) : fieldOf Part.absent spell n name part value = .required name (spell part value n) :=
  fieldOf_required (by cases part <;> first | rfl | exact absurd rfl h)

section Spelled

variable {name field₁ field₂ field₃ : String} {part₁ part₂ part₃ : Part}

/-- A form of one part that has to be there. -/
theorem isSpelled_one {make : part₁.Denotes → Expression} (h₁ : part₁ ≠ .optional)
    (h : ∀ v, (make v).spellings = partsText name fun n => [.required field₁ (part₁.spellings spellings v n)]) :
    Form.IsSpelled (name, .record [(field₁, part₁)] fun (v, ()) => make v) := by
  rintro ⟨v, ⟨⟩⟩
  simp only [Row.fields, fieldOf_part h₁]
  exact h v

/-- A form of two parts that have to be there. -/
theorem isSpelled_two {make : part₁.Denotes → part₂.Denotes → Expression} (h₁ : part₁ ≠ .optional) (h₂ : part₂ ≠ .optional)
    (h : ∀ v w, (make v w).spellings = partsText name fun n =>
      [.required field₁ (part₁.spellings spellings v n), .required field₂ (part₂.spellings spellings w n)]) :
    Form.IsSpelled (name, .record [(field₁, part₁), (field₂, part₂)] fun (v, w, ()) => make v w) := by
  rintro ⟨v, w, ⟨⟩⟩
  simp only [Row.fields, fieldOf_part h₁, fieldOf_part h₂]
  exact h v w

/-- A form of three parts that have to be there. -/
theorem isSpelled_three {make : part₁.Denotes → part₂.Denotes → part₃.Denotes → Expression} (h₁ : part₁ ≠ .optional)
    (h₂ : part₂ ≠ .optional) (h₃ : part₃ ≠ .optional)
    (h : ∀ v w u, (make v w u).spellings = partsText name fun n => [.required field₁ (part₁.spellings spellings v n),
      .required field₂ (part₂.spellings spellings w n), .required field₃ (part₃.spellings spellings u n)]) :
    Form.IsSpelled (name, .record [(field₁, part₁), (field₂, part₂), (field₃, part₃)] fun (v, w, u, ()) => make v w u) := by
  rintro ⟨v, w, u, ⟨⟩⟩
  simp only [Row.fields, fieldOf_part h₁, fieldOf_part h₂, fieldOf_part h₃]
  exact h v w u

end Spelled

/-- Each form of the table spells its expressions as the grammar does. -/
theorem isSpelled_of_mem : ∀ form ∈ forms, Form.IsSpelled form := by
  simp only [forms, List.forall_mem_cons]
  refine ⟨?integer, ?float, ?boolean, ?string, ?identifier, ?void, ?varDecl, ?funcDecl, ?function, ?closure, ?scope, ?sequence, ?not,
    ?binary, ?assign, ?call, ?conditional, ?loop, ?ret, ?print, ?isType, ?stringLength, ?substring, ?object, ?field, nofun⟩
  case integer | float | boolean | string | identifier | varDecl | function | closure | scope | not | ret | print | stringLength =>
    exact isSpelled_one (by decide) fun _ => rfl
  case funcDecl | assign | loop | isType | field => exact isSpelled_two (by decide) (by decide) fun _ _ => rfl
  case binary | substring => exact isSpelled_three (by decide) (by decide) (by decide) fun _ _ _ => rfl
  case void => rfl
  case sequence => exact isSpelled_one (by decide) fun as => by rw [Part.spellings_expressions, Expression.spellings]
  case call => exact isSpelled_two (by decide) (by decide) fun f as => by rw [Part.spellings_expressions, Expression.spellings]; rfl
  case object => exact isSpelled_one (by decide) fun fs => by rw [Part.spellings_fields, Expression.spellings]
  case conditional =>
    rintro ⟨a, b, c, ⟨⟩⟩
    simp only [Row.fields, fieldOf_part (show Part.expression ≠ .optional by decide)]
    -- Only the alternative may be missing, and only where there is none.
    cases c with
    | none =>
      have hmissing (n : Nat) : fieldOf Part.absent (Part.spellings spellings) n "alternative" .optional none =
          ⟨"alternative", True, null⟩ := by
        simp only [fieldOf, Part.absent, Part.spellings, orNull]
      simp only [hmissing]
      rfl
    | some c =>
      have hthere (n : Nat) : fieldOf Part.absent (Part.spellings spellings) n "alternative" .optional (some c) =
          .required "alternative" (spellings c n) := by
        simp only [fieldOf, Part.absent, Part.spellings, orNull, Field.required, Option.some.injEq, reduceCtorEq]
      simp only [hthere]
      rfl

/-- The form makes the expression. -/
def Form.Makes (e : Expression) : Form → Prop
  | .bare value => value = e
  | .record _ make => ∃ row, make row = e

/-- Each expression has a form in the table. -/
theorem exists_form (e : Expression) :
    ∃ name form, (forms.map fun form => (form.1, form)).lookup name = some (name, form) ∧ form.Makes e := by
  cases e with
  | integer v => exact ⟨"Integer", _, rfl, (v, ()), rfl⟩
  | float x => exact ⟨"Float", _, rfl, (x, ()), rfl⟩
  | boolean b => exact ⟨"Boolean", _, rfl, (b, ()), rfl⟩
  | string s => exact ⟨"String", _, rfl, (s, ()), rfl⟩
  | identifier name => exact ⟨"Identifier", _, rfl, (name, ()), rfl⟩
  | void => exact ⟨"Void", _, rfl, rfl⟩
  | varDecl name => exact ⟨"VarDecl", _, rfl, (name, ()), rfl⟩
  | funcDecl name f => exact ⟨"FuncDecl", _, rfl, (name, f, ()), rfl⟩
  | function f => exact ⟨"Function", _, rfl, (f, ()), rfl⟩
  | closure f => exact ⟨"Closure", _, rfl, (f, ()), rfl⟩
  | scope a => exact ⟨"Scope", _, rfl, (a, ()), rfl⟩
  | sequence as => exact ⟨"Sequence", _, rfl, (as, ()), rfl⟩
  | not a => exact ⟨"Not", _, rfl, (a, ()), rfl⟩
  | binary a op b => exact ⟨"Infix", _, rfl, (a, op, b, ()), rfl⟩
  | assign a b => exact ⟨"Assign", _, rfl, (a, b, ()), rfl⟩
  | call f as => exact ⟨"Call", _, rfl, (f, as, ()), rfl⟩
  | conditional a b c => exact ⟨"If", _, rfl, (a, b, c, ()), rfl⟩
  | loop a b => exact ⟨"While", _, rfl, (a, b, ()), rfl⟩
  | ret a => exact ⟨"Return", _, rfl, (a, ()), rfl⟩
  | print a => exact ⟨"Print", _, rfl, (a, ()), rfl⟩
  | isType a name => exact ⟨"IsType", _, rfl, (a, name, ()), rfl⟩
  | stringLength a => exact ⟨"StringLength", _, rfl, (a, ()), rfl⟩
  | substring a b c => exact ⟨"Substring", _, rfl, (a, b, c, ()), rfl⟩
  | object fs => exact ⟨"Object", _, rfl, (fs, ()), rfl⟩
  | field a name => exact ⟨"Field", _, rfl, (a, name, ()), rfl⟩

/-- What the choice among the forms reads as an expression is what is spelled as it. -/
theorem choiceText_forms (e : Expression) (n : Nat) :
    Reader.choiceText (forms.map fun form => (form.1, form)) Form.ofBareName (Form.spellings spellings) e n = e.spellings n := by
  ext s
  constructor
  · rintro ⟨key, ⟨name, form⟩, hkey, hs⟩
    -- whatever the table reads is of one of its forms
    obtain ⟨hform, rfl⟩ := mem_forms_of_lookup hkey
    have hspelled := isSpelled_of_mem _ hform
    cases form with
    | bare value =>
      rw [mem_bare_form] at hs
      rcases hs with ⟨hbare, hname⟩ | ⟨hvalue, hobject⟩
      · rw [← Except.ok.inj hbare, show value.spellings = nameText key from hspelled]
        exact .inl hname
      · rw [← hvalue, show value.spellings = nameText key from hspelled]
        exact .inr hobject
    | record parts make =>
      rcases hs with ⟨hbare, -⟩ | hobject
      · exact nomatch hbare
      · obtain ⟨row, hmake, hrow⟩ := mem_record_form.1 hobject
        rw [← hmake, (hspelled : Form.IsSpelled (key, .record parts make)) row]
        exact hrow
  · intro hs
    -- and every expression is made by one of them
    obtain ⟨name, form, hkey, hmakes⟩ := exists_form e
    have hspelled := isSpelled_of_mem _ (mem_forms_of_lookup hkey).1
    refine ⟨name, _, hkey, ?_⟩
    cases form with
    | bare value =>
      rw [← show value = e from hmakes, show value.spellings = nameText name from hspelled] at hs
      rcases hs with hs | hs
      · exact .inl ⟨congrArg Except.ok hmakes, hs⟩
      · exact .inr (mem_bare_form.2 ⟨hmakes, hs⟩)
    | record parts make =>
      obtain ⟨row, rfl⟩ := hmakes
      rw [(hspelled : Form.IsSpelled (name, .record parts make)) row] at hs
      exact .inr (mem_record_form.2 ⟨row, rfl, hs⟩)

/-- An expression starts with a quote or with a brace. -/
theorem opens_spellings (e : Expression) (n : Nat) : Opens (fun c => c = '"' ∨ c = '{') (e.spellings n) := by
  rw [← choiceText_forms]
  exact Reader.opens_choiceText

/-- The reader of expressions reads what is spelled. -/
theorem recognizes_reader : ∀ fuel, Recognizes fuel anything (reader fuel) spellings
  | 0 =>
    { opens := fun e n => (opens_spellings e n).mono fun _ => Reader.startsPiece_quote_or_brace
      ok_iff := nofun }
  | fuel + 1 => by
    have hn (e : Expression) (n : Nat) : Opens (fun c => c ≠ 'n') (e.spellings n) :=
      (opens_spellings e n).mono fun c hc => by rcases hc with rfl | rfl <;> decide
    have hforms : Recognizes (fuel + 1) anything (reader (fuel + 1)) _ := Recognizes.choice fun key form hkey =>
      recognizes_form (recognizes_reader fuel) hn (mem_forms_of_lookup hkey).1
    exact hforms.congr choiceText_forms

/-- A text is read as an expression if it is a spelling of it with blanks around it. -/
theorem parse_eq_ok_iff {s : String} {e : Expression} : parse s = .ok e ↔ s.toList ∈ blanks * e.spellings maxDepth * blanks :=
  (recognizes_reader _).run_eq_ok_iff (Nat.lt_succ_self _)

/-- Loading succeeds where reading does. -/
theorem load_eq_ok_iff_parse {s : String} {e : Expression} : load s = .ok e ↔ parse s = .ok e := by
  rw [load]
  cases parse s with
  | ok a => simp only [Except.mapError, Except.ok.injEq]
  | error m => simp only [Except.mapError, reduceCtorEq]

/-- A text is a program exactly when it is a spelling of it, with blanks around it. The grammar says exactly which literals spell floats;
by their values, those up to `(1 - 2⁻⁵⁰) · 2¹⁰²⁴` do, those from `(1 + 2⁻⁵⁰) · 2¹⁰²⁴` on do not, and a float is nearest to a number that
differs from the value of its literal by at most `2⁻⁵⁰` of it and the least double. -/
theorem load_eq_ok_iff_spelled :
    (∀ (s : String) (e : Expression), load s = .ok e ↔ s.toList ∈ blanks * e.spellings maxDepth * blanks) ∧
    (∀ (l : Number.Literal) (s : List Char), s ∈ literal l → l.value ≤ (1 - 2 ^ (-50 : ℤ)) * 2 ^ 1024 → ∃ x, s ∈ Json.float x) ∧
    (∀ (x : Float32) (s : List Char), s ∈ Json.float x → ∃ (l : Number.Literal) (q : ℚ), s ∈ literal l ∧
      Number.IsNearest l.negative q x ∧ l.value < (1 + 2 ^ (-50 : ℤ)) * 2 ^ 1024 ∧
      |q - l.value| ≤ 2 ^ (-50 : ℤ) * l.value + 2 ^ (-1074 : ℤ)) := by
  refine ⟨fun s e => ?_, fun l s hs hle => ?_, fun x s hs => ?_⟩
  · rw [load_eq_ok_iff_parse, parse_eq_ok_iff]
  · exact exists_mem_float hs hle
  · exact accurate_of_mem_float hs

/-! ### Floats by the values of their literals -/

/-- The infinite float. -/
def infinite : Float32 := Number.float32OfBits false 0x7F800000

/-- Whether what was read is the infinite float. -/
def isInfinite : Except LoadError Expression → Bool
  | .ok (.float x) => x = infinite
  | _ => false

/-- The test for the infinite float accepts nothing else. -/
theorem eq_infinite_of_isInfinite {r : Except LoadError Expression} (h : isInfinite r = true) : r = .ok (.float infinite) := by
  unfold isInfinite at h
  split at h
  · rw [of_decide_eq_true h]
  · cases h

/-- A number that is too large for a float, but not for a double. -/
def large : Number.Literal := ⟨false, [1], none, some 308⟩

/-- The text is a spelling of the literal. -/
theorem mem_literal_large : "1e308".toList ∈ literal large := by
  have hwhole : ['1'] ∈ wholeDigits [1] := ⟨mem_digits (by decide) rfl rfl, by decide⟩
  have hfraction : [] ∈ fraction none := rfl
  have hexponent : ['3', '0', '8'] ∈ digits [3, 0, 8] := mem_digits (by decide) rfl rfl
  exact mem_literal_positive hwhole hfraction (mem_exponent_positive hexponent)

/-- The number spells a float, and it is infinity that the program with it is read as. -/
theorem load_eq_ok_iff_spelled_large :
    (∃ x, "1e308".toList ∈ Json.float x) ∧
      "\x7b\"Float\": [1e308]\x7d".toList ∈ blanks * (Expression.float infinite).spellings maxDepth * blanks := by
  have hload : load "\x7b\"Float\": [1e308]\x7d" = .ok (.float infinite) := eq_infinite_of_isInfinite (by decide +kernel)
  have hvalue : large.value ≤ (1 - 2 ^ (-50 : ℤ)) * 2 ^ 1024 := by
    have hpower : (10 : ℚ) ^ (308 : ℤ) = 10 ^ 308 := zpow_natCast 10 308
    have hle : 10 ^ 308 ≤ 2 ^ 1022 * 3 := by decide +kernel
    have hroom : (3 : ℚ) ≤ (1 - 2 ^ (-50 : ℤ)) * 2 ^ 2 := by norm_num
    calc large.value = 1 * 10 ^ (308 : ℤ) := rfl
      _ = 10 ^ 308 := by rw [one_mul, hpower]
      _ ≤ 2 ^ 1022 * 3 := by exact_mod_cast hle
      _ ≤ 2 ^ 1022 * ((1 - 2 ^ (-50 : ℤ)) * 2 ^ 2) := mul_le_mul_of_nonneg_left hroom (pow_nonneg zero_le_two 1022)
      _ = (1 - 2 ^ (-50 : ℤ)) * 2 ^ 1024 := by rw [mul_left_comm, ← pow_add]
  exact ⟨load_eq_ok_iff_spelled.2.1 large _ mem_literal_large hvalue, (load_eq_ok_iff_spelled.1 _ _).1 hload⟩

/-- The spellings of a float if only values mattered: every literal that is not beyond the greatest double, and to which the float is
nearest. -/
def floatByValue (x : Float32) : Language Char :=
  {s | ∃ l, s ∈ literal l ∧ l.value ≤ (2 ^ 53 - 1) * 2 ^ 971 ∧ Number.IsNearest l.negative l.value x}

/-- A number just below the greatest double. -/
def greatest : Number.Literal := ⟨false, [1], some [7, 9, 7, 6, 9, 3, 1, 3, 4, 8, 6, 2, 3, 1, 5, 7, 0, 8], some 308⟩

/-- The text is a spelling of the literal, with all its digits behind the point. -/
theorem mem_literal_greatest : "1.797693134862315708e308".toList ∈ literal greatest := by
  have hwhole : ['1'] ∈ wholeDigits [1] := ⟨mem_digits (by decide) rfl rfl, by decide⟩
  have hdigits : "797693134862315708".toList ∈ digits [7, 9, 7, 6, 9, 3, 1, 3, 4, 8, 6, 2, 3, 1, 5, 7, 0, 8] :=
    mem_digits (by decide) rfl rfl
  have hfraction : '.' :: "797693134862315708".toList ∈ fraction greatest.fraction := ⟨['.'], rfl, _, hdigits, rfl⟩
  have hexponent : ['3', '0', '8'] ∈ digits [3, 0, 8] := mem_digits (by decide) rfl rfl
  exact mem_literal_positive hwhole hfraction (mem_exponent_positive hexponent)

/-- The value of the literal is the whole number that its digits make after the point is moved. -/
theorem value_greatest : greatest.value = (Number.Fraction.ofNat (1797693134862315708 * 10 ^ 290)).toRat := by
  have hpower : (10 : ℚ) ^ (290 : ℤ) = 10 ^ 290 := zpow_natCast 10 290
  calc greatest.value = (1797693134862315708 : ℕ) * 10 ^ (290 : ℤ) := rfl
    _ = (1797693134862315708 * 10 ^ 290 : ℕ) := by rw [hpower, Nat.cast_mul, Nat.cast_pow, Nat.cast_ofNat, Nat.cast_ofNat]
    _ = (Number.Fraction.ofNat (1797693134862315708 * 10 ^ 290)).toRat := (Number.Fraction.toRat_ofNat _).symm

/-- The significand of this number is rounded up, so its product with the power of ten is too large, while the number is not. -/
theorem load_ne_ok_of_floatByValue :
    "\x7b\"Float\":[1.797693134862315708e308]\x7d".toList ∈
      blanks * partsText "Float" (fun _ => [.required "value" (floatByValue infinite)]) maxDepth * blanks ∧
    ∀ e, load "\x7b\"Float\":[1.797693134862315708e308]\x7d" ≠ .ok e := by
  constructor
  · have hvalue : "1.797693134862315708e308".toList ∈ floatByValue infinite := by
      have hle : 1797693134862315708 * 10 ^ 290 ≤ 9007199254740991 * 2 ^ 971 := by decide +kernel
      have hbound : (2 : ℚ) ^ 53 - 1 = 9007199254740991 := by norm_num
      have hnearest : Number.BinaryFormat.binary32.nearest (.ofNat (1797693134862315708 * 10 ^ 290)) = 0x7F800000 := by decide +kernel
      refine ⟨greatest, mem_literal_greatest, ?_, ?_⟩
      · rw [value_greatest, Number.Fraction.toRat_ofNat, hbound]
        exact_mod_cast hle
      · rw [value_greatest, Number.isNearest_iff one_pos, hnearest]
        rfl
    have hname : "\"Float\"".toList ∈ quoted "Float" := stringChars_mem_quoted "Float"
    have hrecord : "[1.797693134862315708e308]".toList ∈
        record (fun _ => [.required "value" (floatByValue infinite)]) (maxDepth - 1) := .inl (mem_enclosed_singleton hvalue)
    have hvariant : "\x7b\"Float\":[1.797693134862315708e308]\x7d".toList ∈
        partsText "Float" (fun _ => [.required "value" (floatByValue infinite)]) maxDepth :=
      mem_enclosed_singleton (mem_member hname hrecord)
    exact ⟨_, ⟨[], nil_mem_blanks, _, hvariant, rfl⟩, [], nil_mem_blanks, List.append_nil _⟩
  · intro e he
    have hrefused : (load "\x7b\"Float\":[1.797693134862315708e308]\x7d").toBool = false := by decide +kernel
    rw [he] at hrefused
    exact absurd hrefused Bool.true_eq_false.mp

end Expression

end ExprLang
