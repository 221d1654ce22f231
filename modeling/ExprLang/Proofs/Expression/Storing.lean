import ExprLang.Expression.Document
import ExprLang.Proofs.Expression.Reading
import ExprLang.Proofs.Json.Nesting

/-!
# Stored programs are read back

What is stored of a program that was read is read as the same program, unless one of its floats is infinite: such a float is written
as nothing, and the document is refused. The stored document is never deeper than the text that was read.
-/

namespace ExprLang.Expression

open Json
open Json.Reader (Restores)

/-! ### Parts -/

mutual

/-- The floats in an expression. -/
def floats : Expression → List Float32
  | .integer _ => []
  | .float x => [x]
  | .boolean _ => []
  | .string _ => []
  | .identifier _ => []
  | .void => []
  | .varDecl _ => []
  | .funcDecl _ ⟨_, _, e⟩ => floats e
  | .function ⟨_, _, e⟩ => floats e
  | .closure ⟨_, _, e⟩ => floats e
  | .scope a => floats a
  | .sequence as => floatsList as
  | .not a => floats a
  | .binary a _ b => floats a ++ floats b
  | .assign a b => floats a ++ floats b
  | .call f as => floats f ++ floatsList as
  | .conditional a b none => floats a ++ floats b
  | .conditional a b (some c) => floats a ++ (floats b ++ floats c)
  | .loop a b => floats a ++ floats b
  | .ret a => floats a
  | .print a => floats a
  | .isType a _ => floats a
  | .stringLength a => floats a
  | .substring a b c => floats a ++ (floats b ++ floats c)
  | .object fs => floatsFields fs
  | .field a _ => floats a
termination_by structural e => e

/-- The floats in expressions. -/
def floatsList : List Expression → List Float32
  | [] => []
  | a :: as => floats a ++ floatsList as
termination_by structural as => as

/-- The floats in the values of fields. -/
def floatsFields : List (String × Expression) → List Float32
  | [] => []
  | (_, a) :: fs => floats a ++ floatsFields fs
termination_by structural fs => fs

end

theorem floatsList_eq_flatMap (as : List Expression) : floatsList as = as.flatMap floats := by
  induction as with
  | nil => rfl
  | cons a as ih => rw [floatsList, ih, List.flatMap_cons]

theorem floatsFields_eq_flatMap (fs : List (String × Expression)) : floatsFields fs = fs.flatMap fun p => floats p.2 := by
  induction fs with
  | nil => rfl
  | cons p fs ih => rw [floatsFields, ih, List.flatMap_cons]

theorem documentList_eq_map (as : List Expression) : documentList as = as.map document := by
  induction as with
  | nil => rfl
  | cons a as ih => rw [documentList, ih, List.map_cons]

/-- The document of a field. -/
def fieldDocument (p : String × Expression) : Document := .array [.string p.1, p.2.document]

theorem documentFields_eq_map (fs : List (String × Expression)) : documentFields fs = fs.map fieldDocument := by
  induction fs with
  | nil => rfl
  | cons p fs ih => rw [documentFields, ih, List.map_cons, fieldDocument]

/-- The document of a part of a function literal. -/
def LiteralPart.document : (part : LiteralPart) → part.Denotes → Document
  | .parameters, ps => nameList ps
  | .body, e => e.document

/-- The floats in a part of a function literal. -/
def LiteralPart.floats : (part : LiteralPart) → part.Denotes → List Float32
  | .parameters, _ => []
  | .body, e => e.floats

/-- The document of a part. -/
def Part.document : (part : Part) → part.Denotes → Document
  | .integer, v => .integer v.toInt
  | .float, x => .float x
  | .boolean, b => .boolean b
  | .text, s => .string s
  | .operator, op => .string op.name
  | .expression, e => e.document
  | .optional, none => .null
  | .optional, some e => e.document
  | .expressions, as => .array (documentList as)
  | .fields, fs => .array (documentFields fs)
  | .function, f => .object [("parameters", nameList f.parameters), ("body", f.body.document)]

/-- The floats in a part. -/
def Part.floats : (part : Part) → part.Denotes → List Float32
  | .float, x => [x]
  | .expression, e => e.floats
  | .optional, some e => e.floats
  | .expressions, as => floatsList as
  | .fields, fs => floatsFields fs
  | .function, f => f.body.floats
  | _, _ => []

/-- An expression of a form is stored under the name of the form with the documents of its parts. -/
def Form.IsStored : String × Form → Prop
  | (name, .bare value) => value.document = .string name ∧ value.floats = []
  | (name, .record parts make) => ∀ row : Row Part.Denotes parts,
    (make row).document = tagged name (Row.documents Part.document parts row) ∧ (make row).floats = Row.collect Part.floats parts row

/-- Each form of the table stores its expressions as the writer does. -/
theorem isStored_of_mem : ∀ form ∈ forms, Form.IsStored form := by
  simp only [forms, List.forall_mem_cons]
  refine ⟨?integer, ?float, ?boolean, ?string, ?identifier, ?void, ?varDecl, ?funcDecl, ?function, ?closure, ?scope, ?sequence, ?not,
    ?binary, ?assign, ?call, ?conditional, ?loop, ?ret, ?print, ?isType, ?stringLength, ?substring, ?object, ?field, List.forall_mem_nil _⟩
  case integer | float | boolean | string | identifier | varDecl | function | closure | scope | not | ret | print | stringLength |
      sequence | object =>
    rintro ⟨v, ⟨⟩⟩
    exact ⟨rfl, (List.append_nil (Part.floats _ v)).symm⟩
  case isType | field =>
    rintro ⟨v, w, ⟨⟩⟩
    exact ⟨rfl, (List.append_nil (floats v)).symm⟩
  case funcDecl | assign | loop | call =>
    rintro ⟨v, w, ⟨⟩⟩
    exact ⟨rfl, congrArg (Part.floats _ v ++ ·) (List.append_nil (Part.floats _ w)).symm⟩
  case binary | substring =>
    rintro ⟨v, w, u, ⟨⟩⟩
    exact ⟨rfl, congrArg (fun xs => Part.floats _ v ++ (Part.floats _ w ++ xs)) (List.append_nil (Part.floats _ u)).symm⟩
  case void => exact ⟨rfl, rfl⟩
  case conditional =>
    rintro ⟨a, b, c, ⟨⟩⟩
    cases c with
    | none => exact ⟨rfl, congrArg (floats a ++ ·) (List.append_nil (floats b)).symm⟩
    | some c => exact ⟨rfl, congrArg (fun xs => floats a ++ (floats b ++ xs)) (List.append_nil (floats c)).symm⟩

/-! ### Reading back -/

variable {fuel n : Nat} {e : Expression}

/-- What an expression is made of has spellings two brackets further in. -/
theorem spellable_parts {name : String} {parts : List (String × Part)} {make : Row Part.Denotes parts → Expression}
    (h : (name, Form.record parts make) ∈ forms) {row : Row Part.Denotes parts} (hs : Spellable ((make row).spellings n)) :
    ∃ k, n = k + 2 ∧ Row.All (fun part v => Spellable (Part.spellings spellings part v k)) parts row := by
  rw [(isSpelled_of_mem _ h : Form.IsSpelled (name, .record parts make)) row] at hs
  obtain ⟨m, rfl, hrecord⟩ := Spellable.variant hs
  obtain ⟨k, rfl, hfields⟩ := Spellable.record hrecord
  refine ⟨k, rfl, Row.all_spellable (fun part v habsent => ?_) hfields⟩
  cases part with
  | optional =>
    cases habsent
    exact ⟨_, rfl⟩
  | _ => cases habsent

/-- A document of an expression starts with a quote or a brace. -/
theorem exists_chars_document (e : Expression) (level : Nat) :
    ∃ c t, e.document.chars level = c :: t ∧ (c = '"' ∨ c = '{') := by
  obtain ⟨name, form, hkey, hmakes⟩ := exists_form e
  have hstored := isStored_of_mem _ (mem_forms_of_lookup hkey).1
  cases form with
  | bare value =>
    rw [← show value = e from hmakes, hstored.1]
    exact ⟨'"', _, rfl, .inl rfl⟩
  | record parts make =>
    obtain ⟨row, hmake⟩ := hmakes
    rw [← hmake, (hstored row).1]
    exact ⟨'{', _, rfl, .inr rfl⟩

/-- What is written of the finite ones among floats stands for them. -/
def Written (xs : List Float32) : Prop := ∀ x ∈ xs, x.isFinite = true → Document.floatChars x ∈ Json.float x

/-- None of the floats is infinite. -/
def Bounded (xs : List Float32) : Prop := ∀ x ∈ xs, x.isInf = false

/-- The reader gives expressions back that have spellings. -/
def RestoresSpelled (fuel : Nat) (expression : Reader Expression) : Prop :=
  ∀ e n, Spellable (e.spellings n) → Written e.floats → Restores fuel expression n (Bounded e.floats) e e.document

section Parts

variable {expression : Reader Expression}

theorem bounded_nil : True ↔ Bounded [] := iff_of_true trivial (List.forall_mem_nil _)

theorem restores_text (s : String) : Restores fuel Reader.text n True s (.string s) :=
  (Reader.recognizes_text.mono fun _ _ => trivial).restores fun _ => stringChars_mem_quoted s

/-- Both parts of a function literal are read again. -/
theorem restores_literalPart (h : RestoresSpelled fuel expression) (part : LiteralPart) (v : part.Denotes)
    (hs : Spellable (part.spellings spellings v n)) (hw : Written (part.floats v)) :
    Restores fuel (part.read fuel expression) n (Bounded (part.floats v)) v (part.document v) := by
  cases part with
  | parameters =>
    obtain ⟨k, rfl, -⟩ := spellable_inside hs
    have hnames : True ↔ ∀ p ∈ v, True := iff_of_true trivial fun _ _ => trivial
    exact (Restores.list fun p _ => restores_text p).congr (hnames.symm.trans bounded_nil)
  | body => exact h v n hs hw

/-- A function literal is read again if its body is. -/
theorem restores_function (h : RestoresSpelled fuel expression) {f : FunctionLiteral}
    (hs : Spellable (functionText f.identity f.parameters (spellings f.body) n)) (hw : Written f.body.floats) :
    Restores fuel (readFunction fuel expression) n (Bounded f.body.floats) f
      (.object [("parameters", nameList f.parameters), ("body", f.body.document)]) := by
  obtain ⟨identity, ps, e⟩ := f
  rw [functionText] at hs
  split_ifs at hs with hidentity
  · obtain rfl : identity = 0 := hidentity
    obtain ⟨k, rfl, hfields⟩ := Spellable.record hs
    obtain ⟨hparameters, hbody, -⟩ := by simpa only [List.forall_mem_cons, Field.required, false_or] using hfields
    have hparts : Row.All
        (fun part v => Restores fuel (LiteralPart.read fuel expression part) k (Bounded (part.floats v)) v (part.document v))
        [("parameters", LiteralPart.parameters), ("body", LiteralPart.body)] (ps, e, ()) :=
      ⟨restores_literalPart h .parameters ps hparameters (List.forall_mem_nil _), restores_literalPart h .body e hbody hw, trivial⟩
    refine (Restores.record (by decide) hparts).map.congr ?_
    exact ⟨fun hbounded => hbounded.2.1, fun hbounded => ⟨List.forall_mem_nil _, hbounded, trivial⟩⟩
  · obtain ⟨t, ht⟩ := hs
    exact absurd ht (Language.notMem_zero t)

/-- A part is given back if it has spellings. -/
theorem restores_part (h : RestoresSpelled fuel expression) (part : Part) (v : part.Denotes)
    (hs : Spellable (Part.spellings spellings part v n)) (hw : Written (Part.floats part v)) :
    Restores fuel (part.read fuel expression) n (Bounded (Part.floats part v)) v (Part.document part v) := by
  cases part with
  | integer => exact (Reader.recognizes_int32.restores fun _ => toString_mem_integer v).congr bounded_nil
  | float =>
    have hbounded : Bounded [v] ↔ v.isInf = false := List.forall_mem_singleton
    obtain ⟨s, hs⟩ := hs
    refine Reader.restores_float32 (fun hfinite => ?_) fun hinfinite => ?_
    · exact hw v List.mem_cons_self (Number.isFinite_of_isInf (isNaN_of_mem_float hs) (hbounded.1 hfinite))
    · exact floatChars_of_isInf (Bool.of_not_eq_false fun hfalse => hinfinite (hbounded.2 hfalse))
  | boolean =>
    refine ((Reader.recognizes_boolean.mono fun _ _ => trivial).restores fun _ => ?_).congr bounded_nil
    cases v with
    | true => rfl
    | false => rfl
  | text => exact (restores_text v).congr bounded_nil
  | operator => exact (Reader.restores_bare (Operator.lookup_eq_some.2 rfl) rfl).congr bounded_nil
  | expression => exact h v n hs hw
  | optional =>
    cases v with
    | none => exact Reader.restores_optional_none.congr bounded_nil
    | some e =>
      refine (h e n hs hw).optional_some fun level => ?_
      obtain ⟨c, t, hc, hquote⟩ := exists_chars_document e level
      rw [hc]
      rcases hquote with rfl | rfl <;> simp
  | expressions =>
    obtain ⟨k, rfl, hitems⟩ := spellable_inside hs
    have hitems := Spellable.enclosed hitems
    simp only [Part.floats, Written, floatsList_eq_flatMap, List.forall_mem_flatMap] at hw
    simp only [Part.floats, Bounded, Part.document, floatsList_eq_flatMap, documentList_eq_map, List.forall_mem_flatMap]
    exact Restores.list fun a ha => h a k (hitems _ (List.mem_map_of_mem ha)) (hw a ha)
  | fields =>
    obtain ⟨k, rfl, hitems⟩ := spellable_inside hs
    have hitems := Spellable.enclosed hitems
    simp only [Part.floats, Written, floatsFields_eq_flatMap, List.forall_mem_flatMap] at hw
    simp only [Part.floats, Bounded, Part.document, floatsFields_eq_flatMap, documentFields_eq_map, List.forall_mem_flatMap]
    refine Restores.list fun p hp => ?_
    obtain ⟨m, rfl, hpair⟩ := spellable_inside (hitems _ (List.mem_map_of_mem hp))
    have hvalue : Spellable (spellings p.2 m) := Spellable.enclosed hpair _ (List.mem_cons_of_mem _ List.mem_cons_self)
    exact ((restores_text p.1).pair (h p.2 m hvalue (hw p hp))).congr (and_iff_right trivial)
  | function => exact restores_function h hs hw

end Parts

/-- Every expression that has spellings is given back. -/
theorem restoresSpelled_reader : ∀ fuel, RestoresSpelled fuel (reader fuel)
  | 0 => fun e n _ _ =>
    { opens := fun level =>
        let ⟨c, t, hc, hquote⟩ := exists_chars_document e level
        ⟨c, t, hc, Reader.startsPiece_quote_or_brace hquote⟩
      outcome := fun _ _ hlt => absurd hlt (Nat.not_lt_zero _) }
  | fuel + 1 => fun e n hs hw => by
    have ih := restoresSpelled_reader fuel
    obtain ⟨name, form, hkey, hmakes⟩ := exists_form e
    have hform := (mem_forms_of_lookup hkey).1
    have hstored := isStored_of_mem _ hform
    cases form with
    | bare value =>
      obtain ⟨hdocument, hfloats⟩ := hstored
      rw [← show value = e from hmakes, hdocument, hfloats]
      have hbare : Form.ofBareName (name, .bare value) = .ok value := rfl
      exact (Reader.restores_bare hkey hbare).congr bounded_nil
    | record parts make =>
      obtain ⟨row, rfl⟩ := hmakes
      obtain ⟨hdocument, hfloats⟩ := hstored row
      obtain ⟨k, rfl, hspelled⟩ := spellable_parts hform hs
      rw [hfloats, Written, Row.forall_mem_collect] at hw
      rw [hfloats, hdocument]
      have hparts := (hspelled.and hw).imp fun part v h => restores_part ih part v h.1 h.2
      exact ((Restores.record (nodup_names _ hform) hparts).map.choice hkey).congr Row.forall_mem_collect.symm

/-! ### Depth -/

/-- Parts are no deeper than their spellings if expressions are not. -/
theorem depth_part_le (ih : ∀ m ≤ n, ∀ e : Expression, Spellable (e.spellings m) → e.document.depth ≤ m) (part : Part)
    (v : part.Denotes) (hs : Spellable (Part.spellings spellings part v n)) : (Part.document part v).depth ≤ n := by
  cases part with
  | integer | float | boolean | text | operator => exact Nat.zero_le n
  | expression => exact ih n (Nat.le_refl n) v hs
  | optional =>
    cases v with
    | none => exact Nat.zero_le n
    | some e => exact ih n (Nat.le_refl n) e hs
  | expressions =>
    -- an array takes one level off, so its items may use the hypothesis
    obtain ⟨k, rfl, hitems⟩ := spellable_inside hs
    have hitems := Spellable.enclosed hitems
    rw [Part.document, documentList_eq_map]
    refine Document.depth_array_le fun d hd => ?_
    obtain ⟨a, ha, rfl⟩ := List.mem_map.1 hd
    exact ih k (Nat.le_succ k) a (hitems _ (List.mem_map_of_mem ha))
  | fields =>
    obtain ⟨k, rfl, hitems⟩ := spellable_inside hs
    have hitems := Spellable.enclosed hitems
    rw [Part.document, documentFields_eq_map]
    refine Document.depth_array_le fun d hd => ?_
    obtain ⟨p, hp, rfl⟩ := List.mem_map.1 hd
    obtain ⟨m, rfl, hpair⟩ := spellable_inside (hitems _ (List.mem_map_of_mem hp))
    have hvalue : Spellable (spellings p.2 m) := Spellable.enclosed hpair _ (List.mem_cons_of_mem _ List.mem_cons_self)
    refine Document.depth_array_le (List.forall_mem_cons.2 ⟨Nat.zero_le m, List.forall_mem_singleton.2 ?_⟩)
    exact ih m (by omega) p.2 hvalue
  | function =>
    obtain ⟨identity, ps, e⟩ := v
    rw [Part.spellings, functionText] at hs
    split_ifs at hs with hidentity
    · obtain ⟨k, rfl, hfields⟩ := Spellable.record hs
      obtain ⟨hparameters, hbody, -⟩ := by simpa only [List.forall_mem_cons, Field.required, false_or] using hfields
      obtain ⟨m, rfl, -⟩ := spellable_inside hparameters
      have hnames : (nameList ps).depth ≤ m + 1 := Document.depth_array_le fun d hd => by
        obtain ⟨p, -, rfl⟩ := List.mem_map.1 hd
        exact Nat.zero_le m
      exact Document.depth_object_le (List.forall_mem_cons.2 ⟨hnames, List.forall_mem_singleton.2 (ih (m + 1) (by omega) e hbody)⟩)
    · obtain ⟨t, ht⟩ := hs
      exact absurd ht (Language.notMem_zero t)

/-- A stored document is no deeper than any spelling of its expression. -/
theorem depth_document_le (n : Nat) (e : Expression) (hs : Spellable (e.spellings n)) : e.document.depth ≤ n := by
  induction n using Nat.strong_induction_on generalizing e with
  | _ n ih =>
    obtain ⟨name, form, hkey, hmakes⟩ := exists_form e
    have hform := (mem_forms_of_lookup hkey).1
    have hstored := isStored_of_mem _ hform
    cases form with
    | bare value =>
      rw [← show value = e from hmakes, hstored.1]
      exact Nat.zero_le n
    | record parts make =>
      obtain ⟨row, rfl⟩ := hmakes
      obtain ⟨k, rfl, hspelled⟩ := spellable_parts hform hs
      rw [(hstored row).1]
      have hparts := hspelled.imp fun part v h => depth_part_le (fun m hm e => ih m (by omega) e) part v h
      refine Document.depth_object_le (List.forall_mem_singleton.2 ?_)
      exact Document.depth_object_le (Row.depth_documents_le hparts)

/-! ### Storing and loading -/

/-- What is stored is read again, or is refused for an infinite float. -/
theorem stored_outcome (hs : Spellable (e.spellings maxDepth)) (hw : Written e.floats) :
    (Bounded e.floats → load e.stored = .ok e) ∧ (¬ Bounded e.floats → ∃ m, load e.stored = .error (.invalid (.mismatch m))) := by
  have htext : e.stored.toList = e.document.chars 0 := String.toList_ofList
  have hsolid : skipBlanks e.stored.toList = e.document.chars 0 ++ [] := by
    obtain ⟨c, t, hc, hquote⟩ := exists_chars_document e 0
    rw [htext, hc, List.append_nil]
    exact skipBlanks_cons_of_solid (Reader.startsPiece_quote_or_brace hquote).solid
  have hout := (restoresSpelled_reader (e.stored.length + 1) e maxDepth hs hw).outcome hsolid (fun _ _ h => nomatch h) (Nat.lt_succ_self _)
  refine ⟨fun hbounded => ?_, fun hinfinite => ?_⟩
  · rw [load, parse, Reader.run, hout.ok hbounded]
    rfl
  · obtain ⟨m, hm⟩ := hout.refused hinfinite
    rw [load, parse, Reader.run, hm]
    exact ⟨m, rfl⟩

/-- What is stored of a program that was loaded is loaded as the same program exactly if none of its floats is infinite; if one is, what
is stored is refused as something else than what is expected, not for its depth. It is no deeper than any spelling that was loaded. Of what
is written of floats the digits matter: those of a finite float stand for it. -/
theorem load_stored_eq_ok_iff {s : String} {e : Expression} (hload : load s = .ok e)
    (hwritten : ∀ x ∈ e.floats, x.isFinite = true → Document.floatChars x ∈ Json.float x) :
    (load e.stored = .ok e ↔ ∀ x ∈ e.floats, x.isInf = false) ∧
      ((∃ x ∈ e.floats, x.isInf = true) → ∃ m, load e.stored = .error (.invalid (.mismatch m))) ∧
      ∀ depth, s.toList ∈ blanks * e.spellings depth * blanks → e.document.depth ≤ depth := by
  have hspelled : Spellable (blanks * e.spellings maxDepth * blanks) := ⟨_, parse_eq_ok_iff.1 (load_eq_ok_iff_parse.1 hload)⟩
  obtain ⟨hok, hrefused⟩ := stored_outcome hspelled.left.right hwritten
  refine ⟨⟨fun hreload => ?_, hok⟩, ?_, fun depth hs => ?_⟩
  · by_contra hinfinite
    obtain ⟨m, hm⟩ := hrefused hinfinite
    rw [hreload] at hm
    cases hm
  · rintro ⟨x, hx, hinfinite⟩
    refine hrefused fun hbounded => ?_
    have hfalse := hbounded x hx
    rw [hinfinite] at hfalse
    cases hfalse
  · have hspelled : Spellable (blanks * e.spellings depth * blanks) := ⟨_, hs⟩
    exact depth_document_le depth e hspelled.left.right

/-- A program in another spelling than the one in which it is stored: parts without their names, an escape, a member that is passed
over, and a number with an exponent. -/
def respelledSource : String :=
  "\x7b\"Sequence\": [[\x7b\"String\": [\"\\u00e9\\n\"]\x7d, \x7b\"Float\": \x7b\"value\": 15e-1, \"unit\": []\x7d\x7d]]\x7d"

/-- The program that is respelled. -/
def respelled : Expression := .sequence [.string "é\n", .float (Number.float32OfBits false 0x3FC00000)]

/-- Whether what was read is the program that is respelled. -/
def isRespelled : Except LoadError Expression → Bool
  | .ok (.sequence [.string t, .float y]) => t = "é\n" ∧ y = Number.float32OfBits false 0x3FC00000
  | _ => false

/-- The test for the expression accepts nothing else. -/
theorem eq_respelled_of_isRespelled {r : Except LoadError Expression} (h : isRespelled r = true) : r = .ok respelled := by
  unfold isRespelled at h
  split at h
  · obtain ⟨rfl, rfl⟩ := of_decide_eq_true h
    rfl
  · cases h

theorem load_respelledSource : load respelledSource = .ok respelled :=
  eq_respelled_of_isRespelled (by decide +kernel)

/-- The float in the program is written as `1.5`, which stands for it. -/
theorem written_respelled : ∀ x ∈ respelled.floats, x.isFinite = true → Document.floatChars x ∈ Json.float x := by
  have hdigit (c : Char) (d : Nat) (hc : c.isDigit = true ∧ c.toNat - '0'.toNat = d) : [c] ∈ digits [d] :=
    ⟨List.cons_ne_nil _ _, List.forall_mem_singleton.2 hc.1, congrArg (fun d => [d]) hc.2⟩
  have hfraction : ['.', '5'] ∈ fraction (some [5]) := ⟨['.'], rfl, _, hdigit '5' 5 (by decide), rfl⟩
  have hliteral : ['1', '.', '5'] ∈ literal ⟨false, [1], some [5], none⟩ :=
    ⟨[], rfl, _, ⟨['1'], ⟨hdigit '1' 1 (by decide), nofun⟩, _, ⟨_, hfraction, [], rfl, rfl⟩, rfl⟩, rfl⟩
  have htext : Document.floatChars (Number.float32OfBits false 0x3FC00000) = ['1', '.', '5'] := by decide +kernel
  have hnumeral : (⟨false, [1], some [5], none⟩ : Number.Literal).numeral? = some (.float false 0x3FF8000000000000) := by decide +kernel
  have hfloat : (Number.Numeral.float false 0x3FF8000000000000).toFloat32 = Number.float32OfBits false 0x3FC00000 := by decide +kernel
  intro x hx _
  rw [List.mem_singleton.1 hx, htext]
  exact mem_float_iff.2 ⟨_, _, hliteral, hnumeral, hfloat⟩

theorem load_stored_eq_ok_iff_respelled : load respelledSource = .ok respelled ∧ load respelled.stored = .ok respelled := by
  have hfinite : (Number.float32OfBits false 0x3FC00000).isInf = false := by decide +kernel
  have hreload := (load_stored_eq_ok_iff load_respelledSource written_respelled).1
  exact ⟨load_respelledSource, hreload.2 (List.forall_mem_singleton.2 hfinite)⟩

end ExprLang.Expression
