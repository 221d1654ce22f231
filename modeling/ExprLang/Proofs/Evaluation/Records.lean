import Mathlib.Data.List.Nodup
import ExprLang.Proofs.Evaluation.Effectless
import ExprLang.Proofs.Text.ByteOrder

/-!
# Records are maps from names to values

Fields are set one after the other in a list whose names stay in order (`Value.Increasing`), so of several fields of one name the last
one is in the record and no other (`Value.mem_record_iff`). A record is known by its fields (`Value.Increasing.eq_of_mem_iff`). So the
order in which a literal lists fields with different names makes no difference, as long as it makes none to their values.
-/

namespace ExprLang

namespace Value

variable {fields values : List (String × Value)} {name : String} {v : Value} {f : String × Value}

/-- No name stands twice, and the names are in order. -/
def Increasing (fields : List (String × Value)) : Prop := fields.Pairwise fun f g => f.1 < g.1

/-- The fields of the record that `ofFields` makes. -/
def record (fields : List (String × Value)) : List (String × Value) :=
  fields.foldl (fun object field => setField field.1 field.2 object) []

/-- The field is in the list, and none behind it has its name. -/
def LastOccurrence (fields : List (String × Value)) (f : String × Value) : Prop :=
  ∃ before after, fields = before ++ f :: after ∧ f.1 ∉ after.map Prod.fst

/-! ## Names in order -/

/-- A field is set at the place where its name belongs. -/
theorem Increasing.setField (h : Increasing fields) (name : String) (v : Value) : Increasing (setField name v fields) := by
  induction fields with
  | nil => exact List.pairwise_singleton _ _
  | cons f rest ih =>
    obtain ⟨hfirst, hrest⟩ := List.pairwise_cons.1 h
    unfold Value.setField
    split
    case isTrue hlt =>
      refine List.pairwise_cons.2 ⟨?_, h⟩
      exact List.forall_mem_cons.2 ⟨hlt, fun g hg => String.lt_trans hlt (hfirst g hg)⟩
    case isFalse hnot =>
      split
      case isTrue heq => exact List.pairwise_cons.2 ⟨fun g hg => heq ▸ hfirst g hg, hrest⟩
      case isFalse hne =>
        have hlt : f.1 < name := String.not_le.1 fun hle => hne (String.le_antisymm hle (String.not_lt.1 hnot))
        refine List.pairwise_cons.2 ⟨fun g hg => ?_, ih hrest⟩
        rcases mem_of_mem_setField hg with rfl | hg
        · exact hlt
        · exact hfirst g hg

/-- The names in a record are in increasing order, whatever the order of the fields it is made of. -/
theorem increasing_record (fields : List (String × Value)) : Increasing (record fields) :=
  List.foldlRecOn fields _ List.Pairwise.nil fun _ h f _ => h.setField f.1 f.2

/-- In increasing order no name stands twice. -/
theorem Increasing.nodup (h : Increasing fields) : (fields.map Prod.fst).Nodup := by
  refine List.pairwise_map.2 (h.imp fun {f g} hlt heq => ?_)
  rw [heq] at hlt
  exact String.lt_irrefl _ hlt

/-- Records that have the same fields are the same. -/
theorem Increasing.eq_of_mem_iff (h : Increasing fields) (h' : Increasing values) (hmem : ∀ f, f ∈ fields ↔ f ∈ values) :
    fields = values := by
  have hperm : fields.Perm values := (List.perm_ext_iff_of_nodup h.nodup.of_map h'.nodup.of_map).2 hmem
  exact hperm.eq_of_pairwise (fun f g _ _ hlt hgt => absurd hgt (String.lt_asymm hlt)) h h'

/-! ## Which fields are in a record -/

/-- The first field answers for its name only. -/
theorem lookup_cons_eq_ite (other : String) (f : String × Value) (rest : List (String × Value)) :
    (f :: rest).lookup other = if other = f.1 then some f.2 else rest.lookup other := by
  obtain ⟨n, w⟩ := f
  by_cases h : other = n <;> simp [List.lookup_cons, h, beq_false_of_ne]

/-- A field is set, and all the others stay as they are. -/
theorem lookup_setField (name other : String) (v : Value) (fields : List (String × Value)) :
    (setField name v fields).lookup other = if other = name then some v else fields.lookup other := by
  induction fields with
  | nil => exact lookup_cons_eq_ite other (name, v) []
  | cons f rest ih =>
    unfold Value.setField
    split
    case isTrue => exact lookup_cons_eq_ite other (name, v) (f :: rest)
    case isFalse =>
      split
      case isTrue heq =>
        rw [lookup_cons_eq_ite, lookup_cons_eq_ite other f, heq]
        split <;> rfl
      case isFalse hne =>
        rw [lookup_cons_eq_ite, lookup_cons_eq_ite other f, ih]
        by_cases hother : other = f.1
        · rw [if_pos hother, if_pos hother, if_neg (hother ▸ Ne.symm hne)]
        · rw [if_neg hother, if_neg hother]

/-- Fields are set one after the other, so the last one of a name is found first. -/
theorem lookup_foldl_setField (fields object : List (String × Value)) (name : String) :
    (fields.foldl (fun object field => setField field.1 field.2 object) object).lookup name =
      (fields.reverse ++ object).lookup name := by
  induction fields generalizing object with
  | nil => rfl
  | cons f rest ih =>
    rw [List.foldl_cons, ih, List.reverse_cons, List.append_assoc, List.lookup_append, List.lookup_append, lookup_setField]
    exact congrArg _ (lookup_cons_eq_ite name f object).symm

/-- In a record each name has the value of its last field. -/
theorem lookup_record (fields : List (String × Value)) (name : String) :
    (record fields).lookup name = fields.reverse.lookup name := by
  rw [record, lookup_foldl_setField, List.append_nil]

theorem forall_mem_bne_iff : (∀ f ∈ fields, (name != f.1) = true) ↔ name ∉ fields.map Prod.fst := by
  rw [List.mem_map, not_exists]
  refine forall_congr' fun f => ?_
  rw [bne_iff_ne, not_and]
  exact imp_congr_right fun _ => not_congr eq_comm

/-- From the end, the first field of a name is its last occurrence. -/
theorem lookup_reverse_eq_some_iff : fields.reverse.lookup name = some v ↔ LastOccurrence fields (name, v) := by
  rw [List.lookup_eq_some_iff]
  constructor
  · rintro ⟨after, before, hfields, hafter⟩
    refine ⟨before.reverse, after.reverse, ?_, ?_⟩
    · rw [← List.reverse_inj, hfields]
      simp
    · rw [List.map_reverse, List.mem_reverse]
      exact forall_mem_bne_iff.1 hafter
  · rintro ⟨before, after, rfl, hafter⟩
    refine ⟨after.reverse, before.reverse, by simp, forall_mem_bne_iff.2 ?_⟩
    rw [List.map_reverse, List.mem_reverse]
    exact hafter

/-- A name is not found if no field has it. -/
theorem lookup_reverse_eq_none_iff : fields.reverse.lookup name = none ↔ name ∉ fields.map Prod.fst := by
  rw [List.lookup_eq_none_iff, forall_mem_bne_iff, List.map_reverse, List.mem_reverse]

/-- A name that is given has a last occurrence. -/
theorem exists_lastOccurrence (h : name ∈ fields.map Prod.fst) : ∃ v, LastOccurrence fields (name, v) := by
  have hsome : fields.reverse.lookup name ≠ none := fun hnone => lookup_reverse_eq_none_iff.1 hnone h
  obtain ⟨v, hv⟩ := Option.ne_none_iff_exists'.1 hsome
  exact ⟨v, lookup_reverse_eq_some_iff.1 hv⟩

/-- Where no name is given twice, every field is the last of its name. -/
theorem lastOccurrence_iff_mem (h : (fields.map Prod.fst).Nodup) : LastOccurrence fields f ↔ f ∈ fields := by
  constructor
  · rintro ⟨before, after, rfl, -⟩
    exact List.mem_append_right before List.mem_cons_self
  · intro hf
    obtain ⟨before, after, rfl⟩ := List.append_of_mem hf
    refine ⟨before, after, rfl, ?_⟩
    rw [List.map_append, List.nodup_append] at h
    exact (List.nodup_cons.1 h.2.1).1

/-- In a record every field is found under its name. -/
theorem Increasing.lookup_eq_some_iff (h : Increasing fields) : fields.lookup name = some v ↔ (name, v) ∈ fields := by
  -- no name stands twice, so each field is also the last of its name in the reversed list
  have hreverse : (fields.reverse.map Prod.fst).Nodup := by
    rw [List.map_reverse, List.nodup_reverse]
    exact h.nodup
  rw [← List.reverse_reverse fields, lookup_reverse_eq_some_iff, lastOccurrence_iff_mem hreverse, List.reverse_reverse,
    List.mem_reverse]

/-- The fields of a record are the last ones of each name. -/
theorem mem_record_iff : f ∈ record fields ↔ LastOccurrence fields f := by
  rw [← (increasing_record fields).lookup_eq_some_iff, lookup_record, lookup_reverse_eq_some_iff]

/-- The order of fields with different names makes no difference. -/
theorem record_eq_of_perm (h : fields.Perm values) (hnodup : (fields.map Prod.fst).Nodup) : record fields = record values := by
  refine (increasing_record fields).eq_of_mem_iff (increasing_record values) fun f => ?_
  rw [mem_record_iff, mem_record_iff, lastOccurrence_iff_mem hnodup, lastOccurrence_iff_mem ((h.map Prod.fst).nodup_iff.1 hnodup)]
  exact h.mem_iff

/-! ## Fields of a record -/

/-- Reading a field gives the value that was given last. -/
theorem field_of_lastOccurrence (h : LastOccurrence fields (name, v)) : (object (record fields)).field name = .ok v := by
  have hlookup := (lookup_record fields name).trans (lookup_reverse_eq_some_iff.2 h)
  simp only [field, hlookup]

/-- Reading a field that was not given is an error with its name. -/
theorem field_of_notMem (h : name ∉ fields.map Prod.fst) : (object (record fields)).field name = .error (.unbound name "Field") := by
  have hlookup := (lookup_record fields name).trans (lookup_reverse_eq_none_iff.2 h)
  simp only [field, hlookup]

/-- A record is displayed with its fields in order. -/
theorem display_object (fields : List (String × Value)) :
    (object fields).display = "\x7b" ++ ", ".intercalate (fields.map fun f => f.1 ++ ": " ++ f.2.display) ++ "\x7d" := by
  have hfields : displayFields fields = fields.map fun f => f.1 ++ ": " ++ f.2.display := by
    induction fields with
    | nil => rfl
    | cons f rest ih => rw [displayFields, ih, List.map_cons]
  rw [display, hfields]

end Value

namespace Expression

/-- The value that a literal stands for. -/
def literal? : Expression → Option Value
  | .integer v => some (.int v)
  | .float v => some (.float v)
  | .boolean v => some (.bool v)
  | .string v => some (.string v)
  | .function f => some (.function f)
  | .void => some .void
  | _ => none

/-- The fields with the values that their literals stand for. -/
def literals (fs : List (String × Expression)) : List (String × Value) := fs.map fun f => (f.1, f.2.literal?.getD .void)

theorem map_fst_literals (fs : List (String × Expression)) : (literals fs).map Prod.fst = fs.map Prod.fst :=
  List.map_map.trans rfl

end Expression

namespace Evaluation

open Value Expression

variable {σ : Type} {eval : Evaluator σ} {fs fs' : List (String × Expression)} {env env' : Environment} {m m' : Interpreter σ}
  {values : List (String × Value)} {r : Evaluated} {v : Value} {reclamation : Reclamation} {steps : Nat} {a : Expression}

/-- Evaluated fields have the names of the literal. -/
theorem map_fst_of_fields (h : fields eval fs env m = .ok (values, env') m') : values.map Prod.fst = fs.map Prod.fst := by
  induction fs generalizing env m values with
  | nil =>
    obtain ⟨heq, -⟩ := pure_ok_iff.1 h
    cases heq
    rfl
  | cons f rest ih =>
    obtain ⟨r, m₁, -, h⟩ := bind_ok_iff.1 h
    obtain ⟨⟨others, env₁⟩, m₂, hrest, h⟩ := bind_ok_iff.1 h
    obtain ⟨heq, rfl⟩ := pure_ok_iff.1 h
    cases heq
    exact congrArg _ (ih hrest)

variable [Sink σ]

/-- An object is evaluated by evaluating its fields in their order. -/
theorem evaluate_object_ok (h : evaluate reclamation steps (.object fs) env m = .ok r m') : ∃ k values, steps = k + 1 ∧
    fields (evaluate reclamation k) fs env m = .ok (values, r.env) m' ∧ r.value = .object (record values) := by
  cases steps with
  | zero => cases h
  | succ k =>
    obtain ⟨⟨values, env₁⟩, m₁, hfields, h⟩ := bind_ok_iff.1 h
    obtain ⟨rfl, rfl⟩ := pure_ok_iff.1 h
    exact ⟨k, values, rfl, hfields, rfl⟩

/-! ## Literals -/

/-- A literal is evaluated in one step to its value and changes nothing. -/
theorem evaluate_literal (h : a.literal? = some v) : evaluate reclamation (steps + 1) a env m = .ok ⟨v, env⟩ m := by
  cases a with
  | integer | float | boolean | string | function | void =>
    cases h
    rfl
  | _ => cases h

/-- No literal is a bare name. -/
theorem literal?_ne_id (name : String) : a.literal? ≠ some (.id name) := by
  cases a <;> nofun

/-- Fields that are literals are evaluated to their values and change nothing. -/
theorem fields_literals (h : ∀ f ∈ fs, f.2.literal?.isSome) :
    fields (evaluate reclamation (steps + 1)) fs env m = .ok (literals fs, env) m := by
  induction fs with
  | nil => rfl
  | cons f rest ih =>
    obtain ⟨hfirst, hrest⟩ := List.forall_mem_cons.1 h
    obtain ⟨v, hv⟩ := Option.isSome_iff_exists.1 hfirst
    have hoperand : operand (evaluate reclamation (steps + 1)) f.2 env "Object" m = .ok ⟨v, env⟩ m :=
      operand_of_ok (evaluate_literal hv) fun name hname => literal?_ne_id name (hname ▸ hv)
    have hcons : literals (f :: rest) = (f.1, v) :: literals rest := by
      rw [literals, List.map_cons, hv]
      rfl
    rw [hcons]
    exact (bind_of_ok hoperand _).trans (bind_of_ok (ih hrest) _)

/-- A literal of a record whose fields are literals denotes the same record everywhere. -/
theorem denotes_object (h : ∀ f ∈ fs, f.2.literal?.isSome) :
    Denotes reclamation env m (.object fs) (.ok (.object (record (literals fs)))) := by
  refine .of_evaluate 1 (fun _ => nofun) fun steps hsteps => ?_
  obtain ⟨k, rfl⟩ := Nat.exists_eq_add_of_le' hsteps
  exact bind_of_ok (fields_literals h) _

/-- What is printed of an expression is the text of what it denotes. -/
theorem Denotes.print (h : Denotes reclamation env m a (.ok v)) : ∃ enough, ∀ steps, enough ≤ steps →
    evaluate reclamation steps (.print a) env m = (do printLine v.text; return ⟨.void, env⟩ : Evaluation σ Evaluated) m := by
  obtain ⟨n, h⟩ := h
  refine ⟨n + 1, fun steps hsteps => ?_⟩
  obtain ⟨k, rfl⟩ := Nat.exists_eq_add_of_le' (Nat.le_of_add_left_le hsteps)
  exact bind_of_ok (h k (Nat.le_of_add_le_add_right hsteps) "Print") _

/-! ## A literal denotes a map -/

section

variable {k : Nat} {name : String} {env₁ : Environment} {m₁ : Interpreter σ}
  (ha : operand (evaluate reclamation k) a env "Field" m = .ok ⟨.object (record values), env₁⟩ m₁)

include ha

/-- A field has the value that was last given for it. -/
theorem evaluate_field_of_lastOccurrence (h : LastOccurrence values (name, v)) :
    evaluate reclamation (k + 1) (.field a name) env m = .ok ⟨v, env₁⟩ m₁ := by
  rw [evaluate_field ha, field_of_lastOccurrence h]
  rfl

/-- A field is unknown exactly if no value was given for it. -/
theorem evaluate_field_unbound_iff : (∃ e m₂, evaluate reclamation (k + 1) (.field a name) env m = .error (.failed e) m₂ ∧
    e.kind = "UnboundIdentifier") ↔ name ∉ values.map Prod.fst := by
  constructor
  · rintro ⟨e, m₂, herror, -⟩ hname
    obtain ⟨v, hv⟩ := exists_lastOccurrence hname
    rw [evaluate_field_of_lastOccurrence ha hv] at herror
    cases herror
  · intro hname
    refine ⟨.unbound name "Field", m₁, ?_, rfl⟩
    rw [evaluate_field ha, field_of_notMem hname]
    rfl

end

/-- Literals of records are maps. If one is evaluated, the names in its value are in the order of their bytes, so none is there twice,
and each has the value of its last field. That is the value which reading the field gives, and exactly the names that the literal does
not have cannot be read. If its fields are literals with different names, then in whichever order they stand it denotes the same record,
which is displayed and printed in the same way. -/
theorem object_denotes_map :
    (∀ steps fs env (m : Interpreter σ) r m', evaluate reclamation steps (.object fs) env m = .ok r m' →
      ∃ k values object, steps = k + 1 ∧ fields (evaluate reclamation k) fs env m = .ok (values, r.env) m' ∧
        values.map Prod.fst = fs.map Prod.fst ∧ r.value = .object object ∧
        object.Pairwise (fun f g => Text.bytes f.1 < Text.bytes g.1) ∧ (∀ f, f ∈ object ↔ LastOccurrence values f) ∧
        ∀ k a env₁ (m₁ : Interpreter σ) env₂ m₂ name, operand (evaluate reclamation k) a env₁ "Field" m₁ = .ok ⟨r.value, env₂⟩ m₂ →
          (∀ v, LastOccurrence values (name, v) → evaluate reclamation (k + 1) (.field a name) env₁ m₁ = .ok ⟨v, env₂⟩ m₂) ∧
          ((∃ e m₃, evaluate reclamation (k + 1) (.field a name) env₁ m₁ = .error (.failed e) m₃ ∧
            e.kind = "UnboundIdentifier") ↔ name ∉ fs.map Prod.fst)) ∧
    ∀ (fs fs' : List (String × Expression)), fs.Perm fs' → (fs.map Prod.fst).Nodup → (∀ f ∈ fs, f.2.literal?.isSome) →
      ∃ object, (Value.object object).text =
          "\x7b" ++ ", ".intercalate (object.map fun f => f.1 ++ ": " ++ f.2.display) ++ "\x7d" ∧
        ∀ env (m : Interpreter σ), Denotes reclamation env m (.object fs) (.ok (.object object)) ∧
          Denotes reclamation env m (.object fs') (.ok (.object object)) ∧
          ∃ enough, ∀ steps, enough ≤ steps →
            evaluate reclamation steps (.print (.object fs)) env m = evaluate reclamation steps (.print (.object fs')) env m ∧
            evaluate reclamation steps (.print (.object fs)) env m =
              (do printLine (Value.object object).text; return ⟨.void, env⟩ : Evaluation σ Evaluated) m := by
  constructor
  · intro steps fs env m r m' h
    obtain ⟨k, values, rfl, hfields, hvalue⟩ := evaluate_object_ok h
    have hnames := map_fst_of_fields hfields
    refine ⟨k, values, record values, rfl, hfields, hnames, hvalue, (increasing_record values).imp Text.bytes_lt_bytes,
      fun f => mem_record_iff, fun k a env₁ m₁ env₂ m₂ name ha => ?_⟩
    rw [hvalue] at ha
    rw [← hnames]
    exact ⟨fun v => evaluate_field_of_lastOccurrence ha, evaluate_field_unbound_iff ha⟩
  · intro fs fs' hperm hnodup hliterals
    have hrecord : record (literals fs') = record (literals fs) := by
      refine (record_eq_of_perm (hperm.map _) ?_).symm
      exact (congrArg List.Nodup (map_fst_literals fs)).mpr hnodup
    refine ⟨record (literals fs), display_object _, fun env m => ?_⟩
    have hfirst : Denotes reclamation env m (.object fs) (.ok (.object (record (literals fs)))) := denotes_object hliterals
    have hsecond : Denotes reclamation env m (.object fs') (.ok (.object (record (literals fs)))) := by
      rw [← hrecord]
      exact denotes_object fun f hf => hliterals f (hperm.mem_iff.2 hf)
    obtain ⟨n, hn⟩ := hfirst.print
    obtain ⟨n', hn'⟩ := hsecond.print
    refine ⟨hfirst, hsecond, max n n', fun steps hsteps => ?_⟩
    have hprint := hn steps (Nat.le_trans (Nat.le_max_left n n') hsteps)
    exact ⟨hprint.trans (hn' steps (Nat.le_trans (Nat.le_max_right n n') hsteps)).symm, hprint⟩

/-- A literal in which one of two names stands twice. -/
def givenTwice : Expression := .object [("b", .integer 1), ("a", .string "x"), ("b", .integer 2)]

/-- The state in which nothing is bound and nothing was printed. -/
def emptyState : Interpreter := Interpreter.initial (Output.empty none)

/-- The second value is the one that is read, no other field can be read, and the order of the two names makes no difference. -/
theorem object_denotes_map_givenTwice :
    evaluate .onExit 2 givenTwice .empty emptyState = .ok ⟨.object [("a", .string "x"), ("b", .int 2)], .empty⟩ emptyState ∧
    evaluate .onExit 3 (.field givenTwice "b") .empty emptyState = .ok ⟨.int 2, .empty⟩ emptyState ∧
    (∃ e m, evaluate .onExit 3 (.field givenTwice "c") .empty emptyState = .error (.failed e) m ∧ e.kind = "UnboundIdentifier") ∧
    ∃ object, (Value.object object).text = "\x7b" ++ ", ".intercalate (object.map fun f => f.1 ++ ": " ++ f.2.display) ++ "\x7d" ∧
      Denotes .onExit .empty emptyState (.object [("b", .integer 1), ("a", .string "x")]) (.ok (.object object)) ∧
      Denotes .onExit .empty emptyState (.object [("a", .string "x"), ("b", .integer 1)]) (.ok (.object object)) := by
  have heval : evaluate .onExit 2 givenTwice .empty emptyState =
      .ok ⟨.object [("a", .string "x"), ("b", .int 2)], .empty⟩ emptyState := rfl
  have hoperand : operand (evaluate .onExit 2) givenTwice .empty "Field" emptyState =
      .ok ⟨.object [("a", .string "x"), ("b", .int 2)], .empty⟩ emptyState := rfl
  obtain ⟨hmap, hperm⟩ := object_denotes_map (σ := Output)
  obtain ⟨k, values, object, hk, hfields, -, -, -, -, hread⟩ := hmap _ _ _ _ _ _ heval
  cases hk
  cases hfields
  refine ⟨heval, (hread _ _ _ _ _ _ "b" hoperand).1 _ ?_, (hread _ _ _ _ _ _ "c" hoperand).2.2 (by decide), ?_⟩
  · exact ⟨[("b", .int 1), ("a", .string "x")], [], rfl, List.not_mem_nil⟩
  obtain ⟨object, htext, hdenotes⟩ := hperm [("b", .integer 1), ("a", .string "x")] _ (.swap _ _ _) (by decide) (by decide)
  exact ⟨object, htext, (hdenotes _ _).1, (hdenotes _ _).2.1⟩

end Evaluation

end ExprLang
