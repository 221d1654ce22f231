import ExprLang.Json.Record
import ExprLang.Proofs.Json.Reading

/-!
# Records are read in any order

A record is read from an array of its parts in their order, or from an object whose members may stand in any order and may be mixed with
unknown ones. The members are read into a draft. What is left to read of a draft are the fields of its unread parts
(`Draft.unread`), and every known member takes one of them away.
-/

namespace ExprLang.Json

/-! ### Arranging fields -/

section Arranges

variable {known : List String} {fields fields' : List Field} {f : Field} {m : Language Char} {ms : List (Language Char)}

/-- Without members all fields are missing. -/
theorem arranges_nil_iff : Arranges known fields [] ↔ ∀ f ∈ fields, f.mayMiss := by
  constructor
  · rintro ⟨present, missing, others, hp, hm, -, hms⟩
    intro f hf
    obtain ⟨hpresent, -⟩ := List.append_eq_nil_iff.1 (List.nil_perm.1 hms)
    rw [List.map_eq_nil_iff.1 hpresent, List.nil_append] at hp
    exact hm f (hp.mem_iff.1 hf)
  · intro h
    exact ⟨[], fields, [], List.Perm.refl fields, h, fun m hm => (List.not_mem_nil hm).elim, List.Perm.refl []⟩

/-- A member that is a field goes before the others. -/
theorem Arranges.field (hf : fields.Perm (f :: fields')) (h : Arranges known fields' ms) : Arranges known fields (f.text :: ms) := by
  obtain ⟨present, missing, others, hp, hm, ho, hms⟩ := h
  exact ⟨f :: present, missing, others, hf.trans (hp.cons f), hm, ho, hms.cons f.text⟩

/-- A member that is unknown goes before the others. -/
theorem Arranges.unknown (hm : IsUnknown known m) (h : Arranges known fields ms) : Arranges known fields (m :: ms) := by
  obtain ⟨present, missing, others, hp, hmiss, ho, hms⟩ := h
  refine ⟨present, missing, m :: others, hp, hmiss, List.forall_mem_cons.2 ⟨hm, ho⟩, ?_⟩
  exact (hms.cons m).trans List.perm_middle.symm

/-- The order of the fields does not matter. -/
theorem Arranges.perm (hf : fields.Perm fields') (h : Arranges known fields ms) : Arranges known fields' ms := by
  obtain ⟨present, missing, others, hp, hrest⟩ := h
  exact ⟨present, missing, others, hf.symm.trans hp, hrest⟩

/-- The first member is a field or unknown, and the others arrange what is left. -/
theorem Arranges.cons_cases (h : Arranges known fields (m :: ms)) :
    (∃ f fields', m = f.text ∧ fields.Perm (f :: fields') ∧ Arranges known fields' ms) ∨
      (IsUnknown known m ∧ Arranges known fields ms) := by
  obtain ⟨present, missing, others, hp, hmiss, ho, hms⟩ := h
  rcases List.mem_append.1 (hms.mem_iff.1 List.mem_cons_self) with hm | hm
  · obtain ⟨f, hf, rfl⟩ := List.mem_map.1 hm
    obtain ⟨before, after, rfl⟩ := List.append_of_mem hf
    refine .inl ⟨f, before ++ after ++ missing, rfl, ?_, before ++ after, missing, others, List.Perm.refl _, hmiss, ho, ?_⟩
    · refine hp.trans ?_
      rw [List.append_assoc, List.cons_append, List.append_assoc]
      exact List.perm_middle
    · rw [List.map_append, List.map_cons, List.append_assoc, List.cons_append] at hms
      rw [List.map_append, List.append_assoc]
      exact (hms.trans List.perm_middle).cons_inv
  · obtain ⟨before, after, rfl⟩ := List.append_of_mem hm
    refine .inr ⟨ho m hm, present, missing, before ++ after, hp, hmiss, fun k hk => ho k ?_, ?_⟩
    · rcases List.mem_append.1 hk with hk | hk
      · exact List.mem_append_left _ hk
      · exact List.mem_append_right _ (List.mem_cons_of_mem _ hk)
    · rw [← List.append_assoc] at hms
      rw [← List.append_assoc]
      exact (hms.trans List.perm_middle).cons_inv

end Arranges

variable {κ : Type} {denotes : κ → Type}

/-! ### Rows and drafts -/

section Fields

variable (absent : (kind : κ) → Option (denotes kind)) (spell : (kind : κ) → denotes kind → Nat → Language Char) (n : Nat)

/-- A part of a record as a field. -/
def fieldOf (name : String) (kind : κ) (value : denotes kind) : Field := ⟨name, absent kind = some value, spell kind value n⟩

/-- The fields of a record. -/
def Row.fields : (parts : List (String × κ)) → Row denotes parts → List Field
  | [], () => []
  | (name, kind) :: rest, (value, values) => fieldOf absent spell n name kind value :: Row.fields rest values

/-- The fields of a record that a draft has not read. -/
def Draft.unread : (parts : List (String × κ)) → Draft denotes parts → Row denotes parts → List Field
  | [], (), () => []
  | (name, kind) :: rest, (none, drafts), (value, values) =>
    fieldOf absent spell n name kind value :: Draft.unread rest drafts values
  | _ :: rest, (some _, drafts), (_, values) => Draft.unread rest drafts values

end Fields

/-- What the draft has read is as in the record. -/
def Draft.Agrees : (parts : List (String × κ)) → Draft denotes parts → Row denotes parts → Prop
  | [], (), () => True
  | _ :: rest, (draft, drafts), (value, values) => (∀ v, draft = some v → v = value) ∧ Draft.Agrees rest drafts values

section Lemmas

variable {absent : (kind : κ) → Option (denotes kind)} {spell : (kind : κ) → denotes kind → Nat → Language Char} {n : Nat}

/-- A part that has no value of its own must be there. -/
theorem fieldOf_required {name : String} {kind : κ} {value : denotes kind} (h : absent kind = none) :
    fieldOf absent spell n name kind value = .required name (spell kind value n) := by
  rw [fieldOf, Field.required, h]
  simp

/-- The fields of a row have the names of the parts. -/
theorem Row.names_fields : ∀ (parts : List (String × κ)) (row : Row denotes parts),
    (Row.fields absent spell n parts row).map Field.name = parts.map Prod.fst
  | [], () => rfl
  | _ :: rest, (_, values) => congrArg _ (Row.names_fields rest values)

/-- In an empty draft every field is still unread. -/
theorem Draft.unread_empty : ∀ (parts : List (String × κ)) (row : Row denotes parts),
    Draft.unread absent spell n parts (Draft.empty parts) row = Row.fields absent spell n parts row
  | [], () => rfl
  | _ :: rest, (_, values) => congrArg _ (Draft.unread_empty rest values)

/-- An empty draft agrees with every row. -/
theorem Draft.agrees_empty : ∀ (parts : List (String × κ)) (row : Row denotes parts), Draft.Agrees parts (Draft.empty parts) row
  | [], () => trivial
  | _ :: rest, (_, values) => ⟨fun _ h => (nomatch h), Draft.agrees_empty rest values⟩

/-- A draft is finished field by field; a field that is missing needs a default. -/
theorem Draft.finish_cons_ok_iff {name : String} {kind : κ} {rest : List (String × κ)} {draft : Option (denotes kind)}
    {drafts : Draft denotes rest} {value : denotes kind} {values : Row denotes rest} :
    Draft.finish absent ((name, kind) :: rest) (draft, drafts) = .ok (value, values) ↔
      (draft <|> absent kind) = some value ∧ Draft.finish absent rest drafts = .ok values := by
  rw [Draft.finish]
  cases draft <|> absent kind with
  | none => simp
  | some v =>
    rw [Option.some.injEq]
    cases Draft.finish absent rest drafts with
    | error e => simp
    | ok vs =>
      constructor
      · intro h
        obtain ⟨rfl, rfl⟩ := Prod.mk.inj (Except.ok.inj h)
        exact ⟨rfl, rfl⟩
      · rintro ⟨rfl, h⟩
        rw [Except.ok.inj h]

/-- A draft is finished as the record if what it has not read may be missing. -/
theorem Draft.finish_ok_iff : ∀ {parts : List (String × κ)} {draft : Draft denotes parts} {row : Row denotes parts},
    Draft.finish absent parts draft = .ok row ↔
      Draft.Agrees parts draft row ∧ ∀ f ∈ Draft.unread absent spell n parts draft row, f.mayMiss
  | [], (), () => by simp [Draft.finish, Draft.Agrees, Draft.unread]
  | (name, kind) :: rest, (some v, drafts), (value, values) => by
    have ih : Draft.finish absent rest drafts = .ok values ↔
        Draft.Agrees rest drafts values ∧ ∀ f ∈ Draft.unread absent spell n rest drafts values, f.mayMiss := Draft.finish_ok_iff
    rw [Draft.finish_cons_ok_iff, ih, Draft.Agrees, Draft.unread, ← and_assoc]
    simp
  | (name, kind) :: rest, (none, drafts), (value, values) => by
    have ih : Draft.finish absent rest drafts = .ok values ↔
        Draft.Agrees rest drafts values ∧ ∀ f ∈ Draft.unread absent spell n rest drafts values, f.mayMiss := Draft.finish_ok_iff
    rw [Draft.finish_cons_ok_iff, ih, Draft.Agrees, Draft.unread]
    simp only [Option.orElse_eq_orElse, Option.orElse_none, reduceCtorEq, false_imp_iff, implies_true, true_and, fieldOf, List.mem_cons,
      forall_eq_or_imp]
    exact and_left_comm

/-- Unread fields have names of the parts. -/
theorem Draft.names_unread : ∀ {parts : List (String × κ)} {draft : Draft denotes parts} {row : Row denotes parts},
    ∀ f ∈ Draft.unread absent spell n parts draft row, f.name ∈ parts.map Prod.fst
  | [], (), () => by simp [Draft.unread]
  | (name, kind) :: rest, (some v, drafts), (value, values) => by
    intro f hf
    exact List.mem_cons_of_mem _ (Draft.names_unread f hf)
  | (name, kind) :: rest, (none, drafts), (value, values) => by
    intro f hf
    rcases List.mem_cons.1 hf with rfl | hf
    · exact List.mem_cons_self
    · exact List.mem_cons_of_mem _ (Draft.names_unread f hf)

/-! ### Reading a member into a draft -/

variable {read : (kind : κ) → Reader (denotes kind)} {key : String}

section Cons

variable {name : String} {kind : κ} {parts : List (String × κ)} {value : Option (denotes kind)} {values : Draft denotes parts}

/-- The reader of the value of a part. -/
def Draft.fill (values : Draft denotes parts) (r : Reader (denotes kind)) : Reader (Draft denotes ((name, kind) :: parts)) := do
  Reader.colon
  return (some (← r), values)

/-- The reader of a later part. -/
def Draft.after (value : Option (denotes kind)) (r : Reader (Draft denotes parts)) : Reader (Draft denotes ((name, kind) :: parts)) := do
  return (value, ← r)

/-- A member of another name belongs to one of the later parts. -/
theorem Draft.member?_cons_of_ne (h : key ≠ name) : Draft.member? read key ((name, kind) :: parts) (value, values) =
    (Draft.member? read key parts values).map (Draft.after value) := if_neg h

/-- A member of a name that was read before is a duplicate. -/
theorem Draft.member?_cons_some {v : denotes kind} (h : key = name) :
    Draft.member? read key ((name, kind) :: parts) (some v, values) = some (Reader.fail (.mismatch (.duplicatePart name))) := if_pos h

/-- A member of a name that is still unread is read for it. -/
theorem Draft.member?_cons_none (h : key = name) :
    Draft.member? read key ((name, kind) :: parts) (none, values) = some (Draft.fill values (read kind)) := if_pos h

end Cons

/-- A member belongs to no part if no part has its name. -/
theorem Draft.member?_eq_none_iff : ∀ {parts : List (String × κ)} {draft : Draft denotes parts},
    Draft.member? read key parts draft = none ↔ key ∉ parts.map Prod.fst
  | [], () => by simp [Draft.member?]
  | (name, kind) :: rest, (value, values) => by
    rw [List.map_cons, List.mem_cons, not_or]
    by_cases h : key = name
    · refine iff_of_false ?_ fun hn => hn.1 h
      cases value with
      | some v => rw [Draft.member?_cons_some h]; exact Option.some_ne_none _
      | none => rw [Draft.member?_cons_none h]; exact Option.some_ne_none _
    · rw [Draft.member?_cons_of_ne h, Option.map_eq_none_iff, Draft.member?_eq_none_iff, and_iff_right h]

variable {fuel : Nat} {s s' rest : List Char}

/-- A field is filled with what is read behind the colon. -/
theorem Draft.fill_ok_iff {name : String} {kind : κ} {parts : List (String × κ)} {value : Option (denotes kind)}
    {values values' : Draft denotes parts} {r : Reader (denotes kind)} :
    (Draft.fill values r : Reader (Draft denotes ((name, kind) :: parts))) n s = .ok ((value, values'), rest) ↔
      values = values' ∧ ∃ v s', value = some v ∧ skipBlanks s = ':' :: s' ∧ r n s' = .ok (v, rest) := by
  refine Reader.bind_ok_iff.trans ?_
  constructor
  · rintro ⟨_, s', hcolon, h⟩
    obtain ⟨v, mid, hv, h⟩ := Reader.bind_ok_iff.1 h
    obtain ⟨hd, rfl⟩ := Reader.pure_ok_iff.1 h
    obtain ⟨rfl, rfl⟩ := Prod.mk.inj hd
    exact ⟨rfl, v, s', rfl, Reader.colon_ok_iff.1 hcolon, hv⟩
  · rintro ⟨rfl, v, s', rfl, hcolon, hv⟩
    exact ⟨(), s', Reader.colon_ok_iff.2 hcolon, Reader.bind_ok_iff.2 ⟨v, rest, hv, rfl⟩⟩

/-- What was read for the first part stays while later parts are read. -/
theorem Draft.after_ok_iff {name : String} {kind : κ} {parts : List (String × κ)} {value value' : Option (denotes kind)}
    {values' : Draft denotes parts} {r : Reader (Draft denotes parts)} :
    (Draft.after value r : Reader (Draft denotes ((name, kind) :: parts))) n s = .ok ((value', values'), rest) ↔
      value = value' ∧ r n s = .ok (values', rest) := by
  refine Reader.bind_ok_iff.trans ?_
  constructor
  · rintro ⟨values, mid, hok, h⟩
    obtain ⟨hd, rfl⟩ := Reader.pure_ok_iff.1 h
    obtain ⟨rfl, rfl⟩ := Prod.mk.inj hd
    exact ⟨rfl, hok⟩
  · rintro ⟨rfl, hok⟩
    exact ⟨values', rest, hok, rfl⟩

/-- What is read into a draft is a field that was unread, whichever record the draft will be finished as. -/
theorem Draft.of_member? (hread : ∀ kind, (read kind).Recognizes fuel EndsNumber (spell kind)) (hr : EndsNumber rest)
    (hs : s.length < fuel) {parts : List (String × κ)} {draft draft' : Draft denotes parts} {r : Reader (Draft denotes parts)}
    (h : Draft.member? read key parts draft = some r) (hok : r n s = .ok (draft', rest)) :
    rest.length < s.length ∧ ∀ row, Draft.Agrees parts draft' row → Draft.Agrees parts draft row ∧ ∃ f s', f.name = key ∧
      (Draft.unread absent spell n parts draft row).Perm (f :: Draft.unread absent spell n parts draft' row) ∧
      skipBlanks s = ':' :: s' ∧ Starts f.value (skipBlanks s') rest := by
  induction parts with
  | nil => cases h
  | cons part parts ih =>
    obtain ⟨name, kind⟩ := part
    obtain ⟨value, values⟩ := draft
    obtain ⟨value', values'⟩ := draft'
    -- either the member is that of the first part, which was unread, or it belongs to a later one
    by_cases hkey : key = name
    · cases value with
      | some w =>
        rw [Draft.member?_cons_some hkey] at h
        cases h
        cases hok
      | none =>
        rw [Draft.member?_cons_none hkey] at h
        obtain rfl := Option.some.inj h
        obtain ⟨rfl, w, s', rfl, hcolon, hw⟩ := Draft.fill_ok_iff.1 hok
        have hlen : s'.length + 1 ≤ s.length := by
          have hle := length_skipBlanks_le s
          rwa [hcolon, List.length_cons] at hle
        have hw := ((hread kind).ok_iff (by omega) hr).1 hw
        have hle := hw.length_le
        have hle' := length_skipBlanks_le s'
        refine ⟨by omega, fun (v, vs) ha => ?_⟩
        obtain rfl := ha.1 w rfl
        exact ⟨⟨fun _ h => (nomatch h), ha.2⟩, fieldOf absent spell n name kind w, s', hkey.symm, List.Perm.refl _, hcolon, hw⟩
    · rw [Draft.member?_cons_of_ne hkey] at h
      obtain ⟨r', h', rfl⟩ := Option.map_eq_some_iff.1 h
      obtain ⟨rfl, hafter⟩ := Draft.after_ok_iff.1 hok
      obtain ⟨hlt, hrow⟩ := ih h' hafter
      refine ⟨hlt, fun (v, vs) ha => ?_⟩
      obtain ⟨hagree, f, s', hf, hperm, hcolon, hvalue⟩ := hrow vs ha.2
      refine ⟨⟨ha.1, hagree⟩, f, s', hf, ?_, hcolon, hvalue⟩
      cases value with
      | some w => exact hperm
      | none => exact (hperm.cons _).trans (List.Perm.swap _ _ _)

/-- The value of an unread field is no blank at its front. -/
theorem Draft.opens_unread (hread : ∀ kind, (read kind).Recognizes fuel EndsNumber (spell kind)) : ∀ {parts : List (String × κ)}
    {draft : Draft denotes parts} {row : Row denotes parts},
    ∀ f ∈ Draft.unread absent spell n parts draft row, Opens StartsPiece f.value
  | [], (), () => by simp [Draft.unread]
  | (name, kind) :: rest, (some v, drafts), (value, values) => by
    intro f hf
    have hf : f ∈ Draft.unread absent spell n rest drafts values := hf
    exact Draft.opens_unread hread f hf
  | (name, kind) :: rest, (none, drafts), (value, values) => by
    intro f hf
    rcases List.mem_cons.1 hf with rfl | hf
    · exact (hread kind).opens value n
    · exact Draft.opens_unread hread f hf

/-- A field that is unread is read into the draft. -/
theorem Draft.exists_member? (hread : ∀ kind, (read kind).Recognizes fuel EndsNumber (spell kind)) (hr : EndsNumber rest)
    (hs : s.length < fuel) {f : Field} (hkey : f.name = key) (hcolon : skipBlanks s = ':' :: s')
    (hf : Starts f.value (skipBlanks s') rest) {parts : List (String × κ)} {draft : Draft denotes parts} {row : Row denotes parts}
    (hnd : (parts.map Prod.fst).Nodup) (ha : Draft.Agrees parts draft row) (hmem : f ∈ Draft.unread absent spell n parts draft row) :
    ∃ r draft', Draft.member? read key parts draft = some r ∧ r n s = .ok (draft', rest) ∧ Draft.Agrees parts draft' row ∧
      (Draft.unread absent spell n parts draft row).Perm (f :: Draft.unread absent spell n parts draft' row) := by
  induction parts with
  | nil => cases hmem
  | cons part parts ih =>
    obtain ⟨name, kind⟩ := part
    obtain ⟨value, values⟩ := draft
    obtain ⟨v, vs⟩ := row
    obtain ⟨hname, hnd⟩ := List.nodup_cons.1 hnd
    have hlen : s'.length < fuel := by
      have hle := length_skipBlanks_le s
      rw [hcolon, List.length_cons] at hle
      omega
    by_cases hk : key = name
    · -- A later part of the same name is excluded, so the field is that of this part.
      have hlater : f ∉ Draft.unread absent spell n parts values vs := fun h => hname (by
        rw [← show f.name = name from hkey.trans hk]
        exact Draft.names_unread f h)
      cases value with
      | some w => exact absurd hmem hlater
      | none =>
        obtain rfl := (List.mem_cons.1 hmem).resolve_right hlater
        have hv : read kind n s' = .ok (v, rest) := ((hread kind).ok_iff hlen hr).2 hf
        refine ⟨_, (some v, values), Draft.member?_cons_none hk, Draft.fill_ok_iff.2 ⟨rfl, v, s', rfl, hcolon, hv⟩, ?_, List.Perm.refl _⟩
        exact ⟨fun w hw => (Option.some.inj hw).symm, ha.2⟩
    · have hlater : f ∈ Draft.unread absent spell n parts values vs := by
        cases value with
        | some w => exact hmem
        | none =>
          refine (List.mem_cons.1 hmem).resolve_left ?_
          rintro rfl
          exact hk hkey.symm
      obtain ⟨r, values', hr', hok, hagree, hperm⟩ := ih hnd ha.2 hlater
      refine ⟨Draft.after value r, (value, values'), ?_, Draft.after_ok_iff.2 ⟨rfl, hok⟩, ⟨ha.1, hagree⟩, ?_⟩
      · rw [Draft.member?_cons_of_ne hk, hr', Option.map_some]
      · cases value with
        | some w => exact hperm
        | none => exact (hperm.cons _).trans (List.Perm.swap _ _ _)

end Lemmas

/-! ### Reading an object -/

section Members

variable {s p t mid rest : List Char} {n : Nat} {first : Bool} {key : String} {value : Language Char}

/-- A member stands next, and `p` is its text after the opening quote. -/
def AtMember (first : Bool) (s p : List Char) : Prop :=
  if first then skipBlanks s = '"' :: p else ∃ s', skipBlanks s = ',' :: s' ∧ skipBlanks s' = '"' :: p

/-- Behind the quote of a member there is less text. -/
theorem AtMember.length_lt (h : AtMember first s p) : p.length < s.length := by
  have hle := length_skipBlanks_le s
  cases first with
  | true =>
    rw [AtMember, if_pos rfl] at h
    rw [h, List.length_cons] at hle
    omega
  | false =>
    rw [AtMember, if_neg Bool.false_ne_true] at h
    obtain ⟨s', hs, hs'⟩ := h
    have hle' := length_skipBlanks_le s'
    rw [hs, List.length_cons] at hle
    rw [hs', List.length_cons] at hle'
    omega

/-- Behind a colon there is less text. -/
theorem length_lt_of_colon (h : skipBlanks s = ':' :: p) : p.length < s.length := by
  have hle := length_skipBlanks_le s
  rw [h, List.length_cons] at hle
  omega

/-- At the closing brace there is no further member. -/
theorem Reader.beforeMember_end (h : skipBlanks s = '}' :: t) : Reader.beforeMember first n s = .ok (false, '}' :: t) := by
  rw [beforeMember, next_bind, h]
  rfl

/-- A member is found behind its lead. -/
theorem Reader.beforeMember_member (h : AtMember first s p) : Reader.beforeMember first n s = .ok (true, p) := by
  rw [beforeMember, next_bind]
  cases first with
  | true =>
    rw [AtMember, if_pos rfl] at h
    simp [h, advance_bind, pure_ok_iff]
  | false =>
    rw [AtMember, if_neg Bool.false_ne_true] at h
    obtain ⟨s', hs, hs'⟩ := h
    simp [hs, hs', advance_bind, next_bind, pure_ok_iff]

/-- Before a member stands the closing brace, or the member with its lead. -/
theorem Reader.beforeMember_cases {b : Bool} (h : Reader.beforeMember first n s = .ok (b, p)) :
    (b = false ∧ skipBlanks s = p ∧ ∃ t, p = '}' :: t) ∨ (b = true ∧ AtMember first s p) := by
  rw [beforeMember, next_bind] at h
  cases hs : skipBlanks s with
  | nil =>
    rw [hs] at h
    cases h
  | cons c t =>
    simp only [hs, List.head?_cons] at h
    split_ifs at h with hc hf hq hcomma
    · obtain ⟨rfl, rfl⟩ := pure_ok_iff.1 h
      exact .inl ⟨rfl, rfl, t, by rw [hc]⟩
    · rw [advance_bind] at h
      obtain ⟨rfl, rfl⟩ := pure_ok_iff.1 h
      refine .inr ⟨rfl, ?_⟩
      rw [AtMember, if_pos hf, hs, hq]
    · cases h
    · rw [advance_bind, next_bind] at h
      cases ht : skipBlanks t with
      | nil =>
        rw [ht] at h
        cases h
      | cons d u =>
        by_cases hd : d = '"'
        · subst hd
          simp only [ht, List.head?_cons, advance_bind] at h
          obtain ⟨rfl, rfl⟩ := pure_ok_iff.1 h
          refine .inr ⟨rfl, ?_⟩
          rw [AtMember, if_neg hf]
          exact ⟨t, by rw [hs, hcomma], ht⟩
        · simp [ht] at h
    · cases h

/-- A member and what stands before it. -/
theorem starts_piece_member (hv : Opens IsSolid value) : Starts (piece first (member (quoted key) value)) s rest ↔
    ∃ p s₁ s₂, AtMember first s p ∧ Starts (unquoted key.toList) p s₁ ∧ skipBlanks s₁ = ':' :: s₂ ∧
      Starts value (skipBlanks s₂) rest := by
  have hm : Opens IsSolid (member (quoted key) value) := ((opens_quoted key).mono fun c hc => hc ▸ rfl).mul
  cases first with
  | true =>
    simp only [piece, if_true, starts_blanks_mul hm, starts_member hv, starts_quoted, AtMember]
    constructor
    · rintro ⟨s₁, s₂, ⟨p, hp, h₁⟩, h₂, h₃⟩
      exact ⟨p, s₁, s₂, hp, h₁, h₂, h₃⟩
    · rintro ⟨p, s₁, s₂, hp, h₁, h₂, h₃⟩
      exact ⟨s₁, s₂, ⟨p, hp, h₁⟩, h₂, h₃⟩
  | false =>
    simp only [piece, Bool.false_eq_true, if_false, starts_blanks_mark (show IsSolid ',' from rfl), starts_blanks_mul hm,
      starts_member hv, starts_quoted, AtMember]
    constructor
    · rintro ⟨s', hs', s₁, s₂, ⟨p, hp, h₁⟩, h₂, h₃⟩
      exact ⟨p, s₁, s₂, ⟨s', hs', hp⟩, h₁, h₂, h₃⟩
    · rintro ⟨p, s₁, s₂, ⟨s', hs', hp⟩, h₁, h₂, h₃⟩
      exact ⟨s', hs', s₁, s₂, ⟨p, hp, h₁⟩, h₂, h₃⟩

/-- Before further members or the end of an object a number ends. -/
theorem Reader.endsNumber_of_beforeMember {b : Bool} (h : Reader.beforeMember false n s = .ok (b, rest)) : EndsNumber s := by
  rcases beforeMember_cases h with ⟨-, hs, t, rfl⟩ | ⟨-, hs⟩
  · exact endsNumber_of_skipBlanks hs (.inr (.inr rfl))
  · rw [AtMember, if_neg Bool.false_ne_true] at hs
    obtain ⟨s', hs, -⟩ := hs
    exact endsNumber_of_skipBlanks hs (.inl rfl)

end Members

namespace Reader

section Objects

variable {absent : (kind : κ) → Option (denotes kind)} {spell : (kind : κ) → denotes kind → Nat → Language Char}
  {read : (kind : κ) → Reader (denotes kind)} {parts : List (String × κ)} {row : Row denotes parts} {n fuel : Nat}
  {s mid rest : List Char}

/-- The value of an unknown member is passed over. -/
theorem pass_ok_iff {α : Type} {k : Reader α} {x : α × List Char} : (do colon; skip fuel; k : Reader α) n s = .ok x ↔
    ∃ s₂ s₃, skipBlanks s = ':' :: s₂ ∧ skipValue (2 * fuel + 2) s₂ = .ok ((), s₃) ∧ k n s₃ = .ok x := by
  simp only [bind_ok_iff, colon_ok_iff]
  constructor
  · rintro ⟨_, s₂, hcolon, _, s₃, hskip, hk⟩
    exact ⟨s₂, s₃, hcolon, hskip, hk⟩
  · rintro ⟨s₂, s₃, hcolon, hskip, hk⟩
    exact ⟨(), s₂, hcolon, (), s₃, hskip, hk⟩

/-- Where members go on after a number, the number has ended. -/
theorem endsNumber_of_members {turns : Nat} {draft draft' : Draft denotes parts}
    (h : members read parts fuel turns false draft n s = .ok (draft', mid)) : EndsNumber s := by
  cases turns with
  | zero => cases h
  | succ turns =>
    rw [members, bind_ok_iff] at h
    obtain ⟨b, mid, h, -⟩ := h
    exact endsNumber_of_beforeMember h

/-- In one turn the object ends, an unknown member is passed over, or a member is read into the draft. -/
theorem members_succ_ok_iff {turns : Nat} {first : Bool} {draft draft' : Draft denotes parts} :
    members read parts fuel (turns + 1) first draft n s = .ok (draft', mid) ↔
      (draft = draft' ∧ skipBlanks s = mid ∧ ∃ t, mid = '}' :: t) ∨
      ∃ p key s₁, AtMember first s p ∧ Starts (unquoted key.toList) p s₁ ∧
        ((key ∉ parts.map Prod.fst ∧ ∃ s₂ s₃, skipBlanks s₁ = ':' :: s₂ ∧ skipValue (2 * fuel + 2) s₂ = .ok ((), s₃) ∧
            members read parts fuel turns false draft n s₃ = .ok (draft', mid)) ∨
          ∃ r draft₁ s₃, Draft.member? read key parts draft = some r ∧ r n s₁ = .ok (draft₁, s₃) ∧
            members read parts fuel turns false draft₁ n s₃ = .ok (draft', mid)) := by
  rw [members, bind_ok_iff]
  constructor
  · rintro ⟨b, p, hbefore, hok⟩
    rcases beforeMember_cases hbefore with ⟨rfl, hp, hend⟩ | ⟨rfl, hp⟩
    · obtain ⟨rfl, rfl⟩ := pure_ok_iff.1 hok
      exact .inl ⟨rfl, hp, hend⟩
    · obtain ⟨key, s₁, hkey, hok⟩ := bind_ok_iff.1 hok
      refine .inr ⟨p, key, s₁, hp, scanString_iff.1 hkey, ?_⟩
      cases hm : Draft.member? read key parts draft with
      | none =>
        rw [hm] at hok
        exact .inl ⟨Draft.member?_eq_none_iff.1 hm, pass_ok_iff.1 hok⟩
      | some r =>
        rw [hm] at hok
        obtain ⟨draft₁, s₃, hr, hok⟩ := bind_ok_iff.1 hok
        exact .inr ⟨r, draft₁, s₃, rfl, hr, hok⟩
  · rintro (⟨rfl, rfl, t, ht⟩ | ⟨p, key, s₁, hp, hkey, hmember⟩)
    · rw [ht]
      exact ⟨false, '}' :: t, beforeMember_end ht, rfl⟩
    · refine ⟨true, p, beforeMember_member hp, bind_ok_iff.2 ⟨key, s₁, scanString_iff.2 hkey, ?_⟩⟩
      rcases hmember with ⟨hunknown, hpass⟩ | ⟨r, draft₁, s₃, hm, hr, hok⟩
      · rw [Draft.member?_eq_none_iff.2 hunknown]
        exact pass_ok_iff.2 hpass
      · rw [hm]
        exact bind_ok_iff.2 ⟨draft₁, s₃, hr, hok⟩

/-- Members that are read up to the end of their object arrange the fields that were unread. -/
theorem arranges_of_members (hread : ∀ kind, (read kind).Recognizes fuel EndsNumber (spell kind)) :
    ∀ {turns : Nat} {first : Bool} {draft draft' : Draft denotes parts} {s : List Char}, s.length < fuel →
      members read parts fuel turns first draft n s = .ok (draft', mid) → Draft.finish absent parts draft' = .ok row →
      skipBlanks mid = '}' :: rest →
      Draft.Agrees parts draft row ∧ ∃ ms, Arranges (parts.map Prod.fst) (Draft.unread absent spell n parts draft row) ms ∧
        Starts (pieces first ms * (blanks * word ['}'])) s rest
  | 0, _, _, _, _, _, hok, _, _ => by cases hok
  | turns + 1, first, draft, draft', s, hs, hok, hfinish, hmid => by
    rcases members_succ_ok_iff.1 hok with ⟨rfl, hp, t, rfl⟩ | ⟨p, key, s₁, hp, hkey, hmember⟩
    · rw [skipBlanks_cons_of_solid rfl] at hmid
      obtain ⟨hagree, hmay⟩ := Draft.finish_ok_iff.1 hfinish
      refine ⟨hagree, [], arranges_nil_iff.2 hmay, ?_⟩
      rw [pieces, one_mul, starts_blanks_last rfl, hp, hmid]
    have hlt : s₁.length < s.length := Nat.lt_of_le_of_lt hkey.length_le hp.length_lt
    rcases hmember with ⟨hunknown, s₂, s₃, hcolon, hskip, hok⟩ | ⟨r, draft₁, s₃, hm, hr, hok⟩
    · have hlt' := length_lt_of_colon hcolon
      have hv := (skipValue_iff (by omega) (endsNumber_of_members hok)).1 hskip
      have hle := hv.length_le
      have hle' := length_skipBlanks_le s₂
      obtain ⟨hagree, ms, harr, hms⟩ := arranges_of_members hread (by omega) hok hfinish hmid
      refine ⟨hagree, _, harr.unknown ⟨key, hunknown, rfl⟩, starts_pieces_cons.2 ⟨s₃, ?_, hms⟩⟩
      exact (starts_piece_member opens_skippable.solid).2 ⟨p, s₁, s₂, hp, hkey, hcolon, hv⟩
    · obtain ⟨hlt', hrow⟩ := Draft.of_member? hread (endsNumber_of_members hok) (by omega) hm hr
      obtain ⟨hagree, ms, harr, hms⟩ := arranges_of_members hread (by omega) hok hfinish hmid
      obtain ⟨hagree, f, s₂, rfl, hperm, hcolon, hv⟩ := hrow row hagree
      have hopens := Draft.opens_unread hread f (hperm.mem_iff.2 List.mem_cons_self)
      refine ⟨hagree, _, harr.field hperm, starts_pieces_cons.2 ⟨s₃, ?_, hms⟩⟩
      exact (starts_piece_member hopens.solid).2 ⟨p, s₁, s₂, hp, hkey, hcolon, hv⟩

/-- Members that arrange the fields that are unread are read up to the end of their object. -/
theorem exists_members_of_arranges (hread : ∀ kind, (read kind).Recognizes fuel EndsNumber (spell kind))
    (hnd : (parts.map Prod.fst).Nodup) :
    ∀ {turns : Nat} {first : Bool} {draft : Draft denotes parts} {s : List Char} {ms : List (Language Char)},
      s.length < turns → s.length < fuel → Draft.Agrees parts draft row →
      Arranges (parts.map Prod.fst) (Draft.unread absent spell n parts draft row) ms →
      Starts (pieces first ms * (blanks * word ['}'])) s rest →
      ∃ draft' mid, members read parts fuel turns first draft n s = .ok (draft', mid) ∧ Draft.finish absent parts draft' = .ok row ∧
        skipBlanks mid = '}' :: rest
  | 0, _, _, _, _, ht, _, _, _, _ => absurd ht (Nat.not_lt_zero _)
  | turns + 1, first, draft, s, [], ht, hs, hagree, harr, hms => by
    rw [pieces, one_mul, starts_blanks_last rfl] at hms
    refine ⟨draft, '}' :: rest, members_succ_ok_iff.2 (.inl ⟨rfl, hms, rest, rfl⟩), ?_, skipBlanks_cons_of_solid rfl⟩
    exact Draft.finish_ok_iff.2 ⟨hagree, arranges_nil_iff.1 harr⟩
  | turns + 1, first, draft, s, m :: ms, ht, hs, hagree, harr, hms => by
    obtain ⟨s₃, hm, hlater⟩ := starts_pieces_cons.1 hms
    have hends := endsNumber_of_further (.inr rfl) hlater
    rcases harr.cons_cases with ⟨f, fields', rfl, hperm, hleft⟩ | ⟨⟨key, hunknown, rfl⟩, hleft⟩
    · have hf := hperm.mem_iff.2 List.mem_cons_self
      obtain ⟨p, s₁, s₂, hp, hkey, hcolon, hv⟩ := (starts_piece_member (Draft.opens_unread hread f hf).solid).1 hm
      have hlt : s₁.length < s.length := Nat.lt_of_le_of_lt hkey.length_le hp.length_lt
      obtain ⟨r, draft₁, hr, hok, hagree, hperm'⟩ := Draft.exists_member? hread hends (by omega) rfl hcolon hv hnd hagree hf
      have hlt' := length_lt_of_colon hcolon
      have hle := hv.length_le
      have hle' := length_skipBlanks_le s₂
      have hleft := hleft.perm ((hperm.symm.trans hperm').cons_inv)
      have hturns : s₃.length < turns := by omega
      obtain ⟨draft', mid, hloop, hdone⟩ := exists_members_of_arranges hread hnd hturns (by omega) hagree hleft hlater
      exact ⟨draft', mid, members_succ_ok_iff.2 (.inr ⟨p, f.name, s₁, hp, hkey, .inr ⟨r, draft₁, s₃, hr, hok, hloop⟩⟩), hdone⟩
    · obtain ⟨p, s₁, s₂, hp, hkey, hcolon, hv⟩ := (starts_piece_member opens_skippable.solid).1 hm
      have hlt : s₁.length < s.length := Nat.lt_of_le_of_lt hkey.length_le hp.length_lt
      have hlt' := length_lt_of_colon hcolon
      have hle := hv.length_le
      have hle' := length_skipBlanks_le s₂
      have hturns : s₃.length < turns := by omega
      have hskip : skipValue (2 * fuel + 2) s₂ = .ok ((), s₃) := (skipValue_iff (by omega) hends).2 hv
      obtain ⟨draft', mid, hloop, hdone⟩ := exists_members_of_arranges hread hnd hturns (by omega) hagree hleft hlater
      exact ⟨draft', mid, members_succ_ok_iff.2 (.inr ⟨p, key, s₁, hp, hkey, .inl ⟨hunknown, s₂, s₃, hcolon, hskip, hloop⟩⟩), hdone⟩

/-- After the value of a part, with other values and the end of the array to come, a number ends. -/
theorem endsNumber_of_row {label : String} {count : Nat} (h : Reader.row read label (count + 1) parts n s = .ok (row, mid))
    (hmid : skipBlanks mid = ']' :: rest) : EndsNumber s := by
  cases parts with
  | nil =>
    obtain ⟨-, rfl⟩ := pure_ok_iff.1 h
    exact endsNumber_of_skipBlanks hmid (.inr (.inl rfl))
  | cons part parts =>
    obtain ⟨b, p, h, -⟩ := bind_ok_iff.1 h
    exact endsNumber_of_beforeItem h

/-- The items of an array are read as the parts in their order. -/
theorem row_ok_iff (hread : ∀ kind, (read kind).Recognizes fuel EndsNumber (spell kind)) {label : String} :
    ∀ {parts : List (String × κ)} {row : Row denotes parts} {count : Nat} {s : List Char}, s.length < fuel →
      ((∃ mid, Reader.row read label count parts n s = .ok (row, mid) ∧ skipBlanks mid = ']' :: rest) ↔
        Starts (pieces (decide (count = 0)) ((Row.fields absent spell n parts row).map Field.value) * (blanks * word [']'])) s rest)
  | [], (), count, s, _ => by
    rw [Row.fields, List.map_nil, pieces, one_mul, starts_blanks_last rfl]
    constructor
    · rintro ⟨mid, h, hmid⟩
      obtain ⟨-, rfl⟩ := pure_ok_iff.1 h
      exact hmid
    · intro h
      exact ⟨s, rfl, h⟩
  | (name, kind) :: parts, (value, values), count, s, hs => by
    have ih {s₁ : List Char} (hlt : s₁.length < s.length) :
        (∃ mid, Reader.row read label (count + 1) parts n s₁ = .ok (values, mid) ∧ skipBlanks mid = ']' :: rest) ↔
          Starts (pieces false ((Row.fields absent spell n parts values).map Field.value) * (blanks * word [']'])) s₁ rest :=
      row_ok_iff hread (by omega)
    rw [Row.fields, List.map_cons, starts_pieces_cons]
    constructor
    · rintro ⟨mid, hok, hmid⟩
      obtain ⟨v, s₁, hv, hok⟩ := required_item_iff.1 hok
      obtain ⟨vs, s₂, hvs, hret⟩ := bind_ok_iff.1 hok
      obtain ⟨hrow, rfl⟩ := pure_ok_iff.1 hret
      obtain ⟨rfl, rfl⟩ := Prod.mk.inj hrow
      have hv := (item_iff (hread kind) hs (endsNumber_of_row hvs hmid)).1 hv
      exact ⟨s₁, hv, (ih (length_lt_of_piece ((hread kind).opens v n) hv)).1 ⟨_, hvs, hmid⟩⟩
    · rintro ⟨s₁, hv, hvs⟩
      obtain ⟨mid, hvs', hmid⟩ := (ih (length_lt_of_piece ((hread kind).opens value n) hv)).2 hvs
      have hv := (item_iff (hread kind) hs (endsNumber_of_further (.inl rfl) hvs)).2 hv
      exact ⟨mid, required_item_iff.2 ⟨value, s₁, hv, bind_ok_iff.2 ⟨values, mid, hvs', rfl⟩⟩, hmid⟩

/-- The members of an object are read, and its draft finished, where members stand that arrange the fields. -/
theorem object_ok_iff (hread : ∀ kind, (read kind).Recognizes fuel EndsNumber (spell kind)) (hnd : (parts.map Prod.fst).Nodup)
    {t : List Char} (ht : t.length < fuel) :
    (do
      let draft ← members read parts fuel fuel true (Draft.empty parts)
      match draft.finish absent parts with
      | .error e => fail (.mismatch e)
      | .ok values =>
        closing '}'
        return values : Reader (Row denotes parts)) n t = .ok (row, rest) ↔
      ∃ ms, Arranges (parts.map Prod.fst) (Row.fields absent spell n parts row) ms ∧
        Starts (pieces true ms * (blanks * word ['}'])) t rest := by
  constructor
  · intro h
    obtain ⟨draft, mid, hok, h⟩ := bind_ok_iff.1 h
    cases hfinish : Draft.finish absent parts draft with
    | error e => simp [hfinish] at h
    | ok values =>
      rw [hfinish] at h
      obtain ⟨rfl, hmid⟩ := close_ok_iff.1 h
      obtain ⟨-, hms⟩ := arranges_of_members hread ht hok hfinish hmid
      rwa [Draft.unread_empty] at hms
  · rintro ⟨ms, harr, hms⟩
    rw [← Draft.unread_empty] at harr
    obtain ⟨draft, mid, hok, hfinish, hmid⟩ := exists_members_of_arranges hread hnd ht ht (Draft.agrees_empty parts row) harr hms
    refine bind_ok_iff.2 ⟨draft, mid, hok, ?_⟩
    rw [hfinish]
    exact close_ok_iff.2 ⟨rfl, hmid⟩

/-- The values of an array are read where the values of the fields stand in their order. -/
theorem array_ok_iff (hread : ∀ kind, (read kind).Recognizes fuel EndsNumber (spell kind)) {label : String} {t : List Char}
    (ht : t.length < fuel) :
    (do
      let values ← Reader.row read label 0 parts
      closing ']'
      return values : Reader (Row denotes parts)) n t = .ok (row, rest) ↔
      Starts (pieces true ((Row.fields absent spell n parts row).map Field.value) * (blanks * word [']'])) t rest := by
  have hvalues : (∃ mid, Reader.row read label 0 parts n t = .ok (row, mid) ∧ skipBlanks mid = ']' :: rest) ↔
      Starts (pieces true ((Row.fields absent spell n parts row).map Field.value) * (blanks * word [']'])) t rest :=
    row_ok_iff hread ht
  rw [← hvalues]
  constructor
  · intro h
    obtain ⟨values, mid, hrow, hclose⟩ := bind_ok_iff.1 h
    obtain ⟨rfl, hmid⟩ := close_ok_iff.1 hclose
    exact ⟨mid, hrow, hmid⟩
  · rintro ⟨mid, hrow, hmid⟩
    exact bind_ok_iff.2 ⟨row, mid, hrow, close_ok_iff.2 ⟨rfl, hmid⟩⟩

/-- A record is read if it is spelled. -/
theorem Recognizes.record (hread : ∀ kind, (read kind).Recognizes fuel EndsNumber (spell kind)) (hnd : (parts.map Prod.fst).Nodup)
    {label : String} : Recognizes fuel anything (record fuel label read absent parts)
      fun row => Json.record fun n => Row.fields absent spell n parts row := by
  refine ⟨fun row n => opens_record (startsPiece_left (.inl rfl)) (startsPiece_left (.inr rfl)) n, fun {row n s rest} hs _ => ?_⟩
  have hle := length_skipBlanks_le s
  rw [Reader.record, next_bind, Json.record, starts_inside]
  simp only [starts_add, starts_arranged, Row.names_fields, array, object, enclosed, starts_cons_mul, ← pieces_true]
  cases hc : skipBlanks s with
  | nil => simp
  | cons c t =>
    -- the bracket tells an array of values from an object
    rw [hc, List.length_cons] at hle
    by_cases hb : c = '['
    · subst hb
      simp only [List.head?_cons, nested_ok_iff, advance_bind, List.cons.injEq, true_and, exists_eq_left', Char.reduceEq, false_and,
        exists_false, and_false, or_false]
      exact exists_congr fun k => and_congr_right fun _ => array_ok_iff hread (by omega)
    · by_cases hb' : c = '{'
      · subst hb'
        simp only [List.head?_cons, nested_ok_iff, advance_bind, List.cons.injEq, true_and, exists_eq_left', Char.reduceEq, false_and,
          exists_false, false_or]
        exact exists_congr fun k => and_congr_right fun _ => object_ok_iff hread hnd (by omega)
      · simp [hb, hb']

end Objects

end Reader

end ExprLang.Json
