import ExprLang.Proofs.Json.Records
import ExprLang.Proofs.Json.Writing

/-!
# Reading back what was written

`Reader.Restores` says of a reader, a value and a document that the reader gives the value back wherever the document stands, or refuses
the document as something else than what is expected, whichever a condition on the value says. Every combinator hands the property on:
the condition on a whole is that on all of its parts, because the first part that is refused ends the reading.
-/

namespace ExprLang.Json

open Number

/-- Reading gives the value where `good` holds, and refuses a mismatch where it does not. -/
structure Outcome {α : Type} (good : Prop) (x : Except ReadError α) (a : α) : Prop where
  /-- The value. -/
  ok : good → x = .ok a
  /-- The refusal. -/
  refused : ¬ good → ∃ m, x = .error (.mismatch m)

/-! ### Layout -/

section Layout

variable {level n : Nat} {s t rest : List Char} {c : Char} {first : Bool} {d : Document}

/-- A new line and its indentation are blanks. -/
theorem newline_mem_blanks (level : Nat) : Document.newline level ∈ blanks := by
  intro c hc
  rcases List.mem_cons.1 hc with rfl | hc
  · rfl
  · rw [List.eq_of_mem_replicate hc]
    rfl

/-- Blanks in front of a text are dropped with those of the text. -/
theorem skipBlanks_append (h : s ∈ blanks) : skipBlanks (s ++ t) = skipBlanks t := by
  rw [skipBlanks, List.dropWhile_append_of_pos h, skipBlanks]

@[simp] theorem skipBlanks_newline : skipBlanks (Document.newline level ++ s) = skipBlanks s :=
  skipBlanks_append (newline_mem_blanks level)

/-- What is written before an item or a member. -/
def lead (first : Bool) (level : Nat) : List Char := (if first then [] else [',']) ++ Document.newline level

/-- Items as they are written, from the first one on or further ones. -/
def itemsText (first : Bool) (level : Nat) : List Document → List Char
  | [] => []
  | d :: ds => lead first level ++ (d.chars level ++ Document.itemChars level ds)

/-- Items after the first one are written as the document writes them. -/
theorem itemsText_false (ds : List Document) : itemsText false level ds = Document.itemChars level ds := by
  cases ds with
  | nil => rfl
  | cons d ds => simp [itemsText, lead, Document.itemChars]

/-- The first of several items is written with its lead, before the others. -/
theorem itemsText_cons_append (first : Bool) (level : Nat) (d : Document) (ds : List Document) (close : List Char) :
    itemsText first level (d :: ds) ++ close = lead first level ++ (d.chars level ++ (itemsText false level ds ++ close)) := by
  rw [itemsText, itemsText_false, List.append_assoc, List.append_assoc]

/-- The items after the first are a shorter text. -/
theorem length_itemsText_lt (first : Bool) (level : Nat) (d : Document) (ds : List Document) (close : List Char) :
    (itemsText false level ds ++ close).length < (itemsText first level (d :: ds) ++ close).length := by
  have hlead : (lead first level).length ≠ 0 := by simp [lead, Document.newline]
  rw [itemsText_cons_append]
  simp only [List.length_append]
  omega

/-- Members as they are written, from the first one on or further ones. -/
def membersText (first : Bool) (level : Nat) : List (String × Document) → List Char
  | [] => []
  | (name, d) :: ms =>
    lead first level ++ (Document.stringChars name ++ (':' :: ' ' :: (d.chars level ++ Document.memberChars level ms)))

/-- Members after the first one are written as the document writes them. -/
theorem membersText_false (ms : List (String × Document)) : membersText false level ms = Document.memberChars level ms := by
  cases ms with
  | nil => rfl
  | cons m ms => simp [membersText, lead, Document.memberChars]

/-- The first of several members is written with its lead, name and colon, before the others. -/
theorem membersText_cons_append (first : Bool) (level : Nat) (name : String) (d : Document) (ms : List (String × Document))
    (close : List Char) : membersText first level ((name, d) :: ms) ++ close =
      lead first level ++ (Document.stringChars name ++ (':' :: ' ' :: (d.chars level ++ (membersText false level ms ++ close)))) := by
  rw [membersText_false]
  simp only [membersText, List.append_assoc, List.cons_append]

/-- A member is longer than its value. -/
theorem length_membersText_lt (first : Bool) (level : Nat) (name : String) (d : Document) (ms : List (String × Document))
    (close : List Char) : (d.chars level ++ (membersText false level ms ++ close)).length + 1 <
      (membersText first level ((name, d) :: ms) ++ close).length := by
  rw [membersText_cons_append]
  simp only [List.length_append, List.length_cons]
  omega

/-- An array is its items between brackets; the closing one may stand on a line of its own. -/
theorem chars_array (level : Nat) (rest : List Char) (ds : List Document) : ∃ close,
    (Document.array ds).chars level ++ rest = '[' :: (itemsText true (level + 1) ds ++ close) ∧ skipBlanks close = ']' :: rest := by
  cases ds with
  | nil => exact ⟨']' :: rest, rfl, rfl⟩
  | cons d ds =>
    refine ⟨Document.newline level ++ ']' :: rest, ?_, ?_⟩
    · simp [itemsText, lead, Document.chars]
    · rw [skipBlanks_newline]
      rfl

/-- An object is written as its members between two braces. -/
theorem chars_object (level : Nat) (rest : List Char) (ms : List (String × Document)) : ∃ close,
    (Document.object ms).chars level ++ rest = '{' :: (membersText true (level + 1) ms ++ close) ∧ skipBlanks close = '}' :: rest := by
  cases ms with
  | nil => exact ⟨'}' :: rest, rfl, rfl⟩
  | cons m ms =>
    refine ⟨Document.newline level ++ '}' :: rest, ?_, ?_⟩
    · simp [membersText, lead, Document.chars]
    · rw [skipBlanks_newline]
      rfl

/-- Before the first piece stand only blanks. -/
theorem skipBlanks_lead_true : skipBlanks (lead true level ++ s) = skipBlanks s := by
  rw [lead, if_pos rfl, List.nil_append, skipBlanks_newline]

/-- Before a further piece stands a comma. -/
theorem skipBlanks_lead_false : skipBlanks (lead false level ++ s) = ',' :: (Document.newline level ++ s) := rfl

theorem skipBlanks_stringChars (name : String) : skipBlanks (Document.stringChars name ++ s) = Document.stringChars name ++ s :=
  skipBlanks_cons_of_solid rfl

/-- A string as it is written is one of its spellings. -/
theorem starts_stringChars (name : String) : Starts (quoted name) (Document.stringChars name ++ s) s :=
  ⟨_, stringChars_mem_quoted name, rfl⟩

/-- After an item a number ends. -/
theorem endsNumber_itemsText {close : List Char} (hclose : skipBlanks close = ']' :: rest) (ds : List Document) :
    EndsNumber (itemsText false level ds ++ close) := by
  cases ds with
  | nil => exact endsNumber_of_skipBlanks hclose (.inr (.inl rfl))
  | cons d ds => exact endsNumber_of_skipBlanks (skipBlanks_cons_of_solid rfl) (.inl rfl)

/-- After a member a number ends. -/
theorem endsNumber_membersText {close : List Char} (hclose : skipBlanks close = '}' :: rest) (ms : List (String × Document)) :
    EndsNumber (membersText false level ms ++ close) := by
  cases ms with
  | nil => exact endsNumber_of_skipBlanks hclose (.inr (.inr rfl))
  | cons m ms => exact endsNumber_of_skipBlanks (skipBlanks_cons_of_solid rfl) (.inl rfl)

end Layout

/-! ### Outcomes -/

namespace Outcome

variable {α β : Type} {a : α} {n : Nat} {s mid : List Char} {good good' : Prop} {r : Reader α} {f : α → Reader β}
  {x : β × List Char}

/-- A reading that goes well needs no condition. -/
theorem of_ok {x : Except ReadError α} (h : x = .ok a) : Outcome True x a := ⟨fun _ => h, fun hn => (hn trivial).elim⟩

/-- The condition of a reading may be said in another way. -/
theorem congr {x : Except ReadError α} (h : Outcome good x a) (hg : good ↔ good') : Outcome good' x a :=
  ⟨fun hgood => h.ok (hg.2 hgood), fun hbad => h.refused fun hgood => hbad (hg.1 hgood)⟩

/-- A step that gives its value leaves the outcome to the next. -/
theorem ok_bind (h : r n s = .ok (a, mid)) (h' : Outcome good (f a n mid) x) : Outcome good ((r >>= f) n s) x := by
  rwa [Reader.bind_of_ok h]

/-- The first step that is refused ends the reading. -/
theorem bind (h : Outcome good (r n s) (a, mid)) (h' : good → Outcome good' (f a n mid) x) :
    Outcome (good ∧ good') ((r >>= f) n s) x := by
  by_cases hg : good
  · exact (ok_bind (h.ok hg) (h' hg)).congr (and_iff_right hg).symm
  · obtain ⟨m, hm⟩ := h.refused hg
    exact ⟨fun hgood => absurd hgood.1 hg, fun _ => ⟨m, Reader.bind_of_error hm⟩⟩

/-- What is made of a value that is read does not change the condition. -/
theorem map {g : α → β} (h : Outcome good (r n s) (a, mid)) : Outcome good ((do return g (← r)) n s) (g a, mid) :=
  (h.bind fun _ => .of_ok rfl).congr (and_iff_left trivial)

end Outcome

namespace Reader

variable {α β : Type} {a : α} {b : β} {n fuel level : Nat} {s p mid rest : List Char} {good good' : Prop} {d d' : Document}
  {r : Reader α} {f : α → Reader β} {x : β × List Char}

/-- An item that is there is read, and then what follows. -/
theorem outcome_required_item {first : Bool} {e : ReadError} (hp : beforeItem first n s = .ok (true, p))
    (h : Outcome good (r n p) (a, mid)) (h' : good → Outcome good' (f a n mid) x) :
    Outcome (good ∧ good') ((do if !(← beforeItem first) then fail e
                                let a ← r
                                f a : Reader β) n s) x :=
  .ok_bind hp (h.bind h')

/-! ### Values -/

/-- The reader gives the value back wherever the document stands, if `good` holds, and refuses the document if not. -/
structure Restores (fuel : Nat) (r : Reader α) (n : Nat) (good : Prop) (a : α) (d : Document) : Prop where
  /-- The document starts like an item or a member. -/
  opens (level : Nat) : ∃ c t, d.chars level = c :: t ∧ StartsPiece c
  /-- What comes of reading it, perhaps after blanks. -/
  outcome {level : Nat} {s rest : List Char} : skipBlanks s = d.chars level ++ rest → EndsNumber rest → s.length < fuel →
    Outcome good (r n s) (a, rest)

/-- The condition under which a document is read again may be said in another way. -/
theorem Restores.congr (h : Restores fuel r n good a d) (hg : good ↔ good') : Restores fuel r n good' a d :=
  ⟨h.opens, fun hs hr hlt => (h.outcome hs hr hlt).congr hg⟩

/-- A reader may make something of what it restores. -/
theorem Restores.map {g : α → β} (h : Restores fuel r n good a d) : Restores fuel (do return g (← r)) n good (g a) d :=
  ⟨h.opens, fun hs hr hlt => (h.outcome hs hr hlt).map⟩

/-- Where the text written is a spelling of the value, the value is read. -/
theorem Recognizes.restores {spellings : α → Nat → Language Char} (h : Recognizes fuel EndsNumber r spellings)
    (hd : ∀ level, d.chars level ∈ spellings a n) : Restores fuel r n True a d where
  opens level := h.opens a n _ (hd level)
  outcome hs hr hlt := .of_ok ((h.ok_iff hlt hr).2 ⟨_, hd _, hs.symm⟩)

/-- A float is read back if it is finite; the `null` that is written of another is no float. -/
theorem restores_float32 {x : Float32} (hfinite : good → Document.floatChars x ∈ float x)
    (hinfinite : ¬ good → Document.floatChars x = ['n', 'u', 'l', 'l']) : Restores fuel float32 n good x (.float x) := by
  by_cases hgood : good
  · exact (recognizes_float32.restores fun _ => hfinite hgood).congr (iff_of_true trivial hgood)
  · refine ⟨fun level => ⟨'n', ['u', 'l', 'l'], hinfinite hgood, rfl, by decide, by decide⟩, fun {level s rest} hs _ _ => ?_⟩
    rw [Document.chars, hinfinite hgood] at hs
    refine ⟨fun h => absurd h hgood, fun _ => ⟨.wrongType .null "f32", bind_of_error ?_⟩⟩
    rw [numeral, next_bind, hs]
    rfl

/-- A value that is there is restored if no text of it could be taken for nothing. -/
theorem Restores.optional_some (h : Restores fuel r n good a d) (hn : ∀ level, (d.chars level).head? ≠ some 'n') :
    Restores fuel (optional r) n good (some a) d := by
  refine ⟨h.opens, fun {level s rest} hs hr hlt => ?_⟩
  obtain ⟨c, t, hc, hp⟩ := h.opens level
  have hcn : c ≠ 'n' := fun hcn => hn level (by rw [hc, hcn]; rfl)
  have hle := length_skipBlanks_le s
  have hsome : Reader.optional r n s = (do return some (← r) : Reader (Option α)) n (skipBlanks s) := by
    rw [Reader.optional, next_bind, hs, hc]
    simp [hcn]
  rw [hsome]
  exact (h.outcome (by rw [skipBlanks_skipBlanks, hs]) hr (by omega)).map

/-- Nothing is written as null and read again as nothing. -/
theorem restores_optional_none : Restores fuel (optional r) n True none .null := by
  refine ⟨fun level => ⟨'n', ['u', 'l', 'l'], rfl, rfl, by decide, by decide⟩, fun {level s rest} hs _ _ => .of_ok ?_⟩
  rw [Reader.optional, next_bind, hs]
  exact bind_of_ok (a := ()) (scanWord_iff.2 rfl)

/-! ### Arrays -/

/-- Before each item the reader finds the lead that was written. -/
theorem beforeItem_lead {first : Bool} {c : Char} {t : List Char} (hc : StartsPiece c) :
    beforeItem first n (lead first level ++ (c :: t)) = .ok (true, c :: t) := by
  have hsolid : skipBlanks (Document.newline level ++ (c :: t)) = c :: t := by rw [skipBlanks_newline, skipBlanks_cons_of_solid hc.solid]
  cases first with
  | true => exact beforeItem_first hsolid hc.ne_bracket
  | false => exact beforeItem_later skipBlanks_lead_false hsolid hc.ne_bracket

/-- An item is read back from what is written of it and before it. -/
theorem Restores.item {first : Bool} {tail : List Char} (h : Restores fuel r n good a d) (htail : EndsNumber tail)
    (hlt : (lead first level ++ (d.chars level ++ tail)).length < fuel) :
    ∃ p, beforeItem first n (lead first level ++ (d.chars level ++ tail)) = .ok (true, p) ∧ Outcome good (r n p) (a, tail) := by
  obtain ⟨c, t, hc, hp⟩ := h.opens level
  have hskip : skipBlanks (d.chars level ++ tail) = d.chars level ++ tail := by
    rw [hc]
    exact skipBlanks_cons_of_solid hp.solid
  refine ⟨d.chars level ++ tail, ?_, h.outcome hskip htail (Nat.lt_of_le_of_lt (List.suffix_append ..).length_le hlt)⟩
  rw [hc]
  exact beforeItem_lead hp

/-- Items are read back one after the other. -/
theorem outcome_items {write : α → Document} {all : α → Prop} {close : List Char} (hclose : skipBlanks close = ']' :: rest) :
    ∀ {turns : Nat} {first : Bool} {as : List α}, (∀ a ∈ as, Restores fuel r n (all a) a (write a)) →
      (itemsText first level (as.map write) ++ close).length < turns → (itemsText first level (as.map write) ++ close).length < fuel →
      Outcome (∀ a ∈ as, all a) (items r turns first n (itemsText first level (as.map write) ++ close)) (as, ']' :: rest)
  | 0, _, _, _, ht, _ => absurd ht (Nat.not_lt_zero _)
  | turns + 1, first, [], _, _, _ =>
    (Outcome.ok_bind (beforeItem_end hclose) (.of_ok rfl)).congr (by simp)
  | turns + 1, first, a :: as, h, ht, hs => by
    obtain ⟨ha, has⟩ := List.forall_mem_cons.1 h
    have hlater := length_itemsText_lt first level (write a) (as.map write) close
    rw [List.map_cons] at ht hs ⊢
    rw [itemsText_cons_append] at ht hs hlater ⊢
    obtain ⟨p, hp, hout⟩ := ha.item (endsNumber_itemsText hclose _) hs
    refine (Outcome.ok_bind hp (hout.bind fun _ => ?_)).congr List.forall_mem_cons.symm
    exact (outcome_items hclose has (by omega) (by omega)).map

/-- An array as it is written starts with a bracket. -/
theorem opens_array (ds : List Document) (level : Nat) : ∃ c t, (Document.array ds).chars level = c :: t ∧ StartsPiece c := by
  obtain ⟨close, htext, -⟩ := chars_array level [] ds
  rw [List.append_nil] at htext
  exact ⟨'[', _, htext, startsPiece_left (.inl rfl)⟩

/-- An array of documents is read again if each item is, one level further in. -/
theorem Restores.list {write : α → Document} {all : α → Prop} {as : List α}
    (h : ∀ a ∈ as, Restores fuel r n (all a) a (write a)) :
    Restores fuel (list fuel r) (n + 1) (∀ a ∈ as, all a) as (.array (as.map write)) := by
  refine ⟨opens_array _, fun {level s rest} hs _ hlt => ?_⟩
  obtain ⟨close, htext, hclose⟩ := chars_array level rest (as.map write)
  rw [htext] at hs
  have hle := length_skipBlanks_le s
  rw [hs, List.length_cons] at hle
  rw [Reader.list, next_bind, hs]
  refine ((outcome_items hclose h (by omega) (by omega)).bind fun _ => ?_).congr (and_iff_left trivial)
  exact .of_ok (close_ok_iff.2 ⟨rfl, skipBlanks_cons_of_solid rfl⟩)

/-- An array of two documents is read again if both are. -/
theorem Restores.pair {r' : Reader β} (h : Restores fuel r n good a d) (h' : Restores fuel r' n good' b d') :
    Restores fuel (pair r r') (n + 1) (good ∧ good') (a, b) (.array [d, d']) := by
  refine ⟨opens_array _, fun {level s rest} hs _ hlt => ?_⟩
  obtain ⟨close, htext, hclose⟩ := chars_array level rest [d, d']
  rw [htext] at hs
  have hle := length_skipBlanks_le s
  rw [hs, List.length_cons] at hle
  have hfirst : (itemsText true (level + 1) [d, d'] ++ close).length < fuel := by omega
  have hsecond := Nat.lt_trans (length_itemsText_lt true (level + 1) d [d'] close) hfirst
  rw [itemsText_cons_append] at hfirst hsecond hs
  obtain ⟨p, hp, ha⟩ := h.item (n := n) (endsNumber_itemsText hclose [d']) hfirst
  obtain ⟨p', hp', hb⟩ := h'.item (n := n) (endsNumber_itemsText hclose []) hsecond
  rw [Reader.pair, next_bind, hs]
  refine outcome_required_item hp ha fun _ => ?_
  rw [itemsText_cons_append]
  refine (outcome_required_item hp' hb fun _ => .of_ok ?_).congr (and_iff_left trivial)
  exact close_ok_iff.2 ⟨rfl, hclose⟩

/-! ### Choices -/

/-- A value is read back after its name and the colon. -/
theorem Restores.value {tail : List Char} (h : Restores fuel r n good a d) (htail : EndsNumber tail)
    (hlt : (d.chars level ++ tail).length + 1 < fuel) :
    ∃ t, colon n (':' :: ' ' :: (d.chars level ++ tail)) = .ok ((), t) ∧ Outcome good (r n t) (a, tail) := by
  obtain ⟨c, t, hc, hp⟩ := h.opens level
  have hskip : skipBlanks (' ' :: (d.chars level ++ tail)) = d.chars level ++ tail := by
    rw [hc]
    exact skipBlanks_cons_of_solid hp.solid
  exact ⟨_, colon_ok_iff.2 rfl, h.outcome hskip htail hlt⟩

/-- An object as it is written starts with a brace. -/
theorem opens_object (ms : List (String × Document)) (level : Nat) :
    ∃ c t, (Document.object ms).chars level = c :: t ∧ StartsPiece c := by
  obtain ⟨close, htext, -⟩ := chars_object level [] ms
  rw [List.append_nil] at htext
  exact ⟨'{', _, htext, startsPiece_left (.inr rfl)⟩

section Choices

variable {γ : Type} {known : List (String × γ)} {bare : γ → Except ReadError β} {content : γ → Reader β} {key : String}
  {entry : γ}

/-- The name of a known variant is found in its object. -/
theorem name_lead {tail : List Char} (hk : known.lookup key = some entry) :
    name known n (lead true level ++ (Document.stringChars key ++ tail)) = .ok (entry, tail) := by
  rw [name_ok_iff, skipBlanks_lead_true, skipBlanks_stringChars]
  exact ⟨key, hk, starts_stringChars key⟩

/-- A variant without content is read again from its bare name. -/
theorem restores_bare (hk : known.lookup key = some entry) (hb : bare entry = .ok b) :
    Restores fuel (choice known bare content) n True b (.string key) := by
  refine ⟨fun level => ⟨'"', _, rfl, startsPiece_quote⟩, fun {level s rest} hs _ _ => .of_ok ?_⟩
  have hname : name known n (skipBlanks s) = .ok (entry, rest) := by
    rw [name_ok_iff, skipBlanks_skipBlanks, hs]
    exact ⟨key, hk, starts_stringChars key⟩
  rw [Reader.choice, next_bind]
  rw [hs] at hname ⊢
  refine (bind_of_ok hname).trans ?_
  rw [hb]
  rfl

/-- A variant with content is read again if the content is, one level further in. -/
theorem Restores.choice (hk : known.lookup key = some entry) (h : Restores fuel (content entry) n good b d) :
    Restores (fuel + 1) (choice known bare content) (n + 1) good b (.object [(key, d)]) := by
  refine ⟨opens_object _, fun {level s rest} hs _ hlt => ?_⟩
  obtain ⟨close, htext, hclose⟩ := chars_object level rest [(key, d)]
  rw [htext, membersText_cons_append] at hs
  have hle := length_skipBlanks_le s
  rw [hs] at hle
  simp only [List.length_cons, List.length_append] at hle
  have hlater : (d.chars (level + 1) ++ (membersText false (level + 1) [] ++ close)).length + 1 < fuel := by
    simp only [List.length_append]
    omega
  obtain ⟨t, hcolon, hvalue⟩ := h.value (n := n) (endsNumber_membersText hclose []) hlater
  rw [Reader.choice, next_bind, hs]
  have hmember : Outcome good (nested (do advance; let entry ← name known; colon; content entry) (n + 1) ('{' :: (lead true (level + 1) ++
      (Document.stringChars key ++ (':' :: ' ' :: (d.chars (level + 1) ++ (membersText false (level + 1) [] ++ close))))))) (b, _) :=
    .ok_bind (f := fun entry => do colon; content entry) (name_lead hk) (.ok_bind hcolon hvalue)
  refine (hmember.bind fun _ => ?_).congr (and_iff_left trivial)
  exact .of_ok (close_ok_iff.2 ⟨rfl, hclose⟩)

end Choices

end Reader

/-! ### Records -/

section Records

variable {κ : Type} {denotes : κ → Type}

/-- The documents of the parts of a record under their names. -/
def Row.documents (write : (kind : κ) → denotes kind → Document) :
    (parts : List (String × κ)) → Row denotes parts → List (String × Document)
  | [], () => []
  | (name, kind) :: rest, (value, values) => (name, write kind value) :: Row.documents write rest values

/-- All values of a record have a property. -/
def Row.All (property : (kind : κ) → denotes kind → Prop) : (parts : List (String × κ)) → Row denotes parts → Prop
  | [], () => True
  | (_, kind) :: rest, (value, values) => property kind value ∧ Row.All property rest values

/-- The draft in which all parts of a record have been read. -/
def Draft.full : (parts : List (String × κ)) → Row denotes parts → Draft denotes parts
  | [], () => ()
  | _ :: rest, (value, values) => (some value, Draft.full rest values)

/-- A draft in which every field stands is finished without a default. -/
theorem Draft.finish_full {absent : (kind : κ) → Option (denotes kind)} : ∀ {parts : List (String × κ)} {row : Row denotes parts},
    Draft.finish absent parts (Draft.full parts row) = .ok row
  | [], () => rfl
  | (_, _) :: _, (_, _) => Draft.finish_cons_ok_iff.2 ⟨rfl, Draft.finish_full⟩

variable {read : (kind : κ) → Reader (denotes kind)} {all parts : List (String × κ)} {wrap : Draft denotes parts → Draft denotes all}
  {name : String} {kind : κ}

/-- The parts are the last ones of the record, and `wrap` adds to a draft of them what has been read of the others: a member that is one
of the parts is read alike. -/
def Draft.Completes (read : (kind : κ) → Reader (denotes kind)) (wrap : Draft denotes parts → Draft denotes all) : Prop :=
  ∀ key ∈ parts.map Prod.fst, ∀ draft r, Draft.member? read key parts draft = some r →
    ∃ r', Draft.member? read key all (wrap draft) = some r' ∧
      ∀ {good n s draft' rest}, Outcome good (r n s) (draft', rest) → Outcome good (r' n s) (wrap draft', rest)

theorem Draft.completes_id : Draft.Completes read (id : Draft denotes all → Draft denotes all) :=
  fun _ _ _ r hr => ⟨r, hr, fun h => h⟩

/-- Where all further fields are completed behind a name that is none of theirs, the value of that name stays. -/
theorem Draft.Completes.tail {wrap : Draft denotes ((name, kind) :: parts) → Draft denotes all} (h : Draft.Completes read wrap)
    (hname : name ∉ parts.map Prod.fst) (value : denotes kind) : Draft.Completes read fun draft => wrap (some value, draft) := by
  intro key hkey draft r hr
  have hne : key ≠ name := fun heq => hname (heq ▸ hkey)
  have hmember : Draft.member? read key ((name, kind) :: parts) (some value, draft) = some (Draft.after (some value) r) := by
    rw [Draft.member?_cons_of_ne hne, hr, Option.map_some]
  obtain ⟨r', hr', hout⟩ := h key (List.mem_cons_of_mem _ hkey) _ _ hmember
  exact ⟨r', hr', fun h => hout h.map⟩

end Records

namespace Reader

variable {κ : Type} {denotes : κ → Type} {read : (kind : κ) → Reader (denotes kind)} {all : List (String × κ)}
  {write : (kind : κ) → denotes kind → Document} {good : (kind : κ) → denotes kind → Prop} {n fuel level : Nat} {rest : List Char}

/-- A part is read back into the draft. -/
theorem Restores.fill {name : String} {kind : κ} {parts : List (String × κ)} {drafts : Draft denotes parts} {value : denotes kind}
    {d : Document} {holds : Prop} {tail : List Char} (h : Restores fuel (read kind) n holds value d) (htail : EndsNumber tail)
    (hlt : (d.chars level ++ tail).length + 1 < fuel) :
    Outcome holds ((Draft.fill drafts (read kind) : Reader (Draft denotes ((name, kind) :: parts))) n
      (':' :: ' ' :: (d.chars level ++ tail))) ((some value, drafts), tail) := by
  obtain ⟨t, hcolon, hread⟩ := h.value (n := n) htail hlt
  exact .ok_bind hcolon hread.map

/-- Before each member the reader finds the lead that was written. -/
theorem beforeMember_lead {first : Bool} {p : List Char} : beforeMember first n (lead first level ++ ('"' :: p)) = .ok (true, p) := by
  apply beforeMember_member
  cases first with
  | true => exact skipBlanks_lead_true.trans (skipBlanks_cons_of_solid rfl)
  | false => exact ⟨_, skipBlanks_lead_false, skipBlanks_newline.trans (skipBlanks_cons_of_solid rfl)⟩

/-- Members are read back one after the other. -/
theorem outcome_members {close : List Char} (hclose : skipBlanks close = '}' :: rest) :
    ∀ {turns : Nat} {first : Bool} {parts : List (String × κ)} {row : Row denotes parts}
      {wrap : Draft denotes parts → Draft denotes all}, Draft.Completes read wrap → (parts.map Prod.fst).Nodup →
      Row.All (fun kind value => Restores fuel (read kind) n (good kind value) value (write kind value)) parts row →
      (membersText first level (Row.documents write parts row) ++ close).length < turns →
      (membersText first level (Row.documents write parts row) ++ close).length < fuel →
      Outcome (Row.All good parts row)
        (members read all fuel turns first (wrap (Draft.empty parts)) n (membersText first level (Row.documents write parts row) ++ close))
        (wrap (Draft.full parts row), '}' :: rest)
  | 0, _, _, _, _, _, _, _, ht, _ => absurd ht (Nat.not_lt_zero _)
  | turns + 1, first, [], (), wrap, _, _, _, _, _ => .ok_bind (beforeMember_end hclose) (.of_ok rfl)
  | turns + 1, first, (name, kind) :: parts, (value, values), wrap, hwrap, hnd, ⟨hvalue, hvalues⟩, ht, hs => by
    obtain ⟨hname, hnd⟩ := List.nodup_cons.1 hnd
    have hlater := length_membersText_lt first level name (write kind value) (Row.documents write parts values) close
    have hle : (membersText false level (Row.documents write parts values) ++ close).length ≤ ((write kind value).chars level ++
      (membersText false level (Row.documents write parts values) ++ close)).length := (List.suffix_append ..).length_le
    rw [Row.documents] at ht hs ⊢
    have hends : EndsNumber (membersText false level (Row.documents write parts values) ++ close) := endsNumber_membersText hclose _
    obtain ⟨p, hp, hkey⟩ := starts_quoted.1 (starts_stringChars (s := ':' :: ' ' :: ((write kind value).chars level ++
      (membersText false level (Row.documents write parts values) ++ close))) name)
    obtain ⟨r, hr, hout⟩ := hwrap name List.mem_cons_self (Draft.empty ((name, kind) :: parts)) _ (Draft.member?_cons_none rfl)
    rw [membersText_cons_append, hp]
    refine .ok_bind beforeMember_lead (.ok_bind (scanString_iff.2 hkey) ?_)
    rw [hr]
    refine (hout (hvalue.fill hends (by omega))).bind fun _ => ?_
    exact outcome_members hclose (hwrap.tail hname value) hnd hvalues (by omega) (by omega)

/-- A record is read back from an object of its parts in their order. -/
theorem Restores.record {label : String} {absent : (kind : κ) → Option (denotes kind)} {row : Row denotes all}
    (hnd : (all.map Prod.fst).Nodup)
    (h : Row.All (fun kind value => Restores fuel (read kind) n (good kind value) value (write kind value)) all row) :
    Restores fuel (record fuel label read absent all) (n + 1) (Row.All good all row) row (.object (Row.documents write all row)) := by
  refine ⟨opens_object _, fun {level s rest} hs _ hlt => ?_⟩
  obtain ⟨close, htext, hclose⟩ := chars_object level rest (Row.documents write all row)
  rw [htext] at hs
  have hle := length_skipBlanks_le s
  rw [hs, List.length_cons] at hle
  have hlt' : (membersText true (level + 1) (Row.documents write all row) ++ close).length < fuel := by omega
  rw [Reader.record, next_bind, hs]
  refine (Outcome.bind (outcome_members hclose Draft.completes_id hnd h hlt' hlt') fun _ => .of_ok ?_).congr (and_iff_left trivial)
  rw [id, Draft.finish_full]
  exact close_ok_iff.2 ⟨rfl, skipBlanks_cons_of_solid rfl⟩

end Reader

end ExprLang.Json
