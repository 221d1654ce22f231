import ExprLang.Json.Reader
import ExprLang.Proofs.Json.Skipping

/-!
# Readers read what is spelled

`Reader.Recognizes` says of a reader that it reads a value off the front of a text exactly when a spelling of the value stands there.
Every reader of single values has this property, and every combinator hands it on.
-/

namespace ExprLang.Json

open Number

namespace Reader

variable {α β : Type} {a : α} {b : β} {n fuel : Nat} {s rest : List Char} {c : Char}

/-! ### One step after the other -/

/-- A reader that succeeds hands what it read to the next one. -/
theorem bind_of_ok {r : Reader α} {f : α → Reader β} {mid : List Char} (h : r n s = .ok (a, mid)) : (r >>= f) n s = f a n mid := by
  simp only [bind, h]

/-- A reader that fails ends the whole. -/
theorem bind_of_error {r : Reader α} {f : α → Reader β} {e : ReadError} (h : r n s = .error e) : (r >>= f) n s = .error e := by
  simp only [bind, h]

/-- Two readers one after the other succeed when each of them does. -/
theorem bind_ok_iff {r : Reader α} {f : α → Reader β} {x : β × List Char} :
    (r >>= f) n s = .ok x ↔ ∃ a mid, r n s = .ok (a, mid) ∧ f a n mid = .ok x := by
  cases hr : r n s with
  | ok p =>
    obtain ⟨a, mid⟩ := p
    rw [bind_of_ok hr]
    constructor
    · exact fun h => ⟨a, mid, rfl, h⟩
    · rintro ⟨_, _, ⟨⟩, h⟩
      exact h
  | error e => simp [bind_of_error hr]

/-- A reader that reads nothing leaves the text as it is. -/
theorem pure_ok_iff {a' : α} : (pure a : Reader α) n s = .ok (a', rest) ↔ a = a' ∧ s = rest := by
  change Except.ok (a, s) = _ ↔ _
  rw [Except.ok.injEq, Prod.mk.injEq]

/-- Looking at the next character leaves it there. -/
theorem next_bind (f : Option Char → Reader β) : (next >>= f) n s = f (skipBlanks s).head? n (skipBlanks s) := rfl

theorem advance_bind (f : Unit → Reader β) : (advance >>= f) n (c :: s) = f () n s := rfl

/-- What stands inside a bracket is read with one level less. -/
theorem nested_ok_iff {r : Reader α} {x : α × List Char} : nested r n s = .ok x ↔ ∃ k, n = k + 1 ∧ r k s = .ok x := by
  cases n <;> simp [nested]

@[simp] theorem not_fail_ok {e : ReadError} {x : α × List Char} : ¬ fail e n s = .ok x := fun h => (nomatch h)

@[simp] theorem not_wrongType_ok {expected : String} {x : α × List Char} : ¬ wrongType expected n s = .ok x := fun h => (nomatch h)

/-- In texts of fewer than `fuel` characters the reader reads a value off the front, perhaps after blanks, if a spelling of the value
stands there, and then only. What follows the value must be as `follow` says. -/
structure Recognizes (fuel : Nat) (follow : List Char → Prop) (r : Reader α) (spellings : α → Nat → Language Char) : Prop where
  /-- Spellings start like an item or a member. -/
  opens (a : α) (n : Nat) : Opens StartsPiece (spellings a n)
  /-- A value is read if it is spelled, and then only. -/
  ok_iff {a : α} {n : Nat} {s rest : List Char} : s.length < fuel → follow rest →
    (r n s = .ok (a, rest) ↔ Starts (spellings a n) (skipBlanks s) rest)

/-- Anything may follow. -/
abbrev anything : List Char → Prop := fun _ => True

/-- A text as a whole is read as a value exactly when it is a spelling of it with blanks around. -/
theorem Recognizes.run_eq_ok_iff {r : Reader α} {spellings : α → Nat → Language Char} {depth : Nat} {source : String}
    (h : Recognizes fuel anything r spellings) (hs : source.length < fuel) :
    r.run depth source = .ok a ↔ source.toList ∈ blanks * spellings a depth * blanks := by
  have hsolid : Opens IsSolid (spellings a depth) := (h.opens a depth).solid
  have hread (rest : List Char) : r depth source.toList = .ok (a, rest) ↔ Starts (blanks * spellings a depth) source.toList rest := by
    rw [h.ok_iff hs trivial, starts_blanks_mul hsolid]
  have hmem : source.toList ∈ blanks * spellings a depth * blanks ↔
      ∃ rest ∈ blanks, Starts (blanks * spellings a depth) source.toList rest := by
    rw [Language.mem_mul]
    constructor
    · rintro ⟨t, ht, rest, hrest, h⟩
      exact ⟨rest, hrest, t, ht, h⟩
    · rintro ⟨rest, hrest, t, ht, h⟩
      exact ⟨t, ht, rest, hrest, h⟩
  rw [hmem, run]
  constructor
  · intro hok
    split at hok
    · exact nomatch hok
    · next b rest hr =>
      split_ifs at hok with hblank
      cases hok
      exact ⟨rest, skipBlanks_eq_nil_iff.1 (List.isEmpty_iff.1 hblank), (hread rest).1 hr⟩
  · rintro ⟨rest, hrest, hs⟩
    simp only [(hread rest).2 hs, skipBlanks_eq_nil_iff.2 hrest, List.isEmpty_nil, if_true]

/-- A reader that is right before some texts is right before fewer of them. -/
theorem Recognizes.mono {follow follow' : List Char → Prop} {r : Reader α} {spellings : α → Nat → Language Char}
    (h : Recognizes fuel follow r spellings) (hf : ∀ s, follow' s → follow s) : Recognizes fuel follow' r spellings :=
  ⟨h.opens, fun hs hr => h.ok_iff hs (hf _ hr)⟩

/-! ### Single values -/

/-- The reader of strings reads the spellings of a string and nothing else. -/
theorem recognizes_text : Recognizes fuel anything text fun a _ => quoted a := by
  refine ⟨fun a n => (opens_word startsPiece_quote).mul, fun {a n s rest} _ _ => ?_⟩
  rw [text, next_bind, quoted, starts_cons_mul]
  cases h : skipBlanks s with
  | nil => simp
  | cons c t =>
    by_cases hc : c = '"'
    · subst hc
      simp [advance_bind, ofScan, scanString_iff]
    · simp [hc]

/-- The reader of truth values reads the two words and nothing else. -/
theorem recognizes_boolean : Recognizes fuel anything boolean fun a _ => Json.boolean a := by
  refine ⟨?_, fun {a n s rest} _ _ => ?_⟩
  · rintro (_ | _) n
    · exact opens_word ⟨rfl, by decide, by decide⟩
    · exact opens_word ⟨rfl, by decide, by decide⟩
  · rw [boolean, next_bind]
    cases h : skipBlanks s with
    | nil => cases a <;> simp [Json.boolean]
    | cons c t =>
      by_cases ht : c = 't'
      · subst ht
        cases a <;> simp [bind_ok_iff, pure_ok_iff, ofScan, scanWord_iff, Json.boolean]
      by_cases hf : c = 'f'
      · subst hf
        cases a <;> simp [bind_ok_iff, pure_ok_iff, ofScan, scanWord_iff, Json.boolean]
      · cases a <;> simp [ht, hf, Json.boolean]

/-- The reader of nothing reads null and nothing else. -/
theorem recognizes_unit : Recognizes fuel anything unit fun _ _ => null := by
  refine ⟨fun a n => opens_word ⟨rfl, by decide, by decide⟩, fun {a n s rest} _ _ => ?_⟩
  rw [unit, next_bind, null]
  cases h : skipBlanks s with
  | nil => simp
  | cons c t =>
    by_cases hc : c = 'n'
    · subst hc
      simp [ofScan, scanWord_iff]
    · simp [hc]

/-- A value that may be nothing is read if its spellings cannot be mistaken for it. -/
theorem Recognizes.optional {follow : List Char → Prop} {r : Reader α} {spellings : α → Nat → Language Char}
    (h : Recognizes fuel follow r spellings) (hn : ∀ a n, Opens (fun c => c ≠ 'n') (spellings a n)) :
    Recognizes fuel follow (optional r) (orNull spellings) := by
  refine ⟨?_, fun {a n s rest} hs hr => ?_⟩
  · rintro (_ | a) n
    · exact opens_word ⟨rfl, by decide, by decide⟩
    · exact h.opens a n
  · have hs' : (skipBlanks s).length < fuel := Nat.lt_of_le_of_lt (length_skipBlanks_le s) hs
    have hr := fun a => h.ok_iff (a := a) (n := n) hs' hr
    rw [skipBlanks_skipBlanks] at hr
    rw [Reader.optional, next_bind]
    cases h : skipBlanks s with
    | nil =>
      rw [h] at hr
      cases a <;> simp [bind_ok_iff, pure_ok_iff, hr, orNull, null]
    | cons c t =>
      rw [h] at hr
      by_cases hc : c = 'n'
      · subst hc
        cases a with
        | none => simp [bind_ok_iff, pure_ok_iff, ofScan, scanWord_iff, orNull, null]
        | some a => simp [bind_ok_iff, pure_ok_iff, orNull, (hn a n).not_starts_cons]
      · cases a <;> simp [hc, bind_ok_iff, pure_ok_iff, hr, orNull, null]

/-! ### Numbers -/

/-- A number is read where a literal stands that has a value within reach. -/
theorem numeral_ok_iff {expected : String} {k : Numeral} (hr : EndsNumber rest) :
    numeral expected n s = .ok (k, rest) ↔ ∃ l, l.numeral? = some k ∧ Starts (literal l) (skipBlanks s) rest := by
  rw [numeral, next_bind]
  cases h : skipBlanks s with
  | nil => simp [opens_literal.not_starts_nil]
  | cons c t =>
    by_cases hm : c = '-'
    · subst hm
      simp only [List.head?_cons, advance_bind, ofScan, scanNumeral_iff hr, starts_literal_minus]
      exact exists_congr fun l => by tauto
    · by_cases hd : c.isDigit = true
      · simp only [List.head?_cons, if_pos hd, ofScan, scanNumeral_iff hr, starts_literal_of_ne hm]
        exact exists_congr fun l => by tauto
      · simp [hd, not_starts_literal hm (by simpa using hd)]

theorem opens_startsPiece_literal (l : Literal) : Opens StartsPiece (literal l) :=
  opens_literal.mono fun _ hc => hc.elim (fun h => h ▸ startsPiece_minus) startsPiece_of_isDigit

/-- The reader of floats reads the spellings of a float and nothing else. -/
theorem recognizes_float32 : Recognizes fuel EndsNumber float32 fun x _ => float x := by
  refine ⟨fun x n t ⟨l, _, ht, _⟩ => opens_startsPiece_literal l t ht, fun {x n s rest} _ hr => ?_⟩
  rw [float32, bind_ok_iff]
  constructor
  · rintro ⟨k, mid, h, hx⟩
    obtain ⟨rfl, rfl⟩ := pure_ok_iff.1 hx
    obtain ⟨l, hl, t, ht, hs⟩ := (numeral_ok_iff hr).1 h
    exact ⟨t, mem_float_iff.2 ⟨l, k, ht, hl, rfl⟩, hs⟩
  · rintro ⟨t, hfloat, hs⟩
    obtain ⟨l, k, ht, hl, rfl⟩ := mem_float_iff.1 hfloat
    exact ⟨k, rest, (numeral_ok_iff hr).2 ⟨l, hl, t, ht, hs⟩, rfl⟩

/-- The reader of integers reads the spellings of an integer and nothing else. -/
theorem recognizes_int32 : Recognizes fuel EndsNumber int32 fun v _ => integer v := by
  refine ⟨fun v n t ⟨_, _, ht, _⟩ => opens_startsPiece_literal _ t ht, fun {v n s rest} _ hr => ?_⟩
  rw [int32, bind_ok_iff]
  constructor
  · rintro ⟨k, mid, h, hv⟩
    cases k with
    | float negative bits => cases hv
    | integer k =>
      dsimp only at hv
      split_ifs at hv with hk
      · obtain ⟨rfl, rfl⟩ := pure_ok_iff.1 hv
        obtain ⟨⟨negative, ds, _, _⟩, hl, t, ht, hs⟩ := (numeral_ok_iff hr).1 h
        obtain ⟨⟨rfl, rfl, hrange⟩, rfl⟩ := Literal.numeral?_eq_integer_iff.1 hl
        have hv := Int32.toInt_ofInt_of_le hk.1 (Int.lt_add_one_of_le hk.2)
        refine ⟨t, ⟨negative, ds, ht, hv, fun hnegative => ?_⟩, hs⟩
        rw [if_pos hnegative] at hrange
        exact hrange.1.ne'
      · cases hv
  · rintro ⟨t, ⟨negative, ds, ht, hv, hz⟩, hs⟩
    have hlow := v.le_toInt
    have hhigh := v.toInt_lt
    have hb : ofDigits ds ≤ 2147483648 := by
      rw [hv] at hlow hhigh
      split_ifs at hlow hhigh
      · omega
      · omega
    have hk : (⟨negative, ds, none, none⟩ : Literal).numeral? = some (.integer v.toInt) := by
      refine Literal.numeral?_eq_integer_iff.2 ⟨⟨rfl, rfl, ?_⟩, hv⟩
      split_ifs with hnegative
      · exact ⟨Nat.pos_of_ne_zero (hz hnegative), Nat.le_trans hb (by decide)⟩
      · exact Nat.lt_of_le_of_lt hb (by decide)
    refine ⟨_, rest, (numeral_ok_iff hr).2 ⟨_, hk, t, ht, hs⟩, ?_⟩
    dsimp only
    rw [if_pos ⟨v.minValue_le_toInt, v.toInt_le⟩, Int32.ofInt_toInt]
    rfl

/-! ### Marks -/

/-- A colon is read after any blanks. -/
theorem colon_ok_iff {u : Unit} : colon n s = .ok (u, rest) ↔ skipBlanks s = ':' :: rest := by
  rw [colon, next_bind]
  cases h : skipBlanks s with
  | nil => simp
  | cons c t =>
    by_cases hc : c = ':'
    · subst hc
      simp [advance]
    · simp [hc]

/-- A closing bracket is read after any blanks. -/
theorem closing_ok_iff {right : Char} {u : Unit} : closing right n s = .ok (u, rest) ↔ skipBlanks s = right :: rest := by
  rw [closing, next_bind]
  cases h : skipBlanks s with
  | nil => simp
  | cons c t =>
    by_cases hc : c = right
    · simp [hc, advance]
    · simp [hc]

/-- A value is given back after the closing bracket. -/
theorem close_ok_iff {right : Char} {a' : α} :
    (do closing right; return a : Reader α) n s = .ok (a', rest) ↔ a = a' ∧ skipBlanks s = right :: rest := by
  rw [bind_ok_iff]
  constructor
  · rintro ⟨_, mid, h, ha⟩
    obtain ⟨rfl, rfl⟩ := pure_ok_iff.1 ha
    exact ⟨rfl, closing_ok_iff.1 h⟩
  · rintro ⟨rfl, h⟩
    exact ⟨(), rest, closing_ok_iff.2 h, rfl⟩

/-! ### Arrays -/

/-- At the closing bracket there is no further item. -/
theorem beforeItem_end {first : Bool} {t : List Char} (h : skipBlanks s = ']' :: t) :
    beforeItem first n s = .ok (false, ']' :: t) := by
  rw [beforeItem, next_bind, h]
  rfl

/-- The first item needs no comma. -/
theorem beforeItem_first {t : List Char} (h : skipBlanks s = c :: t) (hc : c ≠ ']') : beforeItem true n s = .ok (true, c :: t) := by
  rw [beforeItem, next_bind, h]
  simp only [List.head?_cons, if_neg hc]
  rfl

/-- Every other item needs a comma. -/
theorem beforeItem_later {s' t : List Char} (h : skipBlanks s = ',' :: s') (h' : skipBlanks s' = c :: t) (hc : c ≠ ']') :
    beforeItem false n s = .ok (true, c :: t) := by
  rw [beforeItem, next_bind, h]
  simp [advance_bind, next_bind, h', pure_ok_iff]

/-- Before an item stands the closing bracket, or the item with a comma unless it is the first. -/
theorem beforeItem_cases {first b : Bool} (h : beforeItem first n s = .ok (b, rest)) :
    (b = false ∧ skipBlanks s = rest ∧ ∃ t, rest = ']' :: t) ∨
      (b = true ∧ if first then skipBlanks s = rest else ∃ s', skipBlanks s = ',' :: s' ∧ skipBlanks s' = rest) := by
  rw [beforeItem, next_bind] at h
  cases hs : skipBlanks s with
  | nil =>
    rw [hs] at h
    cases h
  | cons c t =>
    simp only [hs, List.head?_cons] at h
    split_ifs at h with hc hf hcomma
    · obtain ⟨rfl, rfl⟩ := pure_ok_iff.1 h
      exact .inl ⟨rfl, rfl, t, by rw [hc]⟩
    · obtain ⟨rfl, rfl⟩ := pure_ok_iff.1 h
      exact .inr ⟨rfl, by rw [if_pos hf]⟩
    · rw [advance_bind, next_bind] at h
      cases ht : skipBlanks t with
      | nil =>
        rw [ht] at h
        cases h
      | cons d u =>
        by_cases hd : d = ']'
        · subst hd
          simp [ht] at h
        · simp [ht, pure_ok_iff] at h
          obtain ⟨rfl, rfl⟩ := h
          exact .inr ⟨rfl, by rw [if_neg hf]; exact ⟨t, by rw [hcomma], ht⟩⟩
    · cases h

/-- An item and what stands before it are read if they are spelled. -/
theorem item_iff {first : Bool} {item : Reader α} {spellings : α → Nat → Language Char} {mid : List Char}
    (h : Recognizes fuel EndsNumber item spellings) (hs : s.length < fuel) (hr : EndsNumber mid) :
    (∃ p, beforeItem first n s = .ok (true, p) ∧ item n p = .ok (a, mid)) ↔ Starts (piece first (spellings a n)) s mid := by
  have hle := length_skipBlanks_le s
  have ho := h.opens a n
  cases first with
  | true =>
    rw [piece, if_pos rfl, starts_blanks_mul ho.solid]
    constructor
    · rintro ⟨p, hp, ha⟩
      rcases beforeItem_cases hp with ⟨⟨⟩, -⟩ | ⟨-, hp⟩
      rw [if_pos rfl] at hp
      subst hp
      have ha := (h.ok_iff (by omega) hr).1 ha
      rwa [skipBlanks_skipBlanks] at ha
    · intro ha
      obtain ⟨c, t, hc, hp⟩ := ho.starts ha
      refine ⟨_, beforeItem_first hc hp.ne_bracket, ?_⟩
      rw [← hc, h.ok_iff (by omega) hr, skipBlanks_skipBlanks]
      exact ha
  | false =>
    rw [piece, if_neg Bool.false_ne_true, starts_blanks_mark rfl]
    simp only [starts_blanks_mul ho.solid]
    constructor
    · rintro ⟨p, hp, ha⟩
      rcases beforeItem_cases hp with ⟨⟨⟩, -⟩ | ⟨-, hp⟩
      rw [if_neg Bool.false_ne_true] at hp
      obtain ⟨s', hs', rfl⟩ := hp
      have hle' := length_skipBlanks_le s'
      rw [hs', List.length_cons] at hle
      have ha := (h.ok_iff (by omega) hr).1 ha
      rw [skipBlanks_skipBlanks] at ha
      exact ⟨s', hs', ha⟩
    · rintro ⟨s', hs', ha⟩
      have hle' := length_skipBlanks_le s'
      rw [hs', List.length_cons] at hle
      obtain ⟨c, t, hc, hp⟩ := ho.starts ha
      refine ⟨_, beforeItem_later hs' hc hp.ne_bracket, ?_⟩
      rw [← hc, h.ok_iff (by omega) hr, skipBlanks_skipBlanks]
      exact ha

/-- Before what goes on in brackets a number ends. -/
theorem endsNumber_of_further {ls : List (Language Char)} {right : Char} (hr : right = ']' ∨ right = '}')
    (h : Starts (pieces false ls * (blanks * word [right])) s rest) : EndsNumber s := by
  rw [pieces_false] at h
  have hsolid : IsSolid right := by rcases hr with rfl | rfl <;> rfl
  cases ls with
  | nil =>
    rw [further_nil, one_mul, starts_blanks_last hsolid] at h
    exact endsNumber_of_skipBlanks h (.inr hr)
  | cons l ls =>
    rw [further_cons, mul_assoc, mul_assoc, mul_assoc, starts_blanks_mark rfl] at h
    obtain ⟨s', hs, -⟩ := h
    exact endsNumber_of_skipBlanks hs (.inl rfl)

/-- A piece and what stands before it shorten the text. -/
theorem length_lt_of_piece {p : Char → Prop} {first : Bool} {l : Language Char} (hl : Opens p l) (h : Starts (piece first l) s rest) :
    rest.length < s.length := by
  cases first with
  | true =>
    obtain ⟨mid, hb, h⟩ := starts_mul.1 h
    exact Nat.lt_of_lt_of_le (hl.length_lt h) hb.length_le
  | false =>
    obtain ⟨mid, hb, h⟩ := starts_mul.1 h
    obtain ⟨mid', hc, h⟩ := starts_mul.1 h
    obtain ⟨mid'', hb', h⟩ := starts_mul.1 h
    exact Nat.lt_of_lt_of_le (hl.length_lt h) (Nat.le_trans hb'.length_le (Nat.le_trans hc.length_le hb.length_le))

/-- Before further items or the end of an array a number ends. -/
theorem endsNumber_of_beforeItem {b : Bool} (h : beforeItem false n s = .ok (b, rest)) : EndsNumber s := by
  rcases beforeItem_cases h with ⟨-, hs, t, rfl⟩ | ⟨-, hs⟩
  · exact endsNumber_of_skipBlanks hs (.inr (.inl rfl))
  · rw [if_neg Bool.false_ne_true] at hs
    obtain ⟨s', hs, -⟩ := hs
    exact endsNumber_of_skipBlanks hs (.inl rfl)

/-- Where items go on after a number, the number has ended. -/
theorem endsNumber_of_items {item : Reader α} {turns : Nat} {as : List α} (h : items item turns false n s = .ok (as, rest)) :
    EndsNumber s := by
  cases turns with
  | zero => cases h
  | succ turns =>
    rw [items, bind_ok_iff] at h
    obtain ⟨b, mid, h, -⟩ := h
    exact endsNumber_of_beforeItem h

/-- Items and the end of their array are read if they are spelled. -/
theorem items_ok_iff {item : Reader α} {spellings : α → Nat → Language Char} (h : Recognizes fuel EndsNumber item spellings) :
    ∀ {turns : Nat} {first : Bool} {as : List α} {s : List Char}, s.length < turns → s.length < fuel →
      ((∃ mid, items item turns first n s = .ok (as, mid) ∧ skipBlanks mid = ']' :: rest) ↔
        Starts (pieces first (as.map (spellings · n)) * (blanks * word [']'])) s rest)
  | 0, _, _, _, ht, _ => absurd ht (Nat.not_lt_zero _)
  | turns + 1, first, [], s, _, _ => by
    rw [items, List.map_nil, pieces, one_mul, starts_blanks_last rfl]
    simp only [bind_ok_iff]
    constructor
    · rintro ⟨mid, ⟨b, p, hp, hb⟩, hmid⟩
      cases b with
      | true =>
        obtain ⟨_, _, -, h⟩ := bind_ok_iff.1 hb
        obtain ⟨_, _, -, h⟩ := bind_ok_iff.1 h
        cases (pure_ok_iff.1 h).1
      | false =>
        obtain ⟨-, rfl⟩ := pure_ok_iff.1 hb
        rcases beforeItem_cases hp with ⟨-, rfl, -⟩ | ⟨⟨⟩, -⟩
        rwa [skipBlanks_skipBlanks] at hmid
    · intro hs
      exact ⟨_, ⟨false, _, beforeItem_end hs, rfl⟩, skipBlanks_cons_of_solid rfl⟩
  | turns + 1, first, a :: as, s, ht, hs => by
    -- the fuel for turns shrinks with the text, since every item takes a character
    have ih (mid' : List Char) (hlt : mid'.length < s.length) :
        (∃ mid, items item turns false n mid' = .ok (as, mid) ∧ skipBlanks mid = ']' :: rest) ↔
          Starts (pieces false (as.map (spellings · n)) * (blanks * word [']'])) mid' rest :=
      items_ok_iff h (by omega) (by omega)
    rw [items, List.map_cons, starts_pieces_cons]
    simp only [bind_ok_iff]
    constructor
    · rintro ⟨mid, ⟨b, p, hp, hb⟩, hmid⟩
      cases b with
      | false => cases (pure_ok_iff.1 hb).1
      | true =>
        obtain ⟨a', mid', ha, hb⟩ := bind_ok_iff.1 hb
        obtain ⟨as', mid'', has, hb⟩ := bind_ok_iff.1 hb
        obtain ⟨⟨⟩, rfl⟩ := pure_ok_iff.1 hb
        have ha := (item_iff h hs (endsNumber_of_items has)).1 ⟨p, hp, ha⟩
        exact ⟨mid', ha, (ih mid' (length_lt_of_piece (h.opens a n) ha)).1 ⟨mid'', has, hmid⟩⟩
    · rintro ⟨mid', ha, has⟩
      obtain ⟨p, hp, ha'⟩ := (item_iff h hs (endsNumber_of_further (.inl rfl) has)).2 ha
      obtain ⟨mid, has, hmid⟩ := (ih mid' (length_lt_of_piece (h.opens a n) ha)).2 has
      exact ⟨mid, ⟨true, p, hp, bind_ok_iff.2 ⟨a, mid', ha', bind_ok_iff.2 ⟨as, mid, has, rfl⟩⟩⟩, hmid⟩

/-- If a reader reads the spellings of its values, then the reader of lists reads those of lists. -/
theorem Recognizes.list {item : Reader α} {spellings : α → Nat → Language Char} (h : Recognizes fuel EndsNumber item spellings) :
    Recognizes fuel anything (list fuel item) fun as => inside fun n => array (as.map (spellings · n)) := by
  refine ⟨fun as => opens_inside fun n => opens_enclosed (startsPiece_left (.inl rfl)), fun {as n s rest} hs _ => ?_⟩
  have hle := length_skipBlanks_le s
  rw [Reader.list, next_bind, starts_inside]
  cases hc : skipBlanks s with
  | nil => simp [array, enclosed, starts_cons_mul]
  | cons c t =>
    by_cases hb : c = '['
    · subst hb
      rw [hc, List.length_cons] at hle
      have hi (k : Nat) : (∃ mid, items item fuel true k t = .ok (as, mid) ∧ skipBlanks mid = ']' :: rest) ↔
          Starts (pieces true (as.map (spellings · k)) * (blanks * word [']'])) t rest := items_ok_iff h (by omega) (by omega)
      simp [nested_ok_iff, advance_bind, bind_ok_iff, pure_ok_iff, closing_ok_iff, array, enclosed, starts_cons_mul, hi, pieces_true]
    · simp [hb, array, enclosed, starts_cons_mul]

/-- An item that must be there is read, and then what follows. -/
theorem required_item_iff {first : Bool} {e : ReadError} {item : Reader α} {f : α → Reader β} {x : β × List Char} :
    (do if !(← beforeItem first) then fail e
        let a ← item
        f a : Reader β) n s = .ok x ↔
      ∃ a mid, (∃ p, beforeItem first n s = .ok (true, p) ∧ item n p = .ok (a, mid)) ∧ f a n mid = .ok x := by
  simp only [bind_ok_iff, Bool.exists_bool]
  constructor
  · rintro (⟨p, hp, h⟩ | ⟨p, hp, h⟩)
    · obtain ⟨_, _, h, -⟩ := bind_ok_iff.1 h
      cases h
    · obtain ⟨a, mid, ha, h⟩ := bind_ok_iff.1 h
      exact ⟨a, mid, ⟨p, hp, ha⟩, h⟩
  · rintro ⟨a, mid, ⟨p, hp, ha⟩, h⟩
    exact .inr ⟨p, hp, bind_ok_iff.2 ⟨a, mid, ha, h⟩⟩

/-- The spellings of a pair. -/
def pairText (first : α → Nat → Language Char) (second : β → Nat → Language Char) (p : α × β) : Nat → Language Char :=
  inside fun n => array [first p.1 n, second p.2 n]

/-- If two readers read the spellings of their values, then the reader of pairs reads those of pairs. -/
theorem Recognizes.pair {first : Reader α} {second : Reader β} {spellings : α → Nat → Language Char}
    {spellings' : β → Nat → Language Char} (h : Recognizes fuel EndsNumber first spellings)
    (h' : Recognizes fuel EndsNumber second spellings') :
    Recognizes fuel anything (pair first second) (pairText spellings spellings') := by
  refine ⟨fun p => opens_inside fun n => opens_enclosed (startsPiece_left (.inl rfl)), fun {p n s rest} hs _ => ?_⟩
  have hle := length_skipBlanks_le s
  rw [Reader.pair, next_bind, pairText, starts_inside]
  cases hc : skipBlanks s with
  | nil => simp [array, enclosed, starts_cons_mul]
  | cons c t =>
    by_cases hb : c = '['
    · subst hb
      rw [hc, List.length_cons] at hle
      simp only [List.head?_cons, nested_ok_iff, advance_bind, array, enclosed, starts_cons_mul, List.cons.injEq, true_and, exists_eq_left']
      refine exists_congr fun k => and_congr_right fun _ => ?_
      rw [required_item_iff, ← pieces_true, starts_pieces_cons]
      constructor
      · rintro ⟨a, mid, ha, hsecond⟩
        obtain ⟨b, mid', ⟨q, hq, hb⟩, hclose⟩ := required_item_iff.1 hsecond
        obtain ⟨rfl, hclose⟩ := close_ok_iff.1 hclose
        have hend : Starts (pieces false [] * (blanks * word [']'])) mid' rest := by rwa [pieces, one_mul, starts_blanks_last rfl]
        have ha := (item_iff h (by omega) (endsNumber_of_beforeItem hq)).1 ha
        have hlt := length_lt_of_piece (h.opens a k) ha
        have hb := (item_iff h' (by omega) (endsNumber_of_further (.inl rfl) hend)).1 ⟨q, hq, hb⟩
        exact ⟨mid, ha, starts_pieces_cons.2 ⟨mid', hb, hend⟩⟩
      · rintro ⟨mid, ha, hb⟩
        have hlt := length_lt_of_piece (h.opens p.1 k) ha
        have hmid := endsNumber_of_further (.inl rfl) hb
        obtain ⟨mid', hb, hend⟩ := starts_pieces_cons.1 hb
        have hb := (item_iff h' (by omega) (endsNumber_of_further (.inl rfl) hend)).2 hb
        rw [pieces, one_mul, starts_blanks_last rfl] at hend
        exact ⟨_, mid, (item_iff h (by omega) hmid).2 ha, required_item_iff.2 ⟨_, mid', hb, close_ok_iff.2 ⟨rfl, hend⟩⟩⟩
    · simp [hb, array, enclosed, starts_cons_mul]

/-! ### Names and choices -/

/-- A name is read when it is one of the known ones. -/
theorem name_ok_iff {known : List (String × α)} : name known n s = .ok (a, rest) ↔
    ∃ key, known.lookup key = some a ∧ Starts (quoted key) (skipBlanks s) rest := by
  rw [name, next_bind]
  cases hs : skipBlanks s with
  | nil => simp [quoted, starts_cons_mul]
  | cons c t =>
    by_cases hc : c = '"'
    · subst hc
      simp only [List.head?_cons, advance_bind, bind_ok_iff, ofScan, scanString_iff, quoted, starts_cons_mul, List.cons.injEq,
        true_and, exists_eq_left']
      constructor
      · rintro ⟨key, mid, hk, h⟩
        cases hl : known.lookup key with
        | none => simp [hl] at h
        | some a' =>
          rw [hl] at h
          obtain ⟨rfl, rfl⟩ := pure_ok_iff.1 h
          exact ⟨key, hl, hk⟩
      · rintro ⟨key, hl, hk⟩
        exact ⟨key, rest, hk, by rw [hl]; rfl⟩
    · simp [hc, quoted, starts_cons_mul]

/-- The spellings of a choice: a known name that stands for it, or an object whose one member has such a name and holds it. -/
def choiceText (known : List (String × α)) (bare : α → Except ReadError β) (content : α → β → Nat → Language Char) (b : β) (n : Nat) :
    Language Char :=
  {s | ∃ key a, known.lookup key = some a ∧ ((bare a = .ok b ∧ s ∈ quoted key) ∨ s ∈ variant key (content a b) n)}

/-- A variant is spelled as its bare name or as an object of one member. -/
theorem starts_choiceText {known : List (String × α)} {bare : α → Except ReadError β} {content : α → β → Nat → Language Char} :
    Starts (choiceText known bare content b n) s rest ↔ ∃ key a, known.lookup key = some a ∧
      ((bare a = .ok b ∧ Starts (quoted key) s rest) ∨ Starts (variant key (content a b) n) s rest) := by
  constructor
  · rintro ⟨t, ⟨key, a, ha, ⟨hb, ht⟩ | ht⟩, h⟩
    · exact ⟨key, a, ha, .inl ⟨hb, t, ht, h⟩⟩
    · exact ⟨key, a, ha, .inr ⟨t, ht, h⟩⟩
  · rintro ⟨key, a, ha, ⟨hb, t, ht, h⟩ | ⟨t, ht, h⟩⟩
    · exact ⟨t, ⟨key, a, ha, .inl ⟨hb, ht⟩⟩, h⟩
    · exact ⟨t, ⟨key, a, ha, .inr ht⟩, h⟩

/-- An object of one member, piece by piece. -/
theorem starts_variant {key : String} {content : Nat → Language Char} (h : ∀ n, Opens StartsPiece (content n)) :
    Starts (variant key content n) s rest ↔ ∃ k, n = k + 1 ∧ ∃ t, s = '{' :: t ∧ ∃ s₁ s₂ mid, Starts (quoted key) (skipBlanks t) s₁ ∧
      skipBlanks s₁ = ':' :: s₂ ∧ Starts (content k) (skipBlanks s₂) mid ∧ skipBlanks mid = '}' :: rest := by
  have hm (k : Nat) : Opens IsSolid (member (quoted key) (content k)) := (opens_word (p := IsSolid) rfl).mul.mul
  rw [variant, starts_inside]
  refine exists_congr fun k => and_congr_right fun _ => ?_
  rw [object, enclosed, starts_cons_mul]
  refine exists_congr fun t => and_congr_right fun _ => ?_
  rw [separated, further_nil, mul_one, mul_assoc, starts_blanks_mul (hm k).mul, starts_mul]
  simp only [starts_member (h k).solid, starts_blanks_last (show IsSolid '}' from rfl)]
  constructor
  · rintro ⟨mid, ⟨s₁, s₂, h₁, h₂, h₃⟩, h₄⟩
    exact ⟨s₁, s₂, mid, h₁, h₂, h₃, h₄⟩
  · rintro ⟨s₁, s₂, mid, h₁, h₂, h₃, h₄⟩
    exact ⟨mid, ⟨s₁, s₂, h₁, h₂, h₃⟩, h₄⟩

/-- A variant starts with a quote or with a brace. -/
theorem opens_choiceText {known : List (String × α)} {bare : α → Except ReadError β} {content : α → β → Nat → Language Char} :
    Opens (fun c => c = '"' ∨ c = '{') (choiceText known bare content b n) := by
  rintro t ⟨key, a, -, ⟨-, ht⟩ | ht⟩
  · exact (opens_quoted key).mono (fun c hc => .inl hc) t ht
  · exact (opens_variant key _ n).mono (fun c hc => .inr hc) t ht

theorem startsPiece_quote_or_brace (hc : c = '"' ∨ c = '{') : StartsPiece c := by
  rcases hc with rfl | rfl
  · exact startsPiece_quote
  · exact startsPiece_left (.inr rfl)

/-- A name and the colon after it shorten the text. -/
theorem length_lt_of_name_colon {key : String} {t s₁ s₂ : List Char} (h₁ : Starts (quoted key) (skipBlanks t) s₁)
    (h₂ : skipBlanks s₁ = ':' :: s₂) : s₂.length < t.length := by
  have hle₁ := h₁.length_le
  have hle₂ := length_skipBlanks_le t
  have hle₃ := length_skipBlanks_le s₁
  rw [h₂, List.length_cons] at hle₃
  omega

/-- Inside a choice that is an object stands a known name, a colon and what the name is a tag of. -/
theorem tagged_ok_iff {known : List (String × α)} {content : α → Reader β} {t mid : List Char} :
    nested (do advance; let a ← name known; colon; content a) n ('{' :: t) = .ok (b, mid) ↔
      ∃ k, n = k + 1 ∧ ∃ key a s₁ s₂, known.lookup key = some a ∧ Starts (quoted key) (skipBlanks t) s₁ ∧
        skipBlanks s₁ = ':' :: s₂ ∧ content a k s₂ = .ok (b, mid) := by
  rw [nested_ok_iff]
  refine exists_congr fun k => and_congr_right fun _ => ?_
  rw [advance_bind, bind_ok_iff]
  constructor
  · rintro ⟨a, s₁, hname, h⟩
    obtain ⟨key, hk, hname⟩ := name_ok_iff.1 hname
    obtain ⟨_, s₂, hcolon, ha⟩ := bind_ok_iff.1 h
    exact ⟨key, a, s₁, s₂, hk, hname, colon_ok_iff.1 hcolon, ha⟩
  · rintro ⟨key, a, s₁, s₂, hk, hname, hcolon, ha⟩
    exact ⟨a, s₁, name_ok_iff.2 ⟨key, hk, hname⟩, bind_ok_iff.2 ⟨(), s₂, colon_ok_iff.2 hcolon, ha⟩⟩

/-- A bare name is read where a known name stands that may be bare. -/
theorem bareName_ok_iff {known : List (String × α)} {bare : α → Except ReadError β} :
    (do match bare (← name known) with | .ok b => return b | .error e => fail e : Reader β) n s = .ok (b, rest) ↔
      ∃ key a, known.lookup key = some a ∧ bare a = .ok b ∧ Starts (quoted key) (skipBlanks s) rest := by
  rw [bind_ok_iff]
  constructor
  · rintro ⟨a, mid, hname, hb⟩
    obtain ⟨key, hk, hm⟩ := name_ok_iff.1 hname
    cases hbare : bare a with
    | error e => simp [hbare] at hb
    | ok b' =>
      rw [hbare] at hb
      obtain ⟨rfl, rfl⟩ := pure_ok_iff.1 hb
      exact ⟨key, a, hk, hbare, hm⟩
  · rintro ⟨key, a, hk, hbare, hm⟩
    refine ⟨a, rest, name_ok_iff.2 ⟨key, hk, hm⟩, ?_⟩
    rw [hbare]
    rfl

/-- An object of one member is read where a known name stands in it with a content that is read. -/
theorem variant_ok_iff {known : List (String × α)} {content : α → Reader β} {spellings : α → β → Nat → Language Char} {t : List Char}
    (h : ∀ key a, known.lookup key = some a → Recognizes fuel EndsNumber (content a) (spellings a)) (ht : t.length < fuel) :
    (do
      let b ← nested do advance; let a ← name known; colon; content a
      closing '}'
      return b : Reader β) n ('{' :: t) = .ok (b, rest) ↔
      ∃ key a, known.lookup key = some a ∧ Starts (variant key (spellings a b) n) ('{' :: t) rest := by
  constructor
  · intro hr
    obtain ⟨b', mid, hn, hret⟩ := bind_ok_iff.1 hr
    obtain ⟨rfl, hclose⟩ := close_ok_iff.1 hret
    obtain ⟨k, rfl, key, a, s₁, s₂, hk, hname, hcolon, ha⟩ := tagged_ok_iff.1 hn
    have hends := endsNumber_of_skipBlanks hclose (.inr (.inr rfl))
    have hlt := length_lt_of_name_colon hname hcolon
    have ha := ((h key a hk).ok_iff (by omega) hends).1 ha
    refine ⟨key, a, hk, (starts_variant ((h key a hk).opens b')).2 ?_⟩
    exact ⟨k, rfl, t, rfl, s₁, s₂, mid, hname, hcolon, ha, hclose⟩
  · rintro ⟨key, a, hk, ha⟩
    obtain ⟨k, rfl, _, ⟨⟩, s₁, s₂, mid, hname, hcolon, ha, hclose⟩ := (starts_variant ((h key a hk).opens b)).1 ha
    have hends := endsNumber_of_skipBlanks hclose (.inr (.inr rfl))
    have hlt := length_lt_of_name_colon hname hcolon
    have ha := ((h key a hk).ok_iff (by omega) hends).2 ha
    have hn := tagged_ok_iff.2 ⟨k, rfl, key, a, s₁, s₂, hk, hname, hcolon, ha⟩
    exact bind_ok_iff.2 ⟨b, mid, hn, close_ok_iff.2 ⟨rfl, hclose⟩⟩

/-- If the content of every variant is read as it is spelled, then so is the variant. -/
theorem Recognizes.choice {known : List (String × α)} {bare : α → Except ReadError β} {content : α → Reader β}
    {spellings : α → β → Nat → Language Char}
    (h : ∀ key a, known.lookup key = some a → Recognizes fuel EndsNumber (content a) (spellings a)) :
    Recognizes (fuel + 1) anything (choice known bare content) (choiceText known bare spellings) := by
  refine ⟨fun b n => opens_choiceText.mono fun _ => startsPiece_quote_or_brace, fun {b n s rest} hlt _ => ?_⟩
  have hle := length_skipBlanks_le s
  rw [Reader.choice, next_bind, starts_choiceText]
  cases hs : skipBlanks s with
  | nil => simp [(opens_quoted _).not_starts_nil, (opens_variant _ _ n).not_starts_nil]
  | cons c t =>
    -- the next character tells a bare name from an object
    by_cases hq : c = '"'
    · subst hq
      refine bareName_ok_iff.trans ?_
      simp only [skipBlanks_cons_of_solid (show IsSolid '"' from rfl),
        (opens_variant _ _ n).not_starts_cons (show '"' ≠ '{' by decide), or_false]
    · by_cases hb : c = '{'
      · subst hb
        rw [hs, List.length_cons] at hle
        refine (variant_ok_iff h (show t.length < fuel by omega)).trans ?_
        simp only [(opens_quoted _).not_starts_cons (show '{' ≠ '"' by decide), and_false, false_or]
      · simp [(opens_quoted _).not_starts_cons hq, (opens_variant _ _ n).not_starts_cons hb]

end Reader

end ExprLang.Json
