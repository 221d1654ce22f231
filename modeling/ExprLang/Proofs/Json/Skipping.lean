import ExprLang.Proofs.Json.Numbers
import ExprLang.Proofs.Json.Strings

/-!
# Any JSON value may be passed over

`skipValue` passes over exactly the values of the grammar, however deep their brackets. Values, items and members are passed over by
functions that call each other, so what is proved of them is proved together (`Skips`), by induction on the fuel. Between two calls at
least half a character is read for each unit of fuel.
-/

namespace ExprLang.Json

open Number
open scoped Computability

variable {s mid rest : List Char} {c : Char} {l : Literal}

/-! ### First characters -/

/-- A digit can open a piece. -/
theorem startsPiece_of_isDigit (h : c.isDigit = true) : StartsPiece c := by
  refine ⟨?_, ?_, ?_⟩
  · rw [IsSolid, ← Bool.not_eq_true]
    intro hb
    simp only [isBlank, Bool.or_eq_true, decide_eq_true_eq] at hb
    rcases hb with ((rfl | rfl) | rfl) | rfl <;> cases h
  · rintro rfl
    cases h
  · rintro rfl
    cases h

theorem startsPiece_minus : StartsPiece '-' := ⟨rfl, by decide, by decide⟩

theorem startsPiece_quote : StartsPiece '"' := ⟨rfl, by decide, by decide⟩

/-- Either opening bracket can open a piece. -/
theorem startsPiece_left {left : Char} (h : left = '[' ∨ left = '{') : StartsPiece left := by
  rcases h with rfl | rfl <;> exact ⟨rfl, by decide, by decide⟩

/-- A number without its sign starts with a digit. -/
theorem opens_unsigned : Opens (fun c => c.isDigit) (unsigned l) := by
  refine Opens.mul fun t ht => ?_
  exact opens_digits t ht.1

/-- A number starts with its sign or a digit. -/
theorem opens_literal : Opens (fun c => c = '-' ∨ c.isDigit) (literal l) := by
  rw [literal, sign]
  split_ifs
  · exact (opens_word (.inl rfl)).mul
  · rw [one_mul]
    exact opens_unsigned.mono fun _ => .inr

/-- After a minus a number without sign follows, and the number is negative. -/
theorem starts_literal_minus : Starts (literal l) ('-' :: s) rest ↔ l.negative = true ∧ Starts (unsigned l) s rest := by
  rw [literal, sign]
  split_ifs with h
  · simp [starts_cons_mul, h]
  · rw [one_mul]
    refine ⟨fun hs => ?_, fun hs => absurd hs.1 h⟩
    obtain ⟨_, _, ⟨⟩, hd⟩ := opens_unsigned.starts hs
    cases hd

/-- A number that does not start with a minus is not negative. -/
theorem starts_literal_of_ne (hc : c ≠ '-') :
    Starts (literal l) (c :: s) rest ↔ l.negative = false ∧ Starts (unsigned l) (c :: s) rest := by
  rw [literal, sign]
  split_ifs with h
  · rw [starts_cons_mul, h]
    refine ⟨fun ⟨_, h, _⟩ => absurd (List.cons.inj h).1 hc, fun ⟨h, _⟩ => (nomatch h)⟩
  · rw [one_mul, Bool.not_eq_true] at *
    rw [and_iff_right h]

/-- No number starts with anything but a minus or a digit. -/
theorem not_starts_literal (hm : c ≠ '-') (hd : c.isDigit = false) : ¬ Starts (literal l) (c :: s) rest :=
  opens_literal.not_starts_cons (by simp [hm, hd])

theorem opens_skippedString : Opens StartsPiece skippedString := (opens_word startsPiece_quote).mul

/-- A value that is passed over is no blank at its front. -/
theorem opens_skippable : Opens StartsPiece skippable := by
  intro t ht
  cases ht with
  | null => exact ⟨_, _, rfl, rfl, by decide, by decide⟩
  | true => exact ⟨_, _, rfl, rfl, by decide, by decide⟩
  | false => exact ⟨_, _, rfl, rfl, by decide, by decide⟩
  | number h =>
    have starts (c : Char) (hc : c = '-' ∨ c.isDigit) : StartsPiece c :=
      hc.elim (fun h => h ▸ startsPiece_minus) startsPiece_of_isDigit
    exact opens_literal.mono starts _ h
  | string h => exact opens_skippedString _ h
  | array _ h => exact opens_enclosed (startsPiece_left (.inl rfl)) _ h
  | object _ _ h => exact opens_enclosed (startsPiece_left (.inr rfl)) _ h

/-! ### Any number of pieces of one kind -/

/-- Further pieces of a kind and a closing bracket. -/
def furtherOf (right : Char) (l : Language Char) : Language Char := (blanks * (word [','] * (blanks * l)))∗ * (blanks * word [right])

/-- Any number of pieces of a kind between two brackets. -/
def enclosedOf (left right : Char) (l : Language Char) : Language Char :=
  word [left] * (blanks * word [right] + blanks * (l * furtherOf right l))

section Pieces

variable {ι : Type} {pieces : ι → Language Char} {P : ι → Prop} {kind : Language Char} {left right : Char}

/-- Further pieces of one kind are repetitions of a comma and a piece. -/
theorem mem_further_iff (hl : ∀ t, t ∈ kind ↔ ∃ i, P i ∧ t ∈ pieces i) :
    (∃ is : List ι, (∀ i ∈ is, P i) ∧ s ∈ further (is.map pieces)) ↔ s ∈ (blanks * (word [','] * (blanks * kind)))∗ := by
  constructor
  · rintro ⟨is, hP, hs⟩
    induction is generalizing s with
    | nil =>
      rw [show s = [] from hs]
      exact Language.nil_mem_kstar _
    | cons i is ih =>
      rw [List.map_cons, further_cons] at hs
      obtain ⟨a, ha, b, hb, rfl⟩ := hs
      have hle : pieces i ≤ kind := fun t ht => (hl t).2 ⟨i, hP i List.mem_cons_self, ht⟩
      have ha' : a ∈ blanks * (word [','] * (blanks * kind)) := by
        refine (show blanks * (word [','] * (blanks * pieces i)) ≤ _ from ?_) ha
        gcongr
      have hb' := ih (fun j hj => hP j (List.mem_cons_of_mem i hj)) hb
      exact (mul_kstar_le_kstar : _ ≤ (blanks * (word [','] * (blanks * kind)))∗) (Language.append_mem_mul ha' hb')
  · intro hs
    obtain ⟨texts, rfl, ht⟩ := Language.mem_kstar.1 hs
    clear hs
    induction texts with
    | nil => exact ⟨[], by simp, rfl⟩
    | cons t texts ih =>
      obtain ⟨is, hP, his⟩ := ih fun u hu => ht u (List.mem_cons_of_mem t hu)
      obtain ⟨b, hb, _, ⟨_, rfl, _, ⟨b', hb', u, hu, rfl⟩, rfl⟩, rfl⟩ := ht t List.mem_cons_self
      obtain ⟨i, hi, hu⟩ := (hl u).1 hu
      refine ⟨i :: is, List.forall_mem_cons.2 ⟨hi, hP⟩, ?_⟩
      rw [List.map_cons, further_cons]
      exact Language.append_mem_mul ⟨b, hb, _, ⟨_, rfl, _, ⟨b', hb', u, hu, rfl⟩, rfl⟩, rfl⟩ his

/-- Pieces of a kind between brackets, whichever they are. -/
theorem mem_enclosed_iff (hl : ∀ t, t ∈ kind ↔ ∃ i, P i ∧ t ∈ pieces i) :
    (∃ is : List ι, (∀ i ∈ is, P i) ∧ s ∈ enclosed left right (is.map pieces)) ↔ s ∈ enclosedOf left right kind := by
  constructor
  · rintro ⟨is, hP, _, hw, _, ⟨a, ha, b, hb, rfl⟩, rfl⟩
    refine Language.append_mem_mul hw ?_
    cases is with
    | nil =>
      rw [show a = [] from ha]
      exact .inl hb
    | cons i is =>
      obtain ⟨b', hb', _, ⟨t, ht, f, hf, rfl⟩, rfl⟩ := ha
      have hP' := List.forall_mem_cons.1 hP
      have hf' := (mem_further_iff hl).1 ⟨is, hP'.2, hf⟩
      simp only [List.append_assoc]
      exact .inr ⟨b', hb', _, ⟨t, (hl t).2 ⟨i, hP'.1, ht⟩, _, ⟨f, hf', b, hb, rfl⟩, rfl⟩, rfl⟩
  · rintro ⟨_, hw, _, hb | ⟨b', hb', _, ⟨t, ht, _, ⟨f, hf, b, hb, rfl⟩, rfl⟩, rfl⟩, rfl⟩
    · exact ⟨[], by simp, _, hw, _, ⟨[], rfl, _, hb, rfl⟩, rfl⟩
    · obtain ⟨i, hi, ht⟩ := (hl t).1 ht
      obtain ⟨is, hP, hf⟩ := (mem_further_iff hl).2 hf
      have hseparated : b' ++ (t ++ f) ∈ separated ((i :: is).map pieces) := ⟨b', hb', _, ⟨t, ht, f, hf, rfl⟩, rfl⟩
      refine ⟨i :: is, List.forall_mem_cons.2 ⟨hi, hP⟩, _, hw, _, ⟨_, hseparated, b, hb, rfl⟩, ?_⟩
      simp only [List.append_assoc]

/-- After a piece either the bracket closes, or a comma follows and what comes after it goes on. -/
def Continues (right : Char) (rest : List Char) (goesOn : List Char → Prop) (s : List Char) : Prop :=
  skipBlanks s = right :: rest ∨ ∃ s', skipBlanks s = ',' :: s' ∧ goesOn s'

/-- What goes on after a comma may be weakened for all shorter texts. -/
theorem Continues.imp {goesOn goesOn' : List Char → Prop} (h : Continues right rest goesOn s)
    (himp : ∀ s', s'.length < s.length → goesOn s' → goesOn' s') : Continues right rest goesOn' s := by
  refine Or.imp_right ?_ h
  rintro ⟨s', hs, h⟩
  refine ⟨s', hs, himp s' ?_ h⟩
  have hle := length_skipBlanks_le s
  rw [hs, List.length_cons] at hle
  omega

/-- Before a comma or the end of brackets a number ends. -/
theorem endsNumber_of_skipBlanks {c : Char} (h : skipBlanks s = c :: rest) (hc : c = ',' ∨ c = ']' ∨ c = '}') : EndsNumber s := by
  rintro d t rfl
  cases hd : isBlank d with
  | true =>
    simp only [isBlank, Bool.or_eq_true, decide_eq_true_eq] at hd
    rcases hd with ((rfl | rfl) | rfl) | rfl <;> decide
  | false =>
    rw [skipBlanks_cons_of_solid hd] at h
    obtain ⟨rfl, rfl⟩ := List.cons.inj h
    rcases hc with rfl | rfl | rfl <;> decide

/-- What goes on in brackets cannot go on with a number. -/
theorem Continues.endsNumber {goesOn : List Char → Prop} (h : Continues right rest goesOn s) (hr : right = ']' ∨ right = '}') :
    EndsNumber s := by
  rcases h with h | ⟨s', h, -⟩
  · exact endsNumber_of_skipBlanks h (.inr hr)
  · exact endsNumber_of_skipBlanks h (.inl rfl)

/-- A piece and further ones: after each piece stands a comma or the closing bracket. -/
theorem starts_mul_furtherOf (hk : Opens StartsPiece kind) (hr : IsSolid right) : Starts (kind * furtherOf right kind) s rest ↔
    ∃ mid, Starts kind s mid ∧ Continues right rest (fun s' => Starts (kind * furtherOf right kind) (skipBlanks s') rest) mid := by
  rw [starts_mul]
  refine exists_congr fun mid => and_congr_right fun _ => ?_
  rw [furtherOf, starts_kstar_mul, starts_blanks_last hr, Continues]
  refine or_congr_right ?_
  rw [← starts_mul, mul_assoc, mul_assoc, starts_blanks_mark rfl, mul_assoc]
  simp only [starts_blanks_mul hk.solid.mul]

/-- Pieces of one kind between brackets: none, or one and further ones. -/
theorem starts_enclosedOf (hk : Opens StartsPiece kind) (hr : IsSolid right) : Starts (enclosedOf left right kind) s rest ↔
    ∃ s', s = left :: s' ∧ (skipBlanks s' = right :: rest ∨ Starts (kind * furtherOf right kind) (skipBlanks s') rest) := by
  rw [enclosedOf, starts_cons_mul]
  simp only [starts_add, starts_blanks_last hr, starts_blanks_mul hk.solid.mul]

end Pieces

/-- A member that is passed over. -/
def skippableMember : Language Char := member skippedString skippable

theorem opens_skippableMember : Opens StartsPiece skippableMember := opens_skippedString.mul

/-- A member that is passed over is a string, a colon and a value that are passed over. -/
theorem mem_skippableMember (t : List Char) : t ∈ skippableMember ↔
    ∃ m : List Char × List Char, (m.1 ∈ skippedString ∧ Skippable m.2) ∧ t ∈ member (word m.1) (word m.2) := by
  constructor
  · rintro ⟨a, ha, _, ⟨b, hb, _, ⟨_, rfl, _, ⟨b', hb', v, hv, rfl⟩, rfl⟩, rfl⟩, rfl⟩
    exact ⟨(a, v), ⟨ha, hv⟩, a, rfl, _, ⟨b, hb, _, ⟨_, rfl, _, ⟨b', hb', v, rfl, rfl⟩, rfl⟩, rfl⟩, rfl⟩
  · rintro ⟨m, ⟨hn, hv⟩, a, rfl, _, ⟨b, hb, _, ⟨_, rfl, _, ⟨b', hb', v, rfl, rfl⟩, rfl⟩, rfl⟩, rfl⟩
    exact ⟨_, hn, _, ⟨b, hb, _, ⟨_, rfl, _, ⟨b', hb', _, hv, rfl⟩, rfl⟩, rfl⟩, rfl⟩

/-- A number. -/
def number : Language Char := {t | ∃ l, t ∈ literal l}

/-- The kinds of values that are passed over. -/
theorem skippable_eq : skippable = word ['n', 'u', 'l', 'l'] + (word ['t', 'r', 'u', 'e'] + (word ['f', 'a', 'l', 's', 'e'] +
    (number + (skippedString + (enclosedOf '[' ']' skippable + enclosedOf '{' '}' skippableMember))))) := by
  have hi (t : List Char) : t ∈ skippable ↔ ∃ u, Skippable u ∧ t ∈ word u :=
    ⟨fun h => ⟨t, h, rfl⟩, fun ⟨_, h, hu⟩ => hu ▸ h⟩
  ext t
  simp only [Language.mem_add, ← mem_enclosed_iff hi, ← mem_enclosed_iff mem_skippableMember]
  constructor
  · intro ht
    cases ht with
    | null => exact .inl rfl
    | true => exact .inr (.inl rfl)
    | false => exact .inr (.inr (.inl rfl))
    | number h => exact .inr (.inr (.inr (.inl ⟨_, h⟩)))
    | string h => exact .inr (.inr (.inr (.inr (.inl h))))
    | array hi h => exact .inr (.inr (.inr (.inr (.inr (.inl ⟨_, hi, h⟩)))))
    | object hn hv h => exact .inr (.inr (.inr (.inr (.inr (.inr ⟨_, fun m hm => ⟨hn m hm, hv m hm⟩, h⟩)))))
  · rintro (rfl | rfl | rfl | ⟨l, h⟩ | h | ⟨is, hi, h⟩ | ⟨ms, hm, h⟩)
    · exact .null
    · exact .true
    · exact .false
    · exact .number h
    · exact .string h
    · exact .array hi h
    · exact .object (fun m hms => (hm m hms).1) (fun m hms => (hm m hms).2) h

/-! ### The scanners -/

/-- A number is any literal. -/
theorem starts_number : Starts number s rest ↔ ∃ l, Starts (literal l) s rest :=
  ⟨fun ⟨t, ⟨l, hl⟩, h⟩ => ⟨l, t, hl, h⟩, fun ⟨l, t, hl, h⟩ => ⟨t, ⟨l, hl⟩, h⟩⟩

/-- A number after its sign is passed over, whatever its size. -/
theorem skipLiteral_iff (hr : EndsNumber rest) : skipLiteral s = .ok ((), rest) ↔ ∃ l, Starts (unsigned l) s rest := by
  rw [skipLiteral]
  constructor
  · intro h
    split at h
    · next l s' hs =>
      cases h
      exact ⟨l, ((scanLiteral_iff hr).1 hs).2⟩
    · cases h
  · rintro ⟨l, h⟩
    have hs : scanLiteral false s = .ok ({ l with negative := false }, rest) := (scanLiteral_iff hr).2 ⟨rfl, h⟩
    rw [hs]

/-- Items are passed over one at a time, up to the closing bracket. -/
theorem skipItems_iff {fuel : Nat} : skipItems (fuel + 1) s = .ok ((), rest) ↔
    ∃ mid, skipValue fuel s = .ok ((), mid) ∧ Continues ']' rest (fun s' => skipItems fuel s' = .ok ((), rest)) mid := by
  rw [skipItems]
  constructor
  · intro h
    split at h
    · cases h
    · next mid hv =>
      refine ⟨mid, hv, ?_⟩
      split at h
      · cases h
      · next s' hs => exact .inr ⟨s', hs, h⟩
      · next s' hs =>
        cases h
        exact .inl hs
      · cases h
  · rintro ⟨mid, hv, h | ⟨s', hs, h⟩⟩
    · simp only [hv, h]
    · simp only [hv, hs, h]

/-- Members are passed over one at a time, up to the closing brace. -/
theorem skipMembers_iff {fuel : Nat} : skipMembers (fuel + 1) s = .ok ((), rest) ↔
    ∃ mid, (∃ s₁ s₂ s₃, skipBlanks s = '"' :: s₁ ∧ skipString .plain s₁ = .ok ((), s₂) ∧ skipBlanks s₂ = ':' :: s₃ ∧
      skipValue fuel s₃ = .ok ((), mid)) ∧ Continues '}' rest (fun s' => skipMembers fuel s' = .ok ((), rest)) mid := by
  rw [skipMembers]
  constructor
  · intro h
    split at h
    · cases h
    · next s₁ h₁ =>
      split at h
      · cases h
      · next s₂ h₂ =>
        split at h
        · cases h
        · next s₃ h₃ =>
          split at h
          · cases h
          · next mid hv =>
            refine ⟨mid, ⟨s₁, s₂, s₃, h₁, h₂, h₃, hv⟩, ?_⟩
            split at h
            · cases h
            · next s' hs => exact .inr ⟨s', hs, h⟩
            · next s' hs =>
              cases h
              exact .inl hs
            · cases h
        · cases h
    · cases h
  · rintro ⟨mid, ⟨s₁, s₂, s₃, h₁, h₂, h₃, hv⟩, h | ⟨s', hs, h⟩⟩
    · simp only [h₁, h₂, h₃, hv, h]
    · simp only [h₁, h₂, h₃, hv, hs, h]

/-- What the functions that pass over values do with enough fuel. -/
structure Skips (fuel : Nat) : Prop where
  /-- A value is passed over. -/
  value {s rest : List Char} : 2 * s.length + 1 ≤ fuel → EndsNumber rest →
    (skipValue fuel s = .ok ((), rest) ↔ Starts skippable (skipBlanks s) rest)
  /-- Items and the end of an array are passed over. -/
  items {s rest : List Char} : 2 * s.length + 2 ≤ fuel →
    (skipItems fuel s = .ok ((), rest) ↔ Starts (skippable * furtherOf ']' skippable) (skipBlanks s) rest)
  /-- Members and the end of an object are passed over. -/
  members {s rest : List Char} : 2 * s.length + 2 ≤ fuel →
    (skipMembers fuel s = .ok ((), rest) ↔ Starts (skippableMember * furtherOf '}' skippableMember) (skipBlanks s) rest)

namespace Skips

variable {fuel : Nat}

/-- One more step of fuel passes over a value if less fuel passes over what stands inside it. -/
theorem value_succ (ih : Skips fuel) (hf : 2 * s.length + 1 ≤ fuel + 1) (hr : EndsNumber rest) :
    skipValue (fuel + 1) s = .ok ((), rest) ↔ Starts skippable (skipBlanks s) rest := by
  rw [skippable_eq, skipValue]
  have hle := length_skipBlanks_le s
  simp only [starts_add, starts_word, starts_number, skippedString, starts_cons_mul,
    starts_enclosedOf opens_skippable (show IsSolid ']' from rfl), starts_enclosedOf opens_skippableMember (show IsSolid '}' from rfl)]
  split
  · next h => simp [h, opens_literal.not_starts_nil]
  · next s' h => simp [h, skipString_iff, not_starts_literal]
  · next s' h =>
    simp only [h, skipLiteral_iff hr, starts_literal_minus]
    constructor
    · rintro ⟨l, hl⟩
      exact .inr (.inr (.inr (.inl ⟨{ l with negative := true }, rfl, hl⟩)))
    · intro hl
      obtain ⟨l, -, hl⟩ : ∃ l : Literal, l.negative = true ∧ Starts (unsigned l) s' rest := by simpa using hl
      exact ⟨l, hl⟩
  · next s' h => simp [h, scanWord_iff, not_starts_literal]
  · next s' h => simp [h, scanWord_iff, not_starts_literal]
  · next s' h => simp [h, scanWord_iff, not_starts_literal]
  · next s' h =>
    have hle' := length_skipBlanks_le s'
    have hk : Opens StartsPiece (skippable * furtherOf ']' skippable) := opens_skippable.mul
    simp only [h, List.length_cons] at hle ⊢
    split
    · next h' => simp [h', hk.not_starts_nil, not_starts_literal]
    · next s'' h' => simp [h', hk.not_starts_cons fun h => h.ne_bracket rfl, not_starts_literal]
    · next _ h' =>
      have hne : skipBlanks s' ≠ ']' :: rest := h' rest
      simp [hne, not_starts_literal, ih.items (show 2 * (skipBlanks s').length + 2 ≤ fuel by omega)]
  · next s' h =>
    have hle' := length_skipBlanks_le s'
    have hk : Opens StartsPiece (skippableMember * furtherOf '}' skippableMember) := opens_skippableMember.mul
    simp only [h, List.length_cons] at hle ⊢
    split
    · next h' => simp [h', hk.not_starts_nil, not_starts_literal]
    · next s'' h' => simp [h', hk.not_starts_cons fun h => h.ne_brace rfl, not_starts_literal]
    · next _ h' =>
      have hne : skipBlanks s' ≠ '}' :: rest := h' rest
      simp [hne, not_starts_literal, ih.members (show 2 * (skipBlanks s').length + 2 ≤ fuel by omega)]
  · next c s' quote minus n t f bracket brace h =>
    have hne : c ≠ '"' ∧ c ≠ 'n' ∧ c ≠ 't' ∧ c ≠ 'f' ∧ c ≠ '[' ∧ c ≠ '{' := ⟨quote, n, t, f, bracket, brace⟩
    by_cases hd : c.isDigit = true
    · simp only [if_pos hd, skipLiteral_iff hr, h, starts_literal_of_ne minus]
      constructor
      · rintro ⟨l, hl⟩
        exact .inr (.inr (.inr (.inl ⟨{ l with negative := false }, rfl, hl⟩)))
      · intro hl
        obtain ⟨l, -, hl⟩ : ∃ l : Literal, l.negative = false ∧ Starts (unsigned l) (c :: s') rest := by simpa [hne] using hl
        exact ⟨l, hl⟩
    · simp [hd, h, hne, not_starts_literal minus (by simpa using hd)]

/-- One more step of fuel passes over the items of an array. -/
theorem items_succ (ih : Skips fuel) (hf : 2 * s.length + 2 ≤ fuel + 1) :
    skipItems (fuel + 1) s = .ok ((), rest) ↔ Starts (skippable * furtherOf ']' skippable) (skipBlanks s) rest := by
  have hle := length_skipBlanks_le s
  rw [skipItems_iff, starts_mul_furtherOf opens_skippable rfl]
  refine exists_congr fun mid => ?_
  constructor
  · rintro ⟨hv, h⟩
    have hv := (ih.value (by omega) (h.endsNumber (.inl rfl))).1 hv
    have hlt := opens_skippable.length_lt hv
    exact ⟨hv, h.imp fun s' hs' => (ih.items (by omega)).1⟩
  · rintro ⟨hv, h⟩
    have hlt := opens_skippable.length_lt hv
    exact ⟨(ih.value (by omega) (h.endsNumber (.inl rfl))).2 hv, h.imp fun s' hs' => (ih.items (by omega)).2⟩

/-- The name of a member and the colon after it shorten the text. -/
theorem length_lt_of_member {s₁ s₂ s₃ : List Char} {name : Language Char} (h₁ : skipBlanks s = '"' :: s₁) (h₂ : Starts name s₁ s₂)
    (h₃ : skipBlanks s₂ = ':' :: s₃) : s₃.length + 2 ≤ s.length := by
  have hle := length_skipBlanks_le s
  have hle₂ := h₂.length_le
  have hle₃ := length_skipBlanks_le s₂
  rw [h₁, List.length_cons] at hle
  rw [h₃, List.length_cons] at hle₃
  omega

/-- One more step of fuel passes over the members of an object. -/
theorem members_succ (ih : Skips fuel) (hf : 2 * s.length + 2 ≤ fuel + 1) :
    skipMembers (fuel + 1) s = .ok ((), rest) ↔ Starts (skippableMember * furtherOf '}' skippableMember) (skipBlanks s) rest := by
  have hle := length_skipBlanks_le s
  rw [skipMembers_iff, starts_mul_furtherOf opens_skippableMember rfl]
  refine exists_congr fun mid => ?_
  constructor
  · rintro ⟨⟨s₁, s₂, s₃, h₁, h₂, h₃, hv⟩, h⟩
    rw [skipString_iff] at h₂
    have hlt₃ := length_lt_of_member h₁ h₂ h₃
    have hv := (ih.value (by omega) (h.endsNumber (.inr rfl))).1 hv
    have hm : Starts skippableMember (skipBlanks s) mid :=
      (starts_member opens_skippable.solid).2 ⟨s₂, s₃, starts_cons_mul.2 ⟨s₁, h₁, h₂⟩, h₃, hv⟩
    have hlt := opens_skippableMember.length_lt hm
    exact ⟨hm, h.imp fun s' hs' => (ih.members (by omega)).1⟩
  · rintro ⟨hm, h⟩
    have hlt := opens_skippableMember.length_lt hm
    obtain ⟨s₂, s₃, hk, h₃, hv⟩ := (starts_member opens_skippable.solid).1 hm
    obtain ⟨s₁, h₁, h₂⟩ := starts_cons_mul.1 hk
    have hlt₃ := length_lt_of_member h₁ h₂ h₃
    exact ⟨⟨s₁, s₂, s₃, h₁, skipString_iff.2 h₂, h₃, (ih.value (by omega) (h.endsNumber (.inr rfl))).2 hv⟩,
      h.imp fun s' hs' => (ih.members (by omega)).2⟩

end Skips

/-- Fuel for twice the length of the text is enough to pass over exactly the values of the grammar. -/
theorem skips : ∀ fuel, Skips fuel
  | 0 => by constructor <;> intros <;> omega
  | fuel + 1 => ⟨(skips fuel).value_succ, (skips fuel).items_succ, (skips fuel).members_succ⟩

/-- Any JSON value is passed over, and nothing else. -/
theorem skipValue_iff {fuel : Nat} (hf : 2 * s.length + 1 ≤ fuel) (hr : EndsNumber rest) :
    skipValue fuel s = .ok ((), rest) ↔ Starts skippable (skipBlanks s) rest := (skips fuel).value hf hr

end ExprLang.Json
