import ExprLang.Proofs.Computation
import ExprLang.Proofs.Json.Grammar
import ExprLang.Proofs.Number.Conversion

/-!
# Numbers are scanned by their grammar

A number ends where its text cannot go on, so what the grammar says of its end depends on what follows: `EndsNumber` is enough for any
number to end. It holds before blanks, commas and closing brackets, which are all that may follow a number in a document.
-/

namespace ExprLang.Json

open Number

variable {s mid rest : List Char} {c : Char} {ds : List Nat}

/-- No digit follows. -/
def NoDigit (s : List Char) : Prop := ∀ c t, s = c :: t → c.isDigit = false

/-- Nothing follows that could go on with a number. -/
def EndsNumber (s : List Char) : Prop := ∀ c t, s = c :: t → c.isDigit = false ∧ c ≠ '.' ∧ c ≠ 'e' ∧ c ≠ 'E'

theorem EndsNumber.noDigit (h : EndsNumber s) : NoDigit s := fun c t hs => (h c t hs).1

theorem noDigit_cons (h : c.isDigit = false) : NoDigit (c :: s) := by
  rintro _ _ ⟨⟩
  exact h

/-- After all digits were taken, none follows. -/
theorem noDigit_dropWhile (s : List Char) : NoDigit (s.dropWhile Char.isDigit) := by
  intro c t h
  have := List.head?_dropWhile_not Char.isDigit s
  rw [h] at this
  simpa using this

/-- Where no digit follows, none is taken. -/
theorem NoDigit.takeWhile (h : NoDigit s) : s.takeWhile Char.isDigit = [] := by
  cases s with
  | nil => rfl
  | cons c s => rw [List.takeWhile_cons_of_neg (by rw [h c s rfl]; exact Bool.false_ne_true)]

/-- Where no digit follows, none is dropped. -/
theorem NoDigit.dropWhile (h : NoDigit s) : s.dropWhile Char.isDigit = s := by
  cases s with
  | nil => rfl
  | cons c s => rw [List.dropWhile_cons_of_neg (by rw [h c s rfl]; exact Bool.false_ne_true)]

/-- The value of a digit. -/
abbrev digitValue (c : Char) : Nat := c.toNat - '0'.toNat

/-- Digits that no digit follows are all the digits in front. -/
theorem starts_digits_iff : Starts (digits ds) s rest ∧ NoDigit rest ↔
    s.takeWhile Char.isDigit ≠ [] ∧ (s.takeWhile Char.isDigit).map digitValue = ds ∧ s.dropWhile Char.isDigit = rest := by
  constructor
  · rintro ⟨⟨t, ⟨hne, ht, hds⟩, rfl⟩, hr⟩
    rw [List.takeWhile_append_of_pos ht, List.dropWhile_append_of_pos ht, hr.takeWhile, hr.dropWhile, List.append_nil]
    exact ⟨hne, hds, rfl⟩
  · rintro ⟨hne, hds, rfl⟩
    exact ⟨⟨_, ⟨hne, fun c hc => List.mem_takeWhile_imp hc, hds⟩, List.takeWhile_append_dropWhile⟩, noDigit_dropWhile s⟩

/-- All digits in front are read, and there must be one. -/
theorem scanSomeDigits_iff : scanSomeDigits s = .ok (ds, rest) ↔ Starts (digits ds) s rest ∧ NoDigit rest := by
  rw [starts_digits_iff, scanSomeDigits, scanDigits]
  cases h : s.takeWhile Char.isDigit with
  | nil => cases h' : s.dropWhile Char.isDigit <;> simp
  | cons c t =>
    simp only [List.map_cons, Except.ok.injEq, Prod.mk.injEq, ne_eq, reduceCtorEq, not_false_eq_true, true_and]

/-- A zero before the point stands alone. -/
theorem starts_wholeDigits_zero : Starts (wholeDigits ds) ('0' :: s) rest ↔ ds = [0] ∧ s = rest := by
  constructor
  · rintro ⟨t, ⟨⟨hne, -, rfl⟩, hz⟩, h⟩
    cases t with
    | nil => exact absurd rfl hne
    | cons c t =>
      obtain ⟨rfl, rfl⟩ := List.cons.inj h
      obtain ⟨-, rfl⟩ := List.cons.inj (hz rfl)
      exact ⟨rfl, rfl⟩
  · rintro ⟨rfl, rfl⟩
    exact ⟨['0'], ⟨⟨List.cons_ne_nil _ _, List.forall_mem_singleton.2 rfl, rfl⟩, fun _ => rfl⟩, rfl⟩

/-- Digits before the point that do not start with a zero are any digits. -/
theorem starts_wholeDigits_of_ne (h : ∀ t, s ≠ '0' :: t) : Starts (wholeDigits ds) s rest ↔ Starts (digits ds) s rest := by
  constructor
  · rintro ⟨t, ⟨ht, -⟩, hs⟩
    exact ⟨t, ht, hs⟩
  · rintro ⟨t, ht, rfl⟩
    refine ⟨t, ⟨ht, fun hz => ?_⟩, rfl⟩
    obtain ⟨t, rfl⟩ : ∃ t', t = '0' :: t' := by
      cases t with
      | nil => cases hz
      | cons c t => exact ⟨t, by rw [Option.some.inj hz]⟩
    exact absurd rfl (h _)

/-- The digits before the point are read up to the last one. -/
theorem scanWhole_iff : scanWhole s = .ok (ds, rest) ↔ Starts (wholeDigits ds) s rest ∧ NoDigit rest := by
  rw [scanWhole.eq_def]
  split
  · next s =>
    rw [starts_wholeDigits_zero, scanDigits]
    cases h : s.takeWhile Char.isDigit with
    | nil =>
      have hs : s.dropWhile Char.isDigit = s := by
        rw [← List.nil_append (s.dropWhile _), ← h, List.takeWhile_append_dropWhile]
      have hn : NoDigit s := hs ▸ noDigit_dropWhile s
      simp only [List.map_nil, hs, Except.ok.injEq, Prod.mk.injEq]
      exact ⟨fun ⟨hd, hr⟩ => ⟨⟨hd.symm, hr⟩, hr ▸ hn⟩, fun ⟨⟨hd, hr⟩, _⟩ => ⟨hd.symm, hr⟩⟩
    | cons c t =>
      simp only [List.map_cons, reduceCtorEq, false_iff, not_and]
      rintro ⟨-, rfl⟩ hn
      rw [hn.takeWhile] at h
      cases h
  · next h => rw [starts_wholeDigits_of_ne h, scanSomeDigits_iff]

/-- A fraction starts with a point, so no point may follow where there is none. -/
theorem scanFraction_iff {f : Option (List Nat)} : scanFraction s = .ok (f, rest) ↔
    Starts (fraction f) s rest ∧ if f.isNone then ∀ t, rest ≠ '.' :: t else NoDigit rest := by
  rw [scanFraction.eq_def]
  split
  · next s =>
    simp only [except_map_ok_iff, Prod.exists, scanSomeDigits_iff, Prod.mk.injEq]
    cases f with
    | none =>
      rw [fraction, starts_one, Option.isNone_none, if_pos rfl]
      exact ⟨fun ⟨_, _, _, h, _⟩ => (nomatch h), fun ⟨h, hr⟩ => absurd h.symm (hr s)⟩
    | some ds =>
      rw [fraction, starts_cons_mul, Option.isNone_some, if_neg Bool.false_ne_true]
      constructor
      · rintro ⟨_, _, h, ⟨⟩, rfl⟩
        exact ⟨⟨s, rfl, h.1⟩, h.2⟩
      · rintro ⟨⟨_, ⟨⟩, h⟩, hr⟩
        exact ⟨ds, rest, ⟨h, hr⟩, rfl, rfl⟩
  · next h =>
    rw [Except.ok.injEq, Prod.mk.injEq]
    cases f with
    | none =>
      rw [fraction, starts_one, Option.isNone_none, if_pos rfl, and_iff_right rfl]
      exact ⟨fun hs => ⟨hs, hs ▸ h⟩, And.left⟩
    | some ds =>
      rw [fraction, starts_cons_mul]
      exact ⟨fun ⟨h, _⟩ => (nomatch h), fun ⟨⟨s', hs, _⟩, _⟩ => absurd hs (h s')⟩

/-- The spellings of an exponent, by its sign. -/
theorem starts_power {e : Int} : Starts (power e) s rest ↔ ∃ ds,
    (e = ofDigits ds ∧ (Starts (digits ds) s rest ∨ ∃ s', s = '+' :: s' ∧ Starts (digits ds) s' rest)) ∨
      e = -ofDigits ds ∧ ∃ s', s = '-' :: s' ∧ Starts (digits ds) s' rest := by
  simp only [← starts_cons_mul, ← starts_add]
  constructor
  · rintro ⟨t, ⟨ds, ⟨he, ht⟩ | ⟨he, ht⟩⟩, h⟩
    · rw [add_mul, one_mul] at ht
      exact ⟨ds, .inl ⟨he, t, ht, h⟩⟩
    · exact ⟨ds, .inr ⟨he, t, ht, h⟩⟩
  · rintro ⟨ds, ⟨he, t, ht, h⟩ | ⟨he, t, ht, h⟩⟩
    · rw [← one_add_mul] at ht
      exact ⟨t, ⟨ds, .inl ⟨he, ht⟩⟩, h⟩
    · exact ⟨t, ⟨ds, .inr ⟨he, ht⟩⟩, h⟩

/-- Digits start with a digit. -/
theorem opens_digits : Opens (fun c => c.isDigit) (digits ds) := by
  rintro t ⟨hne, ht, -⟩
  cases t with
  | nil => exact absurd rfl hne
  | cons c t => exact ⟨c, t, rfl, ht c List.mem_cons_self⟩

/-- Digits start with one. -/
theorem not_starts_digits (hc : c.isDigit = false) : ¬ Starts (digits ds) (c :: s) rest :=
  opens_digits.not_starts_cons (by simp [hc])

/-- After a minus the exponent is not positive. -/
theorem starts_power_minus {e : Int} :
    Starts (power e) ('-' :: s) rest ↔ ∃ ds, e = -ofDigits ds ∧ Starts (digits ds) s rest := by
  simp [starts_power, not_starts_digits]

/-- After a plus the exponent is not negative. -/
theorem starts_power_plus {e : Int} :
    Starts (power e) ('+' :: s) rest ↔ ∃ ds, e = ofDigits ds ∧ Starts (digits ds) s rest := by
  simp [starts_power, not_starts_digits]

/-- Without a sign the exponent is not negative. -/
theorem starts_power_of_ne {e : Int} (hm : ∀ t, s ≠ '-' :: t) (hp : ∀ t, s ≠ '+' :: t) :
    Starts (power e) s rest ↔ ∃ ds, e = ofDigits ds ∧ Starts (digits ds) s rest := by
  simp [starts_power, hm, hp]

/-- Digits of an exponent are read and given their sign. -/
theorem map_scanSomeDigits_iff {f : Nat → Int} {e : Option Int} :
    (scanSomeDigits s).map (fun (ds, s) => (some (f (ofDigits ds)), s)) = .ok (e, rest) ↔
      (∃ n, e = some n ∧ ∃ ds, n = f (ofDigits ds) ∧ Starts (digits ds) s rest) ∧ NoDigit rest := by
  simp only [except_map_ok_iff, Prod.exists, scanSomeDigits_iff, Prod.mk.injEq]
  constructor
  · rintro ⟨ds, _, ⟨h, hr⟩, rfl, rfl⟩
    exact ⟨⟨_, rfl, ds, rfl, h⟩, hr⟩
  · rintro ⟨⟨_, rfl, ds, rfl, h⟩, hr⟩
    exact ⟨ds, rest, ⟨h, hr⟩, rfl, rfl⟩

/-- What the scanner does after the letter of an exponent. -/
theorem scanExponent_cons_iff {e : Option Int} (hc : c = 'e' ∨ c = 'E') : scanExponent (c :: s) = .ok (e, rest) ↔
    (∃ n, e = some n ∧ Starts (power n) s rest) ∧ NoDigit rest := by
  rw [scanExponent.eq_def]
  simp only [if_pos hc]
  split
  · simpa only [starts_power_minus] using map_scanSomeDigits_iff (f := fun n => -n)
  · simpa only [starts_power_plus] using map_scanSomeDigits_iff (f := fun n => n)
  · next hm hp => simpa only [starts_power_of_ne hm hp] using map_scanSomeDigits_iff (f := fun n => n)

/-- An exponent is one of two letters and a power. -/
theorem starts_exponent_some {n : Int} : Starts (exponent (some n)) s rest ↔
    ∃ c s', s = c :: s' ∧ (c = 'e' ∨ c = 'E') ∧ Starts (power n) s' rest := by
  rw [exponent, add_mul, starts_add, starts_cons_mul, starts_cons_mul]
  constructor
  · rintro (⟨s', rfl, h⟩ | ⟨s', rfl, h⟩)
    · exact ⟨_, s', rfl, .inl rfl, h⟩
    · exact ⟨_, s', rfl, .inr rfl, h⟩
  · rintro ⟨c, s', rfl, rfl | rfl, h⟩
    · exact .inl ⟨s', rfl, h⟩
    · exact .inr ⟨s', rfl, h⟩

/-- An exponent starts with a letter, so that letter may not follow where there is none. -/
theorem scanExponent_iff {e : Option Int} : scanExponent s = .ok (e, rest) ↔
    Starts (exponent e) s rest ∧ if e.isNone then ∀ c t, rest = c :: t → c ≠ 'e' ∧ c ≠ 'E' else NoDigit rest := by
  cases s with
  | nil =>
    rw [scanExponent, Except.ok.injEq, Prod.mk.injEq]
    cases e with
    | none =>
      rw [exponent, starts_one, and_iff_right rfl, Option.isNone_none, if_pos rfl]
      exact ⟨fun h => ⟨h, by rintro _ _ rfl; cases h⟩, And.left⟩
    | some n =>
      rw [starts_exponent_some]
      exact ⟨fun ⟨h, _⟩ => (nomatch h), fun ⟨⟨_, _, h, _⟩, _⟩ => (nomatch h)⟩
  | cons c s =>
    -- without one of the two letters nothing is read
    by_cases hc : c = 'e' ∨ c = 'E'
    · rw [scanExponent_cons_iff hc]
      cases e with
      | none =>
        rw [exponent, starts_one, Option.isNone_none, if_pos rfl]
        exact ⟨fun ⟨⟨_, h, _⟩, _⟩ => (nomatch h), fun ⟨h, hr⟩ => absurd hc (not_or.2 (hr c s h.symm))⟩
      | some n =>
        rw [starts_exponent_some, Option.isNone_some, if_neg Bool.false_ne_true]
        refine and_congr_left fun _ => ?_
        constructor
        · rintro ⟨_, ⟨⟩, h⟩
          exact ⟨c, s, rfl, hc, h⟩
        · rintro ⟨_, _, ⟨⟩, -, h⟩
          exact ⟨n, rfl, h⟩
    · rw [scanExponent.eq_def]
      simp only [if_neg hc, Except.ok.injEq, Prod.mk.injEq]
      cases e with
      | none =>
        rw [exponent, starts_one, and_iff_right rfl, Option.isNone_none, if_pos rfl]
        refine ⟨fun h => ⟨h, ?_⟩, And.left⟩
        rintro _ _ rfl
        obtain ⟨rfl, -⟩ := List.cons.inj h
        exact not_or.1 hc
      | some n =>
        rw [starts_exponent_some]
        refine ⟨fun ⟨h, _⟩ => (nomatch h), ?_⟩
        rintro ⟨⟨_, _, ⟨⟩, h, -⟩, -⟩
        exact absurd h hc

/-! ### Whole numbers -/

/-- An exponent or its absence keeps what stands before it from going on. -/
theorem Starts.endsNumber_exponent {e : Option Int} (h : Starts (exponent e) s rest) (hr : EndsNumber rest) :
    NoDigit s ∧ ∀ t, s ≠ '.' :: t := by
  cases e with
  | none =>
    rw [exponent, starts_one] at h
    exact ⟨h ▸ hr.noDigit, fun t ht => (hr '.' t (h ▸ ht)).2.1 rfl⟩
  | some n =>
    obtain ⟨c, s', rfl, rfl | rfl, -⟩ := starts_exponent_some.1 h
    · exact ⟨noDigit_cons rfl, fun t ht => by cases ht⟩
    · exact ⟨noDigit_cons rfl, fun t ht => by cases ht⟩

/-- A fraction does not start with a digit, so the digits before it have ended. -/
theorem Starts.noDigit_fraction {f : Option (List Nat)} (h : Starts (fraction f) s rest) (hr : NoDigit rest) : NoDigit s := by
  cases f with
  | none =>
    rw [fraction, starts_one] at h
    exact h ▸ hr
  | some ds =>
    obtain ⟨s', rfl, -⟩ := starts_cons_mul.1 h
    exact noDigit_cons rfl

/-- A number after its sign is scanned if it is spelled and its end can be told. -/
theorem scanLiteral_iff {negative : Bool} {l : Literal} (hr : EndsNumber rest) :
    scanLiteral negative s = .ok (l, rest) ↔ l.negative = negative ∧ Starts (unsigned l) s rest := by
  obtain ⟨sign, whole, fraction, exponent⟩ := l
  simp only [scanLiteral, except_bind_ok_iff, Prod.exists, scanWhole_iff, scanFraction_iff, scanExponent_iff, unsigned, starts_mul]
  constructor
  · rintro ⟨_, s₁, ⟨hw, -⟩, _, s₂, ⟨hf, -⟩, _, s₃, ⟨he, -⟩, ⟨⟩⟩
    exact ⟨rfl, s₁, hw, s₂, hf, he⟩
  · rintro ⟨rfl, s₁, hw, s₂, hf, he⟩
    obtain ⟨hd, hp⟩ := he.endsNumber_exponent hr
    refine ⟨whole, s₁, ⟨hw, hf.noDigit_fraction hd⟩, fraction, s₂, ⟨hf, ?_⟩, exponent, rest, ⟨he, ?_⟩, rfl⟩
    · split_ifs
      · exact hp
      · exact hd
    · split_ifs
      · exact fun c t h => (hr c t h).2.2
      · exact hr.noDigit

/-- A number after its sign is read if it is not too large. -/
theorem scanNumeral_iff {negative : Bool} {n : Numeral} (hr : EndsNumber rest) :
    scanNumeral negative s = .ok (n, rest) ↔ ∃ l, l.negative = negative ∧ l.numeral? = some n ∧ Starts (unsigned l) s rest := by
  simp only [scanNumeral, except_bind_ok_iff, Prod.exists]
  constructor
  · rintro ⟨l, s', h, h'⟩
    split at h'
    · next hn =>
      cases h'
      obtain ⟨hl, h⟩ := (scanLiteral_iff hr).1 h
      exact ⟨l, hl, hn, h⟩
    · cases h'
  · rintro ⟨l, hl, hn, h⟩
    exact ⟨l, rest, (scanLiteral_iff hr).2 ⟨hl, h⟩, by rw [hn]; rfl⟩

/-! ### Floats -/

/-- A literal spells a float if the number that is read of it is converted to the float. -/
theorem mem_float_iff {x : Float32} : s ∈ float x ↔ ∃ l n, s ∈ literal l ∧ l.numeral? = some n ∧ n.toFloat32 = x := by
  constructor
  · rintro ⟨l, q, hs, hq, hx⟩
    obtain ⟨n, hn, hx⟩ := Literal.exists_numeral?_iff.2 ⟨q, hq, hx⟩
    exact ⟨l, n, hs, hn, hx⟩
  · rintro ⟨l, n, hs, hn, hx⟩
    obtain ⟨q, hq, hx⟩ := Literal.exists_numeral?_iff.1 ⟨n, hn, hx⟩
    exact ⟨l, q, hs, hq, hx⟩

/-- Digits are read as numbers below ten. -/
theorem le_nine_of_mem_digits (h : s ∈ digits ds) : ∀ d ∈ ds, d ≤ 9 := by
  obtain ⟨-, hdigit, rfl⟩ := h
  intro d hd
  obtain ⟨c, hc, rfl⟩ := List.mem_map.1 hd
  have hle : c.toNat ≤ '9'.toNat := (Char.isDigit_iff_toNat.1 (hdigit c hc)).2
  exact Nat.sub_le_iff_le_add.2 hle

/-- The digits of a literal that is spelled are below ten. -/
theorem le_nine_of_mem_literal {l : Literal} (h : s ∈ literal l) : ∀ d ∈ l.whole ++ l.fraction.getD [], d ≤ 9 := by
  obtain ⟨_, -, _, ⟨_, ⟨hwhole, -⟩, _, ⟨_, hfraction, -⟩, -⟩, -⟩ := h
  refine List.forall_mem_append.2 ⟨le_nine_of_mem_digits hwhole, ?_⟩
  cases hf : l.fraction with
  | none => exact fun d hd => nomatch hd
  | some ds =>
    rw [hf] at hfraction
    obtain ⟨_, -, _, hds, -⟩ := hfraction
    exact le_nine_of_mem_digits hds

/-- A literal that is not among the greatest spells a float. -/
theorem exists_mem_float {l : Literal} (h : s ∈ literal l) (hle : l.value ≤ (1 - 2 ^ (-50 : ℤ)) * 2 ^ 1024) : ∃ x, s ∈ float x := by
  obtain ⟨q, hq⟩ := l.exists_readAs (le_nine_of_mem_literal h) hle
  obtain ⟨x, hx⟩ := exists_isNearest l.negative hq.nonneg
  exact ⟨x, l, q, h, hq, hx⟩

/-- What spells a float is a literal whose value is not beyond the doubles, and the float is nearest to a number that is near to it. -/
theorem accurate_of_mem_float {x : Float32} (h : s ∈ float x) : ∃ l q, s ∈ literal l ∧ IsNearest l.negative q x ∧
    l.value < (1 + 2 ^ (-50 : ℤ)) * 2 ^ 1024 ∧ |q - l.value| ≤ 2 ^ (-50 : ℤ) * l.value + 2 ^ (-1074 : ℤ) := by
  obtain ⟨l, q, hl, hq, hx⟩ := h
  exact ⟨l, q, hl, hx, hq.accurate (le_nine_of_mem_literal hl)⟩

end ExprLang.Json
