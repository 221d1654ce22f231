import ExprLang.Proofs.Number.Accuracy
import ExprLang.Proofs.Number.Patterns

/-!
# Literals are read as the numbers that they stand for

Reading a literal works on patterns and on pairs of natural numbers. That it comes to the rational numbers of `Literal.ReadAs` is shown
step by step here: digits (`appendDigits_eq_iff`), powers of ten and quotients by them, products, and at last whole literals and the floats
that are made of them (`exists_numeral?_iff`).
-/

namespace ExprLang.Number

open Json (ofDigits)

variable {bits k significand left : ℕ} {a d : ℚ} {l : Literal}

/-! ### Digits -/

/-- The significand that is collected, and the number of the digits that are left over. -/
theorem appendDigits_eq_iff {digits : List ℕ} {start : ℕ} (hstart : start < 2 ^ 64) :
    appendDigits start digits = (significand, left) ↔ Takes start digits significand left := by
  have hbound : significandBound = 2 ^ 64 := rfl
  induction digits generalizing start with
  | nil =>
    rw [appendDigits, Prod.mk.injEq, takes_nil, and_iff_right hstart, eq_comm, @eq_comm _ 0]
  | cons next digits ih =>
    rw [appendDigits, Nat.mul_comm]
    split_ifs with hfits
    · exact (ih hfits).trans (takes_cons_of_lt hfits).symm
    · rw [takes_cons_of_le hstart (Nat.not_lt.1 hfits), Prod.mk.injEq, eq_comm, @eq_comm _ (_ + 1)]

/-- Digits are taken in one way only. -/
theorem Takes.unique {digits : List ℕ} {start significand' left' : ℕ} (hstart : start < 2 ^ 64)
    (h : Takes start digits significand left) (h' : Takes start digits significand' left') :
    significand = significand' ∧ left = left' := by
  have heq := (appendDigits_eq_iff hstart).2 h
  rw [(appendDigits_eq_iff hstart).2 h'] at heq
  exact ⟨(Prod.mk.inj heq).1.symm, (Prod.mk.inj heq).2.symm⟩

/-! ### Patterns of doubles -/

/-- The pattern is that of the double. -/
def IsPattern (bits : ℕ) (d : ℚ) : Prop :=
  bits < BinaryFormat.binary64.infinity ∧ (BinaryFormat.binary64.value bits).toRat = d

/-- A double has one pattern. -/
theorem IsPattern.unique {bits' : ℕ} (h : IsPattern bits d) (h' : IsPattern bits' d) : bits = bits' :=
  BinaryFormat.binary64.strictMono_value.injective (h.2.trans h'.2.symm)

/-- Zero is the pattern of zero. -/
theorem isPattern_zero : IsPattern 0 0 := by
  refine ⟨by decide, ?_⟩
  rw [Fraction.toRat, BinaryFormat.value]
  decide +kernel

/-- What a pattern stands for is a fraction. -/
theorem value_den_pos (f : BinaryFormat) (bits : ℕ) : 0 < (f.value bits).den := by
  rw [BinaryFormat.value]
  split_ifs
  · exact Fraction.scale_den_pos one_pos two_pos _
  · exact Fraction.scale_den_pos one_pos two_pos _

/-- The pattern that is computed is that of the double to which the fraction is rounded, unless it is too large. -/
theorem isPattern_nearest {q : Fraction} (hq : 0 < q.den) (h : Double q.toRat d) :
    (d < 2 ^ 1024 ∧ IsPattern (BinaryFormat.binary64.nearest q) d) ∨
      (2 ^ 1024 ≤ d ∧ BinaryFormat.binary64.nearest q = BinaryFormat.binary64.infinity) :=
  BinaryFormat.nearest_cases BinaryFormat.isProper_binary64 hq h

/-- The pattern of a power of ten. -/
theorem exists_isPattern_powerOfTen (hk : k ≤ 308) :
    ∃ power, Double (10 ^ k) power ∧ 1 ≤ power ∧ IsPattern (powerOfTen k) power := by
  obtain ⟨power, h, -⟩ := exists_power k
  have hten : (10 : ℚ) ^ k ≤ 3 * 2 ^ (1022 : ℤ) := by
    have hgreatest : 10 ^ 308 ≤ 3 * 2 ^ 1022 := by decide +kernel
    calc (10 : ℚ) ^ k ≤ 10 ^ 308 := pow_le_pow_right₀ (by norm_num) hk
      _ ≤ 3 * 2 ^ (1022 : ℤ) := by exact_mod_cast hgreatest
  have hlt : power < 2 ^ 1024 := by
    calc power ≤ 3 * 2 ^ (1022 : ℤ) := h.le_of_le ⟨3, 1022, by decide, by decide, rfl⟩ hten
      _ < 2 ^ (2 : ℤ) * 2 ^ (1022 : ℤ) := mul_lt_mul_of_pos_right (by norm_num) (two_zpow_pos _)
      _ = 2 ^ (1024 : ℤ) := by rw [← zpow_add₀ two_ne_zero]; rfl
      _ = 2 ^ 1024 := zpow_natCast 2 1024
  have hvalue : (Fraction.ofNat (Nat.pow 10 k)).toRat = 10 ^ k := by
    rw [Fraction.toRat_ofNat, Nat.pow_eq]
    push_cast
    rfl
  rcases isPattern_nearest one_pos (hvalue ▸ h) with ⟨-, hpattern⟩ | ⟨hle, -⟩
  · exact ⟨power, h, (near_power h).2, hpattern⟩
  · exact absurd hlt hle.not_gt

/-! ### Products and quotients -/

/-- A quotient by a power of ten, of a number that is not beyond those of 64 bits, stays so. -/
theorem exists_isPattern_divideByPower (h : IsPattern bits a) (ha : 0 ≤ a) (hle : a ≤ 2 ^ 64) (hk : k ≤ 308) :
    ∃ power b, Double (10 ^ k) power ∧ Double (a / power) b ∧ IsPattern (divideByPower bits k) b ∧ 0 ≤ b ∧ b ≤ 2 ^ 64 := by
  obtain ⟨power, hpower, hone, hpattern⟩ := exists_isPattern_powerOfTen hk
  have hpos : 0 < power := zero_lt_one.trans_le hone
  have hquotient := div_nonneg ha hpos.le
  obtain ⟨b, hb⟩ := exists_double hquotient
  have hheld : Held 53 (-1074) (2 ^ 64) := by
    have h : Held 53 (-1074) (2 ^ (64 : ℤ)) := held_two_zpow (by decide) (by decide)
    exact_mod_cast h
  have hb64 : b ≤ 2 ^ 64 := hb.le_of_le hheld ((div_le_self ha hone).trans hle)
  have hden : 0 < ((BinaryFormat.binary64.value bits).div (BinaryFormat.binary64.value (powerOfTen k))).den := by
    refine Nat.mul_pos (value_den_pos _ _) (Nat.pos_of_ne_zero fun hzero => hpos.ne ?_)
    rw [← hpattern.2, Fraction.toRat, hzero, Nat.cast_zero, zero_div]
  have hvalue : ((BinaryFormat.binary64.value bits).div (BinaryFormat.binary64.value (powerOfTen k))).toRat = a / power := by
    rw [Fraction.toRat_div, h.2, hpattern.2]
  rcases isPattern_nearest hden (hvalue ▸ hb) with ⟨-, hnearest⟩ | ⟨hlarge, -⟩
  · exact ⟨power, b, hpower, hb, hnearest, hb.nonneg hquotient, hb64⟩
  · exact absurd (hlarge.trans hb64) (pow_lt_pow_right₀ one_lt_two (by decide)).not_ge

/-- A quotient is computed by one division, by two, or not at all, if nothing is left. -/
theorem exists_isPattern_divided (h : IsPattern bits a) (ha : 0 ≤ a) (hle : a ≤ 2 ^ 64) (k : ℕ) :
    ∃ d, Divided a k d ∧ IsPattern (if k ≤ maxPower then divideByPower bits k
      else if k ≤ 2 * maxPower then divideByPower (divideByPower bits maxPower) (k - maxPower) else 0) d := by
  have hmax : maxPower = 308 := rfl
  rw [hmax]
  split_ifs with hone htwo
  · obtain ⟨power, d, hpower, hd, hpattern, -⟩ := exists_isPattern_divideByPower h ha hle hone
    exact ⟨d, (divided_iff_of_le hone).2 ⟨power, hpower, hd⟩, hpattern⟩
  · obtain ⟨power, b, hpower, hb, hfirst, hb0, hb64⟩ := exists_isPattern_divideByPower h ha hle le_rfl
    have hrest : k - 308 ≤ 308 := by omega
    obtain ⟨power', d, hpower', hd, hpattern, -⟩ := exists_isPattern_divideByPower hfirst hb0 hb64 hrest
    have hlast := (divided_iff_of_le hrest).2 ⟨power', hpower', hd⟩
    exact ⟨d, (divided_iff_of_lt (not_le.1 hone)).2 ⟨power, b, hpower, hb, hlast⟩, hpattern⟩
  · obtain ⟨d, hd⟩ := exists_divided ha k
    have hzero := hd.eq_zero_of_lt ha hle (by omega)
    exact ⟨d, hd, hzero ▸ isPattern_zero⟩

/-- A product that is not zero is computed in one step, which shows whether it is too large. -/
theorem isPattern_multiplied (h : IsPattern bits a) (ha : 0 ≤ a) (hne : a ≠ 0) (hk : k ≤ 308) :
    let product := BinaryFormat.binary64.nearest
      ((BinaryFormat.binary64.value bits).mul (BinaryFormat.binary64.value (powerOfTen k)))
    (∃ d, Multiplied a k d ∧ IsPattern product d) ∨ (product = BinaryFormat.binary64.infinity ∧ ∀ d, ¬ Multiplied a k d) := by
  obtain ⟨power, hpower, hone, hpattern⟩ := exists_isPattern_powerOfTen hk
  obtain ⟨d, hd⟩ := exists_double (mul_nonneg ha (zero_le_one.trans hone))
  have hvalue : ((BinaryFormat.binary64.value bits).mul (BinaryFormat.binary64.value (powerOfTen k))).toRat = a * power := by
    rw [Fraction.toRat_mul, h.2, hpattern.2]
  rcases isPattern_nearest (Nat.mul_pos (value_den_pos _ _) (value_den_pos _ _)) (hvalue ▸ hd) with ⟨hlt, hproduct⟩ | ⟨hlarge, hproduct⟩
  · exact .inl ⟨d, .inr ⟨hk, power, hpower, hd, hlt⟩, hproduct⟩
  · refine .inr ⟨hproduct, ?_⟩
    rintro d' (⟨hzero, -⟩ | ⟨-, power', hpower', hd', hlt⟩)
    · exact hne hzero
    · obtain rfl := hpower.unique (by decide) hpower'
      obtain rfl := hd.unique (by decide) hd'
      exact hlt.not_ge hlarge

/-- A significand and an exponent are read as the double that is made of them, if one is. -/
theorem readDecimal?_cases {m : ℕ} (hm : m < 2 ^ 64) (e : ℤ) :
    (∃ bits d, readDecimal? ⟨m, e⟩ = some bits ∧ IsPattern bits d ∧ Scaled m e d) ∨
      (readDecimal? ⟨m, e⟩ = none ∧ ∀ d, ¬ Scaled m e d) := by
  have hm0 : (0 : ℚ) ≤ m := m.cast_nonneg
  obtain ⟨a, ha⟩ := exists_double hm0
  have ha0 := ha.nonneg hm0
  have hle := le_of_significand ha hm
  have hstart : IsPattern (BinaryFormat.binary64.nearest (.ofNat m)) a := by
    rw [← Fraction.toRat_ofNat] at ha
    rcases isPattern_nearest one_pos ha with ⟨-, hpattern⟩ | ⟨hlarge, -⟩
    · exact hpattern
    · exact absurd (hlarge.trans hle) (pow_lt_pow_right₀ one_lt_two (by decide)).not_ge
  rw [readDecimal?]
  dsimp only
  generalize BinaryFormat.binary64.nearest (.ofNat m) = start at hstart
  have hne (hstart0 : start ≠ 0) : a ≠ 0 := by
    rintro rfl
    exact hstart0 (hstart.unique isPattern_zero)
  cases e with
  | negSucc j =>
    obtain ⟨d, hd, hpattern⟩ := exists_isPattern_divided hstart ha0 hle (j + 1)
    refine .inl ⟨_, d, ?_, hpattern, a, ha, hd⟩
    dsimp only
    split_ifs <;> rfl
  | ofNat k =>
    dsimp only
    split_ifs with hzero hlarge hfinite
    · obtain rfl := hzero
      obtain rfl : a = 0 := hstart.2.symm.trans isPattern_zero.2
      exact .inl ⟨0, 0, rfl, isPattern_zero, 0, ha, .inl ⟨rfl, rfl⟩⟩
    · refine .inr ⟨rfl, ?_⟩
      rintro d ⟨a', ha', h⟩
      obtain rfl := ha.unique (by decide) ha'
      rcases h with ⟨h, -⟩ | ⟨hk, -⟩
      · exact hne hzero h
      · exact hlarge.not_ge hk
    · rcases isPattern_multiplied hstart ha0 (hne hzero) (Nat.not_lt.1 hlarge) with ⟨d, hd, hpattern⟩ | ⟨hinfinity, -⟩
      · exact .inl ⟨_, d, rfl, hpattern, a, ha, hd⟩
      · exact absurd hinfinity hfinite.ne
    · rcases isPattern_multiplied hstart ha0 (hne hzero) (Nat.not_lt.1 hlarge) with ⟨d, -, hpattern⟩ | ⟨-, hnone⟩
      · exact absurd hpattern.1 hfinite
      · refine .inr ⟨rfl, ?_⟩
        rintro d ⟨a', ha', h⟩
        obtain rfl := ha.unique (by decide) ha'
        exact hnone d h

/-! ### Literals -/

/-- No digits are left over exactly if the number of all digits fits, and then it is the significand. -/
theorem Takes.left_eq_zero_iff {digits : List ℕ} {start : ℕ} (h : Takes start digits significand left) :
    left = 0 ↔ digits.foldl (fun n d => 10 * n + d) start < 2 ^ 64 := by
  obtain ⟨taken, rest, rfl, rfl, rfl, hlt, hnext⟩ := h
  rw [List.foldl_append]
  cases rest with
  | nil => exact iff_of_true rfl hlt
  | cons d rest =>
    refine iff_of_false (Nat.succ_ne_zero _) ?_
    exact ((hnext d rfl).trans (le_foldl_digits rest _)).not_gt

/-- If no digits are left over, the significand is the number of all digits. -/
theorem Takes.eq_of_left {digits : List ℕ} {start : ℕ} (h : Takes start digits significand 0) :
    significand = digits.foldl (fun n d => 10 * n + d) start := by
  obtain ⟨taken, rest, rfl, hrest, rfl, -, -⟩ := h
  rw [List.length_eq_zero_iff.1 hrest, List.append_nil]

/-- Only digits are left over. -/
theorem Takes.left_le {digits : List ℕ} {start : ℕ} (h : Takes start digits significand left) : left ≤ digits.length := by
  obtain ⟨taken, rest, rfl, rfl, -⟩ := h
  rw [List.length_append]
  exact Nat.le_add_left _ _

namespace Literal

/-- An integer of 64 bits is read as it is. -/
theorem numeral?_of_isInteger (h : l.IsInteger) :
    l.numeral? = some (.integer (if l.negative then -(ofDigits l.whole : ℤ) else ofDigits l.whole)) := by
  have hlt := h.lt
  obtain ⟨negative, whole, fraction, exponent⟩ := l
  obtain ⟨rfl, rfl, hrange⟩ := h
  obtain ⟨significand, left, htakes⟩ := exists_takes whole (show 0 < 2 ^ 64 by decide)
  obtain rfl := htakes.left_eq_zero_iff.2 hlt
  obtain rfl := htakes.eq_of_left
  rw [numeral?.eq_def, (appendDigits_eq_iff (by decide)).2 htakes]
  cases negative with
  | false => rfl
  | true =>
    have hsmall : ¬ (ofDigits whole = 0 ∨ Nat.pow 2 63 < ofDigits whole) := by
      rintro (hzero | hlarge)
      · exact hrange.1.ne' hzero
      · exact hrange.2.not_gt hlarge
    exact if_neg hsmall

/-- A literal of whole digits only is read as a double if it is no integer of 64 bits. -/
theorem numeral?_whole {negative : Bool} {digits : List ℕ} (h : ¬ IsInteger ⟨negative, digits, none, none⟩)
    (hwhole : Takes 0 digits significand left) :
    numeral? ⟨negative, digits, none, none⟩ = (readDecimal? ⟨significand, left⟩).map (.float negative) := by
  rw [numeral?.eq_def, (appendDigits_eq_iff (by decide)).2 hwhole]
  dsimp only
  split_ifs with hleft hnegative hsmall
  · rfl
  · obtain rfl := not_not.1 hleft
    cases negative with
    | false => exact absurd ⟨rfl, rfl, hwhole.left_eq_zero_iff.1 rfl⟩ h
    | true => exact absurd hnegative Bool.false_ne_true
  · obtain rfl := not_not.1 hleft
    rfl
  · obtain rfl := not_not.1 hleft
    obtain rfl := hwhole.eq_of_left
    obtain ⟨hne, hle⟩ := not_or.1 hsmall
    cases negative with
    | false => exact absurd rfl hnegative
    | true => exact absurd ⟨rfl, rfl, Nat.pos_of_ne_zero hne, Nat.not_lt.1 hle⟩ h

/-- Any other literal is read as the double that is made of its significand. -/
theorem numeral?_of_not_isInteger {whole wholeLeft : ℕ} (h : ¬ l.IsInteger) (hwhole : Takes 0 l.whole whole wholeLeft)
    (hfraction : Takes whole (l.fraction.getD []) significand left) : l.numeral? =
      (readDecimal? ⟨significand, l.exponent.getD 0 - (l.fraction.getD []).length + wholeLeft + left⟩).map (.float l.negative) := by
  obtain ⟨negative, digits, fraction, exponent⟩ := l
  have hwholeDigits := (appendDigits_eq_iff (by decide)).2 hwhole
  have hfractionDigits := (appendDigits_eq_iff hwhole.lt).2 hfraction
  have hplaces := hfraction.left_le
  dsimp only at hwhole hwholeDigits hfractionDigits hplaces ⊢
  -- The exponent is computed in another order.
  have hexponent : (exponent.getD 0 - (fraction.getD []).length + wholeLeft + left : ℤ) =
      (wholeLeft : ℤ) - ((fraction.getD []).length - left : ℕ) + exponent.getD 0 := by omega
  cases fraction with
  | some ds =>
    rw [numeral?.eq_def, hwholeDigits, hexponent]
    simp only [hfractionDigits]
  | none =>
    cases exponent with
    | some e =>
      rw [numeral?.eq_def, hwholeDigits, hexponent]
      simp only [hfractionDigits]
    | none =>
      obtain ⟨-, rfl, rfl⟩ := takes_nil.1 hfraction
      have hleft : ((none : Option ℤ).getD 0 - ((none : Option (List ℕ)).getD []).length + wholeLeft + (0 : ℕ) : ℤ) = wholeLeft := by
        simp
      rw [hleft]
      exact numeral?_whole h hwhole

/-- The integers among the numbers that are read. -/
theorem numeral?_eq_integer_iff {k : ℤ} : l.numeral? = some (.integer k) ↔
    l.IsInteger ∧ k = if l.negative then -(ofDigits l.whole : ℤ) else ofDigits l.whole := by
  by_cases h : l.IsInteger
  · rw [numeral?_of_isInteger h, Option.some.injEq, Numeral.integer.injEq, and_iff_right h, eq_comm]
  · obtain ⟨whole, wholeLeft, hwhole⟩ := exists_takes l.whole (show 0 < 2 ^ 64 by decide)
    obtain ⟨significand, left, hfraction⟩ := exists_takes (l.fraction.getD []) hwhole.lt
    rw [numeral?_of_not_isInteger h hwhole hfraction, Option.map_eq_some_iff]
    constructor
    · rintro ⟨bits, -, ⟨⟩⟩
    · rintro ⟨hinteger, -⟩
      exact absurd hinteger h

/-- An integer stands for nothing else. -/
theorem readAs_iff_of_isInteger {q : ℚ} (h : l.IsInteger) : l.ReadAs q ↔ q = ofDigits l.whole := by
  constructor
  · rintro (_ | ⟨hinteger, -⟩)
    · rfl
    · exact absurd h hinteger
  · rintro rfl
    exact .integer h

/-- Any other literal stands for the double that is made of its significand. -/
theorem readAs_iff_of_not_isInteger {whole wholeLeft : ℕ} {q : ℚ} (h : ¬ l.IsInteger) (hwhole : Takes 0 l.whole whole wholeLeft)
    (hfraction : Takes whole (l.fraction.getD []) significand left) :
    l.ReadAs q ↔ Scaled significand (l.exponent.getD 0 - (l.fraction.getD []).length + wholeLeft + left) q := by
  constructor
  · rintro (hinteger | ⟨-, hwhole', hfraction', hq⟩)
    · exact absurd hinteger h
    · obtain ⟨rfl, rfl⟩ := hwhole.unique (by decide) hwhole'
      obtain ⟨rfl, rfl⟩ := hfraction.unique hwhole.lt hfraction'
      exact hq
  · exact .double h hwhole hfraction

/-- A literal is read as a float exactly if the float is nearest to the number as which the literal is to be read. -/
theorem exists_numeral?_iff {x : Float32} :
    (∃ n, l.numeral? = some n ∧ n.toFloat32 = x) ↔ ∃ q, l.ReadAs q ∧ IsNearest l.negative q x := by
  by_cases h : l.IsInteger
  · have hsign : decide ((if l.negative then -(ofDigits l.whole : ℤ) else ofDigits l.whole) < 0) = l.negative := by
      obtain ⟨-, -, hrange⟩ := h
      split_ifs at hrange ⊢ with hnegative
      · rw [hnegative, decide_eq_true]
        omega
      · rw [Bool.eq_false_of_not_eq_true hnegative, decide_eq_false]
        omega
    have habs : (if l.negative then -(ofDigits l.whole : ℤ) else ofDigits l.whole).natAbs = ofDigits l.whole := by
      split_ifs <;> omega
    simp only [numeral?_of_isInteger h, readAs_iff_of_isInteger h, Option.some.injEq, exists_eq_left', exists_eq_left]
    rw [Numeral.toFloat32, hsign, habs, ← isNearest_iff one_pos, Fraction.toRat_ofNat]
  · obtain ⟨whole, wholeLeft, hwhole⟩ := exists_takes l.whole (show 0 < 2 ^ 64 by decide)
    obtain ⟨significand, left, hfraction⟩ := exists_takes (l.fraction.getD []) hwhole.lt
    simp only [numeral?_of_not_isInteger h hwhole hfraction, readAs_iff_of_not_isInteger h hwhole hfraction]
    rcases readDecimal?_cases hfraction.lt (l.exponent.getD 0 - (l.fraction.getD []).length + wholeLeft + left) with
      ⟨bits, d, hread, hpattern, hd⟩ | ⟨hread, hnone⟩
    · simp only [hread, Option.map_some, Option.some.injEq, exists_eq_left']
      rw [Numeral.toFloat32, ← isNearest_iff (value_den_pos _ _), hpattern.2]
      constructor
      · intro hx
        exact ⟨d, hd, hx⟩
      · rintro ⟨q, hq, hx⟩
        exact hd.unique hq ▸ hx
    · rw [hread, Option.map_none]
      constructor
      · rintro ⟨n, ⟨⟩, -⟩
      · rintro ⟨q, hq, -⟩
        exact absurd hq (hnone q)

end Literal

end ExprLang.Number
