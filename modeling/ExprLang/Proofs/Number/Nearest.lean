import ExprLang.Number.Binary
import ExprLang.Proofs.Number.Rounding

/-!
# The nearest pattern

The patterns of a binary format stand for greater and greater numbers (`strictMono_value`), and the pattern that is computed for a
fraction is the one of the number to which the fraction is rounded, or infinity if this number is too large (`exists_nearest`).
-/

namespace ExprLang.Number

namespace Fraction

variable {q : Fraction}

/-- The number that a fraction is. -/
def toRat (q : Fraction) : ℚ := q.num / q.den

/-- A natural number is itself. -/
theorem toRat_ofNat (n : ℕ) : (ofNat n).toRat = n := by
  rw [toRat, ofNat, Nat.cast_one, div_one]

/-- The product is the product. -/
theorem toRat_mul (a b : Fraction) : (a.mul b).toRat = a.toRat * b.toRat := by
  rw [toRat, mul, toRat, toRat, Nat.cast_mul, Nat.cast_mul, mul_div_mul_comm]

/-- The quotient is the quotient. -/
theorem toRat_div (a b : Fraction) : (a.div b).toRat = a.toRat / b.toRat := by
  rw [toRat, div, toRat, toRat, Nat.cast_mul, Nat.cast_mul, div_div_div_eq]

/-- Scaling multiplies by a power, whatever the sign of the exponent. -/
theorem toRat_scale (q : Fraction) (base : ℕ) (e : ℤ) : (q.scale base e).toRat = q.toRat * (base : ℚ) ^ e := by
  cases e with
  | ofNat k =>
    rw [scale, toRat, toRat, Int.ofNat_eq_natCast, zpow_natCast, Nat.pow_eq]
    push_cast
    ring
  | negSucc k =>
    rw [scale, toRat, toRat, zpow_negSucc, Nat.pow_eq, ← div_eq_mul_inv, div_div]
    push_cast
    rfl

/-- Scaling keeps the denominator positive. -/
theorem scale_den_pos (hq : 0 < q.den) {base : ℕ} (hb : 0 < base) (e : ℤ) : 0 < (q.scale base e).den := by
  cases e with
  | ofNat k => exact hq
  | negSucc k => exact Nat.mul_pos hq (Nat.pow_pos hb)

/-- No fraction is negative. -/
theorem toRat_nonneg (q : Fraction) : 0 ≤ q.toRat := div_nonneg (Nat.cast_nonneg _) (Nat.cast_nonneg _)

/-- Every number that is not negative is a fraction. -/
theorem exists_toRat_eq {r : ℚ} (hr : 0 ≤ r) : ∃ q : Fraction, 0 < q.den ∧ q.toRat = r := by
  obtain ⟨n, hn⟩ := Int.eq_ofNat_of_zero_le (Rat.num_nonneg.2 hr)
  refine ⟨⟨n, r.den⟩, r.den_pos, ?_⟩
  rw [toRat]
  conv_rhs => rw [← Rat.num_div_den r, hn, Int.cast_natCast]

/-- The natural numbers up to a fraction are those up to its floor. -/
theorem le_floor_iff (hq : 0 < q.den) {n : ℕ} : n ≤ q.floor ↔ (n : ℚ) ≤ q.toRat := by
  rw [floor, Nat.le_div_iff_mul_le hq, toRat, le_div_iff₀ (by exact_mod_cast hq)]
  exact_mod_cast Iff.rfl

/-- A fraction is its whole part and what is left over. -/
theorem toRat_eq_add (hq : 0 < q.den) : q.toRat = (q.num / q.den : ℕ) + ((q.num % q.den : ℕ) : ℚ) / q.den := by
  have hden : (q.den : ℚ) ≠ 0 := by exact_mod_cast hq.ne'
  rw [toRat, div_eq_iff hden, add_mul, div_mul_cancel₀ _ hden]
  exact_mod_cast (Nat.div_add_mod' q.num q.den).symm

/-- The whole number that is computed is the nearest one. -/
theorem nearestWhole_nearestNat (hq : 0 < q.den) : NearestWhole q.toRat q.nearestNat := by
  have hden : (0 : ℚ) < q.den := by exact_mod_cast hq
  have hrest : ((q.num % q.den : ℕ) : ℚ) < q.den := by exact_mod_cast Nat.mod_lt _ hq
  have hzero : 0 ≤ ((q.num % q.den : ℕ) : ℚ) / q.den := div_nonneg (Nat.cast_nonneg _) hden.le
  -- the rest of the division is less than one half, more, or just that
  rw [toRat_eq_add hq, nearestNat]
  split_ifs with hbelow habove
  · have hhalf : ((q.num % q.den : ℕ) : ℚ) / q.den < 1 / 2 := by
      rw [div_lt_div_iff₀ hden two_pos]
      exact_mod_cast (by omega : q.num % q.den * 2 < 1 * q.den)
    refine .of_le_half ?_ fun h => ?_
    · rw [sub_add_cancel_left, abs_neg, abs_of_nonneg hzero]
      exact hhalf.le
    · rw [sub_add_cancel_left, abs_neg, abs_of_nonneg hzero] at h
      exact absurd h hhalf.ne
  · have hhalf : 1 / 2 < ((q.num % q.den : ℕ) : ℚ) / q.den := by
      rw [div_lt_div_iff₀ two_pos hden]
      exact_mod_cast (by omega : 1 * q.den < q.num % q.den * 2)
    have hone := (div_lt_one hden).2 hrest
    refine .of_le_half ?_ fun h => ?_
    · push_cast
      rw [add_sub_add_left_eq_sub, abs_of_pos (by linarith)]
      linarith
    · push_cast at h
      rw [add_sub_add_left_eq_sub, abs_of_pos (by linarith)] at h
      linarith
  · have hhalf : ((q.num % q.den : ℕ) : ℚ) / q.den = 1 / 2 := by
      rw [div_eq_div_iff hden.ne' two_ne_zero]
      exact_mod_cast (by omega : q.num % q.den * 2 = 1 * q.den)
    rw [hhalf]
    refine .of_le_half ?_ fun _ => Nat.even_add.2 ?_
    · rcases Nat.mod_two_eq_zero_or_one (q.num / q.den) with h | h
      · rw [h]; norm_num
      · rw [h]; push_cast; rw [add_sub_add_left_eq_sub]; norm_num
    · grind

end Fraction

namespace BinaryFormat

variable {f : BinaryFormat} {q : Fraction}

/-- A format has two digits at least, and a field for exponents. -/
structure IsProper (f : BinaryFormat) : Prop where
  /-- Bits of the significand. -/
  precision : 1 < f.precision
  /-- Bits of the exponent. -/
  exponentBits : 0 < f.exponentBits

/-- The formats of values and of numbers are proper. -/
theorem isProper_binary32 : binary32.IsProper := ⟨by decide, by decide⟩

theorem isProper_binary64 : binary64.IsProper := ⟨by decide, by decide⟩

theorem binade_pos (f : BinaryFormat) : 0 < f.binade := Nat.pow_pos two_pos

/-- A binade fills the significand but for one digit. -/
theorem two_mul_binade (hf : f.IsProper) : 2 * f.binade = 2 ^ f.precision := by
  rw [binade, Nat.pow_eq, mul_comm, ← pow_succ, Nat.sub_add_cancel hf.precision.le]

/-! ### What patterns stand for -/

/-- A pattern counts units of its exponent; it counts at least a binade of them unless the exponent is the least one. -/
theorem exists_units (f : BinaryFormat) (n : ℕ) : ∃ k N, n = k * f.binade + N ∧ N < 2 * f.binade ∧ (k = 0 ∨ f.binade ≤ N) := by
  have hmod := Nat.mod_lt n f.binade_pos
  have hdiv := Nat.div_add_mod n f.binade
  rcases Nat.eq_zero_or_pos (n / f.binade) with hzero | hpos
  · exact ⟨0, n, by omega, by rw [hzero] at hdiv; omega, .inl rfl⟩
  · refine ⟨n / f.binade - 1, f.binade + n % f.binade, ?_, by omega, .inr (Nat.le_add_right _ _)⟩
    obtain ⟨k, hk⟩ := Nat.exists_eq_succ_of_ne_zero hpos.ne'
    rw [hk] at hdiv ⊢
    rw [Nat.succ_sub_one]
    linarith [Nat.mul_succ f.binade k, Nat.mul_comm f.binade k]

/-- The number that a pattern stands for, by the units that it counts. This holds of one unit more than fit, too, which is where the next
exponent begins. -/
theorem toRat_value {k N : ℕ} (hN : N ≤ 2 * f.binade) (hk : k = 0 ∨ f.binade ≤ N) :
    (f.value (k * f.binade + N)).toRat = N * 2 ^ (f.minExponent + k) := by
  have hB := f.binade_pos
  rw [value]
  rcases Nat.lt_or_ge N f.binade with hlow | hhigh
  · obtain rfl : k = 0 := hk.resolve_right (by omega)
    rw [Nat.zero_mul, Nat.zero_add, Nat.div_eq_of_lt hlow, Nat.mod_eq_of_lt hlow, if_pos rfl, Fraction.toRat_scale, Fraction.toRat_ofNat]
    push_cast
    rw [add_zero]
  rcases hN.lt_or_eq with hlt | rfl
  · have hsplit : k * f.binade + N = f.binade * (k + 1) + (N - f.binade) := by
      rw [Nat.mul_succ, Nat.mul_comm]
      omega
    have hrest : N - f.binade < f.binade := by omega
    rw [hsplit, Nat.mul_add_div hB, Nat.div_eq_of_lt hrest, Nat.mul_add_mod, Nat.mod_eq_of_lt hrest, Nat.add_zero,
      if_neg (Nat.succ_ne_zero k), Fraction.toRat_scale, Fraction.toRat_ofNat, Nat.add_sub_cancel' hhigh, Nat.add_sub_cancel]
    rfl
  · have hsplit : k * f.binade + 2 * f.binade = f.binade * (k + 2) := by ring
    rw [hsplit, Nat.mul_div_cancel_left _ hB, Nat.mul_mod_right, if_neg (Nat.succ_ne_zero _), Fraction.toRat_scale,
      Fraction.toRat_ofNat, show k + 2 - 1 = k + 1 by omega, Nat.add_zero]
    push_cast
    rw [← add_assoc, zpow_add_one₀ two_ne_zero]
    ring

/-- Greater patterns stand for greater numbers. -/
theorem strictMono_value (f : BinaryFormat) : StrictMono fun n => (f.value n).toRat := by
  intro n n' hlt
  obtain ⟨k, N, rfl, hN, hk⟩ := f.exists_units n
  obtain ⟨k', N', rfl, hN', hk'⟩ := f.exists_units n'
  dsimp only
  rw [toRat_value hN.le hk, toRat_value hN'.le hk', mul_two_zpow_add, mul_two_zpow_add]
  refine mul_lt_mul_of_pos_right ?_ (two_zpow_pos _)
  rcases Nat.lt_trichotomy k k' with h | rfl | h
  · have hbinade := hk'.resolve_left (by omega)
    have hpow : 2 * 2 ^ k ≤ 2 ^ k' := by
      rw [← pow_succ']
      exact Nat.pow_le_pow_right two_pos h
    have hscaled : N * 2 ^ k < N' * 2 ^ k' :=
      calc N * 2 ^ k < 2 * f.binade * 2 ^ k := Nat.mul_lt_mul_of_pos_right hN (Nat.pow_pos two_pos)
        _ = f.binade * (2 * 2 ^ k) := by ring
        _ ≤ N' * 2 ^ k' := Nat.mul_le_mul hbinade hpow
    exact_mod_cast hscaled
  · have hunits : N < N' := by omega
    exact mul_lt_mul_of_pos_right (by exact_mod_cast hunits) (by positivity)
  · have hbinade := hk.resolve_left (by omega)
    have hstep : (k' + 1) * f.binade ≤ k * f.binade := Nat.mul_le_mul_right _ h
    rw [Nat.succ_mul] at hstep
    omega

/-- What is too large for the format begins where the pattern of infinity would stand. -/
theorem toRat_value_infinity (hf : f.IsProper) : (f.value f.infinity).toRat = 2 ^ 2 ^ (f.exponentBits - 1) := by
  obtain ⟨w, hw⟩ := Nat.exists_eq_succ_of_ne_zero hf.exponentBits.ne'
  have hpow : 1 ≤ 2 ^ w := Nat.one_le_two_pow
  have hinfinity : f.infinity = (2 * 2 ^ w - 2) * f.binade + f.binade := by
    rw [infinity, Nat.pow_eq, hw, Nat.succ_eq_add_one, pow_succ', ← Nat.succ_mul]
    congr 1
    omega
  have hexponent : (2 : ℚ) ^ (f.precision - 1) * 2 ^ (f.minExponent + (2 * 2 ^ w - 2 : ℕ)) = 2 ^ 2 ^ w := by
    rw [← zpow_natCast, ← zpow_add₀ two_ne_zero, ← zpow_natCast, minExponent, hw, Nat.succ_sub_one, Nat.pow_eq]
    congr 1
    have := hf.precision
    push_cast [Nat.cast_sub (by omega : 2 ≤ 2 * 2 ^ w)]
    omega
  rw [hinfinity, toRat_value (by omega) (.inr le_rfl), binade, Nat.pow_eq, hw, Nat.succ_sub_one, ← hexponent]
  push_cast
  rfl

/-! ### Which pattern is computed -/

/-- The logarithms of the two numbers of a fraction bound it. -/
theorem log_bounds (hn : q.num ≠ 0) (hd : q.den ≠ 0) :
    (2 : ℚ) ^ ((q.num.log2 : ℤ) - q.den.log2 - 1) < q.toRat ∧ q.toRat < 2 ^ ((q.num.log2 : ℤ) - q.den.log2 + 1) := by
  have hden : (0 : ℚ) < q.den := by exact_mod_cast Nat.pos_of_ne_zero hd
  have hnumLow : (2 : ℚ) ^ (q.num.log2 : ℤ) ≤ q.num := by
    rw [zpow_natCast]
    exact_mod_cast Nat.log2_self_le hn
  have hnumHigh : (q.num : ℚ) < 2 ^ ((q.num.log2 : ℤ) + 1) := by
    exact_mod_cast Nat.lt_log2_self
  have hdenLow : (2 : ℚ) ^ (q.den.log2 : ℤ) ≤ q.den := by
    rw [zpow_natCast]
    exact_mod_cast Nat.log2_self_le hd
  have hdenHigh : (q.den : ℚ) < 2 ^ ((q.den.log2 : ℤ) + 1) := by
    exact_mod_cast Nat.lt_log2_self
  rw [Fraction.toRat, lt_div_iff₀ hden, div_lt_iff₀ hden]
  constructor
  · calc (2 : ℚ) ^ ((q.num.log2 : ℤ) - q.den.log2 - 1) * q.den
        < 2 ^ ((q.num.log2 : ℤ) - q.den.log2 - 1) * 2 ^ ((q.den.log2 : ℤ) + 1) := mul_lt_mul_of_pos_left hdenHigh (two_zpow_pos _)
      _ = 2 ^ (q.num.log2 : ℤ) := by rw [← zpow_add₀ two_ne_zero]; congr 1; omega
      _ ≤ q.num := hnumLow
  · calc (q.num : ℚ) < 2 ^ ((q.num.log2 : ℤ) + 1) := hnumHigh
      _ = 2 ^ ((q.num.log2 : ℤ) - q.den.log2 + 1) * 2 ^ (q.den.log2 : ℤ) := by rw [← zpow_add₀ two_ne_zero]; congr 1; omega
      _ ≤ 2 ^ ((q.num.log2 : ℤ) - q.den.log2 + 1) * q.den := mul_le_mul_of_nonneg_left hdenLow (two_zpow_pos _).le

/-- The unit that is computed is the one in which the fraction fills the significand, or the least one. -/
theorem unitExponent_bounds (hf : f.IsProper) (hn : q.num ≠ 0) (hd : 0 < q.den) :
    f.minExponent ≤ f.unitExponent q ∧ q.toRat < 2 ^ f.precision * 2 ^ f.unitExponent q ∧
      (f.minExponent < f.unitExponent q → 2 ^ (f.precision - 1) * 2 ^ f.unitExponent q ≤ q.toRat) := by
  obtain ⟨hlow, hhigh⟩ := log_bounds hn hd.ne'
  generalize hguess : (q.num.log2 : ℤ) - q.den.log2 - f.precision = guess
  have hprecision := hf.precision
  -- the guess from the logarithms may be too small by one
  have hfills : (2 : ℚ) ^ (f.precision - 1) * 2 ^ guess ≤ q.toRat := by
    refine (le_of_eq ?_).trans hlow.le
    rw [← zpow_natCast, ← zpow_add₀ two_ne_zero]
    congr 1
    omega
  have hbelow : q.toRat < 2 ^ f.precision * 2 ^ (guess + 1) := by
    refine hhigh.trans_eq ?_
    rw [← zpow_natCast, ← zpow_add₀ two_ne_zero]
    congr 1
    omega
  have hwide : Nat.pow 2 f.precision ≤ (q.scale 2 (-guess)).floor ↔ 2 ^ f.precision * 2 ^ guess ≤ q.toRat := by
    rw [Fraction.le_floor_iff (Fraction.scale_den_pos hd two_pos _), Fraction.toRat_scale, Nat.pow_eq, Nat.cast_ofNat, zpow_neg,
      ← div_eq_mul_inv, le_div_iff₀ (two_zpow_pos guess)]
    push_cast
    rfl
  obtain ⟨e, he, hupper, hlower⟩ : ∃ e, (if Nat.pow 2 f.precision ≤ (q.scale 2 (-guess)).floor then guess + 1 else guess) = e ∧
      q.toRat < 2 ^ f.precision * 2 ^ e ∧ 2 ^ (f.precision - 1) * 2 ^ e ≤ q.toRat := by
    refine ⟨_, rfl, ?_⟩
    split_ifs with h
    · refine ⟨hbelow, ?_⟩
      have hwhole : (2 : ℚ) ^ f.precision * 2 ^ guess = 2 ^ (f.precision - 1) * 2 ^ (guess + 1) := by
        rw [zpow_add_one₀ two_ne_zero, mul_comm ((2 : ℚ) ^ guess), ← mul_assoc, ← pow_succ, Nat.sub_add_cancel hprecision.le]
      exact hwhole ▸ hwide.1 h
    · exact ⟨not_le.1 fun hle => h (hwide.2 hle), hfills⟩
  have hunit : f.unitExponent q = max e f.minExponent := by
    rw [unitExponent, hguess, ← he]
  rw [hunit]
  refine ⟨le_max_right _ _, hupper.trans_le ?_, fun hlt => ?_⟩
  · exact mul_le_mul_of_nonneg_left (zpow_le_zpow_right₀ one_le_two (le_max_left _ _)) (by positivity)
  · rwa [max_eq_left (by omega)]

/-- The pattern that is computed is the one of the number to which the fraction is rounded, but not beyond infinity. -/
theorem exists_nearest (hf : f.IsProper) (hd : 0 < q.den) :
    ∃ n, RoundsTo f.precision f.minExponent q.toRat (f.value n).toRat ∧ f.nearest q = min n f.infinity := by
  rw [nearest]
  split_ifs with hzero
  · refine ⟨0, ?_, (Nat.zero_min _).symm⟩
    have hvalue : (f.value 0).toRat = 0 := by
      have h := toRat_value (f := f) (k := 0) (N := 0) (Nat.zero_le _) (.inl rfl)
      rwa [Nat.zero_mul, Nat.zero_add, Nat.cast_zero, zero_mul] at h
    rw [hvalue, Fraction.toRat, hzero, Nat.cast_zero, zero_div]
    exact .of_held (held_zero _ _)
  · obtain ⟨hleast, hupper, hlower⟩ := unitExponent_bounds hf hzero hd
    -- the pattern counts binades from the least unit on, and the significand within one
    obtain ⟨k, hk⟩ := Int.le.dest hleast
    have hN : NearestWhole (q.toRat / 2 ^ f.unitExponent q) (q.scale 2 (-f.unitExponent q)).nearestNat := by
      have h := Fraction.nearestWhole_nearestNat (Fraction.scale_den_pos hd two_pos (-f.unitExponent q))
      rwa [Fraction.toRat_scale, Nat.cast_ofNat, zpow_neg, ← div_eq_mul_inv] at h
    have hunit := two_zpow_pos (f.unitExponent q)
    have hle : (q.scale 2 (-f.unitExponent q)).nearestNat ≤ 2 * f.binade := by
      rw [two_mul_binade hf]
      refine hN.le ?_
      rw [div_lt_iff₀ hunit]
      exact_mod_cast hupper
    have hge : k = 0 ∨ f.binade ≤ (q.scale 2 (-f.unitExponent q)).nearestNat := by
      rcases Nat.eq_zero_or_pos k with hk0 | hpos
      · exact .inl hk0
      · refine .inr (hN.ge ?_)
        rw [le_div_iff₀ hunit, binade, Nat.pow_eq]
        exact_mod_cast hlower (by omega)
    refine ⟨k * f.binade + (q.scale 2 (-f.unitExponent q)).nearestNat, ?_, ?_⟩
    · rw [toRat_value hle hge, hk]
      exact roundsTo_of_unit hf.precision hleast hupper hlower hN
    · have hunits : (f.unitExponent q - f.minExponent).toNat = k := by omega
      dsimp only
      rw [hunits]

/-- Every number that is not negative is rounded to some number. -/
theorem exists_roundsTo (hf : f.IsProper) {r : ℚ} (hr : 0 ≤ r) : ∃ v, RoundsTo f.precision f.minExponent r v := by
  obtain ⟨q, hq, rfl⟩ := Fraction.exists_toRat_eq hr
  obtain ⟨n, h, -⟩ := exists_nearest hf hq
  exact ⟨_, h⟩

/-- A number that is not too large has the pattern that is computed, and for one that is too large the pattern of infinity is computed. -/
theorem nearest_cases (hf : f.IsProper) (hd : 0 < q.den) {v : ℚ} (h : RoundsTo f.precision f.minExponent q.toRat v) :
    (v < 2 ^ 2 ^ (f.exponentBits - 1) ∧ f.nearest q < f.infinity ∧ (f.value (f.nearest q)).toRat = v) ∨
      (2 ^ 2 ^ (f.exponentBits - 1) ≤ v ∧ f.nearest q = f.infinity) := by
  have hprecision := hf.precision
  obtain ⟨n, hn, hnearest⟩ := exists_nearest hf hd
  obtain rfl := h.unique (by omega) hn
  rw [← toRat_value_infinity hf, f.strictMono_value.lt_iff_lt, f.strictMono_value.le_iff_le, hnearest]
  rcases Nat.lt_or_ge n f.infinity with hlt | hge
  · rw [Nat.min_eq_left hlt.le]
    exact .inl ⟨hlt, hlt, rfl⟩
  · rw [Nat.min_eq_right hge]
    exact .inr ⟨hge, rfl⟩

end BinaryFormat

end ExprLang.Number
