import ExprLang.Proofs.Number.Denotation
import ExprLang.Proofs.Number.Nearest

/-!
# How far a literal is from what it is read as

A literal that is not an integer is read in up to six steps that are not exact: digits are left out, the significand is rounded, and so are
powers of ten, products and quotients. None of them changes a number by more than the factor `slack`, unless the result is too small for a
full significand, and `Near` counts them. So every literal is read that is not among the greatest (`Literal.exists_readAs`), and what is
read is as near to the exact value as a relative error of `2 ^ -50` and the least double allow (`Literal.ReadAs.accurate`).
-/

namespace ExprLang.Number

open Json (ofDigits)

/-! ### Counting inexact steps -/

/-- The greatest factor by which a rounding changes a number that is not too small. -/
def slack : ℚ := 2 ^ 53 / (2 ^ 53 - 1)

/-- The two numbers are no further apart than so many roundings may take them. -/
structure Near (n : ℕ) (x y : ℚ) : Prop where
  /-- The first one is not too large. -/
  le : x ≤ y * slack ^ n
  /-- Nor is the second one. -/
  ge : y ≤ x * slack ^ n

variable {m n k : ℕ} {x y z w a d q v : ℚ}

theorem one_le_slack : 1 ≤ slack := by norm_num [slack]

theorem slack_pow_pos (n : ℕ) : 0 < slack ^ n := pow_pos (zero_lt_one.trans_le one_le_slack) n

namespace Near

/-- A number is near to itself. -/
theorem rfl (hx : 0 ≤ x) : Near n x x :=
  have h := le_mul_of_one_le_right hx (one_le_pow₀ one_le_slack)
  ⟨h, h⟩

/-- Steps add up. -/
theorem trans (h : Near m x y) (h' : Near n y z) : Near (m + n) x z := by
  constructor
  · calc x ≤ y * slack ^ m := h.le
      _ ≤ z * slack ^ n * slack ^ m := mul_le_mul_of_nonneg_right h'.le (slack_pow_pos m).le
      _ = z * slack ^ (m + n) := by rw [pow_add]; ring
  · calc z ≤ y * slack ^ n := h'.ge
      _ ≤ x * slack ^ m * slack ^ n := mul_le_mul_of_nonneg_right h.ge (slack_pow_pos n).le
      _ = x * slack ^ (m + n) := by rw [pow_add]; ring

/-- The steps of the factors are those of the product. -/
theorem mul (hx : 0 ≤ x) (hy : 0 ≤ y) (hz : 0 ≤ z) (hw : 0 ≤ w) (h : Near m x y) (h' : Near n z w) :
    Near (m + n) (x * z) (y * w) := by
  constructor
  · calc x * z ≤ y * slack ^ m * (w * slack ^ n) := mul_le_mul h.le h'.le hz (mul_nonneg hy (slack_pow_pos m).le)
      _ = y * w * slack ^ (m + n) := by rw [pow_add]; ring
  · calc y * w ≤ x * slack ^ m * (z * slack ^ n) := mul_le_mul h.ge h'.ge hw (mul_nonneg hx (slack_pow_pos m).le)
      _ = x * z * slack ^ (m + n) := by rw [pow_add]; ring

/-- Numbers that are near have inverses that are. -/
theorem inv (hx : 0 < x) (hy : 0 < y) (h : Near n x y) : Near n x⁻¹ y⁻¹ := by
  constructor
  · rw [inv_mul_eq_div, le_div_iff₀ hy, inv_mul_le_iff₀ hx]
    exact h.ge
  · rw [inv_mul_eq_div, le_div_iff₀ hx, inv_mul_le_iff₀ hy]
    exact h.le

/-- The steps of the two numbers are those of the quotient. -/
theorem div (hx : 0 ≤ x) (hy : 0 ≤ y) (hz : 0 < z) (hw : 0 < w) (h : Near m x y) (h' : Near n z w) :
    Near (m + n) (x / z) (y / w) := by
  rw [div_eq_mul_inv, div_eq_mul_inv]
  exact h.mul hx hy (inv_pos.2 hz).le (inv_pos.2 hw).le (h'.inv hz hw)

/-- How far apart numbers are that are near. -/
theorem distance_le (hx : 0 ≤ x) (h : Near n x y) : |y - x| ≤ (slack ^ n - 1) * x := by
  have hone : 1 ≤ slack ^ n := one_le_pow₀ one_le_slack
  refine abs_sub_le_iff.2 ⟨by linarith [h.ge], ?_⟩
  rcases le_total x y with hle | hle
  · linarith [mul_nonneg (sub_nonneg.2 hone) hx]
  · linarith [h.le, mul_le_mul_of_nonneg_left hle (sub_nonneg.2 hone)]

/-- A last step adds its own error to that of the steps before. -/
theorem distance_le_of_le {c ε : ℚ} (hx : 0 ≤ x) (hc : 0 ≤ c) (h : Near n x y) (hz : |z - y| ≤ c * y + ε) :
    |z - x| ≤ (c * slack ^ n + slack ^ n - 1) * x + ε := by
  have htriangle := abs_sub_le z y x
  have hfirst := h.distance_le hx
  have hlast := mul_le_mul_of_nonneg_left h.ge hc
  linarith

/-- A number that is near to one that leaves some room below a bound is below it. -/
theorem lt_of_le {bound : ℚ} (hn : n ≤ 4) (hbound : 0 < bound) (h : Near n x y) (hx : x ≤ (1 - 2 ^ (-50 : ℤ)) * bound) : y < bound := by
  have hroom : (1 - 2 ^ (-50 : ℤ)) * slack ^ n < 1 := by
    have hpow : slack ^ n ≤ slack ^ 4 := pow_le_pow_right₀ one_le_slack hn
    exact (mul_le_mul_of_nonneg_left hpow (by norm_num)).trans_lt (by norm_num [slack])
  calc y ≤ x * slack ^ n := h.ge
    _ ≤ (1 - 2 ^ (-50 : ℤ)) * bound * slack ^ n := mul_le_mul_of_nonneg_right hx (slack_pow_pos n).le
    _ = (1 - 2 ^ (-50 : ℤ)) * slack ^ n * bound := mul_right_comm _ _ _
    _ < bound := mul_lt_of_lt_one_left hbound hroom

end Near

/-- Numbers of a unit are near if they are between two neighbours that are large enough. -/
theorem near_of_between {s p i j : ℕ} {unit : ℚ} (hs : 2 ^ 60 ≤ s) (hunit : 0 ≤ unit) (hi : s * p ≤ i ∧ i ≤ (s + 1) * p)
    (hj : s * p ≤ j ∧ j ≤ (s + 1) * p) : Near 1 (i * unit) (j * unit) := by
  have hfactor : (s : ℚ) + 1 ≤ s * slack := by
    have hlarge : (2 : ℚ) ^ 60 ≤ s := by exact_mod_cast hs
    have hroom : 1 ≤ (2 : ℚ) ^ 60 * (slack - 1) := by norm_num [slack]
    linarith [mul_le_mul_of_nonneg_right hlarge (sub_nonneg.2 one_le_slack)]
  have hslack : 0 ≤ slack := zero_le_one.trans one_le_slack
  have hstep {a b : ℕ} (ha : a ≤ (s + 1) * p) (hb : s * p ≤ b) : a * unit ≤ b * unit * slack ^ 1 := by
    have ha' : (a : ℚ) ≤ (s + 1) * p := by exact_mod_cast ha
    have hb' : (s : ℚ) * p ≤ b := by exact_mod_cast hb
    have hwide : (a : ℚ) ≤ b * slack :=
      calc (a : ℚ) ≤ (s + 1) * p := ha'
        _ ≤ s * slack * p := mul_le_mul_of_nonneg_right hfactor p.cast_nonneg
        _ = s * p * slack := mul_right_comm _ _ _
        _ ≤ b * slack := mul_le_mul_of_nonneg_right hb' hslack
    rw [pow_one, mul_right_comm]
    exact mul_le_mul_of_nonneg_right hwide hunit
  exact ⟨hstep hi.2 hj.1, hstep hj.2 hi.1⟩

/-! ### Rounding to doubles -/

/-- Every number that is not negative is rounded. -/
theorem exists_double (hq : 0 ≤ q) : ∃ d, Double q d :=
  BinaryFormat.exists_roundsTo BinaryFormat.isProper_binary64 hq

/-- Rounding is one step for numbers that are not too small. -/
theorem near_double (h : Double q d) (hq : 2 ^ (-1022 : ℤ) ≤ q) : Near 1 q d := by
  have hpos : 0 < q := (two_zpow_pos _).trans_le hq
  have hrelative := abs_sub_le_iff.1 (h.relative (by decide) hq)
  have hfactor : (2 : ℚ) ^ (-(53 : ℕ) : ℤ) = 1 / 2 ^ 53 := by norm_num
  have hslack : slack = 2 ^ 53 / (2 ^ 53 - 1) := by rfl
  rw [hfactor] at hrelative
  constructor
  · rw [pow_one, hslack]
    linarith
  · rw [pow_one, hslack]
    linarith

/-- Numbers from one on are not too small. -/
theorem near_double_of_one_le (h : Double q d) (hq : 1 ≤ q) : Near 1 q d ∧ 1 ≤ d := by
  have hsmall : (2 : ℚ) ^ (-1022 : ℤ) ≤ 1 := zpow_le_one_of_nonpos₀ one_le_two (by decide)
  refine ⟨near_double h (hsmall.trans hq), ?_⟩
  have hone : Held 53 (-1074) (2 ^ (0 : ℤ)) := held_two_zpow (by decide) (by decide)
  rw [zpow_zero] at hone
  exact h.ge_of_ge hone hq

/-- Powers of ten are not too small. -/
theorem near_power (h : Double (10 ^ k) d) : Near 1 (10 ^ k) d ∧ 1 ≤ d :=
  near_double_of_one_le h (one_le_pow₀ (by norm_num))

/-- A significand is rounded to zero only if it is zero. -/
theorem near_significand (h : Double m a) : Near 1 m a ∧ ((m = 0 ∧ a = 0) ∨ (1 ≤ (m : ℚ) ∧ 1 ≤ a)) := by
  rcases Nat.eq_zero_or_pos m with rfl | hm
  · rw [Nat.cast_zero] at h ⊢
    rw [h.eq_zero]
    exact ⟨.rfl le_rfl, .inl ⟨rfl, rfl⟩⟩
  · have hone : (1 : ℚ) ≤ m := by exact_mod_cast hm
    obtain ⟨hnear, ha⟩ := near_double_of_one_le h hone
    exact ⟨hnear, .inr ⟨hone, ha⟩⟩

/-- A significand of 64 bits is not rounded beyond the numbers of 64 bits but by one. -/
theorem le_of_significand (h : Double m a) (hm : m < 2 ^ 64) : a ≤ 2 ^ 64 := by
  have hheld : Held 53 (-1074) (2 ^ (64 : ℤ)) := held_two_zpow (by decide) (by decide)
  have hle : (m : ℚ) ≤ 2 ^ 64 := by exact_mod_cast hm.le
  exact_mod_cast h.le_of_le hheld (by exact_mod_cast hle)

/-! ### Products and quotients -/

/-- Three steps lead to a product that is rounded. -/
theorem near_product {power : ℚ} (ha : Double m a) (hp : Double (10 ^ k) power) (hd : Double (a * power) d) :
    Near 3 (m * 10 ^ k) d := by
  obtain ⟨hsignificand, hzero⟩ := near_significand ha
  obtain ⟨hpower, hp1⟩ := near_power hp
  have hten : (0 : ℚ) < 10 ^ k := pow_pos (by norm_num) k
  rcases hzero with ⟨rfl, rfl⟩ | ⟨hm, hone⟩
  · rw [zero_mul] at hd
    rw [hd.eq_zero, Nat.cast_zero, zero_mul]
    exact .rfl le_rfl
  · have hproduct : 1 ≤ a * power := one_le_mul_of_one_le_of_one_le hone hp1
    have hexact : Near 2 (m * 10 ^ k) (a * power) := hsignificand.mul (by linarith) (by linarith) hten.le (by linarith) hpower
    exact hexact.trans (near_double_of_one_le hd hproduct).1

/-- No more than three steps lead to a product. -/
theorem Multiplied.near (ha : Double m a) (h : Multiplied a k d) : Near 3 (m * 10 ^ k) d := by
  rcases h with ⟨rfl, rfl⟩ | ⟨-, power, hp, hd, -⟩
  · rcases (near_significand ha).2 with ⟨rfl, -⟩ | ⟨-, hone⟩
    · rw [Nat.cast_zero, zero_mul]
      exact .rfl le_rfl
    · exact absurd hone (by norm_num)
  · exact near_product ha hp hd

/-- A quotient by what is not too much is computed in one division. -/
theorem divided_iff_of_le (hk : k ≤ 308) : Divided a k d ↔ ∃ power, Double (10 ^ k) power ∧ Double (a / power) d := by
  constructor
  · intro h
    cases h with
    | last _ hpower hd => exact ⟨_, hpower, hd⟩
    | further hpos => omega
  · rintro ⟨power, hpower, hd⟩
    exact .last hk hpower hd

/-- Any other quotient is computed by one division, and others after it. -/
theorem divided_iff_of_lt (hk : 308 < k) :
    Divided a k d ↔ ∃ power b, Double (10 ^ 308) power ∧ Double (a / power) b ∧ Divided b (k - 308) d := by
  constructor
  · intro h
    cases h with
    | last hle => omega
    | further hpos hpower hb hd => exact ⟨_, _, hpower, hb, by rwa [Nat.add_sub_cancel]⟩
  · rintro ⟨power, b, hpower, hb, hd⟩
    obtain ⟨j, rfl⟩ := Nat.exists_eq_add_of_lt hk
    have hj : 308 + j + 1 = j + 1 + 308 := by omega
    rw [hj, Nat.add_sub_cancel] at hd
    rw [hj]
    exact .further (Nat.succ_pos j) hpower hb hd

/-- A product is one number. -/
theorem Multiplied.unique {d' : ℚ} (h : Multiplied a k d) (h' : Multiplied a k d') : d = d' := by
  have hzero {power b : ℚ} (hb : Double (0 * power) b) : b = 0 := by
    rw [zero_mul] at hb
    exact hb.eq_zero
  rcases h with ⟨rfl, rfl⟩ | ⟨-, power, hp, hd, -⟩
  · rcases h' with ⟨-, rfl⟩ | ⟨-, power, -, hd, -⟩
    · rfl
    · exact (hzero hd).symm
  · rcases h' with ⟨rfl, rfl⟩ | ⟨-, power', hp', hd', -⟩
    · exact hzero hd
    · obtain rfl := hp.unique (by decide) hp'
      exact hd.unique (by decide) hd'

/-- A quotient is one number. -/
theorem Divided.unique {d' : ℚ} (h : Divided a k d) (h' : Divided a k d') : d = d' := by
  induction h with
  | last hk hpower hd =>
    obtain ⟨power', hpower', hd'⟩ := (divided_iff_of_le hk).1 h'
    obtain rfl := hpower.unique (by decide) hpower'
    exact hd.unique (by decide) hd'
  | further hk hpower hb _ ih =>
    obtain ⟨power', b', hpower', hb', hd'⟩ := (divided_iff_of_lt (by omega)).1 h'
    obtain rfl := hpower.unique (by decide) hpower'
    obtain rfl := hb.unique (by decide) hb'
    rw [Nat.add_sub_cancel] at hd'
    exact ih hd'

/-- A significand and an exponent make one number. -/
theorem Scaled.unique {e : ℤ} {d' : ℚ} (h : Scaled m e d) (h' : Scaled m e d') : d = d' := by
  obtain ⟨a, ha, h⟩ := h
  obtain ⟨a', ha', h'⟩ := h'
  obtain rfl := ha.unique (by decide) ha'
  cases e with
  | ofNat k => exact Multiplied.unique h h'
  | negSucc k => exact Divided.unique h h'

/-- A product is not negative. -/
theorem Multiplied.nonneg (ha : 0 ≤ a) (h : Multiplied a k d) : 0 ≤ d := by
  rcases h with ⟨-, rfl⟩ | ⟨-, power, hp, hd, -⟩
  · exact le_rfl
  · exact hd.nonneg (mul_nonneg ha (zero_le_one.trans (near_power hp).2))

/-- A quotient is not negative. -/
theorem Divided.nonneg (ha : 0 ≤ a) (h : Divided a k d) : 0 ≤ d := by
  induction h with
  | last _ hpower hd => exact hd.nonneg (div_nonneg ha (zero_le_one.trans (near_power hpower).2))
  | further _ hpower hb _ ih => exact ih (hb.nonneg (div_nonneg ha (zero_le_one.trans (near_power hpower).2)))

/-- What a significand and an exponent make is not negative. -/
theorem Scaled.nonneg {e : ℤ} (h : Scaled m e d) : 0 ≤ d := by
  obtain ⟨a, ha, h⟩ := h
  have ha0 := ha.nonneg m.cast_nonneg
  cases e with
  | ofNat k => exact Multiplied.nonneg ha0 h
  | negSucc k => exact Divided.nonneg ha0 h

/-- Powers of ten have doubles, and these are positive. -/
theorem exists_power (k : ℕ) : ∃ power, Double (10 ^ k) power ∧ 0 < power := by
  obtain ⟨power, h⟩ := exists_double (q := 10 ^ k) (by positivity)
  exact ⟨power, h, zero_lt_one.trans_le (near_power h).2⟩

/-- Every number can be divided. -/
theorem exists_divided (ha : 0 ≤ a) (k : ℕ) : ∃ d, Divided a k d := by
  induction k using Nat.strong_induction_on generalizing a with
  | _ k ih =>
    rcases Nat.lt_or_ge 308 k with hk | hk
    · obtain ⟨power, hpower, hpos⟩ := exists_power 308
      have hquotient := div_nonneg ha hpos.le
      obtain ⟨b, hb⟩ := exists_double hquotient
      obtain ⟨d, hd⟩ := ih (k - 308) (by omega) (hb.nonneg hquotient)
      exact ⟨d, (divided_iff_of_lt hk).2 ⟨power, b, hpower, hb, hd⟩⟩
    · obtain ⟨power, hpower, hpos⟩ := exists_power k
      obtain ⟨d, hd⟩ := exists_double (div_nonneg ha hpos.le)
      exact ⟨d, (divided_iff_of_le hk).2 ⟨power, hpower, hd⟩⟩

/-- Zero stays zero. -/
theorem Divided.eq_zero (h : Divided a k d) (ha : a = 0) : d = 0 := by
  induction h with
  | last _ _ hd =>
    rw [ha, zero_div] at hd
    exact hd.eq_zero
  | further _ _ hb _ ih =>
    rw [ha, zero_div] at hb
    exact ih hb.eq_zero

/-- The greatest power of ten is not rounded below the power of two before it. -/
theorem le_greatest_power {power : ℚ} (h : Double (10 ^ 308) power) : 2 ^ (1023 : ℤ) ≤ power := by
  have hle : 2 ^ 1023 ≤ 10 ^ 308 := by decide +kernel
  exact h.ge_of_ge (held_two_zpow (by decide) (by decide)) (by exact_mod_cast hle)

/-- What is left of a significand of 64 bits after two divisions by the greatest power is zero. -/
theorem Divided.eq_zero_of_lt (h : Divided a k d) (ha : 0 ≤ a) (hle : a ≤ 2 ^ 64) (hk : 616 < k) : d = 0 := by
  obtain ⟨power, b, hpower, hb, h⟩ := (divided_iff_of_lt (by omega)).1 h
  obtain ⟨power', b', hpower', hb', h⟩ := (divided_iff_of_lt (by omega)).1 h
  obtain rfl := hpower.unique (by decide) hpower'
  have hlarge := le_greatest_power hpower
  have hpos := (two_zpow_pos 1023).trans_le hlarge
  have hquotient := div_nonneg ha hpos.le
  have hsmall : b ≤ 2 ^ (-959 : ℤ) := by
    refine hb.le_of_le (held_two_zpow (by decide) (by decide)) ((div_le_iff₀ hpos).2 (hle.trans ?_))
    calc (2 : ℚ) ^ 64 = 2 ^ (-959 : ℤ) * 2 ^ (1023 : ℤ) := by rw [← zpow_add₀ two_ne_zero]; rfl
      _ ≤ 2 ^ (-959 : ℤ) * power := mul_le_mul_of_nonneg_left hlarge (two_zpow_pos _).le
  have hunderflow : b / power < 2 ^ (-1074 : ℤ) / 2 := by
    refine (div_lt_iff₀ hpos).2 (hsmall.trans_lt ?_)
    calc (2 : ℚ) ^ (-959 : ℤ) < 2 ^ (-52 : ℤ) := zpow_lt_zpow_right₀ one_lt_two (by decide)
      _ = 2 ^ (-1074 : ℤ) / 2 * 2 ^ (1023 : ℤ) := by
        rw [div_mul_eq_mul_div, ← zpow_add₀ two_ne_zero, div_eq_mul_inv, ← zpow_sub_one₀ two_ne_zero]
        rfl
      _ ≤ 2 ^ (-1074 : ℤ) / 2 * power := mul_le_mul_of_nonneg_left hlarge (half_pos (two_zpow_pos _)).le
  exact h.eq_zero (hb'.eq_zero_of_lt (div_nonneg (hb.nonneg hquotient) hpos.le) hunderflow)

/-! ### Accuracy -/

/-- Any rounding to a double, of a number that may be small. -/
theorem double_accurate (h : Double q d) (hq : 0 ≤ q) : |d - q| ≤ 1 / 2 ^ 53 * q + 2 ^ (-1074 : ℤ) / 2 := by
  have hfactor : (2 : ℚ) ^ (-(53 : ℕ) : ℤ) = 1 / 2 ^ 53 := by norm_num
  have haccurate := h.accurate (by decide) hq
  rwa [hfactor] at haccurate

/-- A quotient of two divisions, by how far each of them goes. The second one makes the error of the first one smaller. -/
theorem double_div_accurate {power b : ℚ} (hq : 0 ≤ q) (hpower : 2 ≤ power) (hb : Double q b) (hd : Double (b / power) d) :
    |d - q / power| ≤ (2 * (1 / 2 ^ 53) + 1 / 2 ^ 106) * (q / power) + 2 ^ (-1074 : ℤ) := by
  have hpos : 0 < power := by linarith
  have hfirst := double_accurate hb hq
  have hlast := double_accurate hd (div_nonneg (hb.nonneg hq) hpos.le)
  have hunit := two_zpow_pos (-1074)
  generalize (2 : ℚ) ^ (-1074 : ℤ) = unit at hfirst hlast hunit ⊢
  have hscaled : |b / power - q / power| ≤ 1 / 2 ^ 53 * (q / power) + unit / 4 := by
    have hquarter : unit / 2 / power ≤ unit / 4 := by
      rw [div_div]
      exact div_le_div_of_nonneg_left hunit.le (by norm_num) (by linarith)
    calc |b / power - q / power| = |b - q| / power := by rw [← sub_div, abs_div, abs_of_pos hpos]
      _ ≤ (1 / 2 ^ 53 * q + unit / 2) / power := div_le_div_of_nonneg_right hfirst hpos.le
      _ = 1 / 2 ^ 53 * (q / power) + unit / 2 / power := by rw [add_div, mul_div_assoc]
      _ ≤ 1 / 2 ^ 53 * (q / power) + unit / 4 := by linarith
  have hupper := (abs_le.1 hscaled).2
  have htriangle := abs_sub_le d (b / power) (q / power)
  linarith

section Quotients

variable {t t' power power' b : ℚ} (ha : Double m a) (hv : 0 ≤ v) (ht : 0 < t) (hpower : Near 1 t power ∧ 1 ≤ power)

include ha hv ht hpower

/-- A quotient of one division. -/
theorem one_division_accurate (hnear : Near 1 v (m / t)) (hd : Double (a / power) d) :
    |d - v| ≤ 2 ^ (-50 : ℤ) * v + 2 ^ (-1074 : ℤ) := by
  have hm0 : (0 : ℚ) ≤ m := m.cast_nonneg
  have ha0 := ha.nonneg hm0
  have hpos : 0 < power := zero_lt_one.trans_le hpower.2
  have hquotient : Near 3 v (a / power) := hnear.trans ((near_significand ha).1.div hm0 ha0 ht hpos hpower.1)
  have hdistance := hquotient.distance_le_of_le hv (by norm_num) (double_accurate hd (div_nonneg ha0 hpos.le))
  have hconstant : 1 / 2 ^ 53 * slack ^ 3 + slack ^ 3 - 1 ≤ 2 ^ (-50 : ℤ) := by norm_num [slack]
  exact hdistance.trans (add_le_add (mul_le_mul_of_nonneg_right hconstant hv) (half_le_self (two_zpow_pos _).le))

/-- A quotient of two divisions. -/
theorem two_divisions_accurate (ht' : 0 < t') (hnear : Near 1 v (m / t / t')) (hpower' : Near 1 t' power') (htwo : 2 ≤ power')
    (hb : Double (a / power) b) (hd : Double (b / power') d) : |d - v| ≤ 2 ^ (-50 : ℤ) * v + 2 ^ (-1074 : ℤ) := by
  have hm0 : (0 : ℚ) ≤ m := m.cast_nonneg
  have ha0 := ha.nonneg hm0
  have hpos : 0 < power := zero_lt_one.trans_le hpower.2
  have hpos' : 0 < power' := two_pos.trans_le htwo
  have hquotient0 := div_nonneg ha0 hpos.le
  have hfirst : Near 2 (m / t) (a / power) := (near_significand ha).1.div hm0 ha0 ht hpos hpower.1
  have hquotient : Near 4 v (a / power / power') := hnear.trans (hfirst.div (div_nonneg hm0 ht.le) hquotient0 ht' hpos' hpower')
  have hdistance := hquotient.distance_le_of_le hv (by norm_num) (double_div_accurate hquotient0 htwo hb hd)
  have hconstant : (2 * (1 / 2 ^ 53) + 1 / 2 ^ 106) * slack ^ 4 + slack ^ 4 - 1 ≤ 2 ^ (-50 : ℤ) := by norm_num [slack]
  exact hdistance.trans (add_le_add (mul_le_mul_of_nonneg_right hconstant hv) le_rfl)

end Quotients

/-- A significand of 64 bits is less than the least double once it is divided by such a power. -/
theorem le_least_of_near (hm : m < 2 ^ 64) (hk : 616 < k) (hnear : Near 1 v (m / 10 ^ k)) : v ≤ 2 ^ (-1074 : ℤ) := by
  have hle : 2 ^ 1139 ≤ 10 ^ 616 := by decide +kernel
  have hgreat : (2 : ℚ) ^ 1139 ≤ 10 ^ 616 := by exact_mod_cast hle
  have hpower : (2 : ℚ) ^ 1139 ≤ 10 ^ k := hgreat.trans (pow_le_pow_right₀ (by norm_num) hk.le)
  have hquotient : (m : ℚ) / 10 ^ k ≤ 2 ^ (-1075 : ℤ) := by
    rw [div_le_iff₀ (by positivity)]
    calc (m : ℚ) ≤ 2 ^ (64 : ℤ) := by exact_mod_cast hm.le
      _ = 2 ^ (-1075 : ℤ) * 2 ^ 1139 := by rw [← zpow_natCast, ← zpow_add₀ two_ne_zero]; rfl
      _ ≤ 2 ^ (-1075 : ℤ) * 10 ^ k := mul_le_mul_of_nonneg_left hpower (two_zpow_pos _).le
  have hslack : slack ^ 1 ≤ 2 := by norm_num [slack]
  calc v ≤ m / 10 ^ k * slack ^ 1 := hnear.le
    _ ≤ 2 ^ (-1075 : ℤ) * 2 := mul_le_mul hquotient hslack (slack_pow_pos 1).le (two_zpow_pos _).le
    _ = 2 ^ (-1074 : ℤ) := by rw [← zpow_add_one₀ two_ne_zero]; rfl

/-- A quotient is accurate but for the least double. -/
theorem Divided.accurate (hm : m < 2 ^ 64) (ha : Double m a) (hv : 0 ≤ v) (hnear : Near 1 v (m / 10 ^ k)) (h : Divided a k d) :
    |d - v| ≤ 2 ^ (-50 : ℤ) * v + 2 ^ (-1074 : ℤ) := by
  have hten (j : ℕ) : (0 : ℚ) < 10 ^ j := pow_pos (by norm_num) j
  rcases Nat.lt_or_ge 308 k with hk | hk
  · rcases Nat.lt_or_ge 616 k with hlarge | hsmall
    · rw [h.eq_zero_of_lt (ha.nonneg m.cast_nonneg) (le_of_significand ha hm) hlarge, zero_sub, abs_neg, abs_of_nonneg hv]
      exact le_add_of_nonneg_of_le (mul_nonneg (two_zpow_pos _).le hv) (le_least_of_near hm hlarge hnear)
    · obtain ⟨power, b, hpower, hb, h⟩ := (divided_iff_of_lt hk).1 h
      obtain ⟨power', hpower', hd⟩ := (divided_iff_of_le (by omega)).1 h
      have htwo : 2 ≤ power' := by
        have hheld : Held 53 (-1074) (2 ^ (1 : ℤ)) := held_two_zpow (by decide) (by decide)
        rw [zpow_one] at hheld
        have hle : (10 : ℚ) ^ 1 ≤ 10 ^ (k - 308) := pow_le_pow_right₀ (by norm_num) (by omega)
        exact hpower'.ge_of_ge hheld (by linarith)
      have hsplit : (10 : ℚ) ^ k = 10 ^ 308 * 10 ^ (k - 308) := by rw [← pow_add, Nat.add_sub_cancel' hk.le]
      rw [hsplit, ← div_div] at hnear
      exact two_divisions_accurate ha hv (hten _) (near_power hpower) (hten _) hnear (near_power hpower').1 htwo hb hd
  · obtain ⟨power, hpower, hd⟩ := (divided_iff_of_le hk).1 h
    exact one_division_accurate ha hv (hten k) (near_power hpower) hnear hd

/-- A double that is made of a significand and an exponent is accurate, and the number that it is made of is not beyond the doubles. -/
theorem Scaled.accurate {e : ℤ} (hm : m < 2 ^ 64) (hv : 0 ≤ v) (hnear : Near 1 v (m * 10 ^ e)) (h : Scaled m e d) :
    v < (1 + 2 ^ (-50 : ℤ)) * 2 ^ 1024 ∧ |d - v| ≤ 2 ^ (-50 : ℤ) * v + 2 ^ (-1074 : ℤ) := by
  obtain ⟨a, ha, h⟩ := h
  have hunit := two_zpow_pos (-1074)
  have hbound : (0 : ℚ) < 2 ^ 1024 := pow_pos two_pos 1024
  cases e with
  | ofNat k =>
    rw [Int.ofNat_eq_natCast, zpow_natCast] at hnear
    -- one step for the digits that are left out, and one for each rounding
    have hsteps : Near 4 v d := hnear.trans (h.near ha)
    have hdistance := hsteps.distance_le hv
    have hconstant : slack ^ 4 - 1 ≤ 2 ^ (-50 : ℤ) := by norm_num [slack]
    have hd : d < 2 ^ 1024 := by
      rcases h with ⟨-, rfl⟩ | ⟨-, power, -, -, hlt⟩
      · exact hbound
      · exact hlt
    constructor
    · calc v ≤ d * slack ^ 4 := hsteps.le
        _ < 2 ^ 1024 * slack ^ 4 := mul_lt_mul_of_pos_right hd (slack_pow_pos 4)
        _ ≤ (1 + 2 ^ (-50 : ℤ)) * 2 ^ 1024 := by
          rw [mul_comm]
          exact mul_le_mul_of_nonneg_right (by linarith) hbound.le
    · calc |d - v| ≤ (slack ^ 4 - 1) * v := hdistance
        _ ≤ 2 ^ (-50 : ℤ) * v := mul_le_mul_of_nonneg_right hconstant hv
        _ ≤ 2 ^ (-50 : ℤ) * v + 2 ^ (-1074 : ℤ) := le_add_of_nonneg_right hunit.le
  | negSucc k =>
    rw [zpow_negSucc, ← div_eq_mul_inv] at hnear
    -- a quotient is far from the greatest double
    refine ⟨?_, h.accurate hm ha hv hnear⟩
    have hle : (m : ℚ) ≤ 2 ^ 64 := by exact_mod_cast hm.le
    have hquotient : (m : ℚ) / 10 ^ (k + 1) ≤ 2 ^ 64 := (div_le_self m.cast_nonneg (one_le_pow₀ (by norm_num))).trans hle
    calc v ≤ m / 10 ^ (k + 1) * slack ^ 1 := hnear.le
      _ ≤ 2 ^ 64 * slack ^ 1 := mul_le_mul_of_nonneg_right hquotient (slack_pow_pos 1).le
      _ < 1 * 2 ^ 65 := by norm_num [slack]
      _ ≤ (1 + 2 ^ (-50 : ℤ)) * 2 ^ 1024 :=
        mul_le_mul (by norm_num) (pow_le_pow_right₀ one_le_two (by decide)) (by norm_num) (by norm_num)

/-- A significand and an exponent make a double, unless the number that they are made of is among the greatest. -/
theorem exists_scaled {e : ℤ} (hnear : Near 1 v (m * 10 ^ e)) (hle : v ≤ (1 - 2 ^ (-50 : ℤ)) * 2 ^ 1024) : ∃ d, Scaled m e d := by
  have hm0 : (0 : ℚ) ≤ m := m.cast_nonneg
  obtain ⟨a, ha⟩ := exists_double hm0
  have ha0 := ha.nonneg hm0
  cases e with
  | negSucc k =>
    obtain ⟨d, hd⟩ := exists_divided ha0 (k + 1)
    exact ⟨d, a, ha, hd⟩
  | ofNat k =>
    rw [Int.ofNat_eq_natCast, zpow_natCast] at hnear
    have hbound : (0 : ℚ) < 2 ^ 1024 := pow_pos two_pos 1024
    rcases (near_significand ha).2 with ⟨-, hzero⟩ | ⟨hm, -⟩
    · exact ⟨0, a, ha, .inl ⟨hzero, rfl⟩⟩
    · have hk : k < 309 := by
        have hgreat : 2 ^ 1024 < 10 ^ 309 := by decide +kernel
        refine (pow_lt_pow_iff_right₀ (by norm_num : (1 : ℚ) < 10)).1 ?_
        calc (10 : ℚ) ^ k ≤ m * 10 ^ k := le_mul_of_one_le_left (pow_pos (by norm_num) k).le hm
          _ < 2 ^ 1024 := hnear.lt_of_le (by decide) hbound hle
          _ < 10 ^ 309 := by exact_mod_cast hgreat
      obtain ⟨power, hp, hpos⟩ := exists_power k
      obtain ⟨d, hd⟩ := exists_double (mul_nonneg ha0 hpos.le)
      have hsteps : Near 4 v d := hnear.trans (near_product ha hp hd)
      exact ⟨d, a, ha, .inr ⟨by omega, power, hp, hd, hsteps.lt_of_le le_rfl hbound hle⟩⟩

/-! ### Digits that are left out -/

section Digits

variable {digits : List ℕ} {start significand left next : ℕ}

/-- Appended digits make no number smaller. -/
theorem le_foldl_digits (digits : List ℕ) (n : ℕ) : n ≤ digits.foldl (fun n d => 10 * n + d) n := by
  induction digits generalizing n with
  | nil => exact Nat.le_refl n
  | cons d digits ih => exact Nat.le_trans (by omega) (ih (10 * n + d))

/-- Where there are no digits, none are left. -/
theorem takes_nil : Takes start [] significand left ↔ start < 2 ^ 64 ∧ significand = start ∧ left = 0 := by
  constructor
  · rintro ⟨taken, rest, hsplit, rfl, rfl, hlt, -⟩
    obtain ⟨rfl, rfl⟩ := List.nil_eq_append_iff.1 hsplit
    exact ⟨hlt, rfl, rfl⟩
  · rintro ⟨hlt, rfl, rfl⟩
    exact ⟨[], [], rfl, rfl, rfl, hlt, nofun⟩

/-- A digit that fits is taken. -/
theorem takes_cons_of_lt (hfits : 10 * start + next < 2 ^ 64) :
    Takes start (next :: digits) significand left ↔ Takes (10 * start + next) digits significand left := by
  constructor
  · rintro ⟨taken, rest, hsplit, rfl, rfl, hlt, hnext⟩
    cases taken with
    | nil =>
      rw [List.nil_append] at hsplit
      exact absurd (hnext next (hsplit ▸ rfl)) hfits.not_ge
    | cons d taken =>
      obtain ⟨rfl, rfl⟩ := List.cons.inj hsplit
      exact ⟨taken, rest, rfl, rfl, rfl, hlt, hnext⟩
  · rintro ⟨taken, rest, rfl, rfl, rfl, hlt, hnext⟩
    exact ⟨next :: taken, rest, rfl, rfl, rfl, hlt, hnext⟩

/-- A digit that does not fit is left out, and so are all after it. -/
theorem takes_cons_of_le (hstart : start < 2 ^ 64) (hlarge : 2 ^ 64 ≤ 10 * start + next) :
    Takes start (next :: digits) significand left ↔ significand = start ∧ left = digits.length + 1 := by
  constructor
  · rintro ⟨taken, rest, hsplit, rfl, rfl, hlt, -⟩
    cases taken with
    | nil => exact ⟨rfl, (congrArg List.length hsplit).symm⟩
    | cons d taken =>
      obtain ⟨rfl, rfl⟩ := List.cons.inj hsplit
      exact absurd hlt (hlarge.trans (le_foldl_digits taken _)).not_gt
  · rintro ⟨rfl, rfl⟩
    refine ⟨[], next :: digits, rfl, rfl, rfl, hstart, fun d hd => ?_⟩
    obtain rfl := Option.some.inj hd
    exact hlarge

/-- Some digits are taken. -/
theorem exists_takes (digits : List ℕ) (hstart : start < 2 ^ 64) : ∃ significand left, Takes start digits significand left := by
  induction digits generalizing start with
  | nil => exact ⟨start, 0, takes_nil.2 ⟨hstart, rfl, rfl⟩⟩
  | cons d digits ih =>
    rcases Nat.lt_or_ge (10 * start + d) (2 ^ 64) with hfits | hlarge
    · obtain ⟨significand, left, h⟩ := ih hfits
      exact ⟨significand, left, (takes_cons_of_lt hfits).2 h⟩
    · exact ⟨start, digits.length + 1, (takes_cons_of_le hstart hlarge).2 ⟨rfl, rfl⟩⟩

/-- A significand has 64 bits. -/
theorem Takes.lt (h : Takes start digits significand left) : significand < 2 ^ 64 :=
  let ⟨_, _, _, _, _, hlt, _⟩ := h
  hlt

variable (hdigits : ∀ d ∈ digits, d ≤ 9)

/-- Digits that are appended make as many places as they are, and fill no more than these. -/
theorem foldl_digits_bounds {digits : List ℕ} (hdigits : ∀ d ∈ digits, d ≤ 9) (n : ℕ) :
    n * 10 ^ digits.length ≤ digits.foldl (fun n d => 10 * n + d) n ∧
      digits.foldl (fun n d => 10 * n + d) n < (n + 1) * 10 ^ digits.length := by
  induction digits generalizing n with
  | nil => simp
  | cons d digits ih =>
    have hd := hdigits d List.mem_cons_self
    obtain ⟨hlow, hhigh⟩ := ih (fun d hd => hdigits d (List.mem_cons_of_mem _ hd)) (10 * n + d)
    rw [List.foldl_cons, List.length_cons, pow_succ', ← mul_assoc, ← mul_assoc]
    constructor
    · exact (Nat.mul_le_mul_right _ (by omega)).trans hlow
    · exact hhigh.trans_le (Nat.mul_le_mul_right _ (by omega))

include hdigits

/-- The digits that are taken make as many places as they are. -/
theorem Takes.taken_bounds (h : Takes start digits significand left) :
    ∃ places, places + left = digits.length ∧ start * 10 ^ places ≤ significand ∧ significand < (start + 1) * 10 ^ places := by
  obtain ⟨taken, rest, rfl, rfl, rfl, -, -⟩ := h
  have hbounds := foldl_digits_bounds (fun d hd => hdigits d (List.mem_append_left _ hd)) start
  exact ⟨taken.length, List.length_append.symm, hbounds⟩

/-- Either all digits are taken, or the significand is large and the number of all digits is between it and the next one. -/
theorem Takes.bounds (h : Takes start digits significand left) :
    (left = 0 ∧ significand = digits.foldl (fun n d => 10 * n + d) start) ∨
      (2 ^ 60 ≤ significand ∧ significand * 10 ^ left ≤ digits.foldl (fun n d => 10 * n + d) start ∧
        digits.foldl (fun n d => 10 * n + d) start < (significand + 1) * 10 ^ left) := by
  obtain ⟨taken, rest, rfl, rfl, rfl, -, hnext⟩ := h
  have hrest := foldl_digits_bounds (fun d hd => hdigits d (List.mem_append_right _ hd)) (taken.foldl (fun n d => 10 * n + d) start)
  rw [List.foldl_append]
  cases rest with
  | nil => exact .inl ⟨rfl, rfl⟩
  | cons d rest =>
    have hd := hdigits d (List.mem_append_right _ List.mem_cons_self)
    have hlarge := hnext d rfl
    exact .inr ⟨by omega, hrest⟩

end Digits

namespace Literal

variable {l : Literal}

/-- No literal has a negative magnitude. -/
theorem value_nonneg (l : Literal) : 0 ≤ l.value :=
  mul_nonneg (Nat.cast_nonneg _) (zpow_nonneg (by norm_num) _)

/-- Leaving out digits is one step. -/
theorem near_value {whole wholeLeft significand left : ℕ} (hdigits : ∀ d ∈ l.whole ++ l.fraction.getD [], d ≤ 9)
    (hwhole : Takes 0 l.whole whole wholeLeft) (hfraction : Takes whole (l.fraction.getD []) significand left) :
    Near 1 l.value (significand * 10 ^ (l.exponent.getD 0 - (l.fraction.getD []).length + wholeLeft + left)) := by
  obtain ⟨hwholeDigits, hfractionDigits⟩ := List.forall_mem_append.1 hdigits
  have hvalue := l.value_nonneg
  rw [value] at hvalue ⊢
  generalize l.fraction.getD [] = fraction at *
  have hten : (10 : ℚ) ≠ 0 := by norm_num
  have hunit : (0 : ℚ) ≤ 10 ^ (l.exponent.getD 0 - fraction.length) := zpow_nonneg (by norm_num) _
  rw [ofDigits, List.foldl_append] at hvalue ⊢
  rw [zpow_add₀ hten, zpow_add₀ hten, zpow_natCast, zpow_natCast]
  generalize (10 : ℚ) ^ (l.exponent.getD 0 - fraction.length) = unit at *
  have hscaled : (significand : ℚ) * (unit * 10 ^ wholeLeft * 10 ^ left) = (significand * (10 ^ wholeLeft * 10 ^ left) : ℕ) * unit := by
    push_cast
    ring
  rw [hscaled]
  rcases hwhole.bounds hwholeDigits with ⟨rfl, rfl⟩ | ⟨hlarge, hlow, hhigh⟩
  · rw [pow_zero, one_mul]
    rcases hfraction.bounds hfractionDigits with ⟨rfl, rfl⟩ | ⟨hlarge, hlow, hhigh⟩
    · rw [pow_zero, mul_one]
      exact .rfl hvalue
    · exact near_of_between hlarge hunit ⟨hlow, hhigh.le⟩ ⟨le_rfl, Nat.mul_le_mul_right _ (Nat.le_succ _)⟩
  · -- Digits of the fraction may be taken after whole ones that were left out, but there they make no more than one unit.
    obtain ⟨hallLow, hallHigh⟩ := foldl_digits_bounds hfractionDigits (l.whole.foldl (fun n d => 10 * n + d) 0)
    obtain ⟨places, hplaces, htakenLow, htakenHigh⟩ := hfraction.taken_bounds hfractionDigits
    refine near_of_between (p := 10 ^ wholeLeft * 10 ^ fraction.length) hlarge hunit ⟨?_, ?_⟩ ⟨?_, ?_⟩
    · rw [← mul_assoc]
      exact (Nat.mul_le_mul_right _ hlow).trans hallLow
    · rw [← mul_assoc]
      exact hallHigh.le.trans (Nat.mul_le_mul_right _ hhigh)
    · rw [← hplaces, pow_add, ← mul_assoc, ← mul_assoc, ← mul_assoc, mul_right_comm whole, mul_assoc (whole * 10 ^ places),
        mul_assoc significand]
      exact Nat.mul_le_mul_right _ htakenLow
    · rw [← hplaces, pow_add, ← mul_assoc, ← mul_assoc, ← mul_assoc, mul_right_comm (whole + 1),
        mul_assoc ((whole + 1) * 10 ^ places), mul_assoc significand]
      exact Nat.mul_le_mul_right _ htakenHigh.le

/-- A literal that is not among the greatest is read. -/
theorem exists_readAs (hdigits : ∀ d ∈ l.whole ++ l.fraction.getD [], d ≤ 9) (hle : l.value ≤ (1 - 2 ^ (-50 : ℤ)) * 2 ^ 1024) :
    ∃ q, l.ReadAs q := by
  by_cases hinteger : l.IsInteger
  · exact ⟨_, .integer hinteger⟩
  · obtain ⟨whole, wholeLeft, hwhole⟩ := exists_takes l.whole (show 0 < 2 ^ 64 by decide)
    obtain ⟨significand, left, hfraction⟩ := exists_takes (l.fraction.getD []) hwhole.lt
    obtain ⟨d, hd⟩ := exists_scaled (near_value hdigits hwhole hfraction) hle
    exact ⟨d, .double hinteger hwhole hfraction hd⟩

/-- The exact magnitude of an integer. -/
theorem IsInteger.value_eq (h : l.IsInteger) : l.value = ofDigits l.whole := by
  rw [value, h.1, h.2.1, Option.getD_none, Option.getD_none, List.append_nil, List.length_nil, Nat.cast_zero, sub_zero, zpow_zero,
    mul_one]

/-- An integer has 64 bits. -/
theorem IsInteger.lt (h : l.IsInteger) : ofDigits l.whole < 2 ^ 64 := by
  obtain ⟨-, -, hrange⟩ := h
  split_ifs at hrange
  · omega
  · exact hrange

/-- What is read is a magnitude. -/
theorem ReadAs.nonneg (h : l.ReadAs q) : 0 ≤ q := by
  cases h with
  | integer => exact Nat.cast_nonneg _
  | double _ _ _ hd => exact hd.nonneg

/-- What is read is near to the exact value, which is not beyond the doubles. -/
theorem ReadAs.accurate (hdigits : ∀ d ∈ l.whole ++ l.fraction.getD [], d ≤ 9) (h : l.ReadAs q) :
    l.value < (1 + 2 ^ (-50 : ℤ)) * 2 ^ 1024 ∧ |q - l.value| ≤ 2 ^ (-50 : ℤ) * l.value + 2 ^ (-1074 : ℤ) := by
  cases h with
  | integer h =>
    have hvalue := l.value_nonneg
    rw [h.value_eq] at hvalue ⊢
    have hlt : (ofDigits l.whole : ℚ) < 1 * 2 ^ 64 := by
      rw [one_mul]
      exact_mod_cast h.lt
    have hle : (1 : ℚ) * 2 ^ 64 ≤ (1 + 2 ^ (-50 : ℤ)) * 2 ^ 1024 :=
      mul_le_mul (by norm_num) (pow_le_pow_right₀ one_le_two (by decide)) (by norm_num) (by norm_num)
    refine ⟨hlt.trans_le hle, ?_⟩
    rw [sub_self, abs_zero]
    exact add_nonneg (mul_nonneg (two_zpow_pos _).le hvalue) (two_zpow_pos _).le
  | double _ hwhole hfraction hd => exact hd.accurate hfraction.lt l.value_nonneg (near_value hdigits hwhole hfraction)

end Literal

end ExprLang.Number
