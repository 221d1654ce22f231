import Mathlib.Algebra.Order.Floor.Semifield
import Mathlib.Data.Int.Log
import Mathlib.Data.Rat.Floor
import Mathlib.Tactic.FieldSimp
import Mathlib.Tactic.Linarith
import Mathlib.Tactic.NormNum
import Mathlib.Tactic.Positivity
import Mathlib.Tactic.Ring

/-!
# Rounding to binary floating-point numbers

A binary format holds the numbers that have at most so many digits to the base two and are multiples of a least power of two. They are
rational numbers here, and there is no greatest one: that a number is too large for a format shows in what it is rounded to.

`RoundsTo` is rounding to the nearest number that is held, with ties to an even significand, as a relation. It is a function of the
number that is rounded (`RoundsTo.unique`). What is rounded on the grid of the right unit is rounded (`roundsTo_of_unit`), and the
relative error of a number that is not too small is at most half a unit in the last place (`RoundsTo.relative`).
-/

namespace ExprLang.Number

/-- The numbers of at most `p` digits to the base two that are multiples of `2 ^ least`. -/
def Held (p : ℕ) (least : ℤ) (v : ℚ) : Prop := ∃ (m : ℕ) (e : ℤ), m < 2 ^ p ∧ least ≤ e ∧ v = m * 2 ^ e

/-- The numbers that are held with an even significand. -/
def HeldEven (p : ℕ) (least : ℤ) (v : ℚ) : Prop := ∃ (m : ℕ) (e : ℤ), Even m ∧ m < 2 ^ p ∧ least ≤ e ∧ v = m * 2 ^ e

/-- The number `q` is rounded to `v`: among the numbers that are held none is nearer, and if another one is as near, then `v` has an even
significand. -/
structure RoundsTo (p : ℕ) (least : ℤ) (q v : ℚ) : Prop where
  /-- It is held. -/
  held : Held p least v
  /-- None is nearer. -/
  nearest : ∀ w, Held p least w → |v - q| ≤ |w - q|
  /-- Of two that are as near it is the even one. -/
  even : ∀ w, Held p least w → w ≠ v → |w - q| = |v - q| → HeldEven p least v

variable {p : ℕ} {least e : ℤ} {q v w : ℚ}

/-- A power of two is positive. -/
theorem two_zpow_pos (e : ℤ) : (0 : ℚ) < 2 ^ e := zpow_pos (by norm_num) e

/-- A multiple of a power of two is a multiple of a lesser one. -/
theorem mul_two_zpow_add (m : ℚ) (e : ℤ) (k : ℕ) : m * 2 ^ (e + k) = m * 2 ^ k * 2 ^ e := by
  rw [zpow_add₀ two_ne_zero, zpow_natCast]
  ring

/-- Zero is held. -/
theorem held_zero (p : ℕ) (least : ℤ) : Held p least 0 := ⟨0, least, by positivity, le_rfl, by simp⟩

/-- A power of two that is not too small is held. -/
theorem held_two_zpow (hp : 0 < p) (he : least ≤ e) : Held p least (2 ^ e) :=
  ⟨1, e, Nat.one_lt_two_pow hp.ne', he, by simp⟩

/-- The successor of an even number is still less than any even number that is greater. -/
theorem succ_lt_of_even {m n : ℕ} (hm : Even m) (hn : Even n) (h : m < n) : m + 1 < n := by
  obtain ⟨i, rfl⟩ := hm
  obtain ⟨j, rfl⟩ := hn
  omega

/-- Between two numbers with even significands there is another one. -/
theorem HeldEven.exists_between (hp : 0 < p) (hv : HeldEven p least v) (hw : HeldEven p least w) (h : v < w) :
    ∃ u, Held p least u ∧ v < u ∧ u < w := by
  obtain ⟨m, e, hm, hmp, he, rfl⟩ := hv
  obtain ⟨n, e', hn, hnp, he', rfl⟩ := hw
  have heven : Even (2 ^ p) := (Nat.even_pow' hp.ne').2 even_two
  -- The next number of the finer of the two grids is the one in between.
  rcases le_total e e' with hle | hle
  · obtain ⟨k, rfl⟩ := Int.le.dest hle
    rw [mul_two_zpow_add] at h
    have hlt : m < n * 2 ^ k := by exact_mod_cast lt_of_mul_lt_mul_right h (two_zpow_pos e).le
    have hnext : m + 1 < n * 2 ^ k := succ_lt_of_even hm (hn.mul_right _) hlt
    refine ⟨(m + 1 : ℕ) * 2 ^ e, ⟨m + 1, e, succ_lt_of_even hm heven hmp, he, rfl⟩, ?_, ?_⟩
    · exact mul_lt_mul_of_pos_right (by exact_mod_cast Nat.lt_succ_self m) (two_zpow_pos e)
    · rw [mul_two_zpow_add]
      exact mul_lt_mul_of_pos_right (by exact_mod_cast hnext) (two_zpow_pos e)
  · obtain ⟨k, rfl⟩ := Int.le.dest hle
    rw [mul_two_zpow_add] at h
    have hlt : m * 2 ^ k < n := by exact_mod_cast lt_of_mul_lt_mul_right h (two_zpow_pos e').le
    have hprevious : m * 2 ^ k < n - 1 := Nat.lt_sub_of_add_lt (succ_lt_of_even (hm.mul_right _) hn hlt)
    refine ⟨(n - 1 : ℕ) * 2 ^ e', ⟨n - 1, e', by omega, he', rfl⟩, ?_, ?_⟩
    · rw [mul_two_zpow_add]
      exact mul_lt_mul_of_pos_right (by exact_mod_cast hprevious) (two_zpow_pos e')
    · exact mul_lt_mul_of_pos_right (by exact_mod_cast (by omega : n - 1 < n)) (two_zpow_pos e')

namespace RoundsTo

/-- What is held is rounded to itself. -/
theorem of_held (h : Held p least q) : RoundsTo p least q q where
  held := h
  nearest w _ := by
    rw [sub_self, abs_zero]
    exact abs_nonneg _
  even w _ hne hw := by
    rw [sub_self, abs_zero, abs_eq_zero, sub_eq_zero] at hw
    exact absurd hw hne

/-- Of two numbers to which the same one is rounded, none is less than the other. -/
theorem not_less (hp : 0 < p) (hv : RoundsTo p least q v) (hw : RoundsTo p least q w) : ¬ v < w := by
  intro h
  have hdistance : |v - q| = |w - q| := le_antisymm (hv.nearest w hw.held) (hw.nearest v hv.held)
  have hmiddle : v - q = -(w - q) := by
    rcases abs_eq_abs.1 hdistance with heq | heq
    · exact absurd (sub_left_injective heq) h.ne
    · exact heq
  obtain ⟨u, hu, hvu, huw⟩ :=
    (hv.even w hw.held h.ne' hdistance.symm).exists_between hp (hw.even v hv.held h.ne hdistance) h
  have hnearer : |u - q| < |v - q| := by
    rw [abs_of_neg (by linarith : v - q < 0), abs_lt]
    exact ⟨by linarith, by linarith⟩
  exact absurd (hv.nearest u hu) hnearer.not_ge

/-- A number is rounded to one number only. -/
theorem unique (hp : 0 < p) (hv : RoundsTo p least q v) (hw : RoundsTo p least q w) : v = w :=
  le_antisymm (not_lt.1 (hw.not_less hp hv)) (not_lt.1 (hv.not_less hp hw))

/-- A number that is at most one that is held is rounded to no more. -/
theorem le_of_le (h : RoundsTo p least q v) (hw : Held p least w) (hq : q ≤ w) : v ≤ w := by
  by_contra hlt
  have hle := h.nearest w hw
  rw [abs_of_nonneg (by linarith), abs_of_nonneg (by linarith)] at hle
  linarith

/-- A number that is at least one that is held is rounded to no less. -/
theorem ge_of_ge (h : RoundsTo p least q v) (hw : Held p least w) (hq : w ≤ q) : w ≤ v := by
  by_contra hlt
  have hle := h.nearest w hw
  rw [abs_of_nonpos (by linarith), abs_of_nonpos (by linarith)] at hle
  linarith

/-- No number is rounded to a negative one unless it is negative itself. -/
theorem nonneg (h : RoundsTo p least q v) (hq : 0 ≤ q) : 0 ≤ v := h.ge_of_ge (held_zero p least) hq

/-- Zero is rounded to zero only. -/
theorem eq_zero (h : RoundsTo p least 0 v) : v = 0 :=
  le_antisymm (h.le_of_le (held_zero p least) le_rfl) (h.nonneg le_rfl)

/-- What is less than half of the least unit is rounded to zero. -/
theorem eq_zero_of_lt (h : RoundsTo p least q v) (hq : 0 ≤ q) (hlt : q < 2 ^ least / 2) : v = 0 := by
  obtain ⟨m, e, -, he, hv⟩ := h.held
  have hle := h.nearest 0 (held_zero p least)
  rw [abs_sub_comm 0, sub_zero, abs_of_nonneg hq] at hle
  have hsmall : v < 2 ^ least := by linarith [(abs_le.1 hle).2]
  rcases Nat.eq_zero_or_pos m with rfl | hm
  · rw [hv, Nat.cast_zero, zero_mul]
  · have hone : (1 : ℚ) ≤ m := by exact_mod_cast hm
    have hunit : (2 : ℚ) ^ least ≤ 1 * 2 ^ e := by
      rw [one_mul]
      exact zpow_le_zpow_right₀ one_le_two he
    have hlarge : (2 : ℚ) ^ least ≤ v := hv ▸ hunit.trans (mul_le_mul_of_nonneg_right hone (two_zpow_pos e).le)
    exact absurd hsmall hlarge.not_gt

end RoundsTo

/-! ### The grid of a unit -/

/-- What is held is a multiple of a given unit, or else it is less than the numbers that fill the significand in this unit. -/
theorem Held.on_grid (hp : 0 < p) (hw : Held p least w) (e : ℤ) :
    (∃ j : ℕ, w = j * 2 ^ e) ∨ (least < e ∧ w < 2 ^ (p - 1) * 2 ^ e) := by
  obtain ⟨m, e', hm, he', rfl⟩ := hw
  rcases le_or_gt e e' with hle | hlt
  · obtain ⟨k, rfl⟩ := Int.le.dest hle
    exact .inl ⟨m * 2 ^ k, by rw [mul_two_zpow_add]; push_cast; ring⟩
  · refine .inr ⟨lt_of_le_of_lt he' hlt, ?_⟩
    obtain ⟨k, hk⟩ := Int.le.dest (Int.add_one_le_of_lt hlt)
    have hfull : (2 : ℚ) ^ p = 2 ^ (p - 1) * 2 := by rw [← pow_succ, Nat.sub_add_cancel hp]
    calc (m : ℚ) * 2 ^ e' < 2 ^ p * 2 ^ e' := mul_lt_mul_of_pos_right (by exact_mod_cast hm) (two_zpow_pos e')
      _ = 2 ^ (p - 1) * 2 ^ (e' + 1) := by rw [hfull, zpow_add_one₀ two_ne_zero]; ring
      _ ≤ 2 ^ (p - 1) * 2 ^ e :=
        mul_le_mul_of_nonneg_left (zpow_le_zpow_right₀ one_le_two (by omega)) (by positivity)

/-- A whole number of units is held if it fits the significand, or fills it with one digit more. -/
theorem held_mul_unit (hp : 0 < p) {N : ℕ} (he : least ≤ e) (hN : N ≤ 2 ^ p) : Held p least (N * 2 ^ e) := by
  rcases hN.lt_or_eq with hlt | rfl
  · exact ⟨N, e, hlt, he, rfl⟩
  · refine ⟨2 ^ (p - 1), e + 1, Nat.pow_lt_pow_right one_lt_two (by omega), by omega, ?_⟩
    have hfull : (2 : ℚ) ^ p = 2 ^ (p - 1) * 2 := by rw [← pow_succ, Nat.sub_add_cancel hp]
    push_cast
    rw [hfull, zpow_add_one₀ two_ne_zero]
    ring

/-- An even number of units is held with an even significand. -/
theorem heldEven_mul_unit (hp : 1 < p) {N : ℕ} (he : least ≤ e) (hN : N ≤ 2 ^ p) (heven : Even N) :
    HeldEven p least (N * 2 ^ e) := by
  rcases hN.lt_or_eq with hlt | rfl
  · exact ⟨N, e, heven, hlt, he, rfl⟩
  · have hhalf : Even (2 ^ (p - 1)) := (Nat.even_pow' (by omega)).2 even_two
    refine ⟨2 ^ (p - 1), e + 1, hhalf, Nat.pow_lt_pow_right one_lt_two (by omega), by omega, ?_⟩
    have hfull : (2 : ℚ) ^ p = 2 ^ (p - 1) * 2 := by rw [← pow_succ, Nat.sub_add_cancel (by omega)]
    push_cast
    rw [hfull, zpow_add_one₀ two_ne_zero]
    ring

/-- The whole number `N` is nearest to `x`, and it is even if another one is as near. -/
structure NearestWhole (x : ℚ) (N : ℕ) : Prop where
  /-- No whole number is nearer. -/
  nearest : ∀ j : ℕ, |(N : ℚ) - x| ≤ |j - x|
  /-- Of two that are as near it is the even one. -/
  even : ∀ j : ℕ, j ≠ N → |(j : ℚ) - x| = |N - x| → Even N

/-- A whole number is the nearest one if it is not farther away than a half, and even at a half. -/
theorem NearestWhole.of_le_half {x : ℚ} {N : ℕ} (h : |(N : ℚ) - x| ≤ 1 / 2) (heven : |(N : ℚ) - x| = 1 / 2 → Even N) :
    NearestWhole x N := by
  have hother (j : ℕ) (hj : j ≠ N) : 1 - |(N : ℚ) - x| ≤ |(j : ℚ) - x| := by
    have hstep : (1 : ℚ) ≤ |(j : ℚ) - N| := by
      exact_mod_cast Int.one_le_abs (sub_ne_zero.2 (Nat.cast_injective.ne hj : (j : ℤ) ≠ N))
    have htriangle := abs_sub_le (j : ℚ) x N
    rw [abs_sub_comm x] at htriangle
    linarith
  refine ⟨fun j => ?_, fun j hj hdistance => heven (le_antisymm h ?_)⟩
  · rcases eq_or_ne j N with rfl | hj
    · exact le_rfl
    · linarith [hother j hj]
  · linarith [hother j hj]

/-- Whole numbers that are greater than the given one are not exceeded by rounding. -/
theorem NearestWhole.le {x : ℚ} {N n : ℕ} (h : NearestWhole x N) (hx : x < n) : N ≤ n := by
  by_contra hlt
  have hn : (n : ℚ) < N := by exact_mod_cast not_le.1 hlt
  have hle := h.nearest n
  rw [abs_of_nonneg (by linarith), abs_of_nonneg (by linarith)] at hle
  linarith

/-- Rounding does not fall below a whole number that is no greater than the given one. -/
theorem NearestWhole.ge {x : ℚ} {N n : ℕ} (h : NearestWhole x N) (hx : n ≤ x) : n ≤ N := by
  by_contra hlt
  have hn : (N : ℚ) < n := by exact_mod_cast not_le.1 hlt
  have hle := h.nearest n
  rw [abs_of_nonpos (by linarith), abs_of_nonpos (by linarith)] at hle
  linarith

/-- Distances on the grid of a unit. -/
theorem abs_mul_unit_sub (a q : ℚ) (e : ℤ) : |a * 2 ^ e - q| = |a - q / 2 ^ e| * 2 ^ e := by
  rw [← abs_of_pos (two_zpow_pos e), ← abs_mul, abs_of_pos (two_zpow_pos e), sub_mul, div_mul_cancel₀ _ (two_zpow_pos e).ne']

/-- A number is rounded to the nearest whole number of units, if the unit is the one in which the number fills the significand, or the
least one and the number does not. -/
theorem roundsTo_of_unit (hp : 1 < p) {N : ℕ} (he : least ≤ e) (hupper : q < 2 ^ p * 2 ^ e)
    (hlower : least < e → 2 ^ (p - 1) * 2 ^ e ≤ q) (hN : NearestWhole (q / 2 ^ e) N) : RoundsTo p least q (N * 2 ^ e) := by
  have hunit := two_zpow_pos e
  have hle : N ≤ 2 ^ p := hN.le (by rw [div_lt_iff₀ hunit]; exact_mod_cast hupper)
  have hgrid (j : ℕ) : |(N : ℚ) * 2 ^ e - q| ≤ |j * 2 ^ e - q| := by
    rw [abs_mul_unit_sub, abs_mul_unit_sub]
    exact mul_le_mul_of_nonneg_right (hN.nearest j) hunit.le
  -- What is not on the grid is farther away than the least number that fills the significand.
  have hbelow (w : ℚ) (hlt : least < e) (hw : w < 2 ^ (p - 1) * 2 ^ e) : |(N : ℚ) * 2 ^ e - q| < |w - q| := by
    have hq := hlower hlt
    refine lt_of_le_of_lt (hgrid (2 ^ (p - 1))) ?_
    push_cast
    rw [abs_of_nonpos (by linarith), abs_of_nonpos (by linarith)]
    linarith
  refine ⟨held_mul_unit (by omega) he hle, fun w hw => ?_, fun w hw hne hw' => ?_⟩
  · rcases hw.on_grid (by omega) e with ⟨j, rfl⟩ | ⟨hlt, hw⟩
    · exact hgrid j
    · exact (hbelow w hlt hw).le
  · rcases hw.on_grid (by omega) e with ⟨j, rfl⟩ | ⟨hlt, hw⟩
    · rw [abs_mul_unit_sub, abs_mul_unit_sub] at hw'
      have hj : j ≠ N := by
        rintro rfl
        exact hne rfl
      exact heldEven_mul_unit hp he hle (hN.even j hj (mul_right_cancel₀ hunit.ne' hw'))
    · exact absurd hw' (hbelow w hlt hw).ne'

/-! ### How far rounding goes -/

namespace RoundsTo

/-- On a grid that reaches beyond the number, rounding goes at most half a unit. -/
theorem abs_sub_le_half (hp : 0 < p) (h : RoundsTo p least q v) (hq : 0 ≤ q) (he : least ≤ e) (hupper : q ≤ 2 ^ p * 2 ^ e) :
    |v - q| ≤ 2 ^ e / 2 := by
  have hunit := two_zpow_pos e
  have hx : q / 2 ^ e ≤ 2 ^ p := by rwa [div_le_iff₀ hunit]
  have hx0 : 0 ≤ q / 2 ^ e := div_nonneg hq hunit.le
  obtain ⟨N, hN, hhalf⟩ : ∃ N : ℕ, N ≤ 2 ^ p ∧ |(N : ℚ) - q / 2 ^ e| ≤ 1 / 2 := by
    have hfloor := Nat.floor_le hx0
    have hnext := Nat.lt_floor_add_one (q / 2 ^ e)
    have hbound : ⌊q / 2 ^ e⌋₊ ≤ 2 ^ p := Nat.floor_le_of_le (by exact_mod_cast hx)
    rcases le_or_gt (q / 2 ^ e - ⌊q / 2 ^ e⌋₊) (1 / 2) with hnear | hfar
    · refine ⟨_, hbound, ?_⟩
      rw [abs_of_nonpos (by linarith)]
      linarith
    · have hlt : (⌊q / 2 ^ e⌋₊ : ℚ) < (2 ^ p : ℕ) := by push_cast; linarith
      refine ⟨⌊q / 2 ^ e⌋₊ + 1, by exact_mod_cast hlt, ?_⟩
      push_cast
      rw [abs_of_nonneg (by linarith)]
      linarith
  calc |v - q| ≤ |(N : ℚ) * 2 ^ e - q| := h.nearest _ (held_mul_unit hp he hN)
    _ = |(N : ℚ) - q / 2 ^ e| * 2 ^ e := abs_mul_unit_sub _ _ _
    _ ≤ 1 / 2 * 2 ^ e := mul_le_mul_of_nonneg_right hhalf hunit.le
    _ = 2 ^ e / 2 := by ring

/-- A number that is not too small to fill the significand is changed by at most half a unit in its last place. -/
theorem relative (hp : 0 < p) (h : RoundsTo p least q v) (hq : 2 ^ (least + p - 1) ≤ q) : |v - q| ≤ 2 ^ (-p : ℤ) * q := by
  have hpos : 0 < q := lt_of_lt_of_le (two_zpow_pos _) hq
  have hlog : (2 : ℚ) ^ Int.log 2 q ≤ q := by exact_mod_cast Int.zpow_log_le_self (b := 2) (by norm_num) hpos
  have hnext : q < (2 : ℚ) ^ (Int.log 2 q + 1) := by exact_mod_cast Int.lt_zpow_succ_log_self (b := 2) (by norm_num) q
  have he : least ≤ Int.log 2 q + 1 - p := by
    have hlt : (2 : ℚ) ^ (least + p - 1) < 2 ^ (Int.log 2 q + 1) := lt_of_le_of_lt hq hnext
    have := (zpow_lt_zpow_iff_right₀ (one_lt_two : (1 : ℚ) < 2)).1 hlt
    omega
  have hfull : (2 : ℚ) ^ p * 2 ^ (Int.log 2 q + 1 - p) = 2 ^ (Int.log 2 q + 1) := by
    rw [← zpow_natCast, ← zpow_add₀ two_ne_zero]
    congr 1
    omega
  calc |v - q| ≤ 2 ^ (Int.log 2 q + 1 - p) / 2 := h.abs_sub_le_half hp hpos.le he (by rw [hfull]; exact hnext.le)
    _ = 2 ^ (-p : ℤ) * 2 ^ Int.log 2 q := by
      rw [← zpow_add₀ two_ne_zero, div_eq_mul_inv, ← zpow_sub_one₀ two_ne_zero]
      congr 1
      omega
    _ ≤ 2 ^ (-p : ℤ) * q := mul_le_mul_of_nonneg_left hlog (two_zpow_pos _).le

/-- Any number is changed by at most this and half of the least unit. -/
theorem accurate (hp : 0 < p) (h : RoundsTo p least q v) (hq : 0 ≤ q) : |v - q| ≤ 2 ^ (-p : ℤ) * q + 2 ^ least / 2 := by
  rcases le_or_gt (2 ^ (least + p - 1)) q with hlarge | hsmall
  · have := h.relative hp hlarge
    have := two_zpow_pos least
    linarith
  · have hupper : q ≤ 2 ^ p * 2 ^ least := by
      refine hsmall.le.trans ?_
      rw [← zpow_natCast, ← zpow_add₀ two_ne_zero]
      exact zpow_le_zpow_right₀ one_le_two (by omega)
    have := h.abs_sub_le_half hp hq le_rfl hupper
    have := mul_nonneg (two_zpow_pos (-p : ℤ)).le hq
    linarith

end RoundsTo

end ExprLang.Number
