import ExprLang.Number.Literal
import ExprLang.Proofs.Number.Denotation
import ExprLang.Proofs.Number.Nearest

/-!
# Floats by their bits

What the bits of a float say about it. What a pattern is unpacked to is said by its fields (`unpacked_unpack`), of which there are five
cases (`Unpacked`); so the largest magnitude that is no error is infinity, a finite magnitude stands for the number that its pattern stands
for, and what is unpacked is packed as it was. So the float that is made of the nearest pattern is the nearest float.
-/

namespace ExprLang.Number

open Float.Model (Format UnpackedFloat)
open Float.Model.UnpackedFloat (Sign)

/-! ### What floats stand for -/

variable {s t : Sign} {v : ℚ}

/-- A zero stands for zero. -/
theorem standsFor_zero_iff : StandsFor (.zero t) s v ↔ s = t ∧ v = 0 := by
  constructor
  · rintro ⟨⟩
    exact ⟨rfl, rfl⟩
  · rintro ⟨rfl, rfl⟩
    exact .zero

/-- A finite float stands for its significand times its unit. -/
theorem standsFor_finite_iff {m : ℕ} {e : ℤ} {h : 0 < m} : StandsFor (.finite t m e h) s v ↔ s = t ∧ v = m * 2 ^ e := by
  constructor
  · rintro ⟨⟩
    exact ⟨rfl, rfl⟩
  · rintro ⟨rfl, rfl⟩
    exact .finite

/-- Infinity stands for whatever is too large. -/
theorem standsFor_infinity_iff : StandsFor (.infinity t) s v ↔ s = t ∧ 2 ^ 128 ≤ v := by
  constructor
  · rintro ⟨⟩
    exact ⟨rfl, ‹_›⟩
  · rintro ⟨rfl, h⟩
    exact .infinity h

/-- What is no number stands for nothing. -/
theorem not_standsFor_notANumber : ¬ StandsFor .notANumber s v := nofun

/-! ### The fields of a pattern -/

/-- What the fields of a pattern stand for. The greatest exponent is that of infinity and of what is no number, the least one that of
zero and of what counts the least unit; the others have a leading digit that is implied. -/
inductive Unpacked (s : Sign) : ℕ → ℕ → UnpackedFloat → Prop where
  | infinity : Unpacked s 255 0 (.infinity s)
  | notANumber {m : ℕ} (h : 0 < m) : Unpacked s 255 m .notANumber
  | zero : Unpacked s 0 0 (.zero s)
  | least {m : ℕ} (h : 0 < m) : Unpacked s 0 m (.finite s m (-149) h)
  | greater {e m : ℕ} (h : 0 < 2 ^ 23 + m) (hpos : 0 < e) (hlt : e < 255) : Unpacked s e m (.finite s (2 ^ 23 + m) (e - 150) h)

section Fields

variable (b : BitVec 32)

/-- The exponent is in the bits after the sign. -/
theorem toNat_unpackExponent : (@UnpackedFloat.unpackExponent Format.binary32 b).toNat = b.toNat / 2 ^ 23 % 2 ^ 8 := by
  simp [UnpackedFloat.unpackExponent, BitVec.extractLsb, BitVec.extractLsb', Nat.shiftRight_eq_div_pow]

/-- The mantissa is in the bits at the end. -/
theorem toNat_unpackMantissa : (@UnpackedFloat.unpackMantissa Format.binary32 b).toNat = b.toNat % 2 ^ 23 := by
  simp [UnpackedFloat.unpackMantissa, BitVec.extractLsb, BitVec.extractLsb']

/-- The sign is the bit in front of the magnitude. -/
theorem ofBitVec_unpackSign :
    Sign.ofBitVec (@UnpackedFloat.unpackSign Format.binary32 b) = signOf (decide (2 ^ 31 ≤ b.toNat)) := by
  have hlt := b.isLt
  have hbit : (@UnpackedFloat.unpackSign Format.binary32 b).toNat = b.toNat >>> 31 % 2 := rfl
  rw [Nat.shiftRight_eq_div_pow] at hbit
  rw [Sign.ofBitVec, signOf]
  by_cases h : 2 ^ 31 ≤ b.toNat
  · have hone : @UnpackedFloat.unpackSign Format.binary32 b ≠ 0#1 := by
      rw [Ne, ← BitVec.toNat_inj, hbit, BitVec.toNat_ofNat]
      omega
    rw [if_neg hone, decide_eq_true h, if_pos rfl]
  · have hzero : @UnpackedFloat.unpackSign Format.binary32 b = 0#1 := by
      rw [← BitVec.toNat_inj, hbit, BitVec.toNat_ofNat]
      omega
    rw [if_pos hzero, decide_eq_false h, if_neg Bool.false_ne_true]

/-- A significand with the leading digit that is implied. -/
theorem toNat_append_one (m : BitVec 23) : (1#1 ++ m).toNat = 2 ^ 23 + m.toNat := by
  rw [BitVec.toNat_append, ← Nat.shiftLeft_add_eq_or_of_lt m.isLt]
  rfl

/-- What a pattern is unpacked to is what its fields stand for. -/
theorem unpacked_unpack : Unpacked (signOf (decide (2 ^ 31 ≤ b.toNat))) (b.toNat / 2 ^ 23 % 2 ^ 8) (b.toNat % 2 ^ 23)
    (UnpackedFloat.unpack Format.binary32 b) := by
  have hexponent := toNat_unpackExponent b
  have hmantissa := toNat_unpackMantissa b
  rw [← ofBitVec_unpackSign, ← hexponent, ← hmantissa]
  -- unpacking chooses by the exponent and then by the mantissa, and each of the equations says which branch is taken
  by_cases hgreatest : @UnpackedFloat.unpackExponent Format.binary32 b = -1#8
  · have hfield : (@UnpackedFloat.unpackExponent Format.binary32 b).toNat = 255 := by rw [hgreatest]; rfl
    rw [hfield]
    by_cases hzero : @UnpackedFloat.unpackMantissa Format.binary32 b = 0#23
    · have hunpack : UnpackedFloat.unpack Format.binary32 b = .infinity _ := (if_pos hgreatest).trans (if_pos hzero)
      rw [hunpack, hzero]
      exact .infinity
    · have hunpack : UnpackedFloat.unpack Format.binary32 b = .notANumber := (if_pos hgreatest).trans (if_neg hzero)
      rw [hunpack]
      exact .notANumber (Nat.pos_of_ne_zero fun h => hzero (BitVec.eq_of_toNat_eq h))
  · by_cases hleast : @UnpackedFloat.unpackExponent Format.binary32 b = 0#8
    · have hfield : (@UnpackedFloat.unpackExponent Format.binary32 b).toNat = 0 := by rw [hleast]; rfl
      rw [hfield]
      by_cases hzero : @UnpackedFloat.unpackMantissa Format.binary32 b = 0#23
      · have hunpack : UnpackedFloat.unpack Format.binary32 b = .zero _ :=
          (if_neg hgreatest).trans ((if_pos hleast).trans (dif_pos hzero))
        rw [hunpack, hzero]
        exact .zero
      · have hunpack : ∃ h, UnpackedFloat.unpack Format.binary32 b = .finite _ (@UnpackedFloat.unpackMantissa Format.binary32 b).toNat
            ((@UnpackedFloat.unpackExponent Format.binary32 b).toNat - 150 + 1) h :=
          ⟨_, (if_neg hgreatest).trans ((if_pos hleast).trans (dif_neg hzero))⟩
        rw [hfield] at hunpack
        obtain ⟨hpos, hunpack⟩ := hunpack
        rw [hunpack]
        exact .least hpos
    · have hunpack : ∃ h, UnpackedFloat.unpack Format.binary32 b =
          .finite _ (1#1 ++ @UnpackedFloat.unpackMantissa Format.binary32 b).toNat
            ((@UnpackedFloat.unpackExponent Format.binary32 b).toNat - 150) h := ⟨_, (if_neg hgreatest).trans (if_neg hleast)⟩
      rw [toNat_append_one] at hunpack
      obtain ⟨hpos, hunpack⟩ := hunpack
      rw [hunpack]
      refine .greater hpos (Nat.pos_of_ne_zero fun h => hleast (BitVec.eq_of_toNat_eq h)) ?_
      have hne : (@UnpackedFloat.unpackExponent Format.binary32 b).toNat ≠ 255 := fun h => hgreatest (BitVec.eq_of_toNat_eq h)
      omega

/-- The magnitude of a pattern tells infinity from what is less, which is finite, and from what is more, which is no number. -/
theorem unpack_cases : let magnitude := b.toNat % 2 ^ 31
    let f := UnpackedFloat.unpack Format.binary32 b
    (magnitude < BinaryFormat.binary32.infinity ∧ f.isFinite = true ∧ f.isInf = false ∧ f.isNaN = false) ∨
    (magnitude = BinaryFormat.binary32.infinity ∧ f.isFinite = false ∧ f.isInf = true ∧ f.isNaN = false) ∨
    (BinaryFormat.binary32.infinity < magnitude ∧ f.isFinite = false ∧ f.isInf = false ∧ f.isNaN = true) := by
  dsimp only
  have hinfinity : BinaryFormat.binary32.infinity = 255 * 2 ^ 23 := by decide
  have hunpacked := unpacked_unpack b
  generalize he : b.toNat / 2 ^ 23 % 2 ^ 8 = e, hm : b.toNat % 2 ^ 23 = m, UnpackedFloat.unpack Format.binary32 b = f at hunpacked ⊢
  cases hunpacked with
  | infinity => exact .inr (.inl ⟨by omega, rfl, rfl, rfl⟩)
  | notANumber h => exact .inr (.inr ⟨by omega, rfl, rfl, rfl⟩)
  | zero | least _ | greater _ _ _ => exact .inl ⟨by omega, rfl, rfl, rfl⟩

/-- A magnitude with the least exponent counts the least unit. -/
theorem toRat_value_of_least (h : b.toNat / 2 ^ 23 % 2 ^ 8 = 0) :
    (BinaryFormat.binary32.value (b.toNat % 2 ^ 31)).toRat = (b.toNat % 2 ^ 23 : ℕ) * 2 ^ (-149 : ℤ) := by
  have hbinade : BinaryFormat.binary32.binade = 2 ^ 23 := by decide
  have hmagnitude : b.toNat % 2 ^ 31 = 0 * BinaryFormat.binary32.binade + b.toNat % 2 ^ 23 := by omega
  rw [hmagnitude, BinaryFormat.toRat_value (by omega) (.inl rfl)]
  rfl

/-- A magnitude with a greater exponent has a leading digit that is implied. -/
theorem toRat_value_of_greater (h : b.toNat / 2 ^ 23 % 2 ^ 8 ≠ 0) : (BinaryFormat.binary32.value (b.toNat % 2 ^ 31)).toRat =
    (2 ^ 23 + b.toNat % 2 ^ 23 : ℕ) * 2 ^ ((b.toNat / 2 ^ 23 % 2 ^ 8 : ℕ) - 150 : ℤ) := by
  have hbinade : BinaryFormat.binary32.binade = 2 ^ 23 := by decide
  have hleast : BinaryFormat.binary32.minExponent = -149 := by decide
  have hmagnitude : b.toNat % 2 ^ 31 =
      (b.toNat / 2 ^ 23 % 2 ^ 8 - 1) * BinaryFormat.binary32.binade + (2 ^ 23 + b.toNat % 2 ^ 23) := by
    rw [hbinade]
    omega
  rw [hmagnitude, BinaryFormat.toRat_value (by omega) (.inr (by omega)), hleast]
  congr 2
  omega

/-- What a pattern stands for is said by its sign and its magnitude. -/
theorem standsFor_unpack : StandsFor (UnpackedFloat.unpack Format.binary32 b) s v ↔
    s = signOf (decide (2 ^ 31 ≤ b.toNat)) ∧
      ((b.toNat % 2 ^ 31 < BinaryFormat.binary32.infinity ∧ v = (BinaryFormat.binary32.value (b.toNat % 2 ^ 31)).toRat) ∨
        (b.toNat % 2 ^ 31 = BinaryFormat.binary32.infinity ∧ 2 ^ 128 ≤ v)) := by
  have hinfinity : BinaryFormat.binary32.infinity = 255 * 2 ^ 23 := by decide
  have hunpacked := unpacked_unpack b
  have hleast := toRat_value_of_least b
  have hgreater := toRat_value_of_greater b
  generalize he : b.toNat / 2 ^ 23 % 2 ^ 8 = e, hm : b.toNat % 2 ^ 23 = m, UnpackedFloat.unpack Format.binary32 b = f
    at hunpacked hleast hgreater ⊢
  cases hunpacked with
  | infinity =>
    have hmagnitude : b.toNat % 2 ^ 31 = BinaryFormat.binary32.infinity := by omega
    rw [standsFor_infinity_iff, hmagnitude]
    simp only [lt_irrefl, false_and, false_or, true_and]
  | notANumber h =>
    have hmagnitude : BinaryFormat.binary32.infinity < b.toNat % 2 ^ 31 := by omega
    simp only [not_standsFor_notANumber, hmagnitude.not_gt, hmagnitude.ne', false_and, or_self, and_false]
  | zero =>
    have hmagnitude : b.toNat % 2 ^ 31 < BinaryFormat.binary32.infinity := by omega
    rw [standsFor_zero_iff, hleast rfl, Nat.cast_zero, zero_mul]
    simp only [hmagnitude, hmagnitude.ne, true_and, false_and, or_false]
  | least h =>
    have hmagnitude : b.toNat % 2 ^ 31 < BinaryFormat.binary32.infinity := by omega
    rw [standsFor_finite_iff, hleast rfl]
    simp only [hmagnitude, hmagnitude.ne, true_and, false_and, or_false]
  | greater h hpos hlt =>
    have hmagnitude : b.toNat % 2 ^ 31 < BinaryFormat.binary32.infinity := by omega
    rw [standsFor_finite_iff, hgreater hpos.ne']
    simp only [hmagnitude, hmagnitude.ne, true_and, false_and, or_false]

/-- A pattern is its sign, its exponent and its mantissa, one after the other. -/
theorem toNat_packComponents (sign : Sign) (e : BitVec 8) (m : BitVec 23) :
    (UnpackedFloat.packComponents Format.binary32 sign e m).toNat = (sign.toBitVec.toNat * 2 ^ 8 + e.toNat) * 2 ^ 23 + m.toNat := by
  rw [UnpackedFloat.packComponents, BitVec.toNat_append, BitVec.toNat_append, ← Nat.shiftLeft_add_eq_or_of_lt (BitVec.isLt _),
    ← Nat.shiftLeft_add_eq_or_of_lt (BitVec.isLt _), Nat.shiftLeft_eq, Nat.shiftLeft_eq]

/-- A finite float that is not too large is packed without its leading digit, or with the least exponent if it has none. -/
theorem pack_finite {m : ℕ} {e : ℤ} (h : 0 < m) (hlt : (e + 127 + 23).toNat < 255) :
    UnpackedFloat.pack Format.binary32 (.finite s m e h) = UnpackedFloat.packComponents Format.binary32 s
      (if m.log2 + 1 = 24 then .ofNat 8 (e + 127 + 23).toNat else 0#8) (.ofNat 23 m) := by
  have hsmall : ¬ 2 ^ 8 ≤ (e + 127 + 23).toNat + 1 := by omega
  have hpack : UnpackedFloat.pack Format.binary32 (.finite s m e h) = if m.log2 + 1 = 24
      then UnpackedFloat.packComponents Format.binary32 s (.ofNat 8 (e + 127 + 23).toNat) (.ofNat 23 m)
      else UnpackedFloat.packComponents Format.binary32 s 0#8 (.ofNat 23 m) := if_neg hsmall
  rw [hpack, apply_ite (UnpackedFloat.packComponents Format.binary32 s · (.ofNat 23 m))]

/-- What is unpacked of some fields is packed to these fields, unless it is no number. -/
theorem Unpacked.toNat_pack {e m : ℕ} {f : UnpackedFloat} (h : Unpacked s e m f) (hnumber : f.isNaN = false) (hm : m < 2 ^ 23) :
    (UnpackedFloat.pack Format.binary32 f).toNat = (s.toBitVec.toNat * 2 ^ 8 + e) * 2 ^ 23 + m := by
  cases h with
  | infinity => exact toNat_packComponents s 255#8 0#23
  | notANumber h => exact nomatch hnumber
  | zero => exact toNat_packComponents s 0#8 0#23
  | least h =>
    have hlog : m.log2 < 23 := by rwa [Nat.log2_lt h.ne']
    rw [pack_finite h (by decide), if_neg (by omega), toNat_packComponents, BitVec.toNat_ofNat, BitVec.toNat_ofNat,
      Nat.mod_eq_of_lt hm]
  | greater h hpos hlt =>
    have hlog : (2 ^ 23 + m).log2 = 23 := by
      rw [Nat.log2_eq_iff (by omega)]
      omega
    have hbiased : ((e : ℤ) - 150 + 127 + 23).toNat = e := by omega
    rw [pack_finite h (by omega), hlog, if_pos rfl, toNat_packComponents, BitVec.toNat_ofNat, BitVec.toNat_ofNat, hbiased]
    omega

/-- What is unpacked is packed as it was, unless it is no number. -/
theorem pack_unpack (h : (UnpackedFloat.unpack Format.binary32 b).isNaN = false) :
    UnpackedFloat.pack Format.binary32 (UnpackedFloat.unpack Format.binary32 b) = b := by
  have hlt := b.isLt
  have hpack := (unpacked_unpack b).toNat_pack h (Nat.mod_lt _ (by decide))
  have hsign : (signOf (decide (2 ^ 31 ≤ b.toNat))).toBitVec.toNat = b.toNat / 2 ^ 31 := by
    by_cases hbit : 2 ^ 31 ≤ b.toNat
    · rw [decide_eq_true hbit]
      change 1 = b.toNat / 2 ^ 31
      omega
    · rw [decide_eq_false hbit]
      change 0 = b.toNat / 2 ^ 31
      omega
  rw [hsign] at hpack
  apply BitVec.eq_of_toNat_eq
  rw [hpack]
  omega

end Fields

/-! ### The nearest float -/

/-- A float is known by its bits. -/
theorem toBits_injective : Function.Injective Float32.toBits := by
  rintro ⟨⟨b, hb⟩⟩ ⟨⟨b', hb'⟩⟩ h
  obtain rfl : b = b' := h
  rfl

/-- The float that is made of a sign and a magnitude is the one with this sign and this magnitude. -/
theorem float32OfBits_eq_iff {negative : Bool} {n : ℕ} (h : n ≤ BinaryFormat.binary32.infinity) {x : Float32} :
    float32OfBits negative n = x ↔
      signOf negative = signOf (decide (2 ^ 31 ≤ x.toBits.toBitVec.toNat)) ∧ x.toBits.toBitVec.toNat % 2 ^ 31 = n := by
  have hinfinity : BinaryFormat.binary32.infinity = 255 * 2 ^ 23 := by decide
  have hsign : BinaryFormat.binary32.signBit = 2 ^ 31 := by decide
  generalize hw : (if negative then BinaryFormat.binary32.signBit + n else n).toUInt32 = w
  have hbits : w.toBitVec.toNat = if negative then 2 ^ 31 + n else n := by
    rw [← hw, UInt32.toNat_toBitVec, Nat.toUInt32, UInt32.toNat_ofNat', hsign]
    split_ifs <;> omega
  have hnumber : (UnpackedFloat.unpack Format.binary32 w.toBitVec).isNaN = false := by
    rcases unpack_cases w.toBitVec with ⟨-, -, -, h⟩ | ⟨-, -, -, h⟩ | ⟨hlarge, -⟩
    · exact h
    · exact h
    · rw [hbits] at hlarge
      split_ifs at hlarge <;> omega
  have hpacked : (float32OfBits negative n).toBits = w := by
    rw [float32OfBits, hw]
    exact congrArg UInt32.ofBitVec (pack_unpack _ hnumber)
  rw [← toBits_injective.eq_iff, hpacked, ← UInt32.toBitVec_inj, ← BitVec.toNat_inj, hbits]
  have hlt := x.toBits.toBitVec.isLt
  generalize x.toBits.toBitVec.toNat = bits at hlt ⊢
  cases negative <;> simp [signOf] <;> omega

/-- A float stands for a rounded number exactly if it is made of the nearest pattern. -/
theorem standsFor_iff_of_single {negative : Bool} {q : Fraction} (hq : 0 < q.den) (hv : Single q.toRat v) {x : Float32} :
    StandsFor x.toModel.unpack (signOf negative) v ↔ float32OfBits negative (BinaryFormat.binary32.nearest q) = x := by
  have hproper := BinaryFormat.isProper_binary32
  have hcases := BinaryFormat.nearest_cases hproper hq hv
  have hle : BinaryFormat.binary32.nearest q ≤ BinaryFormat.binary32.infinity := by
    rcases hcases with ⟨-, hlt, -⟩ | ⟨-, heq⟩
    · exact hlt.le
    · exact heq.le
  rw [float32OfBits_eq_iff hle, Float32.Model.unpack, standsFor_unpack]
  refine and_congr_right fun _ => ?_
  rcases hcases with ⟨hsmall, hlt, rfl⟩ | ⟨hlarge, heq⟩
  · constructor
    · rintro (⟨-, hvalue⟩ | ⟨-, hlarge⟩)
      · exact (BinaryFormat.binary32.strictMono_value.injective hvalue).symm
      · exact absurd hsmall hlarge.not_gt
    · intro h
      refine .inl ⟨h ▸ hlt, ?_⟩
      rw [← h]
      rfl
  · rw [heq]
    constructor
    · rintro (⟨hlt, rfl⟩ | ⟨h, -⟩)
      · have hgreater := BinaryFormat.binary32.strictMono_value hlt
        dsimp only at hgreater
        rw [BinaryFormat.toRat_value_infinity hproper] at hgreater
        exact absurd hgreater hlarge.not_gt
      · exact h
    · intro h
      exact .inr ⟨h, hlarge⟩

/-- The float that is made of the nearest pattern is the nearest float. -/
theorem isNearest_iff {negative : Bool} {q : Fraction} (hq : 0 < q.den) {x : Float32} :
    IsNearest negative q.toRat x ↔ float32OfBits negative (BinaryFormat.binary32.nearest q) = x := by
  constructor
  · rintro ⟨v, hv, h⟩
    exact (standsFor_iff_of_single hq hv).1 h
  · intro h
    obtain ⟨v, hv⟩ := BinaryFormat.exists_roundsTo BinaryFormat.isProper_binary32 q.toRat_nonneg
    exact ⟨v, hv, (standsFor_iff_of_single hq hv).2 h⟩

/-- Every number that is not negative has a nearest float of either sign. -/
theorem exists_isNearest (negative : Bool) {q : ℚ} (hq : 0 ≤ q) : ∃ x, IsNearest negative q x := by
  obtain ⟨q, hden, rfl⟩ := Fraction.exists_toRat_eq hq
  exact ⟨_, (isNearest_iff hden).2 rfl⟩

/-! ### Finite, infinite and no number -/

/-- What stands for a magnitude is a number. -/
theorem StandsFor.isNaN {f : UnpackedFloat} {s : Sign} {v : ℚ} (h : StandsFor f s v) : f.isNaN = false := by
  cases h <;> rfl

/-- The nearest float is a number. -/
theorem IsNearest.isNaN {negative : Bool} {q : ℚ} {x : Float32} (h : IsNearest negative q x) : x.isNaN = false :=
  let ⟨_, _, hstands⟩ := h
  hstands.isNaN

/-- A float that is a number is finite or infinite. -/
theorem isFinite_of_isInf {x : Float32} (hnumber : x.isNaN = false) (hinf : x.isInf = false) : x.isFinite = true := by
  rcases unpack_cases x.toBits.toBitVec with ⟨-, hfinite, -⟩ | ⟨-, -, hinfinite, -⟩ | ⟨-, -, -, hnan⟩
  · exact hfinite
  · exact absurd (hinfinite.symm.trans hinf) Bool.true_eq_false.mp
  · exact absurd (hnan.symm.trans hnumber) Bool.true_eq_false.mp

end ExprLang.Number
