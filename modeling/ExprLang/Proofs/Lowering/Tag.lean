import Mathlib.Algebra.Group.Int.Defs
import ExprLang.Lowering.Lower
import ExprLang.Proofs.Code.Machine
import ExprLang.Value.Operations

/-!
# Tagged integers

An integer is tagged by multiplying it by four, which loses its two highest bits. Nothing of this is noticed by sums, differences and
products, since what they lose is lost of the result too (`exists_opcode_result?`). Quotients and comparisons need operands of which
nothing is lost, the integers that fit (`Fits`), and quotients need the tag to be dropped with the sign kept.
-/

namespace ExprLang

open Code

/-- Nothing is lost when an integer is tagged. -/
def Fits (n : Int32) : Prop := -2 ^ 29 ≤ n.toInt ∧ n.toInt < 2 ^ 29

instance (n : Int32) : Decidable (Fits n) := inferInstanceAs (Decidable (_ ∧ _))

/-- An integer is tagged by multiplying it by four. -/
theorem tagInteger_eq_mul (n : Int32) : tagInteger n = n * 4 := by
  have hshift : (n <<< (2 : Int32)).toBitVec = n.toBitVec <<< (2 : Nat) := by
    rw [Int32.toBitVec_shiftLeft]
    rfl
  apply Int32.toBitVec_inj.1
  refine hshift.trans ?_
  rw [BitVec.shiftLeft_eq_mul_twoPow, Int32.toBitVec_mul]
  rfl

/-- A tagged integer is a multiple of four as a signed number. -/
theorem toInt_tagInteger_emod (n : Int32) : (tagInteger n).toInt % 4 = 0 := by
  have hmod : Int.bmod (n.toInt * 4) 4294967296 % 4294967296 = n.toInt * 4 % 4294967296 := Int.bmod_emod
  rw [tagInteger_eq_mul, Int32.toInt_mul]
  show Int.bmod (n.toInt * 4) 4294967296 % 4 = 0
  omega

/-- A tagged integer is a multiple of four as an unsigned number. -/
theorem toNat_tagInteger_mod (n : Int32) : (tagInteger n).toUInt32.toNat % 4 = 0 := by
  have hmul : (tagInteger n).toUInt32 = n.toUInt32 * 4 := by rw [tagInteger_eq_mul]; rfl
  rw [hmul, UInt32.toNat_mul]
  show n.toUInt32.toNat * 4 % 4294967296 % 4 = 0
  omega

/-- An integer that fits is tagged as it is in the integers. -/
theorem toInt_tagInteger {n : Int32} (h : Fits n) : (tagInteger n).toInt = n.toInt * 4 := by
  obtain ⟨hlow, hhigh⟩ := h
  rw [tagInteger_eq_mul, Int32.toInt_mul]
  show Int.bmod (n.toInt * 4) 4294967296 = _
  rw [Int.bmod_eq_of_le] <;> omega

/-! ## Dropping tags -/

/-- A signed shift to the right by two divides by four. -/
theorem toInt_shiftRight (n : Int32) : (n >>> (2 : Int32)).toInt = n.toInt / 4 := by
  have hshift : (n >>> (2 : Int32)).toBitVec = n.toBitVec.sshiftRight 2 := by
    rw [Int32.toBitVec_shiftRight]
    rfl
  show (n >>> (2 : Int32)).toBitVec.toInt = n.toBitVec.toInt / 4
  rw [hshift, BitVec.toInt_sshiftRight]
  exact Int.shiftRight_eq_div_pow _ 2

/-- A logical shift to the right by two divides by four. -/
theorem toNat_shiftRight (n : UInt32) : (n >>> 2).toNat = n.toNat / 4 := by
  rw [UInt32.toNat_shiftRight]
  exact Nat.shiftRight_eq_div_pow _ 2

/-- A multiple of four is divided by four, signed, without a remainder. -/
theorem shiftRight_mul_four {n : Int32} (h : n.toInt % 4 = 0) : n >>> (2 : Int32) * 4 = n := by
  apply Int32.toInt_inj.1
  rw [Int32.toInt_mul, toInt_shiftRight]
  show Int.bmod (n.toInt / 4 * 4) 4294967296 = _
  rw [Int.ediv_mul_cancel (by omega)]
  exact Int32.toInt_bmod n

/-- A multiple of four is divided by four, unsigned, without a remainder. -/
theorem unsignedShiftRight_mul_four {n : UInt32} (h : n.toNat % 4 = 0) : n >>> 2 * 4 = n := by
  apply UInt32.toNat_inj.1
  rw [UInt32.toNat_mul, toNat_shiftRight]
  show n.toNat / 4 * 4 % 4294967296 = _
  rw [Nat.div_mul_cancel (by omega)]
  exact Nat.mod_eq_of_lt n.toNat_lt

/-- The shift with which tags are dropped. -/
def Signedness.untagging : Signedness → Shift
  | .signed => .signed
  | .unsigned => .logical

/-- What may be left of an integer after its tag was dropped: its tagged form is the same, and it is the integer itself if nothing
was lost and the sign was kept. -/
structure Untags (mode : Signedness) (n n' : Int32) : Prop where
  /-- The tagged form is the same. -/
  tagged : tagInteger n' = tagInteger n
  /-- An integer of which nothing was lost is restored. -/
  restored : mode = .signed → Fits n → n' = n

/-- Shifting to the right drops the tag. -/
theorem exists_untags (mode : Signedness) (n : Int32) :
    ∃ n', mode.untagging.result? (tagInteger n) tagBits = some n' ∧ Untags mode n n' := by
  cases mode with
  | signed =>
    refine ⟨tagInteger n >>> (2 : Int32), rfl, ?_, fun _ hfits => ?_⟩
    · rw [tagInteger_eq_mul (_ >>> _)]
      exact shiftRight_mul_four (toInt_tagInteger_emod n)
    · apply Int32.toInt_inj.1
      rw [toInt_shiftRight, toInt_tagInteger hfits]
      omega
  | unsigned =>
    refine ⟨((tagInteger n).toUInt32 >>> 2).toInt32, rfl, ?_, fun h => nomatch h⟩
    rw [tagInteger_eq_mul (UInt32.toInt32 _)]
    exact congrArg UInt32.toInt32 (unsignedShiftRight_mul_four (toNat_tagInteger_mod n))

/-- The tag is put back by shifting to the left. -/
theorem result?_left (n : Int32) : Shift.result? .left n tagBits = some (tagInteger n) := rfl

/-! ## Computing and comparing -/

/-- The result of an operator on integers, if it has one; a quotient has one only if both operands fit. -/
def Arithmetic.compute? (op : Arithmetic) (a b : Int32) : Option Int32 :=
  if op = .div ∧ ¬(Fits a ∧ Fits b) then none else (op.onIntegers a b).toOption

/-- What an operator computes is its result, if the operands of a quotient fit. -/
theorem compute?_of_ok {op : Arithmetic} {a b n : Int32} (hdiv : op = .div → Fits a ∧ Fits b) (h : op.onIntegers a b = .ok n) :
    op.compute? a b = some n := by
  unfold Arithmetic.compute?
  rw [if_neg fun hne => hne.2 (hdiv hne.1), h]
  rfl

/-- Tagged integers are added as they are. -/
theorem tagInteger_add (a b : Int32) : tagInteger (a + b) = tagInteger a + tagInteger b := by
  simp only [tagInteger_eq_mul]
  grind

/-- The quotient of integers that fit is one for the machine. -/
theorem sdiv_result? {a b : Int32} (ha : Fits a) (hb : b ≠ 0) : BinaryOp.sdiv.result? a b = some (a / b) := by
  refine if_neg fun h => h.elim hb fun h => ?_
  obtain ⟨rfl, -⟩ := h
  revert ha
  decide

/-- What other operators compute without tags has the tagged form of what they compute. -/
theorem exists_opcode_result? {mode : Signedness} {op : Arithmetic} (hop : op ≠ .add) (hdiv : op = .div → mode = .signed)
    {a b a' b' n : Int32} (ha : Untags mode a a') (hb : Untags mode b b') (h : op.compute? a b = some n) :
    ∃ n', (Lowering.arithmetic.opcode mode op).result? a' b' = some n' ∧ tagInteger n' = tagInteger n := by
  have hta := ha.tagged
  have htb := hb.tagged
  rw [tagInteger_eq_mul, tagInteger_eq_mul] at hta htb
  cases op with
  | add => exact absurd rfl hop
  | sub =>
    cases h
    refine ⟨_, rfl, ?_⟩
    rw [tagInteger_eq_mul, tagInteger_eq_mul]
    grind
  | mul =>
    cases h
    refine ⟨_, rfl, ?_⟩
    rw [tagInteger_eq_mul, tagInteger_eq_mul]
    grind
  | div =>
    obtain rfl := hdiv rfl
    unfold Arithmetic.compute? at h
    split at h
    · cases h
    rename_i hfits
    -- a quotient has a result only if the tags of both operands can be dropped
    obtain ⟨hfa, hfb⟩ : Fits a ∧ Fits b := by
      by_contra hne
      exact hfits ⟨rfl, hne⟩
    obtain rfl := ha.restored rfl hfa
    obtain rfl := hb.restored rfl hfb
    by_cases hzero : b' = 0
    · subst hzero
      cases h
    · have hquotient : Arithmetic.div.onIntegers a' b' = .ok (a' / b') := if_neg hzero
      rw [hquotient] at h
      cases h
      exact ⟨_, sdiv_result? hfa hzero, rfl⟩

/-- How integers compare, said by their order. -/
theorem holds_compareIntegers (op : Comparison) (a b : Int32) :
    op.holds (compareIntegers a b) = (Lowering.predicate op).holds a b := by
  have hlt : a < b ↔ a.toInt < b.toInt := Int32.lt_iff_toInt_lt
  have hgt : b < a ↔ b.toInt < a.toInt := Int32.lt_iff_toInt_lt
  have hle : a ≤ b ↔ a.toInt ≤ b.toInt := Int32.le_iff_toInt_le
  have hge : b ≤ a ↔ b.toInt ≤ a.toInt := Int32.le_iff_toInt_le
  have heq : a = b ↔ a.toInt = b.toInt := Int32.toInt_inj.symm
  unfold compareIntegers
  cases op <;> simp only [Comparison.holds, Lowering.predicate, Predicate.holds, Bool.beq_eq_decide_eq, hlt, hgt, hle, hge, heq]
    <;> grind

/-- Integers that fit compare like their tagged forms. -/
theorem holds_tagInteger (p : Predicate) {a b : Int32} (ha : Fits a) (hb : Fits b) :
    p.holds (tagInteger a) (tagInteger b) = p.holds a b := by
  have hta := toInt_tagInteger ha
  have htb := toInt_tagInteger hb
  have heq : tagInteger a = tagInteger b ↔ a = b := by
    rw [← Int32.toInt_inj, ← Int32.toInt_inj]
    omega
  cases p <;> simp only [Predicate.holds, Bool.beq_eq_decide_eq, decide_eq_decide, heq, Int32.lt_iff_toInt_lt,
    Int32.le_iff_toInt_le] <;> omega

/-- No integer has the tagged form of a truth value, since those are odd. -/
theorem tagInteger_ne_tagBoolean (n : Int32) (b : Bool) : tagInteger n ≠ tagBoolean b := by
  intro h
  have hmultiple := toInt_tagInteger_emod n
  rw [h] at hmultiple
  cases b <;> cases hmultiple

/-- The tagged forms of truth values differ. -/
theorem tagBoolean_beq_true (b : Bool) : (tagBoolean b == tagBoolean true) = b := by
  cases b <;> rfl

end ExprLang
