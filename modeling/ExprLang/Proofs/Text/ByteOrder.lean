import Mathlib.Algebra.Group.Nat.Defs
import Mathlib.Tactic.SplitIfs

/-!
# The order of texts and the order of their bytes

Texts are in the order of their characters. Encoded in UTF-8 they are in the same order as lists of bytes (`bytes_lt_bytes`): of two
characters the smaller one has the smaller encoding, and the encodings differ in a byte that both have, so nothing behind them counts.
-/

namespace ExprLang.Text

/-- The bytes of a text in UTF-8. -/
def bytes (s : String) : List UInt8 := s.toUTF8.data.toList

theorem bytes_eq (s : String) : bytes s = s.toList.flatMap String.utf8EncodeChar := by
  rw [bytes, String.toUTF8_eq_toByteArray, ← String.utf8Encode_toList, List.utf8Encode, List.data_toByteArray]

/-! ## The parts of an encoding -/

/-- The last `k` bytes in the encoding of the character with the number `v`, with six bits each. -/
def continuation : (k v : Nat) → List UInt8
  | 0, _ => []
  | k + 1, v => UInt8.ofNat (v / 64 ^ k % 64 + 128) :: continuation k v

/-- How many bytes follow the first one. -/
def following (v : Nat) : Nat := if v ≤ 127 then 0 else if v ≤ 2047 then 1 else if v ≤ 65535 then 2 else 3

/-- The first byte. -/
def leading (v : Nat) : Nat :=
  if v ≤ 127 then v else if v ≤ 2047 then v / 64 % 32 + 192 else if v ≤ 65535 then v / 4096 % 16 + 224 else v / 262144 % 8 + 240

theorem utf8EncodeChar_eq (c : Char) :
    String.utf8EncodeChar c = UInt8.ofNat (leading c.val.toNat) :: continuation (following c.val.toNat) c.val.toNat := by
  simp only [String.utf8EncodeChar, leading, following]
  split_ifs <;> simp [continuation]

theorem leading_lt (v : Nat) : leading v < 256 := by
  unfold leading
  split_ifs <;> omega

/-- Of the smaller number the first byte is smaller, or it is the same and the rest is smaller. -/
theorem leading_lt_or {v w : Nat} (h : v < w) (hw : w < 1114112) :
    leading v < leading w ∨
      leading v = leading w ∧ following v = following w ∧ v % 64 ^ following v < w % 64 ^ following v := by
  unfold leading following
  split_ifs <;> omega

/-! ## Comparing -/

/-- Bytes compare like the numbers that they are made of. -/
theorem cons_lt_cons {a b : Nat} {s t : List UInt8} (ha : a < 256) (hb : b < 256) (h : a < b ∨ a = b ∧ s < t) :
    UInt8.ofNat a :: s < UInt8.ofNat b :: t := by
  rw [List.cons_lt_cons_iff, UInt8.lt_iff_toNat_lt, UInt8.toNat_ofNat_of_lt' ha, UInt8.toNat_ofNat_of_lt' hb]
  exact h.imp_right fun ⟨heq, hlt⟩ => ⟨congrArg _ heq, hlt⟩

/-- In a remainder by a power the first digit decides, unless it is the same. -/
theorem digit_lt_or {k v w : Nat} (h : v % 64 ^ (k + 1) < w % 64 ^ (k + 1)) :
    v / 64 ^ k % 64 < w / 64 ^ k % 64 ∨ v / 64 ^ k % 64 = w / 64 ^ k % 64 ∧ v % 64 ^ k < w % 64 ^ k := by
  rw [Nat.mod_pow_succ, Nat.mod_pow_succ] at h
  rcases Nat.lt_trichotomy (v / 64 ^ k % 64) (w / 64 ^ k % 64) with hlt | heq | hgt
  · exact .inl hlt
  · rw [heq] at h
    exact .inr ⟨heq, Nat.lt_of_add_lt_add_right h⟩
  · have hw : w % 64 ^ k < 64 ^ k := Nat.mod_lt _ (Nat.pow_pos (by decide))
    have hmul := Nat.mul_le_mul_left (64 ^ k) hgt
    rw [Nat.mul_succ] at hmul
    omega

theorem continuation_append_lt {k v w : Nat} (h : v % 64 ^ k < w % 64 ^ k) (s t : List UInt8) :
    continuation k v ++ s < continuation k w ++ t := by
  induction k with
  | zero => simp [Nat.mod_one] at h
  | succ k ih =>
    refine cons_lt_cons (by omega) (by omega) ?_
    exact (digit_lt_or h).imp (Nat.add_lt_add_right · 128) fun ⟨heq, hlt⟩ => ⟨congrArg (· + 128) heq, ih hlt⟩

theorem toNat_lt (c : Char) : c.val.toNat < 1114112 := by
  rcases c.valid with h | ⟨-, h⟩
  · exact Nat.lt_trans h (by decide)
  · exact h

/-- The encoding of the smaller character is smaller, whatever stands behind. -/
theorem utf8EncodeChar_append_lt {c d : Char} (h : c < d) (s t : List UInt8) :
    String.utf8EncodeChar c ++ s < String.utf8EncodeChar d ++ t := by
  have hlt : c.val.toNat < d.val.toNat := UInt32.lt_iff_toNat_lt.1 (Char.lt_def.1 h)
  rw [utf8EncodeChar_eq, utf8EncodeChar_eq, List.cons_append, List.cons_append]
  refine cons_lt_cons (leading_lt _) (leading_lt _) ?_
  refine (leading_lt_or hlt (toNat_lt d)).imp_right fun ⟨hleading, hfollowing, hrest⟩ => ⟨hleading, ?_⟩
  rw [← hfollowing]
  exact continuation_append_lt hrest s t

/-- Texts are in the order of their bytes. -/
theorem bytes_lt_bytes {s t : String} (h : s < t) : bytes s < bytes t := by
  rw [bytes_eq, bytes_eq]
  have hlex : List.Lex (· < ·) s.toList t.toList := h
  generalize s.toList = cs at hlex
  generalize t.toList = ds at hlex
  induction hlex with
  | nil =>
    rw [List.flatMap_nil, List.flatMap_cons, utf8EncodeChar_eq]
    exact List.nil_lt_cons _ _
  | cons _ ih => exact List.append_left_lt ih
  | rel hlt => exact utf8EncodeChar_append_lt hlt _ _

end ExprLang.Text
