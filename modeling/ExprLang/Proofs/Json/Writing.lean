import ExprLang.Json.Document
import ExprLang.Proofs.Json.Grammar
import ExprLang.Proofs.Number.Decimal
import ExprLang.Proofs.Number.Patterns

/-!
# What is written is spelled

The text written of a string or an integer is a spelling of it: escapes stand for the characters that they were written for, and no
integer is written with a zero in front. A float that is infinite has no spelling that is written of it.
-/

namespace ExprLang.Json

open Document Number

/-! ### Strings -/

theorem isHexDigit_hexDigit (n : Nat) : IsHexDigit (hexDigit n) (n % 16) := by
  have hall : ∀ d < 16, lowerDigits[d]? = some d.digitChar := by decide
  exact .inl (hall _ (Nat.mod_lt n (by decide)))

/-- A control character is the number of its two digits. -/
theorem fourDigits_control {n : Nat} (h : n < 0x20) : ['0', '0', hexDigit (n / 16), hexDigit n] ∈ fourDigits n := by
  have hdigits := FourDigits.mk (.inl (by decide : lowerDigits[0]? = some '0')) (.inl (by decide : lowerDigits[0]? = some '0'))
    (isHexDigit_hexDigit (n / 16)) (isHexDigit_hexDigit n)
  rwa [show 16 * (16 * (16 * 0 + 0) + n / 16 % 16) + n % 16 = n by omega] at hdigits

/-- A character as it is written is one of its spellings. -/
theorem escapedChar_mem_character (c : Char) : escapedChar c ∈ character c := by
  rw [escapedChar]
  split_ifs with hquote hslash hb ht hn hf hr hcontrol
  · exact .escape (by rw [hquote]; decide)
  · exact .escape (by rw [hslash]; decide)
  · exact .escape (by rw [hb]; decide)
  · exact .escape (by rw [ht]; decide)
  · exact .escape (by rw [hn]; decide)
  · exact .escape (by rw [hf]; decide)
  · exact .escape (by rw [hr]; decide)
  · exact .code ⟨['\\'], rfl, _, ⟨['u'], rfl, _, fourDigits_control hcontrol, rfl⟩, rfl⟩
  · exact .plain ⟨hquote, hslash, by omega⟩

/-- Pieces that are spelled one by one are spelled together. -/
theorem flatMap_mem_prod {α : Type} {write : α → List Char} {spell : α → Language Char} (h : ∀ a, write a ∈ spell a) :
    ∀ as : List α, as.flatMap write ∈ (as.map spell).prod
  | [] => rfl
  | a :: as => by
    rw [List.flatMap_cons, List.map_cons, List.prod_cons]
    exact Language.append_mem_mul (h a) (flatMap_mem_prod h as)

/-- Every string survives, whatever its characters. -/
theorem stringChars_mem_quoted (s : String) : stringChars s ∈ quoted s :=
  ⟨['"'], rfl, _, Language.append_mem_mul (flatMap_mem_prod escapedChar_mem_character s.toList) rfl, rfl⟩

/-! ### Integers -/

/-- The digits of a number. -/
def decimalDigits (n : Nat) : List Nat := (Nat.toDigits 10 n).map fun c => c.toNat - '0'.toNat

/-- The digits of a number make the number. -/
theorem ofDigits_decimalDigits (n : Nat) : ofDigits (decimalDigits n) = n := by
  rw [ofDigits, decimalDigits, List.foldl_map, ← Nat.ofDigitChars_eq_foldl, Nat.ofDigitChars_ten_toDigits]

/-- Only zero is written with a zero in front. -/
theorem head?_toDigits (n : Nat) (h : n ≠ 0) : (Nat.toDigits 10 n).head? ≠ some '0' := by
  have hdigit : ∀ d < 10, d ≠ 0 → d.digitChar ≠ '0' := by decide
  induction n using Nat.strong_induction_on with
  | _ n ih =>
    rw [Nat.toDigits_eq_if (by decide)]
    split_ifs with hn
    · simpa using hdigit n hn h
    · rw [List.head?_append_of_ne_nil _ Nat.toDigits_ne_nil]
      exact ih (n / 10) (by omega) (by omega)

theorem toDigits_mem_wholeDigits (n : Nat) : Nat.toDigits 10 n ∈ wholeDigits (decimalDigits n) := by
  refine ⟨⟨Nat.toDigits_ne_nil, fun c hc => Nat.isDigit_of_mem_toDigits (by decide) (by decide) hc, rfl⟩, fun hzero => ?_⟩
  by_cases hn : n = 0
  · rw [hn, Nat.toDigits_zero]
  · exact absurd hzero (head?_toDigits n hn)

/-- The digits of an integer after its sign. -/
theorem toDigits_mem_literal (negative : Bool) (n : Nat) : (if negative then ['-'] else []) ++ Nat.toDigits 10 n ∈
    literal ⟨negative, decimalDigits n, none, none⟩ := by
  have hunsigned : Nat.toDigits 10 n ∈ unsigned ⟨negative, decimalDigits n, none, none⟩ := by
    rw [unsigned, fraction, exponent, mul_one, mul_one]
    exact toDigits_mem_wholeDigits n
  cases negative with
  | true => exact Language.append_mem_mul rfl hunsigned
  | false => exact Language.append_mem_mul rfl hunsigned

/-- An integer as it is written is one of its spellings. -/
theorem toString_mem_integer (v : Int32) : (toString v.toInt).toList ∈ integer v := by
  cases hv : v.toInt with
  | ofNat n =>
    refine ⟨false, decimalDigits n, ?_, ?_, nofun⟩
    · rw [toList_toString_ofNat]
      exact toDigits_mem_literal false n
    · rw [hv, ofDigits_decimalDigits, if_neg Bool.false_ne_true]
      rfl
  | negSucc n =>
    refine ⟨true, decimalDigits (n + 1), ?_, ?_, fun _ => ?_⟩
    · rw [toList_toString_negSucc]
      exact toDigits_mem_literal true (n + 1)
    · rw [hv, ofDigits_decimalDigits, if_pos rfl]
      rfl
    · rw [ofDigits_decimalDigits]
      exact Nat.succ_ne_zero n

/-! ### Floats -/

/-- A float that some number stands for is a number. -/
theorem isNaN_of_mem_float {x : Float32} {s : List Char} (h : s ∈ float x) : x.isNaN = false := by
  obtain ⟨l, q, -, -, hx⟩ := h
  exact hx.isNaN

/-- An infinite float has no digits and is written as nothing. -/
theorem floatChars_of_isInf {x : Float32} (h : x.isInf = true) : floatChars x = ['n', 'u', 'l', 'l'] := by
  have hlarge : ¬ x.toBits.toNat % BinaryFormat.binary32.signBit < BinaryFormat.binary32.infinity := by
    rcases unpack_cases x.toBits.toBitVec with ⟨-, -, hfinite, -⟩ | ⟨hinfinite, -⟩ | ⟨hlt, -⟩
    · exact absurd (h.symm.trans hfinite) Bool.true_eq_false.mp
    · exact Nat.not_lt.2 (Nat.le_of_eq hinfinite.symm)
    · exact Nat.not_lt.2 (Nat.le_of_lt hlt)
  exact if_neg hlarge

end ExprLang.Json
