import ExprLang.Proofs.Json.Grammar

/-!
# Strings are scanned by their grammar

`scanString` reads a string off the front of a text exactly when a spelling of it stands there, and `skipString` passes over exactly
what its grammar says. Both go through the text one character of the string at a time; a step lemma says what one such character is.
-/

namespace ExprLang.Json

variable {s mid rest : List Char} {c d : Char} {n : Nat}

/-- A word is scanned where it stands. -/
theorem scanWord_iff {u : Unit} : ∀ {w s : List Char}, scanWord w s = .ok (u, rest) ↔ s = w ++ rest
  | [], s => by simp [scanWord]
  | _ :: _, [] => by simp [scanWord]
  | c :: w, d :: s => by
    rw [scanWord]
    split
    · next h => rw [scanWord_iff, h, List.cons_append, List.cons.injEq, and_iff_right rfl]
    · next h => exact ⟨fun h' => (nomatch h'), fun h' => absurd (List.cons.inj h').1.symm h⟩

/-! ### Escapes -/

/-- The table of letters after a backslash is the one the grammar names. -/
theorem escaped?_eq_some : escaped? c = some d ↔ (c, d) ∈ escapes := by
  simp only [escaped?, escapes, List.mem_cons, Prod.mk.injEq, List.not_mem_nil, or_false]
  split_ifs <;> simp_all <;> grind

/-- Letters in their order stand next to each other among the digits. -/
theorem getElem?_of_range {digits : List Char} {first : Nat} (offset count : Nat)
    (hdigits : ∀ i < count, digits[i + offset]? = some (Char.ofNat (first + i))) (hl : first ≤ c.toNat) (hu : c.toNat < first + count) :
    digits[c.toNat - first + offset]? = some c := by
  rw [hdigits (c.toNat - first) (by omega), Nat.add_sub_of_le hl, Char.ofNat_toNat]

/-- What the reader takes for a digit to the base sixteen is one. -/
theorem isHexDigit_of_hexValue? (h : hexValue? c = some n) : IsHexDigit c n := by
  have le_iff (a b : Char) : a ≤ b ↔ a.toNat ≤ b.toNat := Iff.rfl
  simp only [hexValue?, le_iff, Char.reduceToNat] at h
  split_ifs at h with hdecimal hlower hupper
  · obtain rfl := Option.some.inj h
    exact .inl (getElem?_of_range 0 10 (by decide) hdecimal.1 (by omega))
  · obtain rfl := Option.some.inj h
    exact .inl (getElem?_of_range 10 6 (by decide) hlower.1 (by omega))
  · obtain rfl := Option.some.inj h
    exact .inr (getElem?_of_range 10 6 (by decide) hupper.1 (by omega))

/-- A digit to the base sixteen is less than sixteen. -/
theorem IsHexDigit.lt (h : IsHexDigit c n) : n < 16 := by
  rcases h with h | h
  · exact (List.getElem?_eq_some_iff.1 h).1
  · exact (List.getElem?_eq_some_iff.1 h).1

/-- A digit is one of those listed. -/
theorem hexValue?_eq_some : hexValue? c = some n ↔ IsHexDigit c n := by
  refine ⟨isHexDigit_of_hexValue?, fun h => ?_⟩
  have hlower : ∀ n < 16, lowerDigits[n]?.bind hexValue? = some n := by decide
  have hupper : ∀ n < 16, upperDigits[n]?.bind hexValue? = some n := by decide
  have hn := h.lt
  rcases h with h | h
  · simpa only [h, Option.bind_some] using hlower n hn
  · simpa only [h, Option.bind_some] using hupper n hn

/-- Four digits, one by one. -/
theorem starts_fourDigits : Starts (fourDigits n) s rest ↔ ∃ c₃ d₃ c₂ d₂ c₁ d₁ c₀ d₀, s = c₃ :: c₂ :: c₁ :: c₀ :: rest ∧
    IsHexDigit c₃ d₃ ∧ IsHexDigit c₂ d₂ ∧ IsHexDigit c₁ d₁ ∧ IsHexDigit c₀ d₀ ∧
      n = 16 * (16 * (16 * d₃ + d₂) + d₁) + d₀ := by
  constructor
  · rintro ⟨_, ⟨h₃, h₂, h₁, h₀⟩, rfl⟩
    exact ⟨_, _, _, _, _, _, _, _, rfl, h₃, h₂, h₁, h₀, rfl⟩
  · rintro ⟨_, _, _, _, _, _, _, _, rfl, h₃, h₂, h₁, h₀, rfl⟩
    exact ⟨_, .mk h₃ h₂ h₁ h₀, rfl⟩

/-- A code is a backslash, the letter u and four digits. -/
theorem starts_code : Starts (code n) s rest ↔ ∃ s', s = '\\' :: 'u' :: s' ∧ Starts (fourDigits n) s' rest := by
  simp only [code, starts_cons_mul]
  constructor
  · rintro ⟨_, rfl, s', rfl, h⟩
    exact ⟨s', rfl, h⟩
  · rintro ⟨s', rfl, h⟩
    exact ⟨_, rfl, s', rfl, h⟩

/-- Digits of a code take at least four bytes. -/
theorem hasFourBytes_of_starts (h : Starts (fourDigits n) s rest) : hasFourBytes s := by
  obtain ⟨_, _, _, _, _, _, _, _, rfl, -⟩ := starts_fourDigits.1 h
  rfl

/-- A code of four digits is below the codes of surrogate pairs. -/
theorem lt_of_starts_fourDigits (h : Starts (fourDigits n) s rest) : n < 0x10000 := by
  obtain ⟨_, _, _, _, _, _, _, _, -, h₃, h₂, h₁, h₀, rfl⟩ := starts_fourDigits.1 h
  have := h₃.lt
  have := h₂.lt
  have := h₁.lt
  have := h₀.lt
  omega

/-! ### Strings that are read -/

section Scan

variable {read : List Char} {high : Option Nat} {x : String × List Char}

/-- What the scanner does after the last digit of a code. -/
def afterCode (high : Option Nat) (read : List Char) (n : Nat) (s : List Char) : Scanned String :=
  match high with
  | none =>
    if isLowSurrogate n then .error .malformed
    else if isHighSurrogate n then scanString (.pair n) read s
    else scanString .plain (Char.ofNat n :: read) s
  | some high => if isLowSurrogate n then scanString .plain (ofSurrogates high n :: read) s else .error .malformed

/-- While digits of a code are missing, the next character is one. -/
theorem scanString_code_succ_iff {k value : Nat} : scanString (.code (k + 1) value high) read s = .ok x ↔
    ∃ c d s', s = c :: s' ∧ IsHexDigit c d ∧ scanString (.code k (16 * value + d) high) read s' = .ok x := by
  simp only [← hexValue?_eq_some]
  cases s with
  | nil => simp [scanString]
  | cons c s => cases h : hexValue? c <;> simp [scanString, h]

/-- After the last digit of a code its number decides how to go on. -/
theorem scanString_code_zero_iff {value : Nat} : scanString (.code 0 value high) read s = .ok x ↔
    ∃ c d s', s = c :: s' ∧ IsHexDigit c d ∧ afterCode high read (16 * value + d) s' = .ok x := by
  simp only [← hexValue?_eq_some]
  cases s with
  | nil => simp [scanString]
  | cons c s => cases high <;> cases h : hexValue? c <;> simp [scanString, afterCode, h]

/-- The digits of a code are read as the number that they make. -/
theorem scanString_code_iff : scanString (.code 3 0 high) read s = .ok x ↔
    ∃ n mid, Starts (fourDigits n) s mid ∧ afterCode high read n mid = .ok x := by
  simp only [scanString_code_succ_iff, scanString_code_zero_iff, starts_fourDigits]
  constructor
  · rintro ⟨_, _, _, rfl, h₃, _, _, _, rfl, h₂, _, _, _, rfl, h₁, _, _, _, rfl, h₀, h⟩
    exact ⟨_, _, ⟨_, _, _, _, _, _, _, _, rfl, h₃, h₂, h₁, h₀, rfl⟩, by simpa using h⟩
  · rintro ⟨_, _, ⟨_, _, _, _, _, _, _, _, rfl, h₃, h₂, h₁, h₀, rfl⟩, h⟩
    exact ⟨_, _, _, rfl, h₃, _, _, _, rfl, h₂, _, _, _, rfl, h₁, _, _, _, rfl, h₀, by simpa using h⟩

/-- After the first half of a surrogate pair another code has to follow. -/
theorem scanString_pair_iff {high : Nat} : scanString (.pair high) read s = .ok x ↔
    ∃ n mid, Starts (code n) s mid ∧ afterCode (some high) read n mid = .ok x := by
  constructor
  · intro h
    match s with
    | [] => simp [scanString] at h
    | [c] =>
      rw [scanString] at h
      split_ifs at h
      simp [scanString] at h
    | c :: d :: s =>
      rw [scanString] at h
      split_ifs at h with hc
      rw [scanString] at h
      split_ifs at h with hd hs
      obtain ⟨n, mid, hn, h⟩ := scanString_code_iff.1 h
      exact ⟨n, mid, starts_code.2 ⟨s, by rw [hc, not_not.1 hd], hn⟩, h⟩
  · rintro ⟨n, mid, hn, h⟩
    obtain ⟨s, rfl, hd⟩ := starts_code.1 hn
    rw [scanString, if_pos rfl, scanString, if_neg (not_not.2 rfl), if_pos (hasFourBytes_of_starts hd)]
    exact scanString_code_iff.2 ⟨n, mid, hd, h⟩

/-- After a backslash stands a letter of the table or the digits of a code. -/
theorem scanString_escape_iff : scanString .escape read s = .ok x ↔
    (∃ letter c s', s = letter :: s' ∧ (letter, c) ∈ escapes ∧ scanString .plain (c :: read) s' = .ok x) ∨
      ∃ s' n mid, s = 'u' :: s' ∧ Starts (fourDigits n) s' mid ∧ afterCode none read n mid = .ok x := by
  constructor
  · intro h
    cases s with
    | nil => simp [scanString] at h
    | cons c s =>
      rw [scanString] at h
      split at h
      · next d hd => exact .inl ⟨c, d, s, rfl, escaped?_eq_some.1 hd, h⟩
      · split_ifs at h with hc hs
        obtain ⟨n, mid, hn, h⟩ := scanString_code_iff.1 h
        exact .inr ⟨s, n, mid, by rw [not_not.1 hc], hn, h⟩
  · rintro (⟨letter, c, s, rfl, hc, h⟩ | ⟨s, n, mid, rfl, hn, h⟩)
    · rw [scanString, escaped?_eq_some.2 hc]
      exact h
    · rw [scanString, show escaped? 'u' = none from rfl]
      simp only [ne_eq, not_true_eq_false, if_false, if_pos (hasFourBytes_of_starts hn)]
      exact scanString_code_iff.2 ⟨n, mid, hn, h⟩

/-- Within a string stands its end, a backslash, or a character for itself. -/
theorem scanString_plain_iff : scanString .plain read s = .ok x ↔
    (∃ s', s = '"' :: s' ∧ x = (String.ofList read.reverse, s')) ∨ (∃ s', s = '\\' :: s' ∧ scanString .escape read s' = .ok x) ∨
      ∃ c s', s = c :: s' ∧ IsPlain c ∧ scanString .plain (c :: read) s' = .ok x := by
  constructor
  · intro h
    cases s with
    | nil => simp [scanString] at h
    | cons c s =>
      rw [scanString] at h
      split_ifs at h with quote backslash control
      · exact .inl ⟨s, by rw [quote], (Except.ok.inj h).symm⟩
      · exact .inr (.inl ⟨s, by rw [backslash], h⟩)
      · exact .inr (.inr ⟨c, s, rfl, ⟨quote, backslash, Nat.not_lt.1 control⟩, h⟩)
  · rintro (⟨s, rfl, rfl⟩ | ⟨s, rfl, h⟩ | ⟨c, s, rfl, ⟨quote, backslash, control⟩, h⟩)
    · rw [scanString, if_pos rfl]
    · rw [scanString, if_neg (by decide), if_pos rfl, h]
    · rw [scanString, if_neg quote, if_neg backslash, if_neg (Nat.not_lt.2 control), h]

/-- A valid number is the number of its character. -/
theorem toNat_ofNat (h : n.isValidChar) : (Char.ofNat n).toNat = n := by
  rw [Char.ofNat, dif_pos h]
  rfl

/-- The first halves of surrogate pairs are one range of numbers. -/
theorem isHighSurrogate_iff : isHighSurrogate n = true ↔ 0xD800 ≤ n ∧ n < 0xDC00 := by
  simp only [isHighSurrogate, Bool.and_eq_true, decide_eq_true_eq]
  omega

/-- The second halves of surrogate pairs are the range after it. -/
theorem isLowSurrogate_iff : isLowSurrogate n = true ↔ 0xDC00 ≤ n ∧ n < 0xE000 := by
  simp only [isLowSurrogate, Bool.and_eq_true, decide_eq_true_eq]
  omega

/-- The character of a surrogate pair has the number that its halves make. -/
theorem toNat_ofSurrogates {high low : Nat} (hh : 0xD800 ≤ high ∧ high < 0xDC00) (hl : 0xDC00 ≤ low ∧ low < 0xE000) :
    (ofSurrogates high low).toNat = 0x10000 + (high - 0xD800) * 0x400 + (low - 0xDC00) :=
  toNat_ofNat (by unfold Nat.isValidChar; omega)

/-- After the digits of a code there is either a character or the first half of a pair, with the other half to follow. -/
theorem afterCode_none_iff : afterCode none read n mid = .ok x ↔ isLowSurrogate n = false ∧
    if isHighSurrogate n then ∃ low mid', Starts (code low) mid mid' ∧ isLowSurrogate low ∧
      scanString .plain (ofSurrogates n low :: read) mid' = .ok x
    else scanString .plain (Char.ofNat n :: read) mid = .ok x := by
  rw [afterCode]
  cases hl : isLowSurrogate n with
  | true => simp
  | false =>
    simp only [Bool.false_eq_true, if_false, true_and]
    split_ifs with hh
    · rw [scanString_pair_iff]
      refine exists_congr fun low => exists_congr fun mid' => and_congr_right fun _ => ?_
      cases h : isLowSurrogate low <;> simp [afterCode, h]
    · rfl

/-- A spelling of a character adds the character to what is read. -/
theorem scanString_of_character (h : Starts (character c) s mid) (hx : scanString .plain (c :: read) mid = .ok x) :
    scanString .plain read s = .ok x := by
  obtain ⟨t, ht, rfl⟩ := h
  cases ht with
  | plain hc => exact scanString_plain_iff.2 (.inr (.inr ⟨c, mid, rfl, hc, hx⟩))
  | escape hc => exact scanString_plain_iff.2 (.inr (.inl ⟨_, rfl, scanString_escape_iff.2 (.inl ⟨_, c, mid, rfl, hc, hx⟩)⟩))
  | code hc =>
    obtain ⟨s', hs, hd⟩ := starts_code.1 ⟨t, hc, rfl⟩
    refine scanString_plain_iff.2 (.inr (.inl ⟨_, hs, scanString_escape_iff.2 (.inr ⟨_, _, _, rfl, hd, ?_⟩)⟩))
    -- the number of a character is that of no surrogate
    have hv : c.toNat.isValidChar := c.valid
    have hl : isLowSurrogate c.toNat = false := by
      rw [← Bool.not_eq_true, isLowSurrogate_iff]
      unfold Nat.isValidChar at hv
      omega
    have hh : isHighSurrogate c.toNat = false := by
      rw [← Bool.not_eq_true, isHighSurrogate_iff]
      unfold Nat.isValidChar at hv
      omega
    rw [afterCode_none_iff, hh, Char.ofNat_toNat]
    exact ⟨hl, hx⟩
  | @pair high low _ hh hl hc ht =>
    obtain ⟨mid', h₁, h₂⟩ := starts_mul.1 ⟨t, ht, rfl⟩
    obtain ⟨s', hs, hd⟩ := starts_code.1 h₁
    refine scanString_plain_iff.2 (.inr (.inl ⟨_, hs, scanString_escape_iff.2 (.inr ⟨_, _, _, rfl, hd, ?_⟩)⟩))
    have hlow : isLowSurrogate high = false := by
      rw [← Bool.not_eq_true, isLowSurrogate_iff]
      omega
    have hof : ofSurrogates high low = c := Char.toNat_inj.1 (by rw [toNat_ofSurrogates hh hl, hc])
    rw [afterCode_none_iff, isHighSurrogate_iff.2 hh]
    exact ⟨hlow, low, mid, h₂, isLowSurrogate_iff.2 hl, hof ▸ hx⟩

/-- Unless the string ends, a character of it is spelled next. -/
theorem scanString_next (h : scanString .plain read s = .ok x) :
    (∃ s', s = '"' :: s' ∧ x = (String.ofList read.reverse, s')) ∨
      ∃ c mid, Starts (character c) s mid ∧ scanString .plain (c :: read) mid = .ok x := by
  rcases scanString_plain_iff.1 h with h | ⟨s₁, rfl, h⟩ | ⟨c, s₁, rfl, hc, h⟩
  · exact .inl h
  · rcases scanString_escape_iff.1 h with ⟨letter, c, s₂, rfl, hc, h⟩ | ⟨s₂, n, mid, rfl, hn, h⟩
    · exact .inr ⟨c, s₂, ⟨_, .escape hc, rfl⟩, h⟩
    · obtain ⟨hl, h⟩ := afterCode_none_iff.1 h
      have hcode : Starts (code n) ('\\' :: 'u' :: s₂) mid := starts_code.2 ⟨s₂, rfl, hn⟩
      split_ifs at h with hh
      · obtain ⟨low, mid', hlow, hl', h⟩ := h
        obtain ⟨t, ht, hs⟩ := starts_mul.2 ⟨mid, hcode, hlow⟩
        rw [isHighSurrogate_iff] at hh
        rw [isLowSurrogate_iff] at hl'
        exact .inr ⟨_, mid', ⟨t, .pair hh hl' (toNat_ofSurrogates hh hl') ht, hs⟩, h⟩
      · obtain ⟨t, ht, hs⟩ := hcode
        have hn' := lt_of_starts_fourDigits hn
        rw [← Bool.not_eq_true, isLowSurrogate_iff] at hl
        rw [isHighSurrogate_iff] at hh
        have hc : (Char.ofNat n).toNat = n := toNat_ofNat (by unfold Nat.isValidChar; omega)
        exact .inr ⟨_, mid, ⟨t, .code (by rwa [hc]), hs⟩, h⟩
  · exact .inr ⟨c, s₁, ⟨_, .plain hc, rfl⟩, h⟩

end Scan

/-- Spellings of a character are not empty. -/
theorem opens_character : Opens (fun _ => True) (character c) := by
  intro t ht
  cases ht with
  | plain => exact ⟨_, _, rfl, trivial⟩
  | escape => exact ⟨_, _, rfl, trivial⟩
  | code h => exact (opens_word trivial).mul _ h
  | pair _ _ _ h => exact (opens_word trivial).mul.mul _ h

/-- Every spelling of a string is read as that string. -/
theorem scanString_of_unquoted : ∀ {cs read s}, Starts (unquoted cs) s rest →
    scanString .plain read s = .ok (String.ofList (read.reverse ++ cs), rest)
  | [], read, s, h => by
    rw [unquoted, List.map_nil, List.prod_nil, one_mul, starts_word] at h
    exact scanString_plain_iff.2 (.inl ⟨rest, h, by rw [List.append_nil]⟩)
  | c :: cs, read, s, h => by
    rw [unquoted, List.map_cons, List.prod_cons, mul_assoc, starts_mul] at h
    obtain ⟨mid, hc, h⟩ := h
    have hx : scanString .plain (c :: read) mid = .ok (String.ofList ((c :: read).reverse ++ cs), rest) := scanString_of_unquoted h
    rw [List.reverse_cons, List.append_assoc, List.singleton_append] at hx
    exact scanString_of_character hc hx

/-- What is read as a string is a spelling of it. -/
theorem unquoted_of_scanString {read : List Char} {text : String} (h : scanString .plain read s = .ok (text, rest)) :
    ∃ cs, text = String.ofList (read.reverse ++ cs) ∧ Starts (unquoted cs) s rest := by
  induction hn : s.length using Nat.strong_induction_on generalizing s read with
  | _ n ih =>
    rcases scanString_next h with ⟨s', rfl, hx⟩ | ⟨c, mid, hc, h⟩
    · obtain ⟨rfl, rfl⟩ := Prod.mk.inj hx
      refine ⟨[], by rw [List.append_nil], ?_⟩
      rw [unquoted, List.map_nil, List.prod_nil, one_mul, starts_word, List.singleton_append]
    · obtain ⟨cs, rfl, hcs⟩ := ih _ (hn ▸ opens_character.length_lt hc) h rfl
      refine ⟨c :: cs, by rw [List.reverse_cons, List.append_assoc, List.singleton_append], ?_⟩
      rw [unquoted, List.map_cons, List.prod_cons, mul_assoc]
      exact starts_mul.2 ⟨mid, hc, hcs⟩

/-- From after its first quote on, a string is read if it is spelled. -/
theorem scanString_iff {text : String} : scanString .plain [] s = .ok (text, rest) ↔ Starts (unquoted text.toList) s rest := by
  constructor
  · intro h
    obtain ⟨cs, rfl, hcs⟩ := unquoted_of_scanString h
    rwa [List.reverse_nil, List.nil_append, String.toList_ofList]
  · intro h
    rw [scanString_of_unquoted h, List.reverse_nil, List.nil_append, String.ofList_toList]

/-! ### Strings that are passed over -/

/-- While digits of a code are missing in a string that is passed over, the next character is one. -/
theorem skipString_code_succ_iff {k : Nat} : skipString (.code (k + 1)) s = .ok ((), rest) ↔
    ∃ c d s', s = c :: s' ∧ IsHexDigit c d ∧ skipString (.code k) s' = .ok ((), rest) := by
  simp only [← hexValue?_eq_some]
  cases s with
  | nil => simp [skipString]
  | cons c s => cases h : hexValue? c <;> simp [skipString, h]

/-- After the last digit of a code the string goes on, whatever the number is. -/
theorem skipString_code_zero_iff : skipString (.code 0) s = .ok ((), rest) ↔
    ∃ c d s', s = c :: s' ∧ IsHexDigit c d ∧ skipString .plain s' = .ok ((), rest) := by
  simp only [← hexValue?_eq_some]
  cases s with
  | nil => simp [skipString]
  | cons c s => cases h : hexValue? c <;> simp [skipString, h]

/-- A code in a string that is passed over is four digits. -/
theorem skipString_code_iff : skipString (.code 3) s = .ok ((), rest) ↔
    ∃ n mid, Starts (fourDigits n) s mid ∧ skipString .plain mid = .ok ((), rest) := by
  simp only [skipString_code_succ_iff, skipString_code_zero_iff, starts_fourDigits]
  constructor
  · rintro ⟨_, _, _, rfl, h₃, _, _, _, rfl, h₂, _, _, _, rfl, h₁, _, _, _, rfl, h₀, h⟩
    exact ⟨_, _, ⟨_, _, _, _, _, _, _, _, rfl, h₃, h₂, h₁, h₀, rfl⟩, h⟩
  · rintro ⟨_, _, ⟨_, _, _, _, _, _, _, _, rfl, h₃, h₂, h₁, h₀, rfl⟩, h⟩
    exact ⟨_, _, _, rfl, h₃, _, _, _, rfl, h₂, _, _, _, rfl, h₁, _, _, _, rfl, h₀, h⟩

/-- After a backslash in a string that is passed over stands a letter of the table or a code. -/
theorem skipString_escape_iff : skipString .escape s = .ok ((), rest) ↔
    (∃ letter c s', s = letter :: s' ∧ (letter, c) ∈ escapes ∧ skipString .plain s' = .ok ((), rest)) ∨
      ∃ s' n mid, s = 'u' :: s' ∧ Starts (fourDigits n) s' mid ∧ skipString .plain mid = .ok ((), rest) := by
  constructor
  · intro h
    cases s with
    | nil => simp [skipString] at h
    | cons c s =>
      rw [skipString] at h
      split_ifs at h with hd hc hs
      · obtain ⟨d, hd⟩ := Option.isSome_iff_exists.1 hd
        exact .inl ⟨c, d, s, rfl, escaped?_eq_some.1 hd, h⟩
      · obtain ⟨n, mid, hn, h⟩ := skipString_code_iff.1 h
        exact .inr ⟨s, n, mid, by rw [not_not.1 hc], hn, h⟩
  · rintro (⟨letter, c, s, rfl, hc, h⟩ | ⟨s, n, mid, rfl, hn, h⟩)
    · rw [skipString, escaped?_eq_some.2 hc]
      exact h
    · rw [skipString, show escaped? 'u' = none from rfl]
      simp only [Option.isSome_none, ne_eq, not_true_eq_false, if_false, if_pos (hasFourBytes_of_starts hn), Bool.false_eq_true]
      exact skipString_code_iff.2 ⟨n, mid, hn, h⟩

/-- A string that is passed over ends at a quote, or has one more piece. -/
theorem skipString_plain_iff : skipString .plain s = .ok ((), rest) ↔
    s = '"' :: rest ∨ ∃ mid, Starts skippedPiece s mid ∧ skipString .plain mid = .ok ((), rest) := by
  constructor
  · intro h
    cases s with
    | nil => simp [skipString] at h
    | cons c s =>
      rw [skipString] at h
      split_ifs at h with quote backslash control
      · exact .inl (by rw [quote, (Prod.mk.inj (Except.ok.inj h)).2])
      · rcases skipString_escape_iff.1 h with ⟨letter, d, s', rfl, hd, h⟩ | ⟨s', n, mid, rfl, hn, h⟩
        · exact .inr ⟨s', ⟨_, .escape hd, by rw [backslash]; rfl⟩, h⟩
        · obtain ⟨t, ht, hs⟩ := starts_code.2 ⟨s', rfl, hn⟩
          exact .inr ⟨mid, ⟨t, .code ht, by rw [backslash]; exact hs⟩, h⟩
      · exact .inr ⟨s, ⟨_, .plain ⟨quote, backslash, Nat.not_lt.1 control⟩, rfl⟩, h⟩
  · rintro (rfl | ⟨mid, ⟨t, ht, rfl⟩, h⟩)
    · rw [skipString, if_pos rfl]
    · cases ht with
      | plain hc =>
        obtain ⟨quote, backslash, control⟩ := hc
        rw [List.singleton_append, skipString, if_neg quote, if_neg backslash, if_neg (Nat.not_lt.2 control), h]
      | escape hc =>
        rw [List.cons_append, skipString, if_neg (by decide), if_pos rfl]
        exact skipString_escape_iff.2 (.inl ⟨_, _, mid, rfl, hc, h⟩)
      | code hc =>
        obtain ⟨s', hs, hd⟩ := starts_code.1 ⟨t, hc, rfl⟩
        rw [hs, skipString, if_neg (by decide), if_pos rfl]
        exact skipString_escape_iff.2 (.inr ⟨_, _, _, rfl, hd, h⟩)

theorem opens_skippedPiece : Opens (fun _ => True) skippedPiece := by
  intro t ht
  cases ht with
  | plain => exact ⟨_, _, rfl, trivial⟩
  | escape => exact ⟨_, _, rfl, trivial⟩
  | code h => exact (opens_word trivial).mul _ h

/-- The rest of a string that is passed over is a quote, or a piece and another rest. -/
theorem starts_skippedUnquoted : Starts skippedUnquoted s rest ↔
    s = '"' :: rest ∨ ∃ mid, Starts skippedPiece s mid ∧ Starts skippedUnquoted mid rest := by
  rw [skippedUnquoted, starts_kstar_mul, starts_word, List.singleton_append]

/-- From after its first quote on, a string is passed over if it is one. -/
theorem skipString_iff : skipString .plain s = .ok ((), rest) ↔ Starts skippedUnquoted s rest := by
  induction hn : s.length using Nat.strong_induction_on generalizing s with
  | _ n ih =>
    rw [skipString_plain_iff, starts_skippedUnquoted]
    refine or_congr_right (exists_congr fun mid => and_congr_right fun h => ?_)
    exact ih _ (hn ▸ opens_skippedPiece.length_lt h) rfl

end ExprLang.Json
