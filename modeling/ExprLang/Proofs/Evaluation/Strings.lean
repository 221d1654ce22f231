import ExprLang.Proofs.Evaluation.Effectless

/-!
# Laws of strings

Lengths and positions count characters. A range from one position to another lies within a string exactly if it cuts the string into
three parts, one before it, one in it and one behind it (`Within.exists_parts`), and the middle one is what is cut out
(`substring_parts`). Everything else about ranges is said by naming the parts.
-/

namespace ExprLang

/-- The range lies within the string. -/
def Within (s : String) (start stop : Int32) : Prop := 0 ≤ start.toInt ∧ start.toInt ≤ stop.toInt ∧ stop.toInt ≤ s.length

instance (s : String) (start stop : Int32) : Decidable (Within s start stop) := inferInstanceAs (Decidable (_ ∧ _))

/-- The greatest length that is an integer. -/
def maxLength : Nat := 2147483647

theorem toInt_ofNat_of_le {n : Nat} (h : n ≤ maxLength) : (Int32.ofNat n).toInt = n :=
  Int32.toInt_ofNat_of_lt (Nat.lt_succ_of_le h)

/-! ## Parts of strings -/

variable {s before part after : String} {a b c : Int32}

/-- A string may be divided at any position within it. -/
theorem exists_append {k : Nat} (h : k ≤ s.length) : ∃ l r, s = l ++ r ∧ l.length = k := by
  refine ⟨.ofList (s.toList.take k), .ofList (s.toList.drop k), ?_, ?_⟩
  · rw [← String.ofList_append, List.take_append_drop, String.ofList_toList]
  · rw [String.length_ofList, List.length_take, String.length_toList, Nat.min_eq_left h]

/-- Positions within a string divide it into three parts. -/
theorem Within.exists_parts (h : Within s a b) :
    ∃ before part after, s = before ++ part ++ after ∧ before.length = a.toInt ∧ before.length + part.length = b.toInt := by
  obtain ⟨ha, hab, hb⟩ := h
  obtain ⟨front, after, rfl, hfront⟩ := exists_append (s := s) (k := b.toInt.toNat) (by omega)
  obtain ⟨before, part, rfl, hbefore⟩ := exists_append (s := front) (k := a.toInt.toNat) (by omega)
  rw [String.length_append] at hfront
  exact ⟨before, part, after, rfl, by omega, by omega⟩

namespace Value

theorem stringLength_of_le (h : s.length ≤ maxLength) : (string s).stringLength = .ok (.int (Int32.ofNat s.length)) :=
  if_pos (show (s.length : Int) ≤ Int32.maxValue.toInt from Int.ofNat_le.2 h)

/-- Positions that are not within the string are an error that names them and the length. -/
theorem substring_of_not_within (h : ¬Within s a b) : (string s).substring (.int a) (.int b) = .error (.outOfRange a b s.length) :=
  if_neg h

/-- What is cut out is the part between. -/
theorem substring_parts (before part after : String) (ha : before.length = a.toInt) (hb : before.length + part.length = b.toInt) :
    (string (before ++ part ++ after)).substring (.int a) (.int b) = .ok (.string part) := by
  have hwithin : Within (before ++ part ++ after) a b := by
    unfold Within
    rw [String.length_append, String.length_append]
    omega
  refine (if_pos hwithin).trans ?_
  have hstart : a.toInt.toNat = before.toList.length := by
    rw [String.length_toList]
    omega
  have hcount : (b.toInt - a.toInt).toNat = part.toList.length := by
    rw [String.length_toList]
    omega
  rw [hstart, hcount, String.toList_append, String.toList_append, List.append_assoc, List.drop_left, List.take_left,
    String.ofList_toList]
  rfl

end Value

/-! ## Laws -/

namespace Evaluation

variable {σ : Type} [Sink σ] {reclamation : Reclamation} {env : Environment} {m : Interpreter σ} {x i j k l r : Expression}

section

variable (hx : Denotes reclamation env m x (.ok (.string s))) (hi : Denotes reclamation env m i (.ok (.int a)))
  (hj : Denotes reclamation env m j (.ok (.int b)))

include hx hi hj

/-- A range that does not lie within the string is refused. -/
theorem denotes_substring_of_not_within (h : ¬Within s a b) :
    Denotes reclamation env m (.substring x i j) (.error (.outOfRange a b s.length)) := by
  rw [← Value.substring_of_not_within h]
  exact hx.substring hi hj

/-- Between the positions of a part stands that part. -/
theorem denotes_substring_parts (before part after : String) (hs : s = before ++ part ++ after) (ha : before.length = a.toInt)
    (hb : before.length + part.length = b.toInt) : Denotes reclamation env m (.substring x i j) (.ok (.string part)) := by
  rw [← Value.substring_parts before part after ha hb, ← hs]
  exact hx.substring hi hj

/-- There is something to cut out exactly if the range lies within the string. -/
theorem exists_denotes_substring_iff : (∃ v, Denotes reclamation env m (.substring x i j) (.ok v)) ↔ Within s a b := by
  constructor
  · rintro ⟨v, hv⟩
    by_contra hnot
    cases hv.unique (denotes_substring_of_not_within hx hi hj hnot)
  · intro h
    obtain ⟨before, part, after, hs, ha, hb⟩ := h.exists_parts
    exact ⟨_, denotes_substring_parts hx hi hj before part after hs ha hb⟩

end

/-- The length of a string is the number of its characters. -/
theorem denotes_stringLength (hx : Denotes reclamation env m x (.ok (.string s))) (h : s.length ≤ maxLength) :
    Denotes reclamation env m (.stringLength x) (.ok (.int (Int32.ofNat s.length))) := by
  rw [← Value.stringLength_of_le h]
  exact hx.stringLength

/-- The whole string is the range of all its characters. -/
theorem denotes_substring_all (hx : Denotes reclamation env m x (.ok (.string s))) (h : s.length ≤ maxLength) :
    Denotes reclamation env m (.substring x (.integer 0) (.integer (Int32.ofNat s.length))) (.ok (.string s)) := by
  refine denotes_substring_parts hx (.integer 0) (.integer _) "" s "" ?_ rfl ?_
  · rw [String.empty_append, String.append_empty]
  · rw [toInt_ofNat_of_le h]
    exact Int.zero_add _

/-- Strings are added by joining them. -/
theorem denotes_add {t u : String} (hl : Denotes reclamation env m l (.ok (.string t)))
    (hr : Denotes reclamation env m r (.ok (.string u))) :
    Denotes reclamation env m (.binary l (.arithmetic .add) r) (.ok (.string (t ++ u))) := hl.arithmetic .add hr

/-- Two ranges that meet join to one. -/
theorem exists_denotes_joined (hx : Denotes reclamation env m x (.ok (.string s))) (hi : Denotes reclamation env m i (.ok (.int a)))
    (hj : Denotes reclamation env m j (.ok (.int b))) (hk : Denotes reclamation env m k (.ok (.int c))) (hab : Within s a b)
    (hbc : Within s b c) : ∃ part,
      Denotes reclamation env m (.binary (.substring x i j) (.arithmetic .add) (.substring x j k)) (.ok (.string part)) ∧
      Denotes reclamation env m (.substring x i k) (.ok (.string part)) := by
  obtain ⟨before, part, rest, rfl, ha, hb⟩ := hab.exists_parts
  have hlength : c.toInt ≤ before.length + part.length + rest.length := by
    have := hbc.2.2
    rwa [String.length_append, String.length_append, Int.natCast_add, Int.natCast_add] at this
  obtain ⟨next, after, rfl, hnext⟩ := exists_append (s := rest) (k := (c.toInt - b.toInt).toNat) (by omega)
  have hc : b.toInt + next.length = c.toInt := by
    have := hbc.2.1
    omega
  have hfirst : Denotes reclamation env m (.substring x i j) (.ok (.string part))  :=
    denotes_substring_parts hx hi hj before part (next ++ after) rfl ha hb
  have hsecond : Denotes reclamation env m (.substring x j k) (.ok (.string next)) := by
    refine denotes_substring_parts hx hj hk (before ++ part) next after ?_ ?_ ?_
    · simp only [String.append_assoc]
    · rw [String.length_append, Int.natCast_add, hb]
    · rw [String.length_append, Int.natCast_add, hb, hc]
  refine ⟨part ++ next, denotes_add hfirst hsecond, ?_⟩
  refine denotes_substring_parts hx hi hk before (part ++ next) after ?_ ha ?_
  · simp only [String.append_assoc]
  · rw [String.length_append, Int.natCast_add, ← Int.add_assoc, hb, hc]

/-- The difference of two positions is the length of the range between them. -/
theorem ofNat_length_eq_sub (ha : before.length = a.toInt) (hb : before.length + part.length = b.toInt) :
    Int32.ofNat part.length = b - a := by
  have hlength : (part.length : Int) = b.toInt - a.toInt := by omega
  rw [← Int32.ofInt_eq_ofNat, hlength, Int32.ofInt_sub, Int32.ofInt_toInt, Int32.ofInt_toInt]

/-- The length of what is cut out. -/
theorem denotes_stringLength_substring (hx : Denotes reclamation env m x (.ok (.string s)))
    (hi : Denotes reclamation env m i (.ok (.int a))) (hj : Denotes reclamation env m j (.ok (.int b))) (h : Within s a b) :
    Denotes reclamation env m (.stringLength (.substring x i j)) (.ok (.int (b - a))) := by
  obtain ⟨before, part, after, hs, ha, hb⟩ := h.exists_parts
  rw [← ofNat_length_eq_sub ha hb]
  have hlt := b.toInt_lt
  refine denotes_stringLength (denotes_substring_parts hx hi hj before part after hs ha hb) ?_
  unfold maxLength
  omega

/-- Strings that are joined can be cut apart. -/
theorem denotes_substring_add {t u : String} (hl : Denotes reclamation env m l (.ok (.string t)))
    (hr : Denotes reclamation env m r (.ok (.string u))) (h : t.length + u.length ≤ maxLength) :
    Denotes reclamation env m (.substring (.binary l (.arithmetic .add) r) (.integer 0) (.integer (Int32.ofNat t.length)))
        (.ok (.string t)) ∧
      Denotes reclamation env m (.substring (.binary l (.arithmetic .add) r) (.integer (Int32.ofNat t.length))
        (.integer (Int32.ofNat (t.length + u.length)))) (.ok (.string u)) := by
  have hadd := denotes_add hl hr
  have ht : (Int32.ofNat t.length).toInt = t.length := toInt_ofNat_of_le (Nat.le_of_add_right_le h)
  constructor
  · refine denotes_substring_parts hadd (.integer 0) (.integer _) "" t u ?_ rfl ?_
    · rw [String.empty_append]
    · rw [ht]
      exact Int.zero_add _
  · refine denotes_substring_parts hadd (.integer _) (.integer _) t u "" ?_ ht.symm ?_
    · rw [String.append_empty]
    · rw [toInt_ofNat_of_le h, Int.natCast_add]

/-- Laws of ranges, for expressions that denote a string `s` and positions `a`, `b` and `c`. What is between `a` and `b` is cut out if
`0 ≤ a ≤ b ≤ s.length`; then it has `b - a` characters, behind `a` others. Otherwise this fails because the range is not within the
string. All characters are the whole string, and ranges that meet join to one range. For expressions that denote strings `t` and `u`
which are not too long together, the sum has the length of both, and each can be cut out of it again. -/
theorem substring_laws {t u : String} (hx : Denotes reclamation env m x (.ok (.string s)))
    (hi : Denotes reclamation env m i (.ok (.int a))) (hj : Denotes reclamation env m j (.ok (.int b)))
    (hk : Denotes reclamation env m k (.ok (.int c))) (hl : Denotes reclamation env m l (.ok (.string t)))
    (hr : Denotes reclamation env m r (.ok (.string u))) :
    ((∃ v, Denotes reclamation env m (.substring x i j) (.ok v)) ↔
      0 ≤ a.toInt ∧ a.toInt ≤ b.toInt ∧ b.toInt ≤ s.length) ∧
    (¬(0 ≤ a.toInt ∧ a.toInt ≤ b.toInt ∧ b.toInt ≤ s.length) →
      Denotes reclamation env m (.substring x i j) (.error (.outOfRange a b s.length)) ∧
      (EvalError.outOfRange a b s.length).kind = "IndexOutOfRange") ∧
    (0 ≤ a.toInt → a.toInt ≤ b.toInt → b.toInt ≤ s.length →
      Denotes reclamation env m (.stringLength (.substring x i j)) (.ok (.int (b - a))) ∧
      ∃ before part after, s = before ++ part ++ after ∧ before.length = a.toInt ∧ before.length + part.length = b.toInt ∧
        Denotes reclamation env m (.substring x i j) (.ok (.string part))) ∧
    (s.length ≤ maxLength →
      Denotes reclamation env m (.substring x (.integer 0) (.integer (Int32.ofNat s.length))) (.ok (.string s))) ∧
    (0 ≤ a.toInt → a.toInt ≤ b.toInt → b.toInt ≤ c.toInt → c.toInt ≤ s.length → ∃ part,
      Denotes reclamation env m (.binary (.substring x i j) (.arithmetic .add) (.substring x j k)) (.ok (.string part)) ∧
      Denotes reclamation env m (.substring x i k) (.ok (.string part))) ∧
    (t.length + u.length ≤ maxLength →
      Denotes reclamation env m (.stringLength (.binary l (.arithmetic .add) r))
        (.ok (.int (Int32.ofNat (t.length + u.length)))) ∧
      Denotes reclamation env m (.substring (.binary l (.arithmetic .add) r) (.integer 0) (.integer (Int32.ofNat t.length)))
        (.ok (.string t)) ∧
      Denotes reclamation env m (.substring (.binary l (.arithmetic .add) r) (.integer (Int32.ofNat t.length))
        (.integer (Int32.ofNat (t.length + u.length)))) (.ok (.string u))) := by
  refine ⟨exists_denotes_substring_iff hx hi hj, fun h => ⟨denotes_substring_of_not_within hx hi hj h, rfl⟩, ?_,
    denotes_substring_all hx, ?_, ?_⟩
  · intro ha hab hb
    have hwithin : Within s a b := ⟨ha, hab, hb⟩
    obtain ⟨before, part, after, hs, hbefore, hpart⟩ := hwithin.exists_parts
    exact ⟨denotes_stringLength_substring hx hi hj hwithin, before, part, after, hs, hbefore, hpart,
      denotes_substring_parts hx hi hj before part after hs hbefore hpart⟩
  · intro ha hab hbc hc
    exact exists_denotes_joined hx hi hj hk ⟨ha, hab, Int.le_trans hbc hc⟩ ⟨Int.le_trans ha hab, hbc, hc⟩
  · intro h
    refine ⟨?_, denotes_substring_add hl hr h⟩
    rw [← String.length_append] at h ⊢
    exact denotes_stringLength (denotes_add hl hr) h

/-- A string with a character of two bytes, known by the name `s`. -/
def accented : String := "héllo"

/-- The state in which the name is known. -/
def accentedState : Interpreter := ⟨⟨#[.string accented]⟩, #[], 0, Output.empty none⟩

/-- The first character and the three after it join to the first four, and with a mark behind it the string has six characters. -/
theorem substring_laws_accented :
    let s := Expression.identifier "s"
    Denotes .onExit ⟨[("s", 0)]⟩ accentedState (.stringLength (.substring s (.integer 0) (.integer 1))) (.ok (.int (1 - 0))) ∧
    (∃ part,
      Denotes .onExit ⟨[("s", 0)]⟩ accentedState (.binary (.substring s (.integer 0) (.integer 1)) (.arithmetic .add)
        (.substring s (.integer 1) (.integer 4))) (.ok (.string part)) ∧
      Denotes .onExit ⟨[("s", 0)]⟩ accentedState (.substring s (.integer 0) (.integer 4)) (.ok (.string part))) ∧
    Denotes .onExit ⟨[("s", 0)]⟩ accentedState (.stringLength (.binary s (.arithmetic .add) (.string "!"))) (.ok (.int 6)) := by
  intro s
  have hs : Denotes .onExit ⟨[("s", 0)]⟩ accentedState s (.ok (.string accented)) := .identifier rfl rfl
  obtain ⟨-, -, hlength, -, hjoined, hadd⟩ :=
    substring_laws hs (.integer 0) (.integer 1) (.integer 4) hs (.string "!")
  refine ⟨(hlength (by decide) (by decide) (by decide)).1, hjoined (by decide) (by decide) (by decide) (by decide), ?_⟩
  exact (hadd (by decide)).1

end Evaluation

end ExprLang
