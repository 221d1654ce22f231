import ExprLang.Proofs.Expression.Reading

/-!
# Programs that are cut off

The reader of expressions stops behind an expression and does not ask what follows. So a text starts with a spelling of at most one
expression, and that spelling ends at one place only (`starts_spellings_unique`): no spelling is the beginning of a longer one, and none
can be taken for that of another expression.

That is why a program that was cut off is not taken for a program (`load_cut_off_eq_error`). If what is left were one, the reader would
stop at its end in the whole text as well, and there more than blanks follows.
-/

namespace ExprLang

open Json Json.Reader

/-- If a reader recognizes spellings whatever follows them, a text starts with a spelling of one value only, and with one spelling. -/
theorem Json.Reader.Recognizes.starts_unique {α : Type} {fuel n : Nat} {r : Reader α} {spellings : α → Nat → Language Char}
    {s rest rest' : List Char} {a b : α} (h : Recognizes fuel anything r spellings) (hs : s.length < fuel)
    (ha : Starts (blanks * spellings a n) s rest) (hb : Starts (blanks * spellings b n) s rest') : a = b ∧ rest = rest' := by
  rw [starts_blanks_mul (h.opens a n).solid] at ha
  rw [starts_blanks_mul (h.opens b n).solid] at hb
  have hread : r n s = .ok (a, rest) := (h.ok_iff hs trivial).2 ha
  have hread' : r n s = .ok (b, rest') := (h.ok_iff hs trivial).2 hb
  rw [hread] at hread'
  cases hread'
  exact ⟨rfl, rfl⟩

namespace Expression

variable {a b : Expression} {p t : String}

/-- A text starts with a spelling of one expression only, and with one spelling. -/
theorem starts_spellings_unique {n : Nat} {s rest rest' : List Char} (ha : Starts (blanks * a.spellings n) s rest)
    (hb : Starts (blanks * b.spellings n) s rest') : a = b ∧ rest = rest' :=
  (recognizes_reader (s.length + 1)).starts_unique (Nat.lt_succ_self _) ha hb

/-- If a text is a program, and is one also with more behind it, then it is the same program, and only blanks are behind it. -/
theorem blanks_of_parse_append (hp : parse p = .ok a) (h : parse (p ++ t) = .ok b) : a = b ∧ t.toList ∈ blanks := by
  rw [parse_eq_ok_iff, Language.mem_mul] at hp h
  obtain ⟨front, hfront, tail, -, hp⟩ := hp
  obtain ⟨front', hfront', tail', htail', h⟩ := h
  have hcut : Starts (blanks * a.spellings maxDepth) (p ++ t).toList (tail ++ t.toList) := by
    refine ⟨front, hfront, ?_⟩
    rw [String.toList_append, ← hp, List.append_assoc]
  have hwhole : Starts (blanks * b.spellings maxDepth) (p ++ t).toList tail' := ⟨front', hfront', h⟩
  obtain ⟨hab, hrest⟩ := starts_spellings_unique hcut hwhole
  refine ⟨hab, ?_⟩
  intro c hc
  refine htail' c ?_
  rw [← hrest]
  exact List.mem_append_right tail hc

/-- What is left of a program is no program if more than blanks was cut off its end, wherever the cut is. -/
theorem load_cut_off_eq_error (h : load (p ++ t) = .ok a) (ht : ∃ c ∈ t.toList, isBlank c = false) :
    ∃ reason, load p = .error (.invalid reason) := by
  obtain ⟨c, hc, hsolid⟩ := ht
  cases hp : parse p with
  | error reason =>
    refine ⟨reason, ?_⟩
    rw [load, hp]
    rfl
  | ok e =>
    have hblank := (blanks_of_parse_append hp (load_eq_ok_iff_parse.1 h)).2 c hc
    rw [hsolid] at hblank
    cases hblank

/-- Programs that are cut off in a number, in an escape, behind an expression and in what is passed over, and what is cut off. -/
def cutOff : List (String × String) :=
  [("\x7b\"Integer\": \x7b\"value\": 1", "2\x7d\x7d"), ("\x7b\"String\": [\"\\u00", "e9\"]\x7d\n"),
    ("\x7b\"Return\": \x7b\"value\": \"Void\"", "\x7d\x7d"), ("\x7b\"Void\": null", " \x7d"),
    ("\x7b\"Boolean\": \x7b\"value\": true, \"line\": [", "]\x7d\x7d")]

/-- Each is a program before the cut and no program behind it. -/
theorem load_cut_off_eq_error_of_mem : cutOff.Forall fun (p, t) =>
    (∃ e, load (p ++ t) = .ok e) ∧ ∃ reason, load p = .error (.invalid reason) := by
  have h : cutOff.all (fun cut => (load (cut.1 ++ cut.2)).toOption.isSome && cut.2.toList.any fun c => !isBlank c) = true := by
    decide +kernel
  refine List.forall_iff_forall_mem.2 fun cut hcut => ?_
  obtain ⟨hsome, hrest⟩ := Bool.and_eq_true_iff.1 (List.all_eq_true.1 h cut hcut)
  obtain ⟨e, he⟩ := Option.isSome_iff_exists.1 hsome
  obtain ⟨c, hc, hsolid⟩ := List.any_eq_true.1 hrest
  have hok := ok_of_mem_toOption he
  exact ⟨⟨e, hok⟩, load_cut_off_eq_error hok ⟨c, hc, by simpa using hsolid⟩⟩

end Expression

end ExprLang
