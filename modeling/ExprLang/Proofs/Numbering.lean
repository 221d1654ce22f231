import Mathlib.Data.List.Nodup
import Mathlib.Data.List.Perm.Basic
import Mathlib.Data.List.Range

/-!
# Numbers given out one after the other

Registers and labels are numbers that are given out in their order and written down in any order. `Numbers first next l` says that
the list `l` holds the numbers from `first` up to but not including `next`, each of them once. Lists of neighbouring ranges may be
put together in any order, since only the number of occurrences counts.
-/

namespace ExprLang

/-- The list holds the numbers from `first` up to but not including `next`, each of them once, in any order. -/
structure Numbers (first next : Nat) (l : List Nat) : Prop where
  /-- The range does not end before it begins. -/
  le : first ≤ next
  /-- A number of the range occurs once, any other not at all. -/
  count (n : Nat) : l.count n = if first ≤ n ∧ n < next then 1 else 0

namespace Numbers

variable {first next last : Nat} {l l' : List Nat}

theorem nil (n : Nat) : Numbers n n [] := ⟨Nat.le_refl n, fun m => by rw [List.count_nil, if_neg (by omega)]⟩

theorem singleton (n : Nat) : Numbers n (n + 1) [n] := by
  refine ⟨Nat.le_succ n, fun m => ?_⟩
  rw [List.count_singleton]
  by_cases h : n = m
  · rw [if_pos (by simpa using h), if_pos (by omega)]
  · rw [if_neg (by simpa using h), if_neg (by omega)]

/-- Neighbouring ranges make one range. -/
theorem append (h : Numbers first next l) (h' : Numbers next last l') : Numbers first last (l ++ l') := by
  refine ⟨Nat.le_trans h.le h'.le, fun n => ?_⟩
  have := h.le
  have := h'.le
  rw [List.count_append, h.count, h'.count]
  split_ifs <;> omega

/-- The order of the numbers does not matter. -/
theorem perm (h : Numbers first next l) (hp : l.Perm l') : Numbers first next l' :=
  ⟨h.le, fun n => by rw [← hp.count_eq, h.count]⟩

/-- No number occurs twice. -/
theorem nodup (h : Numbers first next l) : l.Nodup := by
  refine List.nodup_iff_count_le_one.2 fun n => ?_
  rw [h.count]
  split_ifs <;> decide

/-- The numbers from zero on are a range. -/
theorem perm_range {count : Nat} (h : Numbers 0 count l) : l.Perm (List.range count) := by
  refine List.perm_iff_count.2 fun n => ?_
  rw [h.count, List.nodup_range.count]
  simp

end Numbers

end ExprLang
