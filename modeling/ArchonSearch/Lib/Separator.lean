import Mathlib.Data.List.Infix

/-!
# Texts joined by a separator

What two texts were joined from can be told from the whole, if the separator stands nowhere else.
Where it is a doubled symbol, it is enough that it does not begin before the first text ends
(`append_double_inj`); where it is a single one, that it does not stand in the last text
(`append_last_inj`), or that it does not stand in the first (`append_first_inj`).
-/

namespace ArchonSearch.Lib

open List

variable {α : Type*} {s : α} {l l' r r' : List α}

/-- A text before which no separator began is not longer than another one. -/
theorem eq_nil_of_append_double {a : List α} (h : ¬ [s, s] <:+: l ++ a ++ [s])
    (heq : s :: s :: r = a ++ s :: s :: r') : a = [] := by
  match a with
  | [] => rfl
  | [x] =>
    obtain rfl : s = x := head_eq_of_cons_eq heq
    exact absurd ⟨l, [], by simp⟩ h
  | x :: y :: a =>
    obtain ⟨rfl, htail⟩ := List.cons.inj heq
    obtain rfl : s = y := head_eq_of_cons_eq htail
    exact absurd ⟨l, a ++ [s], by simp⟩ h

/-- **The first doubled symbol separates.** -/
theorem append_double_inj (h : ¬ [s, s] <:+: l ++ [s]) (h' : ¬ [s, s] <:+: l' ++ [s])
    (heq : l ++ s :: s :: r = l' ++ s :: s :: r') : l = l' ∧ r = r' := by
  have hlen : l = l' := by
    rcases append_eq_append_iff.mp heq with ⟨a, rfl, ha⟩ | ⟨a, rfl, ha⟩
    · rw [eq_nil_of_append_double h' ha, append_nil]
    · rw [eq_nil_of_append_double h ha, append_nil]
  subst hlen
  exact ⟨rfl, by simpa using heq⟩

/-- **The last symbol of its kind separates.** -/
theorem append_last_inj (h : s ∉ r) (h' : s ∉ r') (heq : l ++ s :: r = l' ++ s :: r') :
    l = l' ∧ r = r' := by
  have hnot {a t t' : List α} (ht : s ∉ t) (ha : s :: t = a ++ s :: t') : a = [] := by
    match a with
    | [] => rfl
    | x :: a =>
      refine absurd ?_ ht
      rw [(List.cons.inj ha).2]
      simp
  have hfst : l = l' := by
    rcases append_eq_append_iff.mp heq with ⟨a, rfl, ha⟩ | ⟨a, rfl, ha⟩
    · rw [hnot h ha, append_nil]
    · rw [hnot h' ha, append_nil]
  subst hfst
  exact ⟨rfl, by simpa using heq⟩

/-- **The first symbol of its kind separates.** -/
theorem append_first_inj (h : s ∉ l) (h' : s ∉ l') (heq : l ++ s :: r = l' ++ s :: r') :
    l = l' ∧ r = r' := by
  have hrev : r.reverse ++ s :: l.reverse = r'.reverse ++ s :: l'.reverse := by
    simpa using congrArg List.reverse heq
  obtain ⟨hr, hl⟩ := append_last_inj (by simpa using h) (by simpa using h') hrev
  exact ⟨reverse_injective hl, reverse_injective hr⟩

end ArchonSearch.Lib
