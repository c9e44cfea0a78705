import Mathlib.Order.Nat

/-!
# Distances along a relation

The distance of a point is the least number of steps that lead to it (`Distance`). A search in the
breadth goes from one layer to the next: the points at distance `n + 1` are those that a step leads
to from a point at distance `n`, and that are at no distance up to `n` (`distance_succ_iff`);
behind an empty layer there is nothing (`Distance.exists_of_le`).
-/

namespace ArchonSearch.Lib

variable {α : Type*} (r : α → α → Prop)

inductive Steps : ℕ → α → α → Prop where
  | zero : ∀ a, Steps 0 a a
  | succ : ∀ {n a b c}, Steps n a b → r b c → Steps (n + 1) a c

def Distance (a b : α) (n : ℕ) : Prop := Steps r n a b ∧ ∀ m, Steps r m a b → n ≤ m

variable {r} {a b c : α} {n m : ℕ}

theorem steps_zero_iff : Steps r 0 a b ↔ a = b := by
  constructor
  · rintro ⟨⟩
    rfl
  · rintro rfl
    exact .zero a

theorem steps_succ_iff : Steps r (n + 1) a c ↔ ∃ b, Steps r n a b ∧ r b c := by
  constructor
  · rintro (_ | ⟨h, hbc⟩)
    exact ⟨_, h, hbc⟩
  · rintro ⟨b, h, hbc⟩
    exact h.succ hbc

theorem Distance.unique (h : Distance r a b n) (h' : Distance r a b m) : n = m :=
  le_antisymm (h.2 m h'.1) (h'.2 n h.1)

theorem distance_zero_iff : Distance r a b 0 ↔ a = b :=
  ⟨fun h => steps_zero_iff.mp h.1, fun h => ⟨steps_zero_iff.mpr h, fun _ _ => Nat.zero_le _⟩⟩

/-- What so many steps lead to is at some distance, which is not greater. -/
theorem Steps.exists_distance (h : Steps r n a b) : ∃ m ≤ n, Distance r a b m := by
  induction n using Nat.strong_induction_on with
  | _ n ih =>
    by_cases hleast : ∀ m, Steps r m a b → n ≤ m
    · exact ⟨n, le_rfl, h, hleast⟩
    · push Not at hleast
      obtain ⟨m, hm, hlt⟩ := hleast
      obtain ⟨k, hk, hdis⟩ := ih m hlt hm
      exact ⟨k, hk.trans hlt.le, hdis⟩

/-- The point before the last one is one step nearer. -/
theorem Distance.exists_pred (h : Distance r a c (n + 1)) : ∃ b, Distance r a b n ∧ r b c := by
  obtain ⟨b, hb, hbc⟩ := steps_succ_iff.mp h.1
  refine ⟨b, ⟨hb, fun m hm => ?_⟩, hbc⟩
  exact Nat.le_of_succ_le_succ (h.2 (m + 1) (hm.succ hbc))

/-- **The next layer**: one step further, and at no smaller distance. -/
theorem distance_succ_iff : Distance r a c (n + 1) ↔
    (∃ b, Distance r a b n ∧ r b c) ∧ ∀ m ≤ n, ¬ Distance r a c m := by
  constructor
  · refine fun h => ⟨h.exists_pred, fun m hm hc => ?_⟩
    have heq := h.unique hc
    omega
  · rintro ⟨⟨b, hb, hbc⟩, hfar⟩
    obtain ⟨m, hm, hc⟩ := (hb.1.succ hbc).exists_distance
    rcases Nat.lt_or_ge n m with hlt | hle
    · obtain rfl : m = n + 1 := by omega
      exact hc
    · exact absurd hc (hfar m hle)

/-- Every layer before one that is not empty is not empty either. -/
theorem Distance.exists_of_le (h : Distance r a b n) (hm : m ≤ n) : ∃ c, Distance r a c m := by
  induction n generalizing b with
  | zero =>
    obtain rfl := Nat.le_zero.mp hm
    exact ⟨b, h⟩
  | succ n ih =>
    rcases Nat.le_or_eq_of_le_succ hm with hle | rfl
    · obtain ⟨c, hc, -⟩ := h.exists_pred
      exact ih hc hle
    · exact ⟨b, h⟩

end ArchonSearch.Lib
