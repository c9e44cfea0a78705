import Mathlib.Data.List.Basic

/-!
# Changing the first match in a list

A loop that walks a list, changes the first element satisfying a test and stops is `modifyFirst`.
What a proof needs of it is a frame: the elements the test refuses stay where they were, so a
filter that drops what the loop may touch, and a projection the change preserves, do not see the
loop at all.
-/

namespace ArchonSearch.Lib

open List

variable {α β : Type*} {p : α → Bool} {f : α → α}

/-- The list with its first element satisfying `p` replaced by its image under
`f`. -/
def modifyFirst (p : α → Bool) (f : α → α) : List α → List α
  | [] => []
  | a :: l => if p a then f a :: l else a :: modifyFirst p f l

/-- A projection the change preserves does not see the change. -/
theorem map_modifyFirst {g : α → β} (hg : ∀ a, p a = true → g (f a) = g a) (l : List α) :
    (modifyFirst p f l).map g = l.map g := by
  induction l with
  | nil => rfl
  | cons a l ih =>
    rw [modifyFirst]
    by_cases hp : p a = true
    · simp [hp, hg a hp]
    · simp [hp, ih]

variable {l : List α}

/-- A filter that drops the elements tested for, changed or not, does not see the
change. -/
theorem filter_modifyFirst {q : α → Bool}
    (hq : ∀ a ∈ l, p a = true → q a = false ∧ q (f a) = false) :
    (modifyFirst p f l).filter q = l.filter q := by
  induction l with
  | nil => rfl
  | cons a l ih =>
    rw [modifyFirst]
    by_cases hp : p a = true
    · simp [hp, hq a mem_cons_self hp]
    · rw [if_neg hp, filter_cons, filter_cons, ih fun b hb => hq b (mem_cons_of_mem a hb)]

variable {a : α}

/-- An element stays, or it is the match and becomes its image. -/
theorem mem_modifyFirst (h : a ∈ l) :
    a ∈ modifyFirst p f l ∨ p a = true ∧ f a ∈ modifyFirst p f l := by
  induction l with
  | nil => cases h
  | cons b l ih =>
    rw [modifyFirst]
    by_cases hp : p b = true
    · rw [if_pos hp]
      rcases mem_cons.mp h with rfl | hm
      · exact Or.inr ⟨hp, mem_cons_self⟩
      · exact Or.inl (mem_cons_of_mem _ hm)
    · rw [if_neg hp]
      rcases mem_cons.mp h with rfl | hm
      · exact Or.inl mem_cons_self
      · exact (ih hm).imp (mem_cons_of_mem _) fun hi =>
          ⟨hi.1, mem_cons_of_mem _ hi.2⟩

/-- An element of the changed list is the image of a match, or was there
before. -/
theorem mem_of_mem_modifyFirst (h : a ∈ modifyFirst p f l) :
    a ∈ l ∨ ∃ b ∈ l, p b = true ∧ a = f b := by
  induction l with
  | nil => exact absurd h (by simp [modifyFirst])
  | cons b l ih =>
    rw [modifyFirst] at h
    by_cases hp : p b = true
    · rw [if_pos hp] at h
      rcases mem_cons.mp h with rfl | hm
      · exact Or.inr ⟨b, mem_cons_self, hp, rfl⟩
      · exact Or.inl (mem_cons_of_mem _ hm)
    · rw [if_neg hp] at h
      rcases mem_cons.mp h with rfl | hm
      · exact Or.inl mem_cons_self
      · rcases ih hm with hm | ⟨c, hc, hpc, rfl⟩
        · exact Or.inl (mem_cons_of_mem _ hm)
        · exact Or.inr ⟨c, mem_cons_of_mem _ hc, hpc, rfl⟩

/-- The image of the first match is in the changed list. -/
theorem mem_modifyFirst_of_find? (h : l.find? p = some a) :
    f a ∈ modifyFirst p f l := by
  induction l with
  | nil => exact absurd h (by simp)
  | cons b l ih =>
    rw [modifyFirst]
    by_cases hp : p b = true
    · rw [find?_cons_of_pos hp] at h
      rw [if_pos hp, Option.some.inj h]
      exact mem_cons_self
    · rw [find?_cons_of_neg hp] at h
      rw [if_neg hp]
      exact mem_cons_of_mem _ (ih h)

end ArchonSearch.Lib
