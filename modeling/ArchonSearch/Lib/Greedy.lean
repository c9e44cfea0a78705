import Mathlib.Data.List.Chain

/-!
# Groups that grow

A list is cut into groups by going through it once. A group takes the items that come, until it is
closed at one of them, which starts the next group (`groups`). So the groups make up the list
(`flatten_groups`), what single items have and growing keeps holds of every group
(`groups_invariant`), and every group but the last was closed at the first item of the next one
(`isChain_groups`).
-/

namespace ArchonSearch.Lib

open List

variable {α : Type*} (closes : List α → α → Bool)

def groups (current : List α) : List α → List (List α)
  | [] => if current.isEmpty then [] else [current]
  | a :: l =>
    if !current.isEmpty && closes current a then current :: groups [a] l
    else groups (current ++ [a]) l

variable {closes}

/-- **The groups make up the list.** -/
theorem flatten_groups (current l : List α) :
    (groups closes current l).flatten = current ++ l := by
  induction l generalizing current with
  | nil =>
    rw [groups]
    split
    · next hemp => simp [List.isEmpty_iff.mp hemp]
    · simp
  | cons a l ih =>
    rw [groups]
    split
    · rw [flatten_cons, ih, singleton_append]
    · rw [ih, append_assoc, singleton_append]

/-- **What single items have, and what growing keeps, holds of every group.** -/
theorem groups_invariant {P : List α → Prop} {current l : List α} (hone : ∀ a, P [a])
    (hgrow : ∀ g a, g ≠ [] → P g → closes g a = false → P (g ++ [a]))
    (hcur : current ≠ [] → P current) : ∀ g ∈ groups closes current l, g ≠ [] ∧ P g := by
  induction l generalizing current with
  | nil =>
    intro g hg
    rw [groups] at hg
    split at hg
    · exact absurd hg not_mem_nil
    · next hemp =>
      have hne : current ≠ [] := fun h => hemp (List.isEmpty_iff.mpr h)
      rw [mem_singleton.mp hg]
      exact ⟨hne, hcur hne⟩
  | cons a l ih =>
    intro g hg
    rw [groups] at hg
    split at hg
    · next hcls =>
      rcases mem_cons.mp hg with rfl | hg
      · have hne : g ≠ [] := by
          rintro rfl
          simp at hcls
        exact ⟨hne, hcur hne⟩
      · exact ih (fun _ => hone a) g hg
    · next hopen =>
      refine ih (fun _ => ?_) g hg
      rcases eq_or_ne current [] with rfl | hne
      · exact hone a
      · refine hgrow current a hne (hcur hne) ?_
        simpa [hne] using hopen

theorem head?_of_mem_head?_groups {a : α} {current l g : List α}
    (hg : g ∈ (groups closes (a :: current) l).head?) : g.head? = some a := by
  induction l generalizing current with
  | nil =>
    obtain rfl : a :: current = g := by simpa [groups] using hg
    rfl
  | cons b l ih =>
    rw [groups] at hg
    split at hg
    · obtain rfl : a :: current = g := by simpa using hg
      rfl
    · exact ih hg

/-- **Every group but the last was closed** at the first item of the next one. -/
theorem isChain_groups (current l : List α) :
    (groups closes current l).IsChain fun g h => ∃ a ∈ h.head?, closes g a = true := by
  induction l generalizing current with
  | nil =>
    rw [groups]
    split
    · exact isChain_nil
    · exact isChain_singleton _
  | cons a l ih =>
    rw [groups]
    split
    · next hcls =>
      refine isChain_cons.mpr ⟨fun g hg => ?_, ih _⟩
      exact ⟨a, head?_of_mem_head?_groups hg, (Bool.and_eq_true_iff.mp hcls).2⟩
    · exact ih _

end ArchonSearch.Lib
