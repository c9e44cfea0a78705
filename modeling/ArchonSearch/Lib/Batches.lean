import Mathlib.Algebra.Order.Group.Nat
import Mathlib.Data.List.Basic
import Mathlib.Data.List.TakeDrop

/-!
# Deleting in batches

A statement that names rows is kept short by naming so many of them at a time (`batches`). Rows
that are deleted batch by batch are those that would have been deleted at once
(`deleteInBatches_eq`).
-/

namespace ArchonSearch.Lib

open List

variable {α κ : Type*}

/-- `[l[i : i + size] for i in range(0, len(l), size)]`. -/
def batches (size : ℕ) (l : List α) : List (List α) :=
  (List.range ((l.length + size - 1) / size)).map fun k => (l.drop (k * size)).take size

def deleteIn [DecidableEq κ] (key : α → κ) (rows : List α) (keys : List κ) : List α :=
  rows.filter fun row => !keys.contains (key row)

/-- The rows without those that have one of these keys, of which so many are named at a time. -/
def deleteInBatches [DecidableEq κ] (key : α → κ) (size : ℕ) (rows : List α) (keys : List κ) :
    List α :=
  (batches size keys).foldl (deleteIn key) rows

variable {size : ℕ} {l : List α} {a : α}

theorem exists_mem_batches (hsize : 0 < size) : (∃ batch ∈ batches size l, a ∈ batch) ↔ a ∈ l := by
  constructor
  · rintro ⟨batch, hbat, ha⟩
    obtain ⟨k, -, rfl⟩ := mem_map.mp hbat
    exact mem_of_mem_drop (mem_of_mem_take ha)
  intro ha
  obtain ⟨i, hi, rfl⟩ := mem_iff_getElem.mp ha
  have hmod : i % size < size := Nat.mod_lt i hsize
  have hi' : i / size * size + i % size = i := by
    rw [Nat.mul_comm]
    exact Nat.div_add_mod i size
  refine ⟨_, mem_map.mpr ⟨i / size, mem_range.mpr ?_, rfl⟩, ?_⟩
  · rw [Nat.div_lt_iff_lt_mul hsize]
    have hceil := Nat.div_add_mod (l.length + size - 1) size
    have hl := Nat.mod_lt (l.length + size - 1) hsize
    rw [Nat.mul_comm] at hceil
    omega
  · refine mem_iff_getElem.mpr ⟨i % size, ?_, ?_⟩
    · rw [length_take, length_drop]
      omega
    · rw [getElem_take, getElem_drop]
      simp only [hi']

theorem foldl_deleteIn [DecidableEq κ] (key : α → κ) (parts : List (List κ)) (rows : List α) :
    parts.foldl (deleteIn key) rows =
      rows.filter fun row => !parts.any fun keys => keys.contains (key row) := by
  induction parts generalizing rows with
  | nil => exact (filter_eq_self.mpr fun _ _ => rfl).symm
  | cons keys parts ih =>
    rw [foldl_cons, ih, deleteIn, filter_filter]
    refine filter_congr fun row _ => ?_
    rw [any_cons, Bool.not_or, Bool.and_comm]

/-- **Rows that are deleted in batches** are those that would be deleted at once. -/
theorem deleteInBatches_eq [DecidableEq κ] (key : α → κ) (hsize : 0 < size) (rows : List α)
    (keys : List κ) : deleteInBatches key size rows keys = deleteIn key rows keys := by
  rw [deleteInBatches, foldl_deleteIn, deleteIn]
  refine filter_congr fun row _ => congrArg (!·) (Bool.eq_iff_iff.mpr ?_)
  simp only [any_eq_true, contains_iff_mem]
  exact exists_mem_batches hsize

theorem deleteInBatches_sublist [DecidableEq κ] (key : α → κ) (size : ℕ) (rows : List α)
    (keys : List κ) : (deleteInBatches key size rows keys).Sublist rows := by
  rw [deleteInBatches, foldl_deleteIn]
  exact filter_sublist

variable {key : α → κ} {rows : List α} {keys : List κ}

/-- Of rows with distinct keys as many are deleted as keys are named. -/
theorem length_deleteIn [DecidableEq κ]
    (hrw : (rows.map key).Nodup) (hks : keys.Nodup) (hsub : keys ⊆ rows.map key) :
    keys.length + (deleteIn key rows keys).length = rows.length := by
  have hp : ((rows.filter fun row => keys.contains (key row)).map key).Perm keys := by
    refine (perm_ext_iff_of_nodup (hrw.sublist (filter_sublist.map key)) hks).mpr
      fun k => ⟨fun hk => ?_, fun hk => ?_⟩
    · obtain ⟨row, hr, rfl⟩ := mem_map.mp hk
      exact contains_iff_mem.mp (mem_filter.mp hr).2
    · obtain ⟨row, hr, rfl⟩ := mem_map.mp (hsub hk)
      exact mem_map_of_mem (mem_filter.mpr ⟨hr, contains_iff_mem.mpr hk⟩)
  rw [← hp.length_eq, length_map, deleteIn]
  exact (length_eq_length_filter_add fun row => keys.contains (key row)).symm

theorem deleteInBatches_nil [DecidableEq κ] (key : α → κ) (hsize : 0 < size) (rows : List α) :
    deleteInBatches key size rows [] = rows := by
  rw [deleteInBatches_eq key hsize]
  exact filter_eq_self.mpr fun _ _ => rfl

theorem mem_deleteIn [DecidableEq κ] :
    a ∈ deleteIn key rows keys ↔ a ∈ rows ∧ key a ∉ keys := by
  simp [deleteIn]

end ArchonSearch.Lib
