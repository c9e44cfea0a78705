import Mathlib.Data.List.Nodup
import Mathlib.Order.Nat

/-!
# Reading a list from a position

A list `xs` is read element by element through a partial map `f`, and what is found is
appended to an output. `ArchonSearch.Lib.Position f xs p l` says that `l` elements have been
read and `p` were found; the elements found are then the first `p` of `xs.filterMap f`.

When the output may be ahead of the position, the elements that are read again are told by a key:
as long as keys are not repeated, a window of the output that is filtered by what is already there
closes up with it (`take_append_filter`).
-/

namespace ArchonSearch.Lib

open List

variable {α β κ : Type*}

/-! ### Positions -/

/-- `l` elements of the list have been read, and `p` were found in them. -/
def Position (f : α → Option β) (xs : List α) (p l : ℕ) : Prop :=
  l ≤ xs.length ∧ ((xs.take l).filterMap f).length = p

namespace Position

variable {f : α → Option β} {xs rest skipped : List α} {p l : ℕ}

theorem zero (f : α → Option β) (xs : List α) : Position f xs 0 0 := ⟨Nat.zero_le _, rfl⟩

theorem le (h : Position f xs p l) : p ≤ l := by
  obtain ⟨hl, rfl⟩ := h
  have hlen := length_filterMap_le f (xs.take l)
  rw [length_take] at hlen
  omega

theorem le_length (h : Position f xs p l) : p ≤ (xs.filterMap f).length := by
  obtain ⟨-, rfl⟩ := h
  conv_rhs => rw [← take_append_drop l xs, filterMap_append, length_append]
  omega

/-- What was found is a prefix of what there is to find. -/
theorem take_filterMap (h : Position f xs p l) :
    (xs.filterMap f).take p = (xs.take l).filterMap f := by
  obtain ⟨-, rfl⟩ := h
  conv_lhs => rw [← take_append_drop l xs, filterMap_append]
  rw [take_append_drop, take_left']
  rfl

theorem eq_length (h : Position f xs p l) (hl : l = xs.length) : p = (xs.filterMap f).length := by
  obtain ⟨-, rfl⟩ := h
  rw [hl, take_length]

theorem skip (h : Position f xs p l) (hrs : xs.drop l = skipped ++ rest)
    (hskip : skipped.filterMap f = []) :
    Position f xs p (l + skipped.length) ∧ xs.drop (l + skipped.length) = rest := by
  have hd : xs.drop (l + skipped.length) = rest := by
    rw [← drop_drop, hrs, drop_left']
    rfl
  have htake : xs.take (l + skipped.length) = xs.take l ++ skipped := by
    rw [take_add, hrs, take_left']
    rfl
  have hlen := congrArg List.length hrs
  rw [length_drop, length_append] at hlen
  refine ⟨⟨?_, ?_⟩, hd⟩
  · have := h.1
    omega
  · rw [htake, filterMap_append, hskip, append_nil]
    exact h.2

theorem found (h : Position f xs p l) {x : α} {y : β} (hrs : xs.drop l = x :: rest)
    (hx : f x = some y) :
    Position f xs (p + 1) (l + 1) ∧ xs.drop (l + 1) = rest ∧
      (xs.filterMap f).take (p + 1) = (xs.filterMap f).take p ++ [y] := by
  have hd : xs.drop (l + 1) = rest := by
    rw [← drop_drop, hrs]
    rfl
  have htake : xs.take (l + 1) = xs.take l ++ [x] := by
    rw [take_add, hrs]
    rfl
  have hlen := congrArg List.length hrs
  rw [length_drop, length_cons] at hlen
  have hfnd : (xs.take (l + 1)).filterMap f = (xs.take l).filterMap f ++ [y] := by
    rw [htake, filterMap_append, filterMap_cons_some hx]
    rfl
  have hnx : Position f xs (p + 1) (l + 1) := by
    refine ⟨by omega, ?_⟩
    rw [hfnd, length_append, h.2]
    rfl
  exact ⟨hnx, hd, by rw [hnx.take_filterMap, h.take_filterMap, hfnd]⟩

end Position

/-! ### A window that overlaps the output -/

section Overlap

variable {key : β → κ} {ys : List β} {k p n : ℕ}

theorem key_notMem_take (hks : (ys.map key).Nodup) {y : β} (hy : y ∈ ys.drop k) :
    key y ∉ (ys.take k).map key := by
  rw [← take_append_drop k ys, map_append, nodup_append'] at hks
  exact fun hm => hks.2.2 hm (mem_map_of_mem hy)

/-- A window that starts before the end of the output has its first element in it. -/
theorem key_mem_take {y : β} {rest : List β} (hpk : p < k)
    (hwin : (ys.drop p).take n = y :: rest) : key y ∈ (ys.take k).map key := by
  refine mem_map_of_mem ?_
  have hd : ys.drop p = y :: (ys.drop p).tail := by
    cases hys : ys.drop p with
    | nil => simp [hys] at hwin
    | cons z zs =>
      cases n with
      | zero => simp at hwin
      | succ n =>
        rw [hys, take_succ_cons, List.cons.injEq] at hwin
        rw [hwin.1, tail_cons]
  have htake : (ys.take k).drop p = y :: ((ys.drop p).tail).take (k - p - 1) := by
    rw [drop_take, hd]
    obtain ⟨m, hm⟩ : ∃ m, k - p = m + 1 := ⟨k - p - 1, by omega⟩
    rw [hm]
    rfl
  exact mem_of_mem_drop (htake ▸ mem_cons_self)

variable [DecidableEq κ]

/-- The part of a window that the output does not have. -/
theorem filter_window (hks : (ys.map key).Nodup) (hpk : p ≤ k) :
    ((ys.drop p).take n).filter (fun y => key y ∉ (ys.take k).map key) =
      ((ys.drop p).take n).drop (k - p) := by
  have hold : ∀ y ∈ ((ys.drop p).take n).take (k - p), y ∈ ys.take k := by
    intro y hy
    rw [take_take, Nat.min_comm, ← take_take] at hy
    have hm := mem_of_mem_take hy
    rw [← drop_take] at hm
    exact mem_of_mem_drop hm
  have hw : ∀ y ∈ ((ys.drop p).take n).drop (k - p), y ∈ ys.drop k := by
    intro y hy
    rw [drop_take, drop_drop, Nat.add_sub_cancel' hpk] at hy
    exact mem_of_mem_take hy
  conv_lhs => rw [← take_append_drop (k - p) ((ys.drop p).take n), filter_append]
  rw [filter_eq_nil_iff.mpr, filter_eq_self.mpr, nil_append]
  · exact fun y hy => decide_eq_true (key_notMem_take hks (hw y hy))
  · intro y hy hk
    exact of_decide_eq_true hk (mem_map_of_mem (hold y hy))

/-- **The output closes up with the window.** -/
theorem take_append_filter (hks : (ys.map key).Nodup) (hpk : p ≤ k) :
    ys.take k ++ ((ys.drop p).take n).filter (fun y => key y ∉ (ys.take k).map key) =
      ys.take (max k (p + n)) := by
  rw [filter_window hks hpk, drop_take, drop_drop, Nat.add_sub_cancel' hpk, ← take_add]
  congr 1
  omega

end Overlap

end ArchonSearch.Lib
