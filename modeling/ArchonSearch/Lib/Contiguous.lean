import Mathlib.Data.List.Basic
import Mathlib.Order.Nat

/-!
# Lists in which every key has one block

A trace of labelled entries does not interleave two labels when the entries of each label stand
together. `Contiguous` says so of a list and a labelling of its entries; a trace that grows at its
end stays contiguous as long as a new entry either opens a new block or belongs to the last one
(`Contiguous.append_of_notMem`, `Contiguous.append_of_getLast?`).
-/

namespace ArchonSearch.Lib

open List

variable {α κ : Type*} (key : α → κ)

/-- Between two entries of one key there is no other. -/
def Contiguous (l : List α) : Prop :=
  ∀ pre mid post x y, l = pre ++ x :: mid ++ y :: post → key x = key y → ∀ z ∈ mid, key z = key x

theorem contiguous_nil : Contiguous key [] := by
  intro pre mid post x y h
  simp at h

variable {key} {l : List α}

/-- A new entry at the end can only break the block it belongs to. -/
theorem Contiguous.append_singleton {a : α} (h : Contiguous key l)
    (ha : ∀ pre mid x, l = pre ++ x :: mid → key x = key a → ∀ z ∈ mid, key z = key x) :
    Contiguous key (l ++ [a]) := by
  intro pre mid post x y heq hxy
  rcases eq_nil_or_concat post with rfl | ⟨post, b, rfl⟩
  · obtain ⟨hl, hay⟩ := append_inj' heq rfl
    obtain rfl := singleton_inj.mp hay
    exact ha pre mid x hl hxy
  · have heq' : l ++ [a] = (pre ++ x :: mid ++ y :: post) ++ [b] := by simpa using heq
    obtain ⟨hl, -⟩ := append_inj' heq' rfl
    exact h pre mid post x y hl hxy

theorem Contiguous.append_of_notMem {a : α} (h : Contiguous key l)
    (ha : ∀ x ∈ l, key x ≠ key a) : Contiguous key (l ++ [a]) := by
  refine h.append_singleton fun pre mid x hl hx => absurd hx (ha x ?_)
  simp [hl]

theorem Contiguous.append_of_getLast? {a b : α} (h : Contiguous key l)
    (hb : l.getLast? = some b) (hab : key b = key a) : Contiguous key (l ++ [a]) := by
  refine h.append_singleton fun pre mid x hl hx z hz => ?_
  obtain ⟨mid', c, rfl⟩ : ∃ mid' c, mid = mid' ++ [c] := by
    rcases eq_nil_or_concat mid with rfl | ⟨mid', c, rfl⟩
    · simp at hz
    · exact ⟨mid', c, by simp⟩
  obtain rfl : c = b := by
    rw [hl, ← cons_append, ← append_assoc, getLast?_concat] at hb
    exact Option.some.inj hb
  have hk : key x = key c := hx.trans hab.symm
  rcases mem_append.mp hz with hz | hz
  · exact h pre mid' [] x c (by simp [hl]) hk z hz
  · rw [mem_singleton.mp hz, hk]

end ArchonSearch.Lib
