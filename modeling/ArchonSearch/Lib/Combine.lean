import Mathlib.Data.List.Induction
import ArchonSearch.Lib.Keyed

/-!
# Dictionaries that combine

A dictionary is made of a list: each item is combined with the value that its key has so far
(`combineAll`). So the value of a key is made of the items of that key alone, in their order
(`get?_foldl_combine`), and what holds of a value that is made of one item, and is kept by another
one, holds of every value and its items (`combineAll_invariant`).
-/

namespace ArchonSearch.Lib

open List

variable {α β κ : Type*} [DecidableEq κ] {key : α → κ} (keyOf : β → κ) (f : Option α → β → α)

def combine (d : Keyed key) (b : β) : Keyed key := d.insert (f (d.get? (keyOf b)) b)

def combineAll (l : List β) : Keyed key := l.foldl (combine keyOf f) Keyed.empty

variable {keyOf} {f}

/-- **The value of a key is made of its items.** -/
theorem get?_foldl_combine (hf : ∀ o b, key (f o b) = keyOf b) (d : Keyed key) (l : List β)
    (k : κ) :
    (l.foldl (combine keyOf f) d).get? k =
      (l.filter fun b => keyOf b = k).foldl (fun o b => some (f o b)) (d.get? k) := by
  induction l generalizing d with
  | nil => rfl
  | cons b l ih =>
    rw [foldl_cons, ih, combine, Keyed.get?_insert, hf]
    by_cases hk : keyOf b = k
    · rw [if_pos hk.symm, filter_cons_of_pos (by simpa using hk), foldl_cons, hk]
    · rw [if_neg (Ne.symm hk), filter_cons_of_neg (by simpa using hk)]

variable {P : List β → α → Prop} {l : List β}

/-- What holds of one item, and is kept by another one, holds of any number of items. -/
theorem foldl_combine_invariant (hone : ∀ b, P [b] (f none b))
    (hmore : ∀ l a b, P l a → P (l ++ [b]) (f (some a) b)) {a : α}
    (h : l.foldl (fun o b => some (f o b)) none = some a) : P l a := by
  induction l using List.reverseRecOn generalizing a with
  | nil => cases h
  | append_singleton l b ih =>
    rw [foldl_append] at h
    cases h
    rcases ho : l.foldl (fun o b => some (f o b)) none with - | a
    · rcases eq_nil_or_concat l with rfl | ⟨l', b', rfl⟩
      · exact hone b
      · rw [concat_eq_append, foldl_append] at ho
        cases ho
    · exact hmore l a b (ih ho)

/-- **What holds of one item, and is kept by another one, holds of every value.** -/
theorem combineAll_invariant (hf : ∀ o b, key (f o b) = keyOf b)
    (hone : ∀ b, P [b] (f none b)) (hmore : ∀ l a b, P l a → P (l ++ [b]) (f (some a) b)) {a : α}
    (ha : a ∈ (combineAll keyOf f l : Keyed key)) :
    P (l.filter fun b => keyOf b = key a) a := by
  have hg := Keyed.get?_key ha
  rw [combineAll, get?_foldl_combine hf] at hg
  exact foldl_combine_invariant hone hmore hg

/-- Every key that an item has is there, and no other one. -/
theorem mem_keys_combineAll (hf : ∀ o b, key (f o b) = keyOf b) {k : κ} :
    k ∈ (combineAll keyOf f l : Keyed key).items.map key ↔ ∃ b ∈ l, keyOf b = k := by
  have hg : k ∈ (combineAll keyOf f l : Keyed key).items.map key ↔
      (combineAll keyOf f l : Keyed key).get? k ≠ none := by
    rw [Ne, Keyed.get?_eq_none_iff, mem_map]
    simp [Keyed.mem_def]
  rw [hg, combineAll, get?_foldl_combine hf]
  rcases hgroup : (l.filter fun b => keyOf b = k).reverse with - | ⟨b, group⟩
  · rw [reverse_eq_nil_iff, filter_eq_nil_iff] at hgroup
    rw [filter_eq_nil_iff.mpr hgroup]
    simpa [Keyed.get?, Keyed.empty] using hgroup
  · rw [← reverse_reverse (l.filter _), hgroup, reverse_cons, foldl_append]
    have hb : b ∈ l.filter fun b => keyOf b = k := by
      rw [← mem_reverse, hgroup]
      exact mem_cons_self
    obtain ⟨hb, hk⟩ := mem_filter.mp hb
    simp only [foldl_cons, foldl_nil, ne_eq, reduceCtorEq, not_false_eq_true, true_iff]
    exact ⟨b, hb, by simpa using hk⟩

end ArchonSearch.Lib
