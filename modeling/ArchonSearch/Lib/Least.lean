import Mathlib.Data.Finset.Sort
import ArchonSearch.Lib.Cut

/-!
# The least elements of finite sets

`least` lists the `k` least elements of a finite set, in order. They are those that fewer than `k`
elements are below (`mem_least`). To list those of a union it is enough to know those of its parts
(`least_union_least`), so a list may be cut after each of several unions, and they may come in any
order.
-/

namespace ArchonSearch.Lib

open List Finset

variable {α : Type*} [LinearOrder α] {k : ℕ} {s t : Finset α} {a b : α}

/-- The `k` least elements of a set, in order. -/
def least (k : ℕ) (s : Finset α) : List α := (s.sort (· ≤ ·)).take k

def below (s : Finset α) (a : α) : ℕ := (s.filter (· < a)).card

theorem below_mono (h : s ⊆ t) (a : α) : below s a ≤ below t a :=
  card_le_card (filter_subset_filter _ h)

theorem below_le_of_le (hab : a ≤ b) : below s a ≤ below s b :=
  card_le_card fun c hc => by
    obtain ⟨hc, hca⟩ := mem_filter.mp hc
    exact mem_filter.mpr ⟨hc, hca.trans_le hab⟩

/-- **The least elements are those that fewer are below.** -/
theorem mem_least : a ∈ least k s ↔ a ∈ s ∧ below s a < k := by
  have hsort := (sortedLT_sort s).pairwise
  have hbel : ((s.sort (· ≤ ·)).filter (· < a)).length = below s a := by
    rw [← toFinset_card_of_nodup (hsort.imp ne_of_lt |>.filter _), toFinset_filter,
      sort_toFinset, below]
    simp
  have hcut : a ∈ (s.sort (· ≤ ·)).take k ↔ a ∈ s.sort (· ≤ ·) ∧
      ((s.sort (· ≤ ·)).filter fun b => id b < id a).length < k :=
    mem_take_iff_of_pairwise_lt hsort
  rw [least, hcut, mem_sort]
  exact and_congr_right fun _ => by rw [← hbel]; rfl

theorem pairwise_least : (least k s).Pairwise (· < ·) :=
  (sortedLT_sort s).pairwise.sublist (take_sublist _ _)

/-- They tell which set has them, up to what is not among the least. -/
theorem least_eq_of_mem_iff (h : ∀ a, a ∈ least k s ↔ a ∈ least k t) : least k s = least k t :=
  List.Pairwise.eq_of_mem_iff pairwise_least pairwise_least fun {a} => h a

theorem toFinset_least_subset : (least k s).toFinset ⊆ s := fun _ ha =>
  (mem_least.mp (mem_toFinset.mp ha)).1

/-- There are `k` of them, if the set has so many elements. -/
theorem card_toFinset_least (h : k ≤ s.card) : (least k s).toFinset.card = k := by
  rw [toFinset_card_of_nodup (pairwise_least.imp ne_of_lt), least, length_take,
    length_sort, min_eq_left h]

/-- What is among the least of a union is among those of the part that it is in. -/
theorem mem_least_of_mem_least_union (h : a ∈ least k (s ∪ t)) (hs : a ∈ s) : a ∈ least k s :=
  mem_least.mpr ⟨hs, (below_mono subset_union_left a).trans_lt (mem_least.mp h).2⟩

/-- **The least elements of a union are those of the least of its parts.** -/
theorem least_union_least :
    least k ((least k s).toFinset ∪ (least k t).toFinset) = least k (s ∪ t) := by
  set u := (least k s).toFinset ∪ (least k t).toFinset with hu
  have hsub : u ⊆ s ∪ t :=
    union_subset_union toFinset_least_subset toFinset_least_subset
  have hm {b : α} (hb : b ∈ least k (s ∪ t)) : b ∈ u := by
    rw [hu, mem_union, mem_toFinset, mem_toFinset]
    rcases mem_union.mp (mem_least.mp hb).1 with hs | ht
    · exact Or.inl (mem_least_of_mem_least_union hb hs)
    · exact Or.inr (mem_least_of_mem_least_union (union_comm s t ▸ hb) ht)
  refine least_eq_of_mem_iff fun a => ⟨fun ha => ?_, fun ha => ?_⟩
  · obtain ⟨hau, hlt⟩ := mem_least.mp ha
    refine mem_least.mpr ⟨hsub hau, ?_⟩
    by_contra hge
    rw [not_lt] at hge
    -- the least elements of the union are all in the smaller set, and below this one
    have hcard : k ≤ (s ∪ t).card := hge.trans (card_le_card (filter_subset _ _))
    have hbel : (least k (s ∪ t)).toFinset ⊆ u.filter (· < a) := by
      intro b hb
      rw [mem_toFinset] at hb
      refine mem_filter.mpr ⟨hm hb, lt_of_not_ge fun hab => ?_⟩
      exact absurd (hge.trans (below_le_of_le hab)) (not_le.mpr (mem_least.mp hb).2)
    have hle := card_le_card hbel
    rw [card_toFinset_least hcard] at hle
    exact absurd hle (not_le.mpr hlt)
  · exact mem_least.mpr ⟨hm ha, (below_mono hsub a).trans_lt (mem_least.mp ha).2⟩

end ArchonSearch.Lib
