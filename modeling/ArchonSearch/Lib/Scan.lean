import Mathlib.Data.List.Basic

/-!
# Scanning for matches

A matcher looks at the beginning of a list and says how long the match is that begins there, if one
does. `matchEnds` goes through a list from left to right, with the next match sought after the end
of the one before, and lists the places at which the matches end, in order (`pairwise_matchEnds`).
Where no match begins inside another, these are the ends of all the matches that there are
(`mem_matchEnds_iff`).

`replaceMatches` puts something else in the place of each match.
-/

namespace ArchonSearch.Lib

variable {α : Type*} (matchAt : List α → Option ℕ)

/-- The ends of the matches, in a list that begins at this position and of which so much belongs to
the match before. -/
def matchEnds : (position skip : ℕ) → List α → List ℕ
  | _, _, [] => []
  | position, skip + 1, _ :: as => matchEnds (position + 1) skip as
  | position, 0, a :: as =>
    match matchAt (a :: as) with
    | some n => (position + n) :: matchEnds (position + 1) (n - 1) as
    | none => matchEnds (position + 1) 0 as

def replaceMatches (replacement : List α) : (skip : ℕ) → List α → List α
  | _, [] => []
  | skip + 1, _ :: as => replaceMatches replacement skip as
  | 0, a :: as =>
    match matchAt (a :: as) with
    | some n => replacement ++ replaceMatches replacement (n - 1) as
    | none => a :: replaceMatches replacement 0 as

structure Separate : Prop where
  pos : ∀ as n, matchAt as = some n → 0 < n
  inside : ∀ as n i, matchAt as = some n → 0 < i → i < n → matchAt (as.drop i) = none
  nil : matchAt [] = none

variable {matchAt}

theorem lt_of_mem_matchEnds (h : ∀ as n, matchAt as = some n → 0 < n) :
    ∀ {as : List α} {position skip e : ℕ}, e ∈ matchEnds matchAt position skip as →
      position + skip < e
  | [], _, _, _, he => by simp [matchEnds] at he
  | a :: as, position, skip + 1, e, he => by
    have hlt := lt_of_mem_matchEnds h (show e ∈ matchEnds matchAt (position + 1) skip as from he)
    omega
  | a :: as, position, 0, e, he => by
    rw [matchEnds] at he
    split at he
    · rename_i n hn
      have hpos := h _ _ hn
      rcases List.mem_cons.mp he with rfl | he
      · omega
      · have hlt := lt_of_mem_matchEnds h he
        omega
    · have hlt := lt_of_mem_matchEnds h he
      omega

/-- **The ends are in order.** -/
theorem pairwise_matchEnds (h : ∀ as n, matchAt as = some n → 0 < n) :
    ∀ (as : List α) (position skip : ℕ), (matchEnds matchAt position skip as).Pairwise (· < ·)
  | [], _, _ => List.Pairwise.nil
  | a :: as, position, skip + 1 => pairwise_matchEnds h as (position + 1) skip
  | a :: as, position, 0 => by
    rw [matchEnds]
    split
    · rename_i n hn
      have hpos := h _ _ hn
      refine List.pairwise_cons.mpr ⟨fun e he => ?_, pairwise_matchEnds h as _ _⟩
      have hlt := lt_of_mem_matchEnds h he
      omega
    · exact pairwise_matchEnds h as _ _

/-- The ends of the matches of a list, where none begins in what is skipped. -/
theorem mem_matchEnds_of_skip (h : Separate matchAt) :
    ∀ {as : List α} {position skip e : ℕ}, (∀ i < skip, matchAt (as.drop i) = none) →
      (e ∈ matchEnds matchAt position skip as ↔
        ∃ i n, matchAt (as.drop i) = some n ∧ e = position + i + n)
  | [], _, _, _, _ => by simp [matchEnds, h.nil]
  | a :: as, position, skip + 1, e, hskip => by
    have hnn := hskip 0 (by omega)
    rw [matchEnds, mem_matchEnds_of_skip h fun i hi => hskip (i + 1) (by omega)]
    constructor
    · rintro ⟨i, n, hmat, rfl⟩
      exact ⟨i + 1, n, hmat, by omega⟩
    · rintro ⟨_ | i, n, hmat, rfl⟩
      · exact absurd (hmat.symm.trans hnn) (by simp)
      · exact ⟨i, n, hmat, by omega⟩
  | a :: as, position, 0, e, hskip => by
    rw [matchEnds]
    split
    · rename_i n hn
      rw [List.mem_cons, mem_matchEnds_of_skip h fun i hi =>
        h.inside (a :: as) n (i + 1) hn (by omega) (by omega)]
      constructor
      · rintro (rfl | ⟨i, m, hmat, rfl⟩)
        · exact ⟨0, n, hn, by omega⟩
        · exact ⟨i + 1, m, hmat, by omega⟩
      · rintro ⟨_ | i, m, hmat, rfl⟩
        · obtain rfl := Option.some.inj (hn.symm.trans hmat)
          exact Or.inl (by omega)
        · exact Or.inr ⟨i, m, hmat, by omega⟩
    · rename_i hn
      rw [mem_matchEnds_of_skip h fun i hi => absurd hi (by omega)]
      constructor
      · rintro ⟨i, m, hmat, rfl⟩
        exact ⟨i + 1, m, hmat, by omega⟩
      · rintro ⟨_ | i, m, hmat, rfl⟩
        · exact absurd (hmat.symm.trans hn) (by simp)
        · exact ⟨i, m, hmat, by omega⟩

/-- **Every match is found.** -/
theorem mem_matchEnds_iff (h : Separate matchAt) {as : List α} {e : ℕ} :
    e ∈ matchEnds matchAt 0 0 as ↔ ∃ i n, matchAt (as.drop i) = some n ∧ e = i + n := by
  rw [mem_matchEnds_of_skip h fun i hi => absurd hi (by omega)]
  simp only [Nat.zero_add]

end ArchonSearch.Lib
