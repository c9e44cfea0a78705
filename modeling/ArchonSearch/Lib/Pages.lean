import Mathlib.Data.List.Sort
import Mathlib.Data.List.TakeDrop

/-!
# Pages

A listing is sorted by a key, and comes in pages: so many rows after a cursor, and the key of the
last of them as the next cursor, as long as there are more (`page`). A client follows the cursors
until there is none (`Follows`).

If the keys are distinct and what a fetch answers is the page after its cursor, then a client gets
the rows of the listing, each once and in order (`follows_iff_eq`). The cursors may be written in
another form than the keys.
-/

namespace ArchonSearch.Lib

open List

variable {α κ σ : Type*} [LinearOrder κ] (key : α → κ)

def page (limit : ℕ) (rows : List α) : List α × Option κ :=
  if limit < rows.length then (rows.take limit, (rows.take limit).getLast?.map key)
  else (rows, none)

def after (cursor : Option κ) (rows : List α) : List α :=
  rows.filter fun row => cursor.all fun k => decide (k < key row)

inductive Follows (fetch : Option σ → List α → Option σ → Prop) : Option σ → List α → Prop where
  | last : ∀ {cursor items}, fetch cursor items none → Follows fetch cursor items
  | next : ∀ {cursor cursor' items rest}, fetch cursor items (some cursor') →
      Follows fetch (some cursor') rest → Follows fetch cursor (items ++ rest)

variable {key} {limit : ℕ} {rows : List α}

@[simp] theorem after_none (rows : List α) : after key none rows = rows :=
  filter_eq_self.mpr fun _ _ => rfl

variable {cursor : Option κ}

theorem mem_after {row : α} :
    row ∈ after key cursor rows ↔ row ∈ rows ∧ ∀ k ∈ cursor, k < key row := by
  simp [after, Option.all_eq_true]

variable (key) in
theorem after_sublist (cursor : Option κ) (rows : List α) : (after key cursor rows).Sublist rows :=
  filter_sublist

/-- **What comes after the last row of a page** is what the page has left. -/
theorem after_getLast {l first : List α} {last : α} {rest : List α} (hl : l = first ++ last :: rest)
    (hsort : l.Pairwise fun a b => key a < key b) : after key (some (key last)) l = rest := by
  subst hl
  obtain ⟨-, hrs, hcross⟩ := pairwise_append.mp hsort
  have hfst : after key (some (key last)) first = [] := by
    refine filter_eq_nil_iff.mpr fun row hr => ?_
    have hlt := hcross row hr last mem_cons_self
    simpa using hlt.le
  have haft : after key (some (key last)) rest = rest := by
    refine filter_eq_self.mpr fun row hr => ?_
    simpa using rel_of_pairwise_cons hrs hr
  unfold after at hfst haft ⊢
  rw [filter_append, hfst, nil_append, filter_cons_of_neg (by simp), haft]

/-- A later cursor leaves out what an earlier one does. -/
theorem after_after {k : κ} (hk : ∀ c ∈ cursor, c < k) :
    after key (some k) (after key cursor rows) = after key (some k) rows := by
  unfold after
  rw [filter_filter]
  refine filter_congr fun row _ => ?_
  cases cursor with
  | none => simp
  | some c =>
    have hlt : k < key row → c < key row := (hk c rfl).trans
    simpa using hlt

variable (key) in
omit [LinearOrder κ] in
/-- A page that is not the last one: its last row, and what is left. -/
theorem page_eq_of_lt (hlim : 0 < limit) (hmore : limit < rows.length) :
    ∃ first last rest, rows = first ++ last :: rest ∧ rows.take limit = first ++ [last] ∧
      page key limit rows = (first ++ [last], some (key last)) := by
  have hne : rows.take limit ≠ [] := by
    intro hnil
    rw [take_eq_nil_iff] at hnil
    rcases hnil with rfl | rfl
    · exact hlim.false
    · exact absurd hmore (Nat.not_lt_zero _)
  obtain ⟨first, last, htake⟩ := eq_nil_or_concat (rows.take limit) |>.resolve_left hne
  rw [concat_eq_append] at htake
  refine ⟨first, last, rows.drop limit, ?_, htake, ?_⟩
  · have hsplit := take_append_drop limit rows
    rw [htake, append_assoc] at hsplit
    exact hsplit.symm
  · simp [page, hmore, htake]

/-- **A client that follows the cursors gets the rows**, each once and in order. -/
theorem follows_iff_eq (encode : κ → σ) {fetch : Option σ → List α → Option σ → Prop}
    {items : List α} (hsort : rows.Pairwise fun a b => key a < key b) (hlim : 0 < limit)
    (hfet : ∀ cursor : Option κ, (∀ k ∈ cursor, ∃ row ∈ rows, key row = k) →
      ∀ items next, fetch (cursor.map encode) items next ↔
        items = (page key limit (after key cursor rows)).1 ∧
          next = (page key limit (after key cursor rows)).2.map encode) :
    Follows fetch none items ↔ items = rows := by
  have hfrom : ∀ (n : ℕ) (cursor : Option κ), (∀ k ∈ cursor, ∃ row ∈ rows, key row = k) →
      (after key cursor rows).length = n → ∀ items,
        Follows fetch (cursor.map encode) items ↔ items = after key cursor rows := by
    intro n
    induction n using Nat.strong_induction_on with
    | _ n ih =>
      intro cursor hcur hn items
      have hans := hfet cursor hcur
      have hleft := hsort.sublist (after_sublist key cursor rows)
      by_cases hmore : limit < (after key cursor rows).length
      · obtain ⟨first, last, rest, hrw, -, hpage⟩ := page_eq_of_lt key hlim hmore
        rw [hpage] at hans
        have hl : last ∈ after key cursor rows := by
          rw [hrw]
          exact mem_append_right _ mem_cons_self
        obtain ⟨hm, hlat⟩ := mem_after.mp hl
        have hrs : after key (some (key last)) rows = rest := by
          rw [← after_after hlat, after_getLast hrw hleft]
        have hx := ih rest.length (by rw [← hn, hrw]; simp; omega) (some (key last))
          (by simpa using ⟨last, hm, rfl⟩) (by rw [hrs])
        rw [hrs] at hx
        constructor
        · intro hfol
          cases hfol with
          | last hlastPage => cases ((hans _ _).mp hlastPage).2
          | next hpageOf hfol =>
            obtain ⟨rfl, hcur'⟩ := (hans _ _).mp hpageOf
            cases hcur'
            rw [(hx _).mp hfol, hrw, append_assoc]
            rfl
        · rintro rfl
          have hsplit : after key cursor rows = (first ++ [last]) ++ rest := by simp [hrw]
          rw [hsplit]
          exact .next ((hans _ _).mpr ⟨rfl, rfl⟩) ((hx _).mpr rfl)
      · have hpage : page key limit (after key cursor rows) = (after key cursor rows, none) :=
          if_neg hmore
        rw [hpage] at hans
        constructor
        · intro hfol
          cases hfol with
          | last hlastPage => exact ((hans _ _).mp hlastPage).1
          | next hpageOf _ => cases ((hans _ _).mp hpageOf).2
        · rintro rfl
          exact .last ((hans _ _).mpr ⟨rfl, rfl⟩)
  simpa using hfrom _ none (by simp) rfl items

end ArchonSearch.Lib
