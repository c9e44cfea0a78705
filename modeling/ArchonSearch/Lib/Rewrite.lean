import Mathlib.Data.List.Induction

/-!
# Rewriting the rows of a table one by one

A table is a list of rows, and rewriting it means to go through a list of rows and for each of them
delete every row with its key and append its new version. What the table holds when only the first
of them have been rewritten: under the keys not met yet the old rows (`mem_rewrite_of_notMem`),
under each key met so far one row (`eq_of_mem_rewrite`, `exists_mem_rewrite`), the new version of
one that was met (`exists_eq_of_mem_rewrite`).
-/

namespace ArchonSearch.Lib

open List

variable {α β κ : Type*} [DecidableEq κ] (key : β → κ) (source : α → κ) (new : α → β)

/-- Delete the rows with the key of `a`. -/
def deleteKey (rows : List β) (a : α) : List β := rows.filter fun b => key b ≠ source a

/-- Rewrite the rows `as`, one after the other. -/
def rewrite (rows : List β) (as : List α) : List β :=
  as.foldl (fun rows a => deleteKey key source rows a ++ [new a]) rows

theorem rewrite_concat (rows : List β) (as : List α) (a : α) :
    rewrite key source new rows (as ++ [a])
      = deleteKey key source (rewrite key source new rows as) a ++ [new a] := by
  simp [rewrite]

variable {key source} {rows : List β} {b : β}

theorem mem_deleteKey {a : α} :
    b ∈ deleteKey key source rows a ↔ b ∈ rows ∧ key b ≠ source a := by
  simp [deleteKey]

variable {new} (hnew : ∀ a, key (new a) = source a)

include hnew

variable {as : List α}

/-- The rows under the keys not met are the old ones. -/
theorem mem_rewrite_of_notMem
    (hb : key b ∉ as.map source) : b ∈ rewrite key source new rows as ↔ b ∈ rows := by
  induction as using List.reverseRecOn with
  | nil => rfl
  | append_singleton as a ih =>
    simp only [map_append, map_cons, map_nil, mem_append, mem_singleton, not_or] at hb
    have hne : b ≠ new a := by
      rintro rfl
      exact hb.2 (hnew a)
    simp [rewrite_concat, mem_deleteKey, ih hb.1, hb.2, hne]

/-- A row under a key met is the new version of a row that was met. -/
theorem exists_eq_of_mem_rewrite
    (hb : b ∈ rewrite key source new rows as) (hk : key b ∈ as.map source) :
    ∃ a ∈ as, source a = key b ∧ b = new a := by
  induction as using List.reverseRecOn with
  | nil => simp at hk
  | append_singleton as a ih =>
    simp only [rewrite_concat, mem_append, mem_deleteKey, mem_singleton] at hb
    rcases hb with ⟨hb, hne⟩ | rfl
    · have hk' : key b ∈ as.map source := by
        simpa [hne, or_comm, eq_comm] using hk
      obtain ⟨a', ha', hsrc, rfl⟩ := ih hb hk'
      exact ⟨a', mem_append_left _ ha', hsrc, rfl⟩
    · exact ⟨a, by simp, (hnew a).symm, rfl⟩

theorem exists_mem_rewrite {a : α} (ha : a ∈ as) :
    ∃ b ∈ rewrite key source new rows as, key b = source a := by
  induction as using List.reverseRecOn with
  | nil => simp at ha
  | append_singleton as a' ih =>
    simp only [rewrite_concat, mem_append, mem_deleteKey, mem_singleton]
    by_cases hk : source a = source a'
    · exact ⟨new a', .inr rfl, (hnew a').trans hk.symm⟩
    · have ha' : a ∈ as := by
        rcases mem_append.mp ha with ha | ha
        · exact ha
        · rw [mem_singleton.mp ha] at hk
          exact absurd rfl hk
      obtain ⟨b, hb, hb'⟩ := ih ha'
      exact ⟨b, .inl ⟨hb, by rwa [hb']⟩, hb'⟩

theorem eq_of_mem_rewrite {b' : β}
    (hb : b ∈ rewrite key source new rows as) (hb' : b' ∈ rewrite key source new rows as)
    (hk : key b ∈ as.map source) (heq : key b = key b') : b = b' := by
  induction as using List.reverseRecOn with
  | nil => simp at hk
  | append_singleton as a ih =>
    simp only [rewrite_concat, mem_append, mem_deleteKey, mem_singleton] at hb hb'
    rcases hb with ⟨hb, hne⟩ | rfl <;> rcases hb' with ⟨hb', hne'⟩ | rfl
    · refine ih hb hb' ?_
      simpa [hne, or_comm, eq_comm] using hk
    · exact absurd (heq.trans (hnew a)) hne
    · exact absurd (heq.symm.trans (hnew a)) hne'
    · rfl

end ArchonSearch.Lib
