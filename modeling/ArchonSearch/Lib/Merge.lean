import Mathlib.Data.List.Lattice

/-!
# Rows written by key

A table is a list of rows, in the order a scan gives them, and a write is a list of changes which
each name a row by its key. `Merge` is what a table store says of such a write: the rows no change
names stay, the rows of a named key come from a change of that key, no stored key is lost and a
change that makes a row by itself is inserted when its key is new. It says nothing on which of
several changes of one key is taken, whether the table then has one row of the key or several, or
whether the write fails. `Merge.direct` is one such writer.

As a key may have several rows, a key **stores** a property when it has a row and all its rows have
the property (`Stores`). The rule for a write is `Merge.stores`, and `KeepsColumn` states that a
write keeps the values of a nullable column, which composes along writes (`KeepsColumn.trans`).
-/

namespace ArchonSearch.Lib

open List

variable {α β κ τ : Type*}

/-! ### What a key stores -/

/-- The key has a row, and all its rows satisfy `P`. -/
def Stores (key : α → κ) (t : List α) (k : κ) (P : α → Prop) : Prop :=
  k ∈ t.map key ∧ ∀ r ∈ t, key r = k → P r

theorem Stores.mono {key : α → κ} {t : List α} {k : κ} {P Q : α → Prop}
    (h : Stores key t k P) (hPQ : ∀ r ∈ t, key r = k → P r → Q r) : Stores key t k Q :=
  ⟨h.1, fun r hr hk => hPQ r hr hk (h.2 r hr hk)⟩

/-- A column keeps its values from one table to another: a key that stores values still
does, and each of them was stored or is one the key was given. -/
def KeepsColumn (key : α → κ) (get : α → Option τ) (given : κ → τ → Prop) (t t' : List α) : Prop :=
  ∀ k, Stores key t k (fun r => get r ≠ none) →
    Stores key t' k fun r' =>
      ∃ v, get r' = some v ∧ (given k v ∨ ∃ r ∈ t, key r = k ∧ get r = some v)

section KeepsColumn

variable {key : α → κ} {get : α → Option τ} {given given' : κ → τ → Prop} {t t' t'' : List α}

theorem KeepsColumn.refl (given : κ → τ → Prop) (t : List α) : KeepsColumn key get given t t := by
  intro k h
  refine h.mono fun r hr hk hne => ?_
  obtain ⟨v, hv⟩ := Option.ne_none_iff_exists'.mp hne
  exact ⟨v, hv, Or.inr ⟨r, hr, hk, hv⟩⟩

theorem KeepsColumn.mono (h : KeepsColumn key get given t t') (hg : ∀ k v, given k v → given' k v) :
    KeepsColumn key get given' t t' := by
  intro k hk
  refine (h k hk).mono fun r _ _ hv => ?_
  obtain ⟨v, hv, hfrom⟩ := hv
  exact ⟨v, hv, hfrom.imp_left (hg k v)⟩

/-- **What two writes keep one after the other, they keep together.** -/
theorem KeepsColumn.trans (h : KeepsColumn key get given t t')
    (h' : KeepsColumn key get given t' t'') : KeepsColumn key get given t t'' := by
  intro k hk
  have hmid := h k hk
  have hne : Stores key t' k fun r => get r ≠ none := by
    refine hmid.mono fun r _ _ hv => ?_
    obtain ⟨v, hv, -⟩ := hv
    exact Option.ne_none_iff_exists'.mpr ⟨v, hv⟩
  refine (h' k hne).mono fun r _ _ hv => ?_
  obtain ⟨v, hv, hgiv | ⟨r₁, hr₁, hk₁, hv₁⟩⟩ := hv
  · exact ⟨v, hv, Or.inl hgiv⟩
  · obtain ⟨w, hw, hfrom⟩ := hmid.2 r₁ hr₁ hk₁
    obtain rfl : w = v := Option.some.inj (hw.symm.trans hv₁)
    exact ⟨w, hv, hfrom⟩

end KeepsColumn

/-! ### Writing -/

variable [DecidableEq κ]

/-- A writer of rows by key. A change `b` names the key `keyOf b`, turns a row `r` of that key
into `update b r`, and is by itself the row `fresh b`, if any. -/
structure Merge (key : α → κ) (keyOf : β → κ) (update : β → α → α) (fresh : β → Option α) where
  run : List α → List β → Option (List α)
  unnamed : ∀ {t s t'}, run t s = some t' →
    (t'.filter fun r => key r ∉ s.map keyOf).Perm (t.filter fun r => key r ∉ s.map keyOf)
  named : ∀ {t s t'}, run t s = some t' → ∀ r' ∈ t', key r' ∈ s.map keyOf →
    ∃ b ∈ s, keyOf b = key r' ∧
      ((∃ r ∈ t, key r = key r' ∧ r' = update b r) ∨ key r' ∉ t.map key ∧ fresh b = some r')
  stays : ∀ {t s t'}, run t s = some t' → ∀ k ∈ t.map key, k ∈ t'.map key
  inserts : ∀ {t s t'}, run t s = some t' → ∀ b ∈ s, (fresh b).isSome → keyOf b ∈ t'.map key

namespace Merge

variable {key : α → κ} {keyOf : β → κ} {update : β → α → α} {fresh : β → Option α}
  {m : Merge key keyOf update fresh} {t t' : List α} {s : List β} {k : κ} {r : α}

/-- A row that no change names is there after the write just when it was before. -/
theorem mem_iff_of_unnamed (h : m.run t s = some t') (hr : key r ∉ s.map keyOf) :
    r ∈ t' ↔ r ∈ t := by
  have hp := (m.unnamed h).mem_iff (a := r)
  simpa only [mem_filter, hr, not_false_eq_true, decide_true, and_true] using hp

theorem unnamed_of_subset (h : m.run t s = some t') {ks : List κ}
    (hks : ∀ b ∈ s, keyOf b ∈ ks) :
    (t'.filter fun r => key r ∉ ks).Perm (t.filter fun r => key r ∉ ks) := by
  have hfil (l : List α) : (l.filter fun r => key r ∉ ks) =
      (l.filter fun r => key r ∉ s.map keyOf).filter fun r => key r ∉ ks := by
    rw [filter_filter]
    refine filter_congr fun r _ => ?_
    by_cases hr : key r ∈ ks
    · simp [hr]
    · have hs : key r ∉ s.map keyOf := by
        intro hm
        obtain ⟨b, hb, hbr⟩ := mem_map.mp hm
        exact hr (hbr ▸ hks b hb)
      simp [hr, hs]
  rw [hfil t, hfil t']
  exact (m.unnamed h).filter _

variable {P : α → Prop}

/-- What every row satisfies and every change keeps, every row satisfies after a write. -/
theorem forall_mem (h : m.run t s = some t') (ht : ∀ r ∈ t, P r)
    (hupd : ∀ b ∈ s, ∀ r ∈ t, P r → P (update b r))
    (hfr : ∀ b ∈ s, ∀ r, fresh b = some r → P r) : ∀ r ∈ t', P r := by
  intro r hr
  by_cases hnam : key r ∈ s.map keyOf
  · obtain ⟨b, hb, -, ⟨r₀, hr₀, -, rfl⟩ | ⟨-, hbr⟩⟩ := m.named h r hr hnam
    · exact hupd b hb r₀ hr₀ (ht r₀ hr₀)
    · exact hfr b hb r hbr
  · exact ht r ((mem_iff_of_unnamed h hnam).mp hr)

/-- **What a stored key stores after a write**: what it stored, if no change names it, and
else what the changes of the key make of its rows. -/
theorem stores (h : m.run t s = some t') (hk : k ∈ t.map key)
    (hold : k ∉ s.map keyOf → ∀ r ∈ t, key r = k → P r)
    (hw : ∀ b ∈ s, keyOf b = k → ∀ r ∈ t, key r = k → P (update b r)) :
    Stores key t' k P := by
  refine ⟨m.stays h k hk, fun r' hr' hkr' => ?_⟩
  by_cases hnam : key r' ∈ s.map keyOf
  · obtain ⟨b, hb, hbk, ⟨r, hr, hrk, rfl⟩ | ⟨hnot, -⟩⟩ := m.named h r' hr' hnam
    · exact hw b hb (hbk.trans hkr') r hr (hrk.trans hkr')
    · exact absurd (hkr' ▸ hk) hnot
  · exact hold (hkr' ▸ hnam) r' ((mem_iff_of_unnamed h hnam).mp hr') hkr'

/-- **A write keeps a column whose updates do**: a change of a key that stores values puts
one of them, or one the key is given, into each of its rows. -/
theorem kept {get : α → Option τ} {given : κ → τ → Prop} (h : m.run t s = some t')
    (hupd : ∀ b ∈ s, Stores key t (keyOf b) (fun r => get r ≠ none) →
      ∀ r ∈ t, key r = keyOf b → ∃ v, get (update b r) = some v ∧
        (given (keyOf b) v ∨ ∃ r ∈ t, key r = keyOf b ∧ get r = some v)) :
    KeepsColumn key get given t t' := by
  intro k hk
  refine stores h hk.1 (fun _ => ((KeepsColumn.refl given t) k hk).2) fun b hb hbk r hr hrk => ?_
  subst hbk
  exact hupd b hb hk r hr hrk

omit m in
/-- **What a key stores after whole rows are written**: rows that are written. -/
theorem stores_of_rows {w : Merge key key (fun new _ => new) some} {rows : List α}
    (h : w.run t rows = some t') (hk : k ∈ rows.map key) :
    Stores key t' k fun r => r ∈ rows := by
  obtain ⟨b, hb, rfl⟩ := mem_map.mp hk
  refine ⟨w.inserts h b hb rfl, fun r hr hkr => ?_⟩
  obtain ⟨b', hb', -, ⟨-, -, -, hrb⟩ | ⟨-, hrb⟩⟩ := w.named h r hr (hkr ▸ hk)
  · exact hrb ▸ hb'
  · exact Option.some.inj hrb ▸ hb'

/-! ### A writer -/

def updated (keyOf : β → κ) (update : β → α → α) (key : α → κ) (s : List β) (r : α) : α :=
  (s.reverse.find? fun b => keyOf b = key r).elim r fun b => update b r

omit [DecidableEq κ] in
theorem mem_map_reverse {b : β} (hb : b ∈ s.reverse) : keyOf b ∈ s.map keyOf :=
  mem_map_of_mem (mem_reverse.mp hb)

theorem updated_of_unnamed (h : key r ∉ s.map keyOf) :
    updated keyOf update key s r = r := by
  have hn : (s.reverse.find? fun b => keyOf b = key r) = none := by
    refine find?_eq_none.mpr fun b hb => ?_
    have hne : keyOf b ≠ key r := fun hbr => h (hbr ▸ mem_map_reverse hb)
    simpa using hne
  rw [updated, hn, Option.elim_none]

theorem updated_of_named (update : β → α → α) (h : key r ∈ s.map keyOf) :
    ∃ b ∈ s, keyOf b = key r ∧ updated keyOf update key s r = update b r := by
  cases hf : s.reverse.find? fun b => keyOf b = key r with
  | none =>
    obtain ⟨b, hb, hbk⟩ := mem_map.mp h
    have hne := find?_eq_none.mp hf b (mem_reverse.mpr hb)
    exact absurd hbk (by simpa using hne)
  | some b =>
    have hb : keyOf b = key r := by simpa using find?_some hf
    refine ⟨b, mem_reverse.mp (mem_of_find?_eq_some hf), hb, ?_⟩
    rw [updated, hf, Option.elim_some]

theorem key_updated (hupd : ∀ b r, key r = keyOf b → key (update b r) = key r) (s : List β)
    (r : α) : key (updated keyOf update key s r) = key r := by
  by_cases h : key r ∈ s.map keyOf
  · obtain ⟨b, -, hb, hr⟩ := updated_of_named update h
    rw [hr, hupd b r hb.symm]
  · rw [updated_of_unnamed h]

/-- The writer that takes the last of the changes of a stored key, and inserts every change
of a new one. -/
def direct (hupdate : ∀ b r, key r = keyOf b → key (update b r) = key r)
    (hfresh : ∀ b r, fresh b = some r → key r = keyOf b) : Merge key keyOf update fresh where
  run t s := some
    (t.map (updated keyOf update key s) ++ (s.filter fun b => keyOf b ∉ t.map key).filterMap fresh)
  unnamed {t s t'} h := by
    have hnew : ((s.filter fun b => keyOf b ∉ t.map key).filterMap fresh).filter
        (fun r => key r ∉ s.map keyOf) = [] := by
      refine filter_eq_nil_iff.mpr fun r hr => ?_
      obtain ⟨b, hb, hbr⟩ := mem_filterMap.mp hr
      have hmem : key r ∈ s.map keyOf :=
        hfresh b r hbr ▸ mem_map_of_mem (mem_of_mem_filter hb)
      simpa using hmem
    have hsame : ((fun r => decide (key r ∉ s.map keyOf)) ∘ updated keyOf update key s) =
        fun r => decide (key r ∉ s.map keyOf) := by
      funext r
      rw [Function.comp_apply, key_updated hupdate]
    cases h
    rw [filter_append, hnew, append_nil, filter_map, hsame]
    refine List.Perm.of_eq ((map_congr_left fun r hr => ?_).trans (map_id _))
    exact updated_of_unnamed (by simpa using (mem_filter.mp hr).2)
  named {t s t'} h r' hr' hnamed := by
    cases h
    rcases mem_append.mp hr' with hr' | hr'
    · obtain ⟨r, hr, rfl⟩ := mem_map.mp hr'
      have hkey := key_updated hupdate s r
      obtain ⟨b, hb, hbk, hbr⟩ := updated_of_named update (hkey ▸ hnamed)
      exact ⟨b, hb, hbk.trans hkey.symm, Or.inl ⟨r, hr, hkey.symm, hbr⟩⟩
    · obtain ⟨b, hb, hbr⟩ := mem_filterMap.mp hr'
      obtain ⟨hb, hnot⟩ := mem_filter.mp hb
      have hkey := hfresh b r' hbr
      exact ⟨b, hb, hkey.symm, Or.inr ⟨by simpa only [hkey] using of_decide_eq_true hnot, hbr⟩⟩
  stays {t s t'} h k hk := by
    cases h
    obtain ⟨r, hr, rfl⟩ := mem_map.mp hk
    exact mem_map.mpr ⟨_, mem_append_left _ (mem_map_of_mem hr), key_updated hupdate s r⟩
  inserts {t s t'} h b hb hsome := by
    cases h
    obtain ⟨r, hr⟩ := Option.isSome_iff_exists.mp hsome
    rw [map_append, mem_append]
    by_cases hk : keyOf b ∈ t.map key
    · obtain ⟨r, hr, hrb⟩ := mem_map.mp hk
      exact Or.inl (mem_map.mpr ⟨_, mem_map_of_mem hr, (key_updated hupdate s r).trans hrb⟩)
    · refine Or.inr (mem_map.mpr ⟨r, mem_filterMap.mpr ⟨b, ?_, hr⟩, hfresh b r hr⟩)
      exact mem_filter.mpr ⟨hb, decide_eq_true hk⟩

end Merge

end ArchonSearch.Lib
