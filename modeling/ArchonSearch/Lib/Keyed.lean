import Mathlib.Data.List.Nodup

/-!
# Dictionaries whose values carry their key

An insertion-ordered dictionary from keys to values that know their own key: a list of
values with pairwise distinct keys. Assigning to a key that is present replaces the
value where it stands, assigning to a new one appends – the order a Python `dict` keeps.

A dictionary is determined by its lookups, and each operation has one lookup lemma:
`Keyed.get?_insert`, `Keyed.get?_erase` and `Keyed.get?_filter`. Reading a list of values into an
empty dictionary gives the list back when its keys are distinct (`Keyed.items_ofList`).
-/

namespace ArchonSearch.Lib

open List

variable {α κ : Type*}

/-- A dictionary of values carrying their `key`. -/
structure Keyed (key : α → κ) where
  items : List α
  nodup : (items.map key).Nodup

namespace Keyed

variable {key : α → κ}

@[ext] theorem ext {d e : Keyed key} (h : d.items = e.items) : d = e := by
  cases d
  cases e
  simpa using h

instance : Membership α (Keyed key) := ⟨fun d a => a ∈ d.items⟩

variable {d : Keyed key} {a : α}

theorem mem_def : a ∈ d ↔ a ∈ d.items := Iff.rfl

instance [DecidableEq α] (d : Keyed key) (a : α) : Decidable (a ∈ d) :=
  inferInstanceAs (Decidable (a ∈ d.items))

/-- Two values of a dictionary with the same key are the same. -/
theorem eq_of_key_eq {a b : α} (ha : a ∈ d) (hb : b ∈ d) (h : key a = key b) :
    a = b :=
  inj_on_of_nodup_map d.nodup ha hb h

def empty : Keyed key := ⟨[], nodup_nil⟩

@[simp] theorem notMem_empty (a : α) : a ∉ (empty : Keyed key) := not_mem_nil

def filter (p : α → Bool) (d : Keyed key) : Keyed key :=
  ⟨d.items.filter p, d.nodup.sublist (filter_sublist.map key)⟩

@[simp] theorem mem_filter {p : α → Bool} :
    a ∈ d.filter p ↔ a ∈ d ∧ p a = true := List.mem_filter

theorem filter_comm (p q : α → Bool) (d : Keyed key) :
    (d.filter p).filter q = (d.filter q).filter p :=
  ext (List.filter_comm q p d.items)

/-- What is left of two dictionaries that have the same part. -/
theorem filter_filter_congr {p q q' : α → Bool} {d e : Keyed key} (h : d.filter p = e.filter p)
    (hq : ∀ a ∈ d, p a = true → q a = q' a) : (d.filter q).filter p = (e.filter q').filter p := by
  rw [filter_comm q, filter_comm q', ← h]
  refine ext (filter_congr fun a ha => ?_)
  obtain ⟨ha, hp⟩ := List.mem_filter.mp ha
  exact hq a ha hp

theorem filter_filter_of_imp {p q : α → Bool}
    (hq : ∀ a ∈ d, p a = true → q a = true) : (d.filter q).filter p = d.filter p := by
  rw [filter_comm]
  refine ext (filter_eq_self.mpr fun a ha => ?_)
  obtain ⟨ha, hp⟩ := List.mem_filter.mp ha
  exact hq a ha hp

def map (f : α → α) (hf : ∀ a, key (f a) = key a) (d : Keyed key) : Keyed key where
  items := d.items.map f
  nodup := by
    rw [map_map]
    have hkey : key ∘ f = key := funext hf
    rw [hkey]
    exact d.nodup

variable {f : α → α}

@[simp] theorem mem_map {hf : ∀ a, key (f a) = key a} {b : α} :
    b ∈ d.map f hf ↔ ∃ a ∈ d, f a = b := List.mem_map

variable [DecidableEq κ]

def get? (d : Keyed key) (k : κ) : Option α := d.items.find? fun a => key a = k

variable {k : κ}

theorem get?_eq_some_iff :
    d.get? k = some a ↔ a ∈ d ∧ key a = k := by
  constructor
  · intro h
    exact ⟨mem_of_find?_eq_some h, by simpa using find?_some h⟩
  · rintro ⟨ha, rfl⟩
    cases hf : d.items.find? fun b => key b = key a with
    | none =>
      have hne := find?_eq_none.mp hf a ha
      simp at hne
    | some b =>
      have hb : b ∈ d := mem_of_find?_eq_some hf
      have hk : key b = key a := by simpa using find?_some hf
      rw [get?, hf, eq_of_key_eq hb ha hk]

theorem get?_key (ha : a ∈ d) : d.get? (key a) = some a :=
  get?_eq_some_iff.mpr ⟨ha, rfl⟩

theorem get?_eq_none_iff : d.get? k = none ↔ ∀ a ∈ d, key a ≠ k := by
  simp [get?, mem_def]

/-- Lookups are determined by what is in the dictionary. -/
theorem get?_congr {d e : Keyed key} (h : ∀ a, key a = k → (a ∈ d ↔ a ∈ e)) :
    d.get? k = e.get? k := by
  ext a
  rw [get?_eq_some_iff, get?_eq_some_iff]
  constructor
  · rintro ⟨ha, hk⟩
    exact ⟨(h a hk).mp ha, hk⟩
  · rintro ⟨ha, hk⟩
    exact ⟨(h a hk).mpr ha, hk⟩

theorem get?_filter (p : α → Bool) (d : Keyed key) (k : κ) :
    (d.filter p).get? k = (d.get? k).filter p := by
  ext a
  rw [Option.filter_eq_some_iff, get?_eq_some_iff, get?_eq_some_iff, mem_filter]
  constructor
  · rintro ⟨⟨ha, hp⟩, hk⟩
    exact ⟨⟨ha, hk⟩, hp⟩
  · rintro ⟨⟨ha, hk⟩, hp⟩
    exact ⟨⟨ha, hp⟩, hk⟩

/-- `del d[k]`. -/
def erase (d : Keyed key) (k : κ) : Keyed key := d.filter fun a => key a ≠ k

theorem mem_erase : a ∈ d.erase k ↔ a ∈ d ∧ key a ≠ k := by
  simp [erase]

theorem get?_erase (d : Keyed key) (k k' : κ) :
    (d.erase k).get? k' = if k' = k then none else d.get? k' := by
  split_ifs with h
  · rw [get?_eq_none_iff]
    intro a ha hk
    exact (mem_erase.mp ha).2 (hk.trans h)
  · refine get?_congr fun a hk => ?_
    rw [mem_erase, hk]
    exact and_iff_left h

/-- The list after `d[key a] = a`. -/
def insertItems (key : α → κ) (a : α) (l : List α) : List α :=
  if key a ∈ l.map key then l.map fun b => if key b = key a then a else b else l ++ [a]

/-- `d[key a] = a`. -/
def insert (d : Keyed key) (a : α) : Keyed key where
  items := insertItems key a d.items
  nodup := by
    unfold insertItems
    split_ifs with h
    · have hkey : (key ∘ fun b => if key b = key a then a else b) = key := by
        funext b
        by_cases hb : key b = key a <;> simp [hb]
      rw [map_map, hkey]
      exact d.nodup
    · rw [map_append, map_singleton]
      refine nodup_append.mpr ⟨d.nodup, nodup_singleton _, ?_⟩
      intro x hx y hy
      rw [mem_singleton.mp hy]
      exact fun hxa => h (hxa ▸ hx)

theorem mem_insert {a b : α} :
    b ∈ d.insert a ↔ b = a ∨ b ∈ d ∧ key b ≠ key a := by
  simp only [mem_def, insert, insertItems]
  split_ifs with h
  · obtain ⟨c, hc, hk⟩ := List.mem_map.mp h
    constructor
    · intro hb
      obtain ⟨x, hx, rfl⟩ := List.mem_map.mp hb
      by_cases hxa : key x = key a
      · exact Or.inl (if_pos hxa)
      · rw [if_neg hxa]
        exact Or.inr ⟨hx, hxa⟩
    · rintro (rfl | ⟨hb, hne⟩)
      · exact List.mem_map.mpr ⟨c, hc, if_pos hk⟩
      · exact List.mem_map.mpr ⟨b, hb, if_neg hne⟩
  · rw [mem_append, mem_singleton]
    constructor
    · rintro (hb | rfl)
      · exact Or.inr ⟨hb, fun hba => h (hba ▸ mem_map_of_mem hb)⟩
      · exact Or.inl rfl
    · rintro (rfl | ⟨hb, -⟩)
      · exact Or.inr rfl
      · exact Or.inl hb

theorem get?_insert (d : Keyed key) (a : α) (k : κ) :
    (d.insert a).get? k = if k = key a then some a else d.get? k := by
  split_ifs with h
  · exact get?_eq_some_iff.mpr ⟨mem_insert.mpr (Or.inl rfl), h.symm⟩
  · refine get?_congr fun b hb => ?_
    rw [mem_insert]
    constructor
    · rintro (rfl | ⟨hbd, -⟩)
      · exact absurd hb.symm h
      · exact hbd
    · exact fun hbd => Or.inr ⟨hbd, fun hba => h (hb.symm.trans hba)⟩

theorem get?_map (f : α → α) (hf : ∀ a, key (f a) = key a) (d : Keyed key) (k : κ) :
    (d.map f hf).get? k = (d.get? k).map f := by
  ext b
  rw [get?_eq_some_iff, mem_map, Option.map_eq_some_iff]
  constructor
  · rintro ⟨⟨a, ha, rfl⟩, hk⟩
    exact ⟨a, get?_eq_some_iff.mpr ⟨ha, (hf a).symm.trans hk⟩, rfl⟩
  · rintro ⟨a, ha, rfl⟩
    obtain ⟨ha, hk⟩ := get?_eq_some_iff.mp ha
    exact ⟨⟨a, ha, rfl⟩, (hf a).trans hk⟩

/-! ### Reading a list -/

/-- The dictionary a list of values makes, a later value of a key replacing an earlier
one. -/
def ofList (l : List α) : Keyed key := l.foldl insert empty

theorem items_insert_of_notMem (h : key a ∉ d.items.map key) :
    (d.insert a).items = d.items ++ [a] := if_neg h

variable {l : List α}

theorem items_foldl_insert (h : ((d.items ++ l).map key).Nodup) :
    (l.foldl insert d).items = d.items ++ l := by
  induction l generalizing d with
  | nil => simp
  | cons a l ih =>
    have hnot : key a ∉ d.items.map key := by
      rw [map_append, map_cons] at h
      exact fun ha => (nodup_append.mp h).2.2 (key a) ha (key a) mem_cons_self rfl
    have his := items_insert_of_notMem hnot
    rw [foldl_cons, ih (by rw [his]; simpa using h), his]
    simp

/-- **A list with distinct keys is read back as it is.** -/
theorem items_ofList (h : (l.map key).Nodup) : (ofList l : Keyed key).items = l :=
  items_foldl_insert h

/-- A function that keeps the keys is applied before a list is read, or after. -/
theorem items_ofList_map (hf : ∀ a, key (f a) = key a) (l : List α) :
    (ofList (l.map f) : Keyed key).items = (ofList l : Keyed key).items.map f := by
  have hks (l : List α) : (l.map f).map key = l.map key := by
    rw [map_map]
    exact map_congr_left fun a _ => hf a
  have hins (a : α) (l : List α) :
      insertItems key (f a) (l.map f) = (insertItems key a l).map f := by
    unfold insertItems
    rw [hf, hks]
    split_ifs with hm
    · rw [map_map, map_map]
      refine map_congr_left fun b _ => ?_
      simp only [Function.comp_apply, hf]
      split <;> rfl
    · rw [map_append, map_singleton]
  have hfold : ∀ (l : List α) (d e : Keyed key), e.items = d.items.map f →
      ((l.map f).foldl insert e).items = (l.foldl insert d).items.map f := by
    intro l
    induction l with
    | nil => exact fun d e h => h
    | cons a l ih =>
      intro d e h
      refine ih (d.insert a) (e.insert (f a)) ?_
      exact (congrArg (insertItems key (f a)) h).trans (hins a d.items)
  exact hfold l empty empty rfl

/-- `d.update(...)`, for values with distinct keys. -/
theorem get?_foldl_insert (h : (l.map key).Nodup) (k : κ) :
    (l.foldl insert d).get? k = ((l.find? fun a => key a = k).or (d.get? k)) := by
  induction l generalizing d with
  | nil => rfl
  | cons a l ih =>
    obtain ⟨ha, hl⟩ := nodup_cons.mp h
    rw [foldl_cons, ih hl, get?_insert]
    by_cases hk : key a = k
    · have hn : l.find? (fun b => key b = k) = none := by
        rw [find?_eq_none]
        intro b hb
        have hne : key b ≠ k := fun hbk => ha (hk.trans hbk.symm ▸ mem_map_of_mem hb)
        simpa using hne
      simp [hn, hk]
    · have hk' : ¬k = key a := fun h => hk h.symm
      simp [hk, hk']

/-- A value of a dictionary that was updated is one of the new ones, or has none of their
keys. -/
theorem mem_foldl_insert (h : a ∈ l.foldl insert d) :
    a ∈ d ∧ key a ∉ l.map key ∨ a ∈ l := by
  induction l generalizing d with
  | nil => exact Or.inl ⟨h, not_mem_nil⟩
  | cons b l ih =>
    rcases ih h with ⟨hd, hk⟩ | hl
    · rcases mem_insert.mp hd with rfl | ⟨hd, hne⟩
      · exact Or.inr mem_cons_self
      · refine Or.inl ⟨hd, ?_⟩
        rw [map_cons, mem_cons, not_or]
        exact ⟨hne, hk⟩
    · exact Or.inr (mem_cons_of_mem b hl)

theorem mem_of_mem_foldl_insert (h : a ∈ l.foldl insert d) :
    a ∈ d ∨ a ∈ l :=
  (mem_foldl_insert h).imp_left And.left

/-- No key is lost by an update, and the new ones are there. -/
theorem mem_keys_foldl_insert :
    k ∈ (l.foldl insert d).items.map key ↔ k ∈ d.items.map key ∨ k ∈ l.map key := by
  induction l generalizing d with
  | nil => simp
  | cons b l ih =>
    have hins : k ∈ (d.insert b).items.map key ↔ k ∈ d.items.map key ∨ k = key b := by
      simp only [List.mem_map]
      constructor
      · rintro ⟨a, ha, rfl⟩
        rcases mem_insert.mp ha with rfl | ⟨hd, -⟩
        · exact Or.inr rfl
        · exact Or.inl ⟨a, hd, rfl⟩
      · rintro (⟨a, ha, rfl⟩ | rfl)
        · by_cases hk : key a = key b
          · exact ⟨b, mem_insert.mpr (Or.inl rfl), hk.symm⟩
          · exact ⟨a, mem_insert.mpr (Or.inr ⟨ha, hk⟩), rfl⟩
        · exact ⟨b, mem_insert.mpr (Or.inl rfl), rfl⟩
    rw [foldl_cons, ih, hins, map_cons, mem_cons, or_assoc]

theorem mem_foldl_insert_of_mem (h : (l.map key).Nodup)
    (ha : a ∈ l) : a ∈ l.foldl insert d := by
  refine (get?_eq_some_iff.mp (?_ : (l.foldl insert d).get? (key a) = some a)).1
  cases hf : l.find? fun b => key b = key a with
  | none =>
    have hne := find?_eq_none.mp hf a ha
    simp at hne
  | some b =>
    have hb : key b = key a := by simpa using find?_some hf
    rw [get?_foldl_insert h, hf, inj_on_of_nodup_map h (mem_of_find?_eq_some hf) ha hb]
    rfl

theorem mem_foldl_insert_of_notMem (ha : a ∈ d)
    (h : key a ∉ l.map key) : a ∈ l.foldl insert d := by
  induction l generalizing d with
  | nil => exact ha
  | cons b l ih =>
    rw [map_cons, mem_cons, not_or] at h
    exact ih (mem_insert.mpr (Or.inr ⟨ha, h.1⟩)) h.2

theorem mem_of_mem_ofList (h : a ∈ (ofList l : Keyed key)) : a ∈ l :=
  (mem_of_mem_foldl_insert h).resolve_left (notMem_empty a)

/-! ### Part of a dictionary -/

/-- A part that is told by its keys has the same values for them. -/
theorem get?_eq_of_filter_eq {p : κ → Bool} {d e : Keyed key}
    (h : (d.filter fun a => p (key a)) = e.filter fun a => p (key a))
    (hk : p k = true) : d.get? k = e.get? k := by
  refine get?_congr fun a ha => ?_
  have hm : a ∈ d.filter (fun a => p (key a)) ↔ a ∈ e.filter fun a => p (key a) := by rw [h]
  simpa only [mem_filter, ha, hk, and_true] using hm

theorem filter_insert (p : κ → Bool) (d : Keyed key) (a : α) :
    (d.insert a).filter (fun b => p (key b)) =
      if p (key a) then (d.filter fun b => p (key b)).insert a
      else d.filter fun b => p (key b) := by
  refine ext ?_
  have heq : ((fun b => p (key b)) ∘ fun b => if key b = key a then a else b) =
      fun b => p (key b) := by
    funext b
    by_cases hb : key b = key a <;> simp [hb]
  by_cases ha : p (key a) = true
  · rw [if_pos ha]
    have hm : key a ∈ (d.items.filter fun b => p (key b)).map key ↔
        key a ∈ d.items.map key := by
      simp only [List.mem_map, List.mem_filter]
      constructor
      · rintro ⟨b, ⟨hb, -⟩, hk⟩
        exact ⟨b, hb, hk⟩
      · rintro ⟨b, hb, hk⟩
        exact ⟨b, ⟨hb, by rw [hk, ha]⟩, hk⟩
    simp only [insert, insertItems, filter, hm]
    split_ifs
    · rw [filter_map, heq]
    · rw [filter_append, filter_singleton, ha, cond_true]
  · rw [if_neg ha]
    simp only [insert, insertItems, filter]
    split_ifs
    · rw [filter_map, heq]
      refine (map_congr_left fun b hb => ?_).trans (map_id _)
      refine if_neg fun hk => ha ?_
      rw [← hk]
      exact (List.mem_filter.mp hb).2
    · rw [filter_append, filter_singleton]
      simp [ha]

/-- **A part that is told by its keys** is updated with the values that belong to it. -/
theorem filter_foldl_insert (p : κ → Bool) (d : Keyed key) (l : List α) :
    (l.foldl insert d).filter (fun b => p (key b)) =
      (l.filter fun b => p (key b)).foldl insert (d.filter fun b => p (key b)) := by
  induction l generalizing d with
  | nil => rfl
  | cons a l ih =>
    rw [foldl_cons, ih, filter_insert, filter_cons]
    split_ifs
    · rfl
    · rfl

end Keyed

/-! ### Dictionaries of pairs -/

abbrev Dict (κ α : Type*) := Keyed (Prod.fst : κ × α → κ)

namespace Dict

variable [DecidableEq κ]

/-- `d.get(k)`. -/
def get (d : Dict κ α) (k : κ) : Option α := (d.get? k).map Prod.snd

variable {d : Dict κ α}

theorem get_eq_some_iff {k : κ} {a : α} :
    Dict.get d k = some a ↔ (k, a) ∈ d := by
  rw [get, Option.map_eq_some_iff]
  constructor
  · rintro ⟨⟨k', a'⟩, h, rfl⟩
    obtain ⟨hm, rfl⟩ := Keyed.get?_eq_some_iff.mp h
    exact hm
  · exact fun h => ⟨(k, a), Keyed.get?_eq_some_iff.mpr ⟨h, rfl⟩, rfl⟩

theorem get_eq_none_iff {k : κ} :
    Dict.get d k = none ↔ k ∉ d.items.map Prod.fst := by
  rw [Dict.get, Option.map_eq_none_iff, Keyed.get?_eq_none_iff, List.mem_map]
  constructor
  · rintro hn ⟨a, ha, hk⟩
    exact hn a ha hk
  · exact fun hn a ha hk => hn ⟨a, ha, hk⟩

@[simp] theorem get_empty (k : κ) : Dict.get (Keyed.empty : Dict κ α) k = none := rfl

theorem get_insert (d : Dict κ α) (k k' : κ) (a : α) :
    Dict.get (d.insert (k, a)) k' = if k' = k then some a else Dict.get d k' := by
  rw [get, Keyed.get?_insert]
  split_ifs
  · rfl
  · rfl

@[simp] theorem get_insert_self (d : Dict κ α) (k : κ) (a : α) :
    Dict.get (d.insert (k, a)) k = some a := by
  rw [get_insert, if_pos rfl]

theorem get_insert_of_ne (d : Dict κ α) {k k' : κ} (h : k' ≠ k) (a : α) :
    Dict.get (d.insert (k, a)) k' = Dict.get d k' := by
  rw [get_insert, if_neg h]

theorem get_erase (d : Dict κ α) (k k' : κ) :
    Dict.get (d.erase k) k' = if k' = k then none else Dict.get d k' := by
  rw [get, Keyed.get?_erase]
  split_ifs
  · rfl
  · rfl

end Dict

end ArchonSearch.Lib
