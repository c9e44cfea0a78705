import Mathlib.Data.Set.Function
import ArchonSearch.Lib.Keyed

/-!
# The first and the last value of a key

A list of values is read into a dictionary in one of two ways. Either a key that is present keeps
its value, as in a table that interns names (`interned`): then a value stands in the table exactly
if it is the first of its key. Or a later value replaces it (`ofList`): then of a list in two
parts, a key of the second part has its value from there (`mem_right_of_mem_ofList_append`).

A table of interned names has one value for each name exactly if the keys tell the names apart
(`existsUnique_name_iff`).
-/

namespace ArchonSearch.Lib.Keyed

open List Option

variable {α κ ν : Type*} {key : α → κ} [DecidableEq κ]

/-! ### The first value of a key -/

/-- `d.setdefault(key a, a)`: a key that is present keeps its value. -/
def setDefault (d : Keyed key) (a : α) : Keyed key :=
  if key a ∈ d.items.map key then d else d.insert a

theorem get?_setDefault (d : Keyed key) (a : α) (k : κ) :
    (d.setDefault a).get? k = (d.get? k).or (if key a = k then some a else none) := by
  unfold setDefault
  split_ifs with hm hk hk
  · obtain ⟨b, hb, hba⟩ := List.mem_map.mp hm
    rw [get?_eq_some_iff.mpr ⟨hb, hba.trans hk⟩, some_or]
  · rw [or_none]
  · have hn : d.get? k = none :=
      get?_eq_none_iff.mpr fun b hb hbk => hm (hk.trans hbk.symm ▸ List.mem_map_of_mem hb)
    rw [get?_insert, if_pos hk.symm, hn, none_or]
  · rw [get?_insert, if_neg fun h => hk h.symm, or_none]

/-- **The first value of a key is the one that is read.** -/
theorem get?_foldl_setDefault (l : List α) (d : Keyed key) (k : κ) :
    (l.foldl setDefault d).get? k = (d.get? k).or (l.find? fun a => key a = k) := by
  induction l generalizing d with
  | nil => exact or_none.symm
  | cons a l ih =>
    rw [foldl_cons, ih, get?_setDefault, Option.or_assoc]
    by_cases hk : key a = k
    · simp [hk]
    · simp [hk]

def interned (l : List α) : Keyed key := l.foldl setDefault empty

theorem get?_interned (l : List α) (k : κ) :
    (interned l : Keyed key).get? k = l.find? fun a => key a = k := by
  rw [interned, get?_foldl_setDefault]
  exact none_or

variable {l : List α} {a : α}

theorem mem_of_mem_interned (h : a ∈ (interned l : Keyed key)) : a ∈ l := by
  have hg := get?_key h
  rw [get?_interned] at hg
  exact mem_of_find?_eq_some hg

theorem exists_mem_interned (h : a ∈ l) :
    ∃ b ∈ (interned l : Keyed key), key b = key a := by
  cases hf : l.find? fun b => key b = key a with
  | none =>
    have hne := find?_eq_none.mp hf a h
    simp at hne
  | some b => exact ⟨b, get?_eq_some_iff.mp ((get?_interned l (key a)).trans hf)⟩

/-- Where the keys tell the values apart, none is left out. -/
theorem mem_interned_iff {l : List α} {a : α}
    (hinj : ∀ b ∈ l, ∀ c ∈ l, key b = key c → b = c) : a ∈ (interned l : Keyed key) ↔ a ∈ l := by
  refine ⟨mem_of_mem_interned, fun h => ?_⟩
  obtain ⟨b, hb, hba⟩ : ∃ b ∈ (interned l : Keyed key), key b = key a := exists_mem_interned h
  exact hinj b (mem_of_mem_interned hb) a h hba ▸ hb

variable {d : Keyed key}

omit [DecidableEq κ] in
/-- **One value for each name.** In a table that has the key of every name, and none but the keys
of its names, each name has one value exactly if no two names have the same key. -/
theorem existsUnique_name_iff {name : α → ν} {keyOf : ν → κ} {names : Set ν}
    (hnm : ∀ a ∈ d, name a ∈ names ∧ key a = keyOf (name a))
    (hk : ∀ n ∈ names, ∃ a ∈ d, key a = keyOf n) :
    (∀ n ∈ names, ∃! a, a ∈ d ∧ name a = n) ↔ Set.InjOn keyOf names := by
  constructor
  · intro hone m hm n hn hmn
    obtain ⟨a, ⟨ha, rfl⟩, -⟩ := hone m hm
    obtain ⟨b, ⟨hb, rfl⟩, -⟩ := hone n hn
    have hab : key a = key b := (hnm a ha).2.trans (hmn.trans (hnm b hb).2.symm)
    rw [eq_of_key_eq ha hb hab]
  · intro hinj n hn
    obtain ⟨a, ha, hak⟩ := hk n hn
    have han : name a = n := hinj (hnm a ha).1 hn ((hnm a ha).2.symm.trans hak)
    refine ⟨a, ⟨ha, han⟩, ?_⟩
    rintro b ⟨hb, rfl⟩
    exact eq_of_key_eq hb ha ((hnm b hb).2.trans hak.symm)

/-! ### The last value of a key -/

variable {r : List α}

/-- Where the keys tell the values apart, none is replaced by another one. -/
theorem mem_foldl_insert_iff {a : α}
    (hinj : ∀ b c, b ∈ d ∨ b ∈ r → c ∈ d ∨ c ∈ r → key b = key c → b = c) :
    a ∈ r.foldl insert d ↔ a ∈ d ∨ a ∈ r := by
  refine ⟨mem_of_mem_foldl_insert, fun h => ?_⟩
  obtain ⟨b, hb, hba⟩ := List.mem_map.mp (mem_keys_foldl_insert.mpr
    (h.imp (List.mem_map_of_mem (f := key)) (List.mem_map_of_mem (f := key))))
  exact hinj b a (mem_of_mem_foldl_insert hb) h hba ▸ hb

theorem exists_mem_ofList (h : a ∈ l) :
    ∃ b ∈ (ofList l : Keyed key), key b = key a :=
  List.mem_map.mp (mem_keys_foldl_insert.mpr (Or.inr (List.mem_map_of_mem h)))

/-- **What is written later stands.** -/
theorem mem_right_of_mem_ofList_append
    (h : a ∈ (ofList (l ++ r) : Keyed key)) (hk : key a ∈ r.map key) : a ∈ r := by
  rw [ofList, foldl_append] at h
  exact (mem_foldl_insert h).resolve_left fun hleft => hleft.2 hk

end ArchonSearch.Lib.Keyed
