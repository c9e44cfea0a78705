import Mathlib.Data.List.Sort

/-!
# Sorting, filtering and cutting

A stable sort may be done before a filter or after it (`filter_insertionSort`). A cut may not: what
is filtered out takes the place of what is not. It makes no difference exactly if nothing that is
filtered out stands before the cut, or nothing else behind it (`filter_take_iff`).

What is before the cut of a sorted list are its least entries (`rel_of_mem_take_of_mem_drop`):
where the keys are distinct, those that fewer entries precede than are kept
(`mem_take_sortBy_iff`).

A score decides what is shown if it orders it and nothing with a higher score is left out
(`DecidedBy`). The order of a key shows the same exactly if no score is lower than one that the key
puts behind it (`decidedBy_iff`).
-/

namespace ArchonSearch.Lib

open List

variable {α : Type*}

/-! ### Sorting -/

section Sorting

variable {r : α → α → Prop} [DecidableRel r] {p : α → Bool} {a : α}

theorem filter_orderedInsert_of_neg (ha : p a = false) (l : List α) :
    (l.orderedInsert r a).filter p = l.filter p := by
  induction l with
  | nil => exact filter_cons_of_neg (by simp [ha])
  | cons b l ih =>
    rw [orderedInsert_cons]
    split
    · exact filter_cons_of_neg (by simp [ha])
    · rw [filter_cons, filter_cons, ih]

variable {l : List α}

theorem orderedInsert_of_forall_rel (h : ∀ b ∈ l, r a b) :
    l.orderedInsert r a = a :: l := by
  cases l with
  | nil => rfl
  | cons b l => exact orderedInsert_cons_of_le r l (h b mem_cons_self)

theorem filter_orderedInsert_of_pos [IsTrans α r] (ha : p a = true)
    (hl : l.Pairwise r) :
    (l.orderedInsert r a).filter p = (l.filter p).orderedInsert r a := by
  induction l with
  | nil => exact filter_cons_of_pos ha
  | cons b l ih =>
    obtain ⟨hb, hl⟩ := pairwise_cons.mp hl
    rw [orderedInsert_cons]
    split
    · next hab =>
      have hall : ∀ c ∈ (b :: l).filter p, r a c := by
        intro c hc
        rcases mem_cons.mp (mem_of_mem_filter hc) with rfl | hc
        · exact hab
        · exact trans_of r hab (hb c hc)
      rw [orderedInsert_of_forall_rel hall, filter_cons_of_pos ha]
    · next hab =>
      cases hpb : p b with
      | true =>
        rw [filter_cons_of_pos hpb, filter_cons_of_pos hpb, orderedInsert_cons, if_neg hab, ih hl]
      | false =>
        have hnot : ¬ p b = true := by simp [hpb]
        rw [filter_cons_of_neg hnot, filter_cons_of_neg hnot, ih hl]

/-- **A stable sort commutes with a filter.** -/
theorem filter_insertionSort [Std.Total r] [IsTrans α r] (l : List α) :
    (l.insertionSort r).filter p = (l.filter p).insertionSort r := by
  induction l with
  | nil => rfl
  | cons a l ih =>
    rw [insertionSort_cons]
    cases ha : p a with
    | true =>
      rw [filter_orderedInsert_of_pos ha (pairwise_insertionSort r l), ih,
        filter_cons_of_pos ha, insertionSort_cons]
    | false =>
      rw [filter_orderedInsert_of_neg ha, ih, filter_cons_of_neg (by simp [ha])]

end Sorting

/-! ### Cutting -/

section Cutting

variable (p : α → Bool) (k : ℕ) (l : List α)

/-- **Nothing is displaced** by the cut: nothing that is filtered out stands before it, or nothing
else behind it. -/
def Undisplaced : Prop := (∀ a ∈ l.take k, p a = true) ∨ ∀ a ∈ l.drop k, p a = false

instance : Decidable (Undisplaced p k l) := inferInstanceAs (Decidable (_ ∨ _))

variable {p} {k} {l}

theorem filter_eq_append : l.filter p = (l.take k).filter p ++ (l.drop k).filter p := by
  rw [← filter_append, take_append_drop]

/-- **A cut commutes with a filter exactly if nothing is displaced.** -/
theorem filter_take_iff :
    (l.take k).filter p = (l.filter p).take k ↔ Undisplaced p k l := by
  have hlen : ((l.take k).filter p).length ≤ k :=
    (length_filter_le _ _).trans (length_take_le k l)
  rw [filter_eq_append (k := k) (l := l), take_append, take_of_length_le hlen, self_eq_append_right]
  constructor
  · intro h
    rcases take_eq_nil_iff.mp h with hfull | hnil
    · left
      -- as many are left as were kept
      have heq : ((l.take k).filter p).length = (l.take k).length := by
        have hle := length_filter_le p (l.take k)
        have htake := length_take_le k l
        omega
      exact filter_eq_self.mp (filter_sublist.eq_of_length heq)
    · right
      exact fun a ha => by simpa using filter_eq_nil_iff.mp hnil a ha
  · rintro (hall | hn)
    · have hkp : (l.take k).filter p = l.take k := filter_eq_self.mpr hall
      rw [hkp, length_take]
      by_cases hk : k ≤ l.length
      · rw [Nat.min_eq_left hk, Nat.sub_self, take_zero]
      · rw [drop_eq_nil_of_le (Nat.le_of_not_le hk)]
        simp
    · have hrs : (l.drop k).filter p = [] :=
        filter_eq_nil_iff.mpr fun a ha => by simp [hn a ha]
      rw [hrs, take_nil]

end Cutting

/-! ### The least entries -/

section Least

variable {κ : Type*} [LinearOrder κ] (key : α → κ)

/-- `sorted(l, key=key)`. -/
def sortBy (l : List α) : List α := l.insertionSort fun a b => key a ≤ key b

theorem sortBy_perm (l : List α) : (sortBy key l).Perm l := perm_insertionSort _ l

instance total_key : Std.Total fun a b : α => key a ≤ key b := ⟨fun a b => le_total (key a) (key b)⟩

instance isTrans_key : IsTrans α fun a b => key a ≤ key b := ⟨fun _ _ _ => le_trans⟩

theorem pairwise_sortBy (l : List α) : (sortBy key l).Pairwise fun a b => key a ≤ key b :=
  pairwise_insertionSort _ l

variable {key} {l : List α} {a : α} {k : ℕ}

/-- What is before the cut precedes what is behind it. -/
theorem rel_of_mem_take_of_mem_drop {r : α → α → Prop} (hl : l.Pairwise r)
    {b : α} (ha : a ∈ l.take k) (hb : b ∈ l.drop k) : r a b := by
  rw [← take_append_drop k l] at hl
  exact (pairwise_append.mp hl).2.2 a ha b hb

/-- The entries before an entry of a sorted list are those with smaller keys. -/
theorem mem_take_iff_of_pairwise_lt (hl : l.Pairwise fun a b => key a < key b) :
    a ∈ l.take k ↔ a ∈ l ∧ (l.filter fun b => key b < key a).length < k := by
  induction l generalizing k with
  | nil => simp
  | cons b l ih =>
    obtain ⟨hb, hl⟩ := pairwise_cons.mp hl
    cases k with
    | zero => simp
    | succ k =>
      rw [take_succ_cons, mem_cons, ih hl, mem_cons]
      constructor
      · rintro (rfl | ⟨ha, hlt⟩)
        · have hn : ((a :: l).filter fun b => key b < key a) = [] := by
            refine filter_eq_nil_iff.mpr fun c hc => ?_
            rw [decide_eq_true_eq, not_lt]
            rcases mem_cons.mp hc with rfl | hc
            · exact le_rfl
            · exact (hb c hc).le
          rw [hn]
          exact ⟨Or.inl rfl, Nat.succ_pos k⟩
        · rw [filter_cons_of_pos (by simpa using hb a ha), length_cons]
          exact ⟨Or.inr ha, Nat.succ_lt_succ hlt⟩
      · rintro ⟨rfl | ha, hlt⟩
        · exact Or.inl rfl
        · rw [filter_cons_of_pos (by simpa using hb a ha), length_cons] at hlt
          exact Or.inr ⟨ha, Nat.lt_of_succ_lt_succ hlt⟩

theorem pairwise_lt_sortBy (hl : (l.map key).Nodup) :
    (sortBy key l).Pairwise fun a b => key a < key b := by
  have hnd := pairwise_map.mp (((sortBy_perm key l).map key).nodup_iff.mpr hl)
  exact ((pairwise_sortBy key l).and hnd).imp fun h => lt_of_le_of_ne h.1 h.2

/-- **Distinct keys leave one order.** -/
theorem sortBy_eq_of_perm {l' : List α} (hl : (l.map key).Nodup) (h : l.Perm l') :
    sortBy key l = sortBy key l' := by
  have hl' : (l'.map key).Nodup := (h.map key).nodup_iff.mp hl
  have hp := (sortBy_perm key l).trans (h.trans (sortBy_perm key l').symm)
  have hirr : Std.Irrefl fun a b : α => key a < key b := ⟨fun a => lt_irrefl (key a)⟩
  exact (pairwise_lt_sortBy hl).eq_of_mem_iff (pairwise_lt_sortBy hl') fun _ => hp.mem_iff

/-- **An entry is kept if fewer entries precede it than are kept**, where the keys are distinct. -/
theorem mem_take_sortBy_iff (hl : (l.map key).Nodup) :
    a ∈ (sortBy key l).take k ↔ a ∈ l ∧ (l.filter fun b => key b < key a).length < k := by
  have hp := sortBy_perm key l
  rw [mem_take_iff_of_pairwise_lt (pairwise_lt_sortBy hl), hp.mem_iff, (hp.filter _).length_eq]

/-! ### What decides -/

/-- **A score decides** what is shown of a pool: what is shown is in the order of its scores, and
nothing that is left out has a higher one. -/
structure DecidedBy {σ : Type*} [LinearOrder σ] (score : α → σ) (pool out : List α) : Prop where
  mem : ∀ a ∈ out, a ∈ pool
  sorted : out.Pairwise fun a b => score b ≤ score a
  best : ∀ a ∈ out, ∀ b ∈ pool, b ∉ out → score b ≤ score a

variable {σ : Type*} [LinearOrder σ] {score : α → σ} {pool : List α}

/-- The score by which a pool is sorted decides what a cut leaves of it. -/
theorem decidedBy_take (h : pool.Pairwise fun a b => score b ≤ score a) (k : ℕ) :
    DecidedBy score pool (pool.take k) where
  mem _ ha := mem_of_mem_take ha
  sorted := h.sublist (take_sublist k pool)
  best a ha b hb hnot := by
    rw [← take_append_drop k pool, mem_append] at hb
    exact rel_of_mem_take_of_mem_drop h ha (hb.resolve_left hnot)

/-- **Another order decides as the score does** exactly if what it shows has no lower score than
what it puts behind. -/
theorem decidedBy_iff {out : List α} (hm : ∀ a ∈ out, a ∈ pool)
    (hsort : out.Pairwise fun a b => key a < key b)
    (hfst : ∀ a ∈ out, ∀ b ∈ pool, b ∉ out → key a < key b) :
    DecidedBy score pool out ↔ ∀ a ∈ out, ∀ b ∈ pool, key a < key b → score b ≤ score a := by
  constructor
  · intro h a ha b hb hlt
    by_cases hout : b ∈ out
    · have hsh : out.Pairwise fun a b => key a < key b → score b ≤ score a := by
        refine h.sorted.imp ?_
        intro a b hle _
        exact hle
      have hback : out.Pairwise fun a b => key b < key a → score a ≤ score b := by
        refine hsort.imp ?_
        intro a b hlt hgt
        exact absurd hgt hlt.asymm
      have hself : ∀ a ∈ out, key a < key a → score a ≤ score a := fun _ _ _ => le_rfl
      exact List.Pairwise.forall_of_forall_of_flip hself hsh hback ha hout hlt
    · exact h.best a ha b hb hout
  · intro h
    refine ⟨hm, ?_, fun a ha b hb hnot => h a ha b hb (hfst a ha b hb hnot)⟩
    exact hsort.imp_of_mem fun ha hb hlt => h _ ha _ (hm _ hb) hlt

/-- What has a lower score than something of the pool is shown after it. -/
theorem DecidedBy.sublist_of_lt {out : List α} (h : DecidedBy score pool out) {b : α}
    (ha : a ∈ pool) (hb : b ∈ out) (hlt : score b < score a) : [a, b].Sublist out := by
  have hsh : a ∈ out := by
    by_contra hnot
    exact absurd (h.best b hb a ha hnot) (not_le.mpr hlt)
  obtain ⟨before, after, rfl⟩ := append_of_mem hsh
  rcases mem_append.mp hb with hb | hb
  · exact absurd ((pairwise_append.mp h.sorted).2.2 b hb a mem_cons_self) (not_le.mpr hlt)
  · rcases mem_cons.mp hb with rfl | hb
    · exact absurd hlt (lt_irrefl _)
    · exact (cons_sublist_cons.mpr (singleton_sublist.mpr hb)).trans (sublist_append_right _ _)

theorem decidedBy_take_iff (hp : l.Perm pool)
    (hl : l.Pairwise fun a b => key a < key b) (k : ℕ) :
    DecidedBy score pool (l.take k) ↔ ∀ a ∈ pool, (pool.filter fun b => key b < key a).length < k →
      ∀ b ∈ pool, key a < key b → score b ≤ score a := by
  have hm (a : α) :
      a ∈ l.take k ↔ a ∈ pool ∧ (pool.filter fun b => key b < key a).length < k := by
    rw [mem_take_iff_of_pairwise_lt hl, hp.mem_iff, (hp.filter _).length_eq]
  rw [decidedBy_iff (fun a ha => ((hm a).mp ha).1) (hl.sublist (take_sublist k l))]
  · constructor
    · exact fun h a ha hlt => h a ((hm a).mpr ⟨ha, hlt⟩)
    · exact fun h a ha => h a ((hm a).mp ha).1 ((hm a).mp ha).2
  · intro a ha b hb hnot
    rw [← hp.mem_iff, ← take_append_drop k l, mem_append] at hb
    exact rel_of_mem_take_of_mem_drop hl ha (hb.resolve_left hnot)

/-- What is kept of a sorted list that is cut, filtered and cut again. -/
theorem decidedBy_take_filter_take_iff {all : List α} (hpm : l.Perm all)
    (hl : l.Pairwise fun a b => key a < key b) (p : α → Bool) (t k : ℕ) :
    DecidedBy score (all.filter p) (((l.take t).filter p).take k) ↔
      ∀ a ∈ all.filter p, (all.filter fun b => key b < key a).length < t →
        ((all.filter p).filter fun b => key b < key a).length < k →
          ∀ b ∈ all.filter p, key a < key b → score b ≤ score a := by
  have hkp := hl.sublist ((filter_sublist (p := p)).trans (take_sublist t l))
  have hbef {a : α} (ha : a ∈ l.take t) :
      (((l.take t).filter p).filter fun b => key b < key a).length =
        ((all.filter p).filter fun b => key b < key a).length := by
    -- nothing behind the cut precedes what is before it
    have hn : ((l.drop t).filter p).filter (fun b => key b < key a) = [] := by
      refine filter_eq_nil_iff.mpr fun b hb => ?_
      have hlt := rel_of_mem_take_of_mem_drop hl ha (mem_of_mem_filter hb)
      simpa using hlt.le
    have happ : (l.filter p).filter (fun b => key b < key a) =
        ((l.take t).filter p).filter fun b => key b < key a := by
      rw [filter_eq_append (k := t) (l := l), filter_append, hn, append_nil]
    rw [← happ, ((hpm.filter p).filter _).length_eq]
  have hm (a : α) : a ∈ ((l.take t).filter p).take k ↔ a ∈ all.filter p ∧
      (all.filter fun b => key b < key a).length < t ∧
        ((all.filter p).filter fun b => key b < key a).length < k := by
    rw [mem_take_iff_of_pairwise_lt hkp, mem_filter, mem_filter, ← hpm.mem_iff,
      ← (hpm.filter _).length_eq]
    constructor
    · rintro ⟨⟨hcut, hp⟩, hlt⟩
      have hl' := (mem_take_iff_of_pairwise_lt hl).mp hcut
      exact ⟨⟨hl'.1, hp⟩, hl'.2, hbef hcut ▸ hlt⟩
    · rintro ⟨⟨ha, hp⟩, ht, hlt⟩
      have hcut := (mem_take_iff_of_pairwise_lt hl).mpr ⟨ha, ht⟩
      exact ⟨⟨hcut, hp⟩, (hbef hcut).symm ▸ hlt⟩
  rw [decidedBy_iff (fun a ha => ((hm a).mp ha).1) (hkp.sublist (take_sublist k _))]
  · constructor
    · exact fun h a ha ht hk => h a ((hm a).mpr ⟨ha, ht, hk⟩)
    · intro h a ha
      obtain ⟨hpool, ht, hk⟩ := (hm a).mp ha
      exact h a hpool ht hk
  · intro a ha b hb hnot
    have hcut := mem_of_mem_filter (mem_of_mem_take ha)
    obtain ⟨hall, hp⟩ := mem_filter.mp hb
    rw [← hpm.mem_iff, ← take_append_drop t l, mem_append] at hall
    rcases hall with hbt | hbt
    · have hbk : b ∈ (l.take t).filter p := mem_filter.mpr ⟨hbt, hp⟩
      rw [← take_append_drop k ((l.take t).filter p), mem_append] at hbk
      exact rel_of_mem_take_of_mem_drop hkp ha (hbk.resolve_left hnot)
    · exact rel_of_mem_take_of_mem_drop hl hcut hbt

end Least

end ArchonSearch.Lib
