import Mathlib.Algebra.Order.Ring.Int
import ArchonSearch.Lib.Cut
import ArchonSearch.Lib.Greedy

/-!
# Batches of texts

`plan_batches` puts texts of similar length together: their indices are sorted by length, and a
batch grows as long as it holds at most `max_items`, and its size times the longest length – which
is that of the next text – stays within `token_budget`. A text that is longer than the budget gets
a batch of its own (`isPlan_of_planBatches`).

`map_in_token_batches` runs a function on the batches and puts the results back where the texts
were (`plans_and_aligns`).
-/

namespace ArchonSearch.TextBatching

open Lib List Option

/-! ### The plan -/

/-- `DEFAULT_TOKEN_BUDGET`. -/
def defaultTokenBudget : ℤ := 4096

/-- `DEFAULT_MAX_ITEMS`. -/
def defaultMaxItems : ℤ := 256

/-- `lengths[index]`. -/
def lengthAt (lengths : List ℤ) (index : ℕ) : ℤ := lengths.getD index 0

/-- `max(lengths[index] for index in batch)`. -/
def longest (lengths : List ℤ) : List ℕ → ℤ
  | [] => 0
  | index :: batch => batch.foldl (fun m i => max m (lengthAt lengths i)) (lengthAt lengths index)

/-- `len(batch) * max(lengths[index] for index in batch)`. -/
def paddedSize (lengths : List ℤ) (batch : List ℕ) : ℤ := batch.length * longest lengths batch

def isFull (lengths : List ℤ) (tokenBudget maxItems : ℤ) (current : List ℕ) (index : ℕ) : Bool :=
  -- in ascending order the candidate is the longest item of the batch
  let fits := decide ((current.length + 1) * lengthAt lengths index ≤ tokenBudget)
  !fits || decide ((current.length : ℤ) = maxItems)

/-- `plan_batches`. -/
def planBatches (lengths : List ℤ) (tokenBudget maxItems : ℤ) : Except String (List (List ℕ)) :=
  if tokenBudget ≤ 0 then .error s!"token_budget must be positive, got {tokenBudget}"
  else if maxItems ≤ 0 then .error s!"max_items must be positive, got {maxItems}"
  else
    .ok (groups (isFull lengths tokenBudget maxItems) []
      (sortBy (lengthAt lengths) (List.range lengths.length)))

/-- **A plan** of batches. -/
structure IsPlan (lengths : List ℤ) (tokenBudget maxItems : ℤ) (batches : List (List ℕ)) : Prop
    where
  perm : batches.flatten.Perm (List.range lengths.length)
  ne_nil : ∀ batch ∈ batches, batch ≠ []
  length_le : ∀ batch ∈ batches, (batch.length : ℤ) ≤ maxItems
  paddedSize_le : ∀ batch ∈ batches, 1 < batch.length → paddedSize lengths batch ≤ tokenBudget
  not_joinable : batches.IsChain fun batch next =>
    maxItems < (batch ++ next).length ∨ tokenBudget < paddedSize lengths (batch ++ next)

variable {lengths : List ℤ} {tokenBudget maxItems : ℤ} {batch : List ℕ}

theorem le_foldl_max {init : ℤ} : init ≤ batch.foldl (fun m i => max m (lengthAt lengths i)) init ∧
    ∀ i ∈ batch, lengthAt lengths i ≤ batch.foldl (fun m i => max m (lengthAt lengths i)) init := by
  induction batch generalizing init with
  | nil => exact ⟨le_rfl, fun i hi => absurd hi not_mem_nil⟩
  | cons j batch ih =>
    obtain ⟨hinit, hm⟩ := @ih (max init (lengthAt lengths j))
    refine ⟨(le_max_left _ _).trans hinit, fun i hi => ?_⟩
    rcases mem_cons.mp hi with rfl | hi
    · exact (le_max_right _ _).trans hinit
    · exact hm i hi

theorem foldl_max_le {init bound : ℤ} (hinit : init ≤ bound)
    (h : ∀ i ∈ batch, lengthAt lengths i ≤ bound) :
    batch.foldl (fun m i => max m (lengthAt lengths i)) init ≤ bound := by
  induction batch generalizing init with
  | nil => exact hinit
  | cons j batch ih =>
    obtain ⟨hj, h⟩ := forall_mem_cons.mp h
    exact ih (max_le hinit hj) h

variable {i : ℕ}

theorem le_longest (hi : i ∈ batch) : lengthAt lengths i ≤ longest lengths batch := by
  rcases batch with - | ⟨j, batch⟩
  · exact absurd hi not_mem_nil
  · rcases mem_cons.mp hi with rfl | hi
    · exact le_foldl_max.1
    · exact le_foldl_max.2 i hi

/-- The longest is no longer than what no item is longer than. -/
theorem longest_le {bound : ℤ} (hne : batch ≠ []) (h : ∀ i ∈ batch, lengthAt lengths i ≤ bound) :
    longest lengths batch ≤ bound := by
  rcases batch with - | ⟨j, batch⟩
  · exact absurd rfl hne
  · obtain ⟨hj, h⟩ := forall_mem_cons.mp h
    exact foldl_max_le hj h

theorem isFull_eq_false {current : List ℕ} {index : ℕ} :
    isFull lengths tokenBudget maxItems current index = false ↔
      (current.length + 1) * lengthAt lengths index ≤ tokenBudget ∧
        (current.length : ℤ) ≠ maxItems := by
  simp [isFull]

/-- What holds of a batch as it grows: it is not too long, and it has been checked with its last
item. -/
def Checked (lengths : List ℤ) (tokenBudget maxItems : ℤ) (batch : List ℕ) : Prop :=
  (batch.length : ℤ) ≤ maxItems ∧ ∀ last ∈ batch.getLast?, 1 < batch.length →
    batch.length * lengthAt lengths last ≤ tokenBudget

theorem checked_singleton (his : 0 < maxItems) (i : ℕ) :
    Checked lengths tokenBudget maxItems [i] := by
  refine ⟨?_, fun last _ hlen => absurd hlen (lt_irrefl 1)⟩
  simpa using Int.add_one_le_iff.mpr his

theorem Checked.append (h : Checked lengths tokenBudget maxItems batch)
    (hopen : isFull lengths tokenBudget maxItems batch i = false) :
    Checked lengths tokenBudget maxItems (batch ++ [i]) := by
  obtain ⟨hfits, hne⟩ := isFull_eq_false.mp hopen
  refine ⟨?_, fun last hl _ => ?_⟩
  · rw [length_append, length_singleton, Nat.cast_add, Nat.cast_one]
    exact Int.add_one_le_iff.mpr (lt_of_le_of_ne h.1 hne)
  · obtain rfl : i = last := by simpa using hl
    simpa using hfits

/-- In ascending order the last item is the longest. -/
theorem Checked.paddedSize_le (h : Checked lengths tokenBudget maxItems batch)
    (hsort : batch.Pairwise fun i j => lengthAt lengths i ≤ lengthAt lengths j)
    (hlen : 1 < batch.length) : paddedSize lengths batch ≤ tokenBudget := by
  have hne : batch ≠ [] := by
    rintro rfl
    exact absurd hlen (by decide)
  have hl : ∀ i ∈ batch, lengthAt lengths i ≤ lengthAt lengths (batch.getLast hne) := by
    intro i hi
    rw [← dropLast_append_getLast hne] at hi hsort
    rcases mem_append.mp hi with hi | hi
    · exact (pairwise_append.mp hsort).2.2 i hi _ (mem_singleton.mpr rfl)
    · rw [mem_singleton.mp hi]
  calc paddedSize lengths batch
      ≤ batch.length * lengthAt lengths (batch.getLast hne) :=
        mul_le_mul_of_nonneg_left (longest_le hne hl) (Int.natCast_nonneg _)
    _ ≤ tokenBudget := h.2 _ (getLast?_eq_getLast_of_ne_nil hne) hlen

/-- A batch that was finished before an item has no room for it. -/
theorem not_joinable_of_isFull {next : List ℕ} (hbud : 0 < tokenBudget)
    (hi : i ∈ next) (hfull : isFull lengths tokenBudget maxItems batch i = true) :
    maxItems < (batch ++ next).length ∨ tokenBudget < paddedSize lengths (batch ++ next) := by
  have hlen : (batch.length : ℤ) + 1 ≤ (batch ++ next).length := by
    have hpos := length_pos_of_mem hi
    rw [length_append]
    omega
  simp only [isFull, Bool.or_eq_true, Bool.not_eq_true', decide_eq_false_iff_not, not_le,
    decide_eq_true_eq] at hfull
  rcases hfull with hsize | his
  · have hpos : 0 < lengthAt lengths i := by
      by_contra hneg
      have hprod := mul_nonpos_of_nonneg_of_nonpos
        (by omega : (0 : ℤ) ≤ batch.length + 1) (not_lt.mp hneg)
      omega
    refine Or.inr (hsize.trans_le ?_)
    exact mul_le_mul hlen (le_longest (mem_append_right _ hi)) hpos.le (by omega)
  · exact Or.inl (by omega)

/-- **`plan_batches` plans.** -/
theorem isPlan_of_planBatches {batches : List (List ℕ)}
    (h : planBatches lengths tokenBudget maxItems = .ok batches) :
    IsPlan lengths tokenBudget maxItems batches := by
  unfold planBatches at h
  split_ifs at h with hbud his
  set sorted := sortBy (lengthAt lengths) (List.range lengths.length)
  have hflat : (groups (isFull lengths tokenBudget maxItems) [] sorted).flatten = [] ++ sorted :=
    flatten_groups _ _
  have hchain : (groups (isFull lengths tokenBudget maxItems) [] sorted).IsChain _ :=
    isChain_groups _ _
  have hchk : ∀ g ∈ groups (isFull lengths tokenBudget maxItems) [] sorted, g ≠ [] ∧
      Checked lengths tokenBudget maxItems g :=
    groups_invariant (checked_singleton (not_le.mp his)) (fun _ _ _ hg => hg.append)
      fun hne => absurd rfl hne
  rw [Except.ok.inj h] at hflat hchain hchk
  refine ⟨?_, fun b hb => (hchk b hb).1, fun b hb => (hchk b hb).2.1, fun b hb hlen => ?_,
    hchain.imp ?_⟩
  · exact hflat ▸ sortBy_perm _ _
  · refine (hchk b hb).2.paddedSize_le ?_ hlen
    have hsort : sorted.Pairwise _ := pairwise_sortBy _ _
    rw [← nil_append sorted, ← hflat] at hsort
    exact (pairwise_flatten.mp hsort).1 b hb
  · rintro b next ⟨i, hi, hfull⟩
    exact not_joinable_of_isFull (not_le.mp hbud) (mem_of_mem_head? hi) hfull

theorem exists_planBatches (lengths : List ℤ) (hbud : 0 < tokenBudget) (his : 0 < maxItems) :
    ∃ batches, planBatches lengths tokenBudget maxItems = .ok batches := by
  rw [planBatches, if_neg (not_le.mpr hbud), if_neg (not_le.mpr his)]
  exact ⟨_, rfl⟩

/-! ### Running the batches -/

section Run

variable {τ : Type}

/-- `results.update(pairs)`. -/
def update (results : ℕ → Option τ) (pairs : List (ℕ × τ)) : ℕ → Option τ :=
  pairs.foldl (fun results pair => Function.update results pair.1 (some pair.2)) results

/-- `zip(batch, found, strict=True)`. -/
def zipStrict (batch : List ℕ) (found : List τ) : Except String (List (ℕ × τ)) :=
  if found.length < batch.length then .error "zip() argument 2 is shorter than argument 1"
  else if batch.length < found.length then .error "zip() argument 2 is longer than argument 1"
  else .ok (batch.zip found)

structure Mapping (τ : Type) where
  results : ℕ → Option τ := fun _ => none
  /-- The batches after which `release_memory` was called. -/
  released : List (List ℕ) := []

def Mapping.add (lengths : List ℤ) (s : Mapping τ) (batch : List ℕ) (pairs : List (ℕ × τ)) :
    Mapping τ where
  results := update s.results pairs
  released := s.released ++ if defaultTokenBudget < paddedSize lengths batch then [batch] else []

/-- `[results[index] for index in …]`. -/
def readResults (results : ℕ → Option τ) (indices : List ℕ) : Except String (List τ) :=
  indices.mapM fun index =>
    match results index with
    | some r => .ok r
    | none => .error s!"KeyError: {index}"

def runBatches (lengths : List ℤ) (runBatch : List ℕ → List τ) (batches : List (List ℕ))
    (s : Mapping τ) : Except String (Mapping τ) :=
  batches.foldlM (fun s batch => do
    let pairs ← zipStrict batch (runBatch batch)
    return s.add lengths batch pairs) s

/-- `map_in_token_batches`, with the batches after which `release_memory` was called. -/
def mapInTokenBatches (lengths : List ℤ) (runBatch : List ℕ → List τ) :
    Except String (List τ × List (List ℕ)) := do
  let batches ← planBatches lengths defaultTokenBudget defaultMaxItems
  let s ← runBatches lengths runBatch batches {}
  let results ← readResults s.results (List.range lengths.length)
  return (results, s.released)

/-- **The results are aligned**: at each position is what the function has returned for it, at its
place in its batch. -/
def Aligned (batches : List (List ℕ)) (runBatch : List ℕ → List τ) (results : List τ) : Prop :=
  ∀ i r, results[i]? = some r ↔ ∃ batch ∈ batches, (i, r) ∈ batch.zip (runBatch batch)

variable {runBatch : List ℕ → List τ} {results : ℕ → Option τ} {pairs : List (ℕ × τ)}

theorem update_of_notMem {i : ℕ}
    (hi : i ∉ pairs.map Prod.fst) : update results pairs i = results i := by
  induction pairs generalizing results with
  | nil => rfl
  | cons pair pairs ih =>
    obtain ⟨hne, hi⟩ := not_or.mp (mt mem_cons.mpr hi)
    exact (ih hi).trans (Function.update_of_ne hne _ _)

/-- What is put in for distinct indices is found there. -/
theorem update_of_mem {i : ℕ} {r : τ}
    (hnd : (pairs.map Prod.fst).Nodup) (hm : (i, r) ∈ pairs) :
    update results pairs i = some r := by
  induction pairs generalizing results with
  | nil => exact absurd hm not_mem_nil
  | cons pair pairs ih =>
    obtain ⟨hfr, hnd⟩ := nodup_cons.mp hnd
    rcases mem_cons.mp hm with rfl | hm
    · exact (update_of_notMem hfr).trans (Function.update_self _ _ _)
    · exact ih hnd hm

theorem update_append (results : ℕ → Option τ) (pairs pairs' : List (ℕ × τ)) :
    update results (pairs ++ pairs') = update (update results pairs) pairs' :=
  foldl_append

/-- What the loop comes to, if every batch has as many results as items. -/
theorem runBatches_eq_ok (hr : ∀ batch, (runBatch batch).length = batch.length)
    (batches : List (List ℕ)) (s : Mapping τ) :
    runBatches lengths runBatch batches s = .ok {
      results := update s.results (batches.flatMap fun batch => batch.zip (runBatch batch))
      released := s.released ++
        batches.filter fun batch => decide (defaultTokenBudget < paddedSize lengths batch) } := by
  induction batches generalizing s with
  | nil =>
    rw [filter_nil, append_nil]
    rfl
  | cons batch batches ih =>
    have hzip : zipStrict batch (runBatch batch) = .ok (batch.zip (runBatch batch)) := by
      simp [zipStrict, hr]
    rw [runBatches, foldlM_cons, hzip]
    refine (ih (s.add lengths batch (batch.zip (runBatch batch)))).trans ?_
    simp only [Mapping.add, flatMap_cons, update_append, append_assoc,
      filter_cons, decide_eq_true_eq]
    split_ifs <;> rfl

theorem map_fst_zips (hr : ∀ batch, (runBatch batch).length = batch.length)
    (batches : List (List ℕ)) :
    (batches.flatMap fun batch => batch.zip (runBatch batch)).map Prod.fst = batches.flatten := by
  induction batches with
  | nil => rfl
  | cons batch batches ih =>
    rw [flatMap_cons, map_append, ih, map_fst_zip (hr batch).ge, flatten_cons]

theorem readResults_eq_ok {indices : List ℕ}
    (h : ∀ i ∈ indices, (results i).isSome) :
    ∃ found, readResults results indices = .ok found ∧ found.map some = indices.map results := by
  induction indices with
  | nil => exact ⟨[], rfl, rfl⟩
  | cons i indices ih =>
    obtain ⟨hi, h⟩ := forall_mem_cons.mp h
    obtain ⟨r, hr⟩ := isSome_iff_exists.mp hi
    obtain ⟨found, hfnd, hmap⟩ := ih h
    refine ⟨r :: found, ?_, by rw [map_cons, map_cons, hr, hmap]⟩
    unfold readResults at hfnd ⊢
    rw [mapM_cons, hr, hfnd]
    rfl

/-- **`map_in_token_batches` returns aligned results**, and releases memory after the batches that
are larger than the budget. -/
theorem mapInTokenBatches_eq_ok (lengths : List ℤ)
    (hr : ∀ batch, (runBatch batch).length = batch.length) :
    ∃ batches results, planBatches lengths defaultTokenBudget defaultMaxItems = .ok batches ∧
      mapInTokenBatches lengths runBatch = .ok (results,
        batches.filter fun batch => decide (defaultTokenBudget < paddedSize lengths batch)) ∧
      results.length = lengths.length ∧ Aligned batches runBatch results := by
  obtain ⟨batches, hbat⟩ := exists_planBatches lengths (by decide : 0 < defaultTokenBudget)
    (by decide : 0 < defaultMaxItems)
  have hplan := isPlan_of_planBatches hbat
  set pairs := batches.flatMap fun batch => batch.zip (runBatch batch) with hpairs
  have hks : pairs.map Prod.fst = batches.flatten := map_fst_zips hr batches
  have hnd : (pairs.map Prod.fst).Nodup :=
    hks ▸ hplan.perm.nodup_iff.mpr nodup_range
  have hput : ∀ i r, update (fun _ => none) pairs i = some r ↔ (i, r) ∈ pairs := by
    intro i r
    refine ⟨fun h => ?_, update_of_mem hnd⟩
    by_cases hi : i ∈ pairs.map Prod.fst
    · obtain ⟨⟨j, r'⟩, hm, rfl⟩ := List.mem_map.mp hi
      obtain rfl : r' = r := some.inj ((update_of_mem hnd hm).symm.trans h)
      exact hm
    · rw [update_of_notMem hi] at h
      cases h
  have hall : ∀ i ∈ List.range lengths.length, (update (fun _ => none) pairs i).isSome := by
    intro i hi
    have hi' : i ∈ pairs.map Prod.fst := hks ▸ hplan.perm.mem_iff.mpr hi
    obtain ⟨⟨j, r⟩, hm, rfl⟩ := List.mem_map.mp hi'
    exact isSome_iff_exists.mpr ⟨r, update_of_mem hnd hm⟩
  obtain ⟨results, hrs, hmap⟩ := readResults_eq_ok hall
  have hlen : results.length = lengths.length := by simpa using congrArg List.length hmap
  refine ⟨batches, results, hbat, ?_, hlen, fun i r => ?_⟩
  · unfold mapInTokenBatches
    rw [hbat]
    show (runBatches lengths runBatch batches {} >>= _) = _
    rw [runBatches_eq_ok hr]
    show (readResults (update _ pairs) _ >>= _) = _
    rw [hrs]
    rfl
  · have hm : (∃ batch ∈ batches, (i, r) ∈ batch.zip (runBatch batch)) ↔ (i, r) ∈ pairs := by
      rw [hpairs, mem_flatMap]
    rw [hm, ← hput]
    rcases lt_or_ge i lengths.length with hi | hi
    · have hg := congrArg (·[i]?) hmap
      simp only [getElem?_map, getElem?_range hi, map_some] at hg
      rw [getElem?_eq_getElem (hlen ▸ hi), map_some] at hg
      rw [getElem?_eq_getElem (hlen ▸ hi), ← some.inj hg]
    · have hout : i ∉ pairs.map Prod.fst := by
        rw [hks, hplan.perm.mem_iff, mem_range]
        omega
      rw [getElem?_eq_none (hlen ▸ hi), update_of_notMem hout]

/-- **Batches are plans, and results are aligned**: for all lengths, limits and functions. -/
theorem plans_and_aligns (lengths : List ℤ) :
    (∀ tokenBudget maxItems, 0 < tokenBudget → 0 < maxItems →
      ∃ batches, planBatches lengths tokenBudget maxItems = .ok batches ∧
        IsPlan lengths tokenBudget maxItems batches) ∧
    ∀ runBatch : List ℕ → List τ, (∀ batch, (runBatch batch).length = batch.length) →
      ∃ batches results released,
        planBatches lengths defaultTokenBudget defaultMaxItems = .ok batches ∧
        mapInTokenBatches lengths runBatch = .ok (results, released) ∧
        results.length = lengths.length ∧ Aligned batches runBatch results := by
  constructor
  · intro tokenBudget maxItems hbud his
    obtain ⟨batches, hbat⟩ := exists_planBatches lengths hbud his
    exact ⟨batches, hbat, isPlan_of_planBatches hbat⟩
  · intro runBatch hr
    obtain ⟨batches, results, hbat, hmap, hlen, halig⟩ :=
      mapInTokenBatches_eq_ok lengths hr
    exact ⟨batches, results, _, hbat, hmap, hlen, halig⟩

theorem plans_and_aligns_threeTexts :
    (∃ batches, planBatches [5, 1, 3] 6 2 = .ok batches ∧ IsPlan [5, 1, 3] 6 2 batches) ∧
      ∃ batches results released,
        planBatches [5, 1, 3] defaultTokenBudget defaultMaxItems = .ok batches ∧
        mapInTokenBatches [5, 1, 3] (List.map (10 * ·)) = .ok (results, released) ∧
        results.length = 3 ∧ Aligned batches (List.map (10 * ·)) results :=
  ⟨(plans_and_aligns (τ := ℕ) [5, 1, 3]).1 6 2 (by decide) (by decide),
    (plans_and_aligns (τ := ℕ) [5, 1, 3]).2 _ fun _ => length_map _⟩

end Run

end ArchonSearch.TextBatching
