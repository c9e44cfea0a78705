import Mathlib.Data.List.Perm.Subperm
import ArchonSearch.Py.Iso

/-!
# Chunks that expire

A chunk may have a time at which it expires. `prune_expired_chunks` deletes what has expired: it
scans for expired rows, so many at most and in no order, deletes all the expired rows of the
documents that it has met, and asks of each of them whether a row is left; and so on until a scan
finds nothing.

A document is met once: all its expired rows go at the first scan that finds one of them. So the
rows that are deleted are those of the documents met so far, and a document that has been emptied is
known to be when it is met (`PruneState.Tracks`). Every scan meets a document, and there are only so
many expired rows, so the loop ends (`pruneExpiredChunks_exact`).

LanceDB is a parameter: a scan with a limit returns as many of the rows that match as the limit
allows (`BoundedScan`). Points in time are compared as the text that the table holds, as the
predicates of the queries do.
-/

namespace ArchonSearch.Store

open Py List

/-! ### Tables -/

/-- A row, by the columns that are read here; `π` are the others. -/
structure ExpiryRow (π : Type) where
  (chunkId docId sourcePath : String)
  expiresAt : Option String
  rest : π
  deriving DecidableEq

/-- A table of chunks; one of before the migration has no column `expires_at`. -/
structure ExpiryTable (π : Type) where
  rows : List (ExpiryRow π)
  /-- `"expires_at" in schema.names`. -/
  hasExpiresAt : Bool
  absent : hasExpiresAt = false → ∀ row ∈ rows, row.expiresAt = none

variable {π : Type}

/-- `table.query().where(…).limit(…)`, of the rows that match: as many of them as the limit
allows, any of them and in any order. -/
structure BoundedScan (π : Type) where
  scan : List (ExpiryRow π) → ℕ → List (ExpiryRow π)
  subperm : ∀ rows limit, (scan rows limit).Subperm rows
  length_eq : ∀ rows limit, (scan rows limit).length = min limit rows.length

/-- `_EXPIRING_SCAN_CEILING`. -/
def expiringScanCeiling : ℕ := 10000

/-! ### Pruning -/

/-- `expired_pred`. -/
def ExpiryRow.isExpired (nowUtcIso : String) (row : ExpiryRow π) : Bool :=
  row.expiresAt.any fun e => decide (e < nowUtcIso)

/-- `keys[key] = None`, of a dictionary that is used for its keys. -/
def setKey (keys : List String) (key : String) : List String :=
  if key ∈ keys then keys else keys ++ [key]

/-- The table and `fully_pruned_doc_ids` between two iterations. -/
structure PruneState (π : Type) where
  rows : List (ExpiryRow π)
  /-- `fully_pruned_doc_ids`. -/
  fullyPruned : List String

/-- `batch_doc_ids`. -/
def batchDocIds (scan : BoundedScan π) (nowUtcIso : String) (rows : List (ExpiryRow π)) :
    List String :=
  (scan.scan (rows.filter (·.isExpired nowUtcIso)) expiringScanCeiling).foldl
    (fun keys row => setKey keys row.docId) []

def pruneBatch (nowUtcIso : String) (batch : List String) (s : PruneState π) : PruneState π :=
  let rows := s.rows.filter fun row => !(row.isExpired nowUtcIso && decide (row.docId ∈ batch))
  { rows := rows
    fullyPruned := batch.foldl (fun pruned docId =>
      if rows.any fun row => row.docId = docId then pruned else setKey pruned docId) s.fullyPruned }

def pruneLoop (scans : ℕ → BoundedScan π) (nowUtcIso : String) :
    ℕ → ℕ → PruneState π → Option (PruneState π)
  | 0, _, _ => none
  | fuel + 1, iteration, s =>
    let batch := batchDocIds (scans iteration) nowUtcIso s.rows
    if batch = [] then some s
    else pruneLoop scans nowUtcIso fuel (iteration + 1) (pruneBatch nowUtcIso batch s)

/-- `prune_expired_chunks`, with a bound on its iterations: the rows it leaves, and what it
returns. -/
def pruneExpiredChunks (scans : ℕ → BoundedScan π) (nowUtcIso : String) (fuel : ℕ) :
    Option (ExpiryTable π) → Option (List (ExpiryRow π) × List String)
  | none => some ([], [])
  | some table =>
    if table.hasExpiresAt = false then some (table.rows, [])
    else (pruneLoop scans nowUtcIso fuel 0 ⟨table.rows, []⟩).map fun s => (s.rows, s.fullyPruned)

/-! ### Keys -/

variable {keys : List String} {k : String}

theorem mem_setKey {key : String} :
    k ∈ setKey keys key ↔ k ∈ keys ∨ k = key := by
  unfold setKey
  split_ifs with h
  · exact ⟨Or.inl, fun hk => hk.elim id fun heq => heq ▸ h⟩
  · rw [mem_append, mem_singleton]

theorem nodup_setKey (h : keys.Nodup) (key : String) :
    (setKey keys key).Nodup := by
  unfold setKey
  split_ifs with hm
  · exact h
  · exact nodup_append.mpr ⟨h, by simp, fun a ha b hb =>
      mem_singleton.mp hb ▸ fun heq => hm (heq ▸ ha)⟩

theorem mem_foldl_setKey (rows : List (ExpiryRow π)) :
    k ∈ rows.foldl (fun keys row => setKey keys row.docId) keys ↔
      k ∈ keys ∨ ∃ row ∈ rows, row.docId = k := by
  induction rows generalizing keys with
  | nil => simp
  | cons row rows ih =>
    rw [foldl_cons, ih, mem_setKey, exists_mem_cons_iff, or_assoc, @eq_comm _ k]

variable {batch : List String} {emptied : String → Bool} {pruned : List String}

/-- What is added of a batch: the documents of which no row is left. -/
theorem mem_foldl_emptied :
    k ∈ batch.foldl (fun pruned docId =>
        if emptied docId then pruned else setKey pruned docId) pruned ↔
      k ∈ pruned ∨ k ∈ batch ∧ emptied k = false := by
  induction batch generalizing pruned with
  | nil => simp
  | cons docId batch ih =>
    rw [foldl_cons, ih]
    cases hd : emptied docId with
    | true =>
      simp only [if_true, mem_cons]
      refine or_congr_right ⟨fun h => ⟨Or.inr h.1, h.2⟩, ?_⟩
      rintro ⟨rfl | hm, hk⟩
      · rw [hd] at hk
        cases hk
      · exact ⟨hm, hk⟩
    | false =>
      simp only [Bool.false_eq_true, if_false, mem_setKey, mem_cons]
      constructor
      · rintro ((h | rfl) | ⟨hm, hk⟩)
        · exact Or.inl h
        · exact Or.inr ⟨Or.inl rfl, hd⟩
        · exact Or.inr ⟨Or.inr hm, hk⟩
      · rintro (h | ⟨rfl | hm, hk⟩)
        · exact Or.inl (Or.inl h)
        · exact Or.inl (Or.inr rfl)
        · exact Or.inr ⟨hm, hk⟩

theorem nodup_foldl_emptied
    (h : pruned.Nodup) :
    (batch.foldl (fun pruned docId =>
      if emptied docId then pruned else setKey pruned docId) pruned).Nodup := by
  induction batch generalizing pruned with
  | nil => exact h
  | cons docId batch ih =>
    rw [foldl_cons]
    refine ih ?_
    split_ifs
    · exact h
    · exact nodup_setKey h docId

/-! ### Batches -/

variable {scan : BoundedScan π} {nowUtcIso : String} {rows : List (ExpiryRow π)}

theorem exists_expired_of_mem_batch {docId : String}
    (h : docId ∈ batchDocIds scan nowUtcIso rows) :
    ∃ row ∈ rows, row.isExpired nowUtcIso = true ∧ row.docId = docId := by
  obtain hn | ⟨row, hr, rfl⟩ := (mem_foldl_setKey _).mp h
  · exact absurd hn not_mem_nil
  · obtain ⟨hm, hexp⟩ := mem_filter.mp ((scan.subperm _ _).subset hr)
    exact ⟨row, hm, hexp, rfl⟩

/-- **A batch is empty only if nothing has expired.** -/
theorem not_expired_of_batch_nil (h : batchDocIds scan nowUtcIso rows = []) :
    ∀ row ∈ rows, row.isExpired nowUtcIso = false := by
  have hscan : scan.scan (rows.filter (·.isExpired nowUtcIso)) expiringScanCeiling = [] := by
    refine eq_nil_iff_forall_not_mem.mpr fun row hr => ?_
    have hm : row.docId ∈ batchDocIds scan nowUtcIso rows :=
      (mem_foldl_setKey _).mpr (Or.inr ⟨row, hr, rfl⟩)
    rw [h] at hm
    exact not_mem_nil hm
  have hlen := scan.length_eq (rows.filter (·.isExpired nowUtcIso)) expiringScanCeiling
  rw [hscan, length_nil, expiringScanCeiling] at hlen
  have hnil : rows.filter (·.isExpired nowUtcIso) = [] := length_eq_zero_iff.mp (by omega)
  exact fun row hr => by simpa using filter_eq_nil_iff.mp hnil row hr

/-! ### The loop -/

/-- What the state says of the rows at the start, by the documents that have been met. -/
structure PruneState.Tracks (nowUtcIso : String) (rows : List (ExpiryRow π)) (met : List String)
    (s : PruneState π) : Prop where
  rows_eq : s.rows = rows.filter fun row => !(row.isExpired nowUtcIso && decide (row.docId ∈ met))
  expired : ∀ docId ∈ met, ∃ row ∈ rows, row.isExpired nowUtcIso = true ∧ row.docId = docId
  pruned : ∀ docId, docId ∈ s.fullyPruned ↔ docId ∈ met ∧ ∀ row ∈ s.rows, row.docId ≠ docId
  nodup : s.fullyPruned.Nodup

variable {met : List String} {s : PruneState π}

/-- **A batch is met.** -/
theorem PruneState.Tracks.pruneBatch (h : s.Tracks nowUtcIso rows met)
    (hbat : ∀ docId ∈ batch, ∃ row ∈ s.rows, row.isExpired nowUtcIso = true ∧ row.docId = docId) :
    (Store.pruneBatch nowUtcIso batch s).Tracks nowUtcIso rows (met ++ batch) := by
  -- a document that has been met has no expired row
  have hd : ∀ row ∈ s.rows, row.docId ∈ met → row.isExpired nowUtcIso = false := by
    intro row hr hmet
    rw [h.rows_eq] at hr
    have hk := (mem_filter.mp hr).2
    simpa [hmet] using hk
  constructor
  case rows_eq =>
    simp only [Store.pruneBatch, h.rows_eq, filter_filter]
    refine filter_congr fun row _ => ?_
    by_cases hmet : row.docId ∈ met <;> by_cases hin : row.docId ∈ batch <;>
      cases row.isExpired nowUtcIso <;> simp [hmet, hin]
  case expired =>
    intro docId hdocId
    rcases mem_append.mp hdocId with hmet | hin
    · exact h.expired docId hmet
    · obtain ⟨row, hr, hexp, hdoc⟩ := hbat docId hin
      rw [h.rows_eq] at hr
      exact ⟨row, (mem_filter.mp hr).1, hexp, hdoc⟩
  case pruned =>
    intro docId
    have hleft : (∀ row ∈ (Store.pruneBatch nowUtcIso batch s).rows, row.docId ≠ docId) ↔
        (Store.pruneBatch nowUtcIso batch s).rows.any (fun row => row.docId = docId) = false := by
      simp [any_eq_false]
    have hkp (hmet : docId ∈ met) :
        (∀ row ∈ (Store.pruneBatch nowUtcIso batch s).rows, row.docId ≠ docId) ↔
          ∀ row ∈ s.rows, row.docId ≠ docId := by
      constructor
      · rintro hn row hr rfl
        refine hn row (mem_filter.mpr ⟨hr, ?_⟩) rfl
        simp [hd row hr hmet]
      · exact fun hn row hr => hn row (mem_filter.mp hr).1
    rw [mem_append, hleft]
    change docId ∈ batch.foldl _ _ ↔ _
    rw [mem_foldl_emptied, h.pruned docId]
    by_cases hmet : docId ∈ met
    · rw [← hkp hmet, hleft]
      simp only [hmet, true_and, true_or]
      exact or_iff_left_of_imp And.right
    · simp only [hmet, false_and, false_or]
      rfl
  case nodup => exact nodup_foldl_emptied h.nodup

theorem countP_pruneBatch_lt (hne : batch ≠ [])
    (hbat : ∀ docId ∈ batch, ∃ row ∈ s.rows, row.isExpired nowUtcIso = true ∧ row.docId = docId) :
    (Store.pruneBatch nowUtcIso batch s).rows.countP (·.isExpired nowUtcIso) <
      s.rows.countP (·.isExpired nowUtcIso) := by
  obtain ⟨docId, hdocId⟩ := exists_mem_of_ne_nil batch hne
  obtain ⟨row, hr, hexp, rfl⟩ := hbat docId hdocId
  rw [countP_eq_length_filter, countP_eq_length_filter]
  change ((s.rows.filter _).filter _).length < _
  rw [filter_comm]
  exact length_filter_lt_length_iff_exists.mpr
    ⟨row, mem_filter.mpr ⟨hr, hexp⟩, by simp [hexp, hdocId]⟩

/-- **The loop ends**, with as many iterations as there are expired rows, and one more; and then
nothing has expired. -/
theorem pruneLoop_ends {scans : ℕ → BoundedScan π} {fuel iteration : ℕ}
    (h : s.Tracks nowUtcIso rows met) (hfuel : s.rows.countP (·.isExpired nowUtcIso) < fuel) :
    ∃ s' met', pruneLoop scans nowUtcIso fuel iteration s = some s' ∧
      s'.Tracks nowUtcIso rows met' ∧ ∀ row ∈ s'.rows, row.isExpired nowUtcIso = false := by
  induction fuel generalizing iteration s met with
  | zero => exact absurd hfuel (Nat.not_lt_zero _)
  | succ fuel ih =>
    by_cases hbat : batchDocIds (scans iteration) nowUtcIso s.rows = []
    · refine ⟨s, met, ?_, h, not_expired_of_batch_nil hbat⟩
      simp [pruneLoop, hbat]
    have hmet : ∀ docId ∈ batchDocIds (scans iteration) nowUtcIso s.rows,
        ∃ row ∈ s.rows, row.isExpired nowUtcIso = true ∧ row.docId = docId :=
      fun docId => exists_expired_of_mem_batch
    have hless := countP_pruneBatch_lt hbat hmet
    have hes : ∃ s' met', pruneLoop scans nowUtcIso fuel (iteration + 1)
          (pruneBatch nowUtcIso (batchDocIds (scans iteration) nowUtcIso s.rows) s) = some s' ∧
        s'.Tracks nowUtcIso rows met' ∧ ∀ row ∈ s'.rows, row.isExpired nowUtcIso = false :=
      ih (h.pruneBatch hmet) (by omega)
    obtain ⟨s', met', heq, htrac, hn⟩ := hes
    refine ⟨s', met', ?_, htrac, hn⟩
    simp only [pruneLoop, hbat, if_false]
    exact heq

/-- **Pruning is exact, and ends**: what is left are the rows that have not expired, as they were,
and what is returned, without duplicates, are the documents that had an expired row and have no
row left. -/
theorem pruneExpiredChunks_exact (scans : ℕ → BoundedScan π) (now : Stamp) (table : ExpiryTable π)
    (fuel : ℕ) (hfuel : table.rows.countP (·.isExpired (normalizeIsoUtc now)) < fuel) :
    ∃ left returned,
      pruneExpiredChunks scans (normalizeIsoUtc now) fuel (some table) = some (left, returned) ∧
      left = table.rows.filter (fun row => !row.isExpired (normalizeIsoUtc now)) ∧
      (∀ row ∈ left, ∀ t, row.expiresAt = some (normalizeIsoUtc t) → now ≤ t) ∧
      returned.Nodup ∧
      ∀ docId, docId ∈ returned ↔
        (∃ row ∈ table.rows, row.isExpired (normalizeIsoUtc now) = true ∧ row.docId = docId) ∧
          ∀ row ∈ left, row.docId ≠ docId := by
  have hlat {row : ExpiryRow π} (hr : row.isExpired (normalizeIsoUtc now) = false) (t : Stamp)
      (ht : row.expiresAt = some (normalizeIsoUtc t)) : now ≤ t := by
    rw [ExpiryRow.isExpired, ht, Option.any_some, decide_eq_false_iff_not,
      normalizeIsoUtc_lt_iff] at hr
    exact not_lt.mp hr
  cases hcol : table.hasExpiresAt with
  | false =>
    have hn : ∀ row ∈ table.rows, row.isExpired (normalizeIsoUtc now) = false := by
      intro row hr
      rw [ExpiryRow.isExpired, table.absent hcol row hr]
      rfl
    refine ⟨table.rows, [], ?_, ?_, fun row hr => hlat (hn row hr), nodup_nil,
      fun docId => ⟨fun h => absurd h not_mem_nil, ?_⟩⟩
    · simp [pruneExpiredChunks, hcol]
    · exact (filter_eq_self.mpr fun row hr => by rw [hn row hr]; rfl).symm
    · rintro ⟨⟨row, hr, hexp, -⟩, -⟩
      rw [hn row hr] at hexp
      cases hexp
  | true =>
    have hst : (⟨table.rows, []⟩ : PruneState π).Tracks (normalizeIsoUtc now) table.rows [] :=
      ⟨(filter_eq_self.mpr fun row _ => by simp).symm, by simp, by simp, nodup_nil⟩
    obtain ⟨s, met, heq, htrac, hn⟩ := @pruneLoop_ends π _ _ _ _ scans fuel 0 hst hfuel
    -- the expired rows are those of the documents that were met
    have hmet : ∀ row ∈ table.rows, row.isExpired (normalizeIsoUtc now) = true →
        row.docId ∈ met := by
      intro row hr hexp
      by_contra hnot
      have hk : row ∈ s.rows := by
        rw [htrac.rows_eq]
        exact mem_filter.mpr ⟨hr, by simp [hnot]⟩
      rw [hn row hk] at hexp
      cases hexp
    have hleft : s.rows = table.rows.filter fun row => !row.isExpired (normalizeIsoUtc now) := by
      rw [htrac.rows_eq]
      refine filter_congr fun row hr => ?_
      cases hexp : row.isExpired (normalizeIsoUtc now) with
      | false => rfl
      | true => simp [hmet row hr hexp]
    refine ⟨s.rows, s.fullyPruned, ?_, hleft, fun row hr => hlat (hn row hr),
      htrac.nodup, fun docId => ?_⟩
    · simp [pruneExpiredChunks, hcol, heq]
    · rw [htrac.pruned docId]
      refine and_congr_left fun _ => ⟨htrac.expired docId, ?_⟩
      rintro ⟨row, hr, hexp, rfl⟩
      exact hmet row hr hexp

def firstRows : BoundedScan π where
  scan rows limit := rows.take limit
  subperm rows limit := (take_sublist limit rows).subperm
  length_eq _ _ := length_take

theorem zero_lt_sixty : 0 < 60 := by decide

theorem zero_lt_million : 0 < 1000000 := by decide

def newYearAt (hour : ℕ) (h : hour < 24) : Stamp where
  year := 2026
  month := 1
  day := 1
  hour := hour
  minute := 0
  second := 0
  microsecond := 0
  year_le := by decide
  month_le := by decide
  day_le := by decide
  hour_lt := h
  minute_lt := zero_lt_sixty
  second_lt := zero_lt_sixty
  microsecond_lt := zero_lt_million

def threeChunks : ExpiryTable Unit where
  rows := [⟨"c1", "old", "old.md", some (normalizeIsoUtc (newYearAt 1 (by decide))), ()⟩,
    ⟨"c2", "kept", "kept.md", some (normalizeIsoUtc (newYearAt 2 (by decide))), ()⟩,
    ⟨"c3", "kept", "kept.md", none, ()⟩]
  hasExpiresAt := true
  absent h := by cases h

/-- At noon the first document is emptied and the other one keeps a chunk. -/
theorem pruneExpiredChunks_exact_atNoon :
    ∃ left returned,
      pruneExpiredChunks (fun _ => firstRows) (normalizeIsoUtc (newYearAt 12 (by decide))) 3
        (some threeChunks) = some (left, returned) ∧
      left.map (·.chunkId) = ["c3"] ∧ returned.Nodup ∧ "old" ∈ returned ∧ "kept" ∉ returned := by
  have hcnt : threeChunks.rows.countP
      (·.isExpired (normalizeIsoUtc (newYearAt 12 (by decide)))) < 3 := by decide +kernel
  obtain ⟨left, returned, heq, hleft, -, hnd, hm⟩ := pruneExpiredChunks_exact
    (fun _ => firstRows) (newYearAt 12 (by decide)) threeChunks 3 hcnt
  have hrw : threeChunks.rows.filter
      (fun row => !row.isExpired (normalizeIsoUtc (newYearAt 12 (by decide)))) =
        [⟨"c3", "kept", "kept.md", none, ()⟩] := by decide +kernel
  refine ⟨left, returned, heq, by rw [hleft]; rfl, hnd, (hm "old").mpr ⟨?_, ?_⟩, fun h => ?_⟩
  · decide +kernel
  · rw [hleft]
    decide
  · refine ((hm "kept").mp h).2 ⟨"c3", "kept", "kept.md", none, ()⟩ ?_ rfl
    rw [hleft]
    exact mem_singleton_self _

end ArchonSearch.Store
