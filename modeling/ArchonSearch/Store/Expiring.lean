import Mathlib.Data.Prod.Lex
import ArchonSearch.Lib.Pages
import ArchonSearch.Store.Expiry

/-!
# What will expire

`query_expiring_chunks` lists the chunks that expire within some time, by the time and then by
the chunk id, and a page at a time. The cursor is the pair of the last item of a page, written as
one text with two colons in between; the next page is selected by a predicate that compares the
pair.

The scan returns its rows in no order, and all of them as long as they are no more than the
ceiling; the rows are sorted after it. So a page is what the listing of all rows has after the
cursor (`queryExpiringChunks_eq_page`), whatever scan it is, and a client that follows the cursors
gets the listing (`queryExpiringChunks_follows`). A chunk id may contain two colons: the text is
split at the first ones, and a time contains none.
-/

namespace ArchonSearch.Store

open Py Lib

variable {π : Type}

/-! ### The query -/

structure ExpiringItem where
  (chunkId docId sourcePath : String)
  expiresAt : Option String

open ExpiringItem

/-- `select(["chunk_id", "doc_id", "source_path", "expires_at"])`. -/
def ExpiryRow.select (row : ExpiryRow π) : ExpiringItem :=
  ⟨row.chunkId, row.docId, row.sourcePath, row.expiresAt⟩

inductive ExpiringError where
  | valueError (message : String)
  /-- `OverflowError`, of a time after the year 9999. -/
  | overflowError
  /-- `IndexError`, of the last row of an empty page. -/
  | indexError

/-- `base_pred`. -/
def ExpiringItem.basePred (nowIso cutoffIso : String) (item : ExpiringItem) : Bool :=
  item.expiresAt.any fun e => decide (nowIso ≤ e) && decide (e ≤ cutoffIso)

/-- The part of the predicate that compares with the cursor; one without two colons is not looked
at. -/
def ExpiringItem.cursorPred (cursor : Option String) (item : ExpiringItem) : Bool :=
  match cursor.bind fun text => splitAtColons text.toList with
  | none => true
  | some (cursorExpiresAt, cursorChunkId) => item.expiresAt.any fun e =>
    decide (String.ofList cursorExpiresAt < e) ||
      (decide (e = String.ofList cursorExpiresAt) &&
        decide (String.ofList cursorChunkId < item.chunkId))

/-- `lambda r: (r["expires_at"] or "", r["chunk_id"])`. -/
def ExpiringItem.key (item : ExpiringItem) : String ×ₗ String :=
  toLex (item.expiresAt.getD "", item.chunkId)

def expiringCursor (key : String ×ₗ String) : String :=
  (ofLex key).1 ++ "::" ++ (ofLex key).2

/-- `query_expiring_chunks`. -/
def queryExpiringChunks (scan : BoundedScan π) (now : Stamp) (withinSeconds : ℤ) (limit : ℕ)
    (cursor : Option String) (table : Option (ExpiryTable π)) :
    Except ExpiringError (List ExpiringItem × Option String) :=
  if withinSeconds ≤ 0 then
    .error (.valueError s!"within_seconds must be positive, got {withinSeconds}")
  else match table with
    | none => .ok ([], none)
    | some table =>
      if table.hasExpiresAt = false then .ok ([], none)
      else match now.addSeconds withinSeconds with
        | none => .error .overflowError
        | some cutoff =>
          let found := scan.scan (table.rows.filter fun row =>
            row.select.basePred (normalizeIsoUtc now) (normalizeIsoUtc cutoff) &&
              row.select.cursorPred cursor) expiringScanCeiling
          let rows := (found.map ExpiryRow.select).insertionSort fun a b => a.key ≤ b.key
          if limit < rows.length then
            match (rows.take limit).getLast? with
            | none => .error .indexError
            | some last => .ok (rows.take limit, some (expiringCursor last.key))
          else .ok (rows, none)

/-! ### The listing -/

def expiringListing (nowIso cutoffIso : String) (rows : List (ExpiryRow π)) : List ExpiringItem :=
  ((rows.map ExpiryRow.select).filter fun item =>
    item.basePred nowIso cutoffIso).insertionSort fun a b => a.key ≤ b.key

variable {nowIso cutoffIso : String} {rows : List (ExpiryRow π)}

/-- A sorted list with distinct chunk ids is strictly sorted. -/
theorem pairwise_key_insertionSort {items : List ExpiringItem}
    (h : (items.map chunkId).Nodup) :
    (items.insertionSort fun a b => a.key ≤ b.key).Pairwise fun a b => a.key < b.key := by
  have hsort := items.pairwise_insertionSort fun a b => a.key ≤ b.key
  have hp := items.perm_insertionSort fun a b => a.key ≤ b.key
  have hids : (items.insertionSort fun a b => a.key ≤ b.key).Pairwise
      fun a b => a.chunkId ≠ b.chunkId := List.pairwise_map.mp ((hp.map _).nodup_iff.mpr h)
  refine (hsort.and hids).imp fun hab => lt_of_le_of_ne hab.1 fun heq => hab.2 ?_
  exact congrArg (fun key => (ofLex key).2) heq

theorem pairwise_expiringListing (h : (rows.map ExpiryRow.chunkId).Nodup) :
    (expiringListing nowIso cutoffIso rows).Pairwise fun a b => a.key < b.key := by
  refine pairwise_key_insertionSort (List.Nodup.sublist (List.filter_sublist.map _) ?_)
  rwa [List.map_map]

variable {item : ExpiringItem}

theorem mem_expiringListing :
    item ∈ expiringListing nowIso cutoffIso rows ↔
      (∃ row ∈ rows, row.select = item) ∧ item.basePred nowIso cutoffIso = true := by
  rw [expiringListing, List.mem_insertionSort, List.mem_filter, List.mem_map]

theorem exists_stamp_of_mem_listing
    (hstam : ∀ row ∈ rows, ∀ e ∈ row.expiresAt, ∃ t, e = normalizeIsoUtc t)
    (h : item ∈ expiringListing nowIso cutoffIso rows) :
    ∃ t, item.expiresAt = some (normalizeIsoUtc t) ∧
      nowIso ≤ normalizeIsoUtc t ∧ normalizeIsoUtc t ≤ cutoffIso := by
  obtain ⟨⟨row, hr, rfl⟩, hbase⟩ := mem_expiringListing.mp h
  obtain ⟨e, he, hwit⟩ := (Option.any_eq_true _ _).mp hbase
  obtain ⟨t, rfl⟩ := hstam row hr e he
  simp only [Bool.and_eq_true, decide_eq_true_eq] at hwit
  exact ⟨t, he, hwit⟩

/-! ### Cursors -/

/-- **A cursor splits into the pair that it was built from.** -/
theorem splitAtColons_expiringCursor {t : Stamp}
    (h : item.expiresAt = some (normalizeIsoUtc t)) :
    splitAtColons (expiringCursor item.key).toList =
      some ((normalizeIsoUtc t).toList, item.chunkId.toList) := by
  have htx : (expiringCursor item.key).toList =
      (normalizeIsoUtc t).toList ++ ':' :: ':' :: item.chunkId.toList := by
    rw [expiringCursor, key, h, String.toList_append, String.toList_append, List.append_assoc]
    rfl
  rw [htx, splitAtColons_normalizeIsoUtc]

/-- **The predicate selects what comes after the cursor.** -/
theorem cursorPred_eq {last : ExpiringItem} {t : Stamp} {e : String}
    (hl : last.expiresAt = some (normalizeIsoUtc t)) (hitem : item.expiresAt = some e) :
    item.cursorPred (some (expiringCursor last.key)) = decide (last.key < item.key) := by
  rw [cursorPred, Option.bind_some, splitAtColons_expiringCursor hl]
  simp only [String.ofList_toList, hitem, Option.any_some]
  rw [key, key, hl, hitem, Option.getD_some, Option.getD_some,
    ← Bool.decide_and, ← Bool.decide_or, decide_eq_decide, Prod.Lex.toLex_lt_toLex,
    @eq_comm _ e]

/-! ### Pages -/

section

variable {scan : BoundedScan π} {now cutoff : Stamp} {within : ℤ} {limit : ℕ}
  {table : ExpiryTable π}

/-- The rows that a fetch has sorted are what the listing has after the cursor. -/
theorem sorted_scan_eq (hids : (rows.map ExpiryRow.chunkId).Nodup)
    (hceil : (rows.filter fun row => row.select.basePred nowIso cutoffIso).length ≤
      expiringScanCeiling)
    {text : Option String} {cursor : Option (String ×ₗ String)}
    (hcur : ∀ item ∈ expiringListing nowIso cutoffIso rows,
      item.cursorPred text = cursor.all fun k => decide (k < item.key)) :
    ((scan.scan (rows.filter fun row => row.select.basePred nowIso cutoffIso &&
        row.select.cursorPred text) expiringScanCeiling).map ExpiryRow.select).insertionSort
          (fun a b => a.key ≤ b.key) =
      after key cursor (expiringListing nowIso cutoffIso rows) := by
  -- the scan has all the rows that match
  have hsplit : (rows.filter fun row => row.select.basePred nowIso cutoffIso &&
        row.select.cursorPred text) =
      (rows.filter fun row => row.select.basePred nowIso cutoffIso).filter
        fun row => row.select.cursorPred text := by
    rw [List.filter_filter]
    exact List.filter_congr fun row _ => Bool.and_comm _ _
  have hfew : (rows.filter fun row => row.select.basePred nowIso cutoffIso &&
      row.select.cursorPred text).length ≤ expiringScanCeiling := by
    rw [hsplit]
    exact (List.length_filter_le _ _).trans hceil
  have hscan : (scan.scan (rows.filter fun row => row.select.basePred nowIso cutoffIso &&
      row.select.cursorPred text) expiringScanCeiling).Perm
        (rows.filter fun row => row.select.basePred nowIso cutoffIso &&
          row.select.cursorPred text) := by
    refine (scan.subperm _ _).perm_of_length_le ?_
    rw [scan.length_eq, min_eq_right hfew]
  -- and so has the listing after the cursor
  have hlis : (after key cursor (expiringListing nowIso cutoffIso rows)).Perm
      ((rows.filter fun row => row.select.basePred nowIso cutoffIso &&
        row.select.cursorPred text).map ExpiryRow.select) := by
    have hfil : after key cursor (expiringListing nowIso cutoffIso rows) =
        (expiringListing nowIso cutoffIso rows).filter fun item => item.cursorPred text :=
      List.filter_congr fun item hitem => (hcur item hitem).symm
    rw [hfil, hsplit]
    refine ((List.perm_insertionSort _ _).filter _).trans (.of_eq ?_)
    rw [List.filter_map, List.filter_map]
    rfl
  have hnd : (((scan.scan (rows.filter fun row => row.select.basePred nowIso cutoffIso &&
      row.select.cursorPred text) expiringScanCeiling).map ExpiryRow.select).map
        chunkId).Nodup := by
    rw [List.map_map]
    exact ((hscan.map _).nodup_iff.mpr (List.Nodup.sublist (List.filter_sublist.map _) hids))
  exact List.Perm.eq_of_pairwise (fun a b _ _ hab hba => absurd (hab.trans hba) (lt_irrefl _))
    (pairwise_key_insertionSort hnd)
    ((pairwise_expiringListing hids).sublist (after_sublist _ cursor _))
    ((List.perm_insertionSort _ _).trans ((hscan.map _).trans hlis.symm))

/-- **What a fetch answers is a page of the listing**, whatever the scan is. -/
theorem queryExpiringChunks_eq_page (hwit : 0 < within)
    (hcut : now.addSeconds within = some cutoff) (hlim : 0 < limit)
    (hids : (table.rows.map ExpiryRow.chunkId).Nodup)
    (hstam : ∀ row ∈ table.rows, ∀ e ∈ row.expiresAt, ∃ t, e = normalizeIsoUtc t)
    (hceil : (table.rows.filter fun row =>
      row.select.basePred (normalizeIsoUtc now) (normalizeIsoUtc cutoff)).length ≤
        expiringScanCeiling)
    (cursor : Option (String ×ₗ String))
    (hcur : ∀ k ∈ cursor, ∃ item ∈ expiringListing (normalizeIsoUtc now)
      (normalizeIsoUtc cutoff) table.rows, item.key = k) :
    queryExpiringChunks scan now within limit (cursor.map expiringCursor) (some table) =
      .ok ((page key limit (after key cursor (expiringListing
          (normalizeIsoUtc now) (normalizeIsoUtc cutoff) table.rows))).1,
        (page key limit (after key cursor (expiringListing
          (normalizeIsoUtc now) (normalizeIsoUtc cutoff) table.rows))).2.map expiringCursor) := by
  have hpos : ¬ within ≤ 0 := not_le.mpr hwit
  cases hcol : table.hasExpiresAt with
  | false =>
    have hn :
        expiringListing (normalizeIsoUtc now) (normalizeIsoUtc cutoff) table.rows = [] := by
      refine List.eq_nil_iff_forall_not_mem.mpr fun item hitem => ?_
      obtain ⟨⟨row, hr, rfl⟩, hbase⟩ := mem_expiringListing.mp hitem
      rw [basePred, ExpiryRow.select, table.absent hcol row hr] at hbase
      cases hbase
    simp [queryExpiringChunks, hpos, hcol, hn, after, page]
  | true =>
    have hsel : ∀ item ∈ expiringListing (normalizeIsoUtc now) (normalizeIsoUtc cutoff)
        table.rows, item.cursorPred (cursor.map expiringCursor) =
          cursor.all fun k => decide (k < item.key) := by
      intro item hitem
      obtain ⟨t, ht, -⟩ := exists_stamp_of_mem_listing hstam hitem
      cases cursor with
      | none => rfl
      | some k =>
        obtain ⟨last, hl, rfl⟩ := hcur k rfl
        obtain ⟨u, hu, -⟩ := exists_stamp_of_mem_listing hstam hl
        exact cursorPred_eq hu ht
    have hrw := @sorted_scan_eq π _ _ _ scan hids hceil _ cursor hsel
    simp only [queryExpiringChunks, hpos, if_false, hcol, Bool.true_eq_false, hcut, hrw]
    split_ifs with hmore
    · obtain ⟨first, last, rest, -, htake, hpage⟩ :=
        page_eq_of_lt key hlim hmore
      simp [htake, hpage]
    · rw [page, if_neg hmore]
      rfl

end

/-! ### Following the cursors -/

/-- **Following the cursors gives what expires in the window**, each row once, by time and chunk
id; and a cursor splits into the pair that it was built from. -/
theorem queryExpiringChunks_follows {now cutoff : Stamp} {within : ℤ} {limit : ℕ}
    {table : ExpiryTable π} (hwithin : 0 < within)
    (hcutoff : now.addSeconds within = some cutoff) (hlimit : 0 < limit)
    (hids : (table.rows.map ExpiryRow.chunkId).Nodup)
    (hstamps : ∀ row ∈ table.rows, ∀ e ∈ row.expiresAt, ∃ t, e = normalizeIsoUtc t)
    (hceiling : (table.rows.filter fun row =>
      row.select.basePred (normalizeIsoUtc now) (normalizeIsoUtc cutoff)).length ≤
        expiringScanCeiling) :
    ∃ listing : List ExpiringItem,
      (∀ items, Follows (fun cursor page next => ∃ scan,
        queryExpiringChunks scan now within limit cursor (some table) = .ok (page, next)) none
          items ↔ items = listing) ∧
      (∀ row ∈ table.rows, row.select ∈ listing ↔
        ∃ t, row.expiresAt = some (normalizeIsoUtc t) ∧ now ≤ t ∧ t ≤ cutoff) ∧
      (∀ item ∈ listing, ∃ row ∈ table.rows, row.select = item) ∧
      (listing.map chunkId).Nodup ∧
      (listing.Pairwise fun a b => ∀ t u, a.expiresAt = some (normalizeIsoUtc t) →
        b.expiresAt = some (normalizeIsoUtc u) → t < u ∨ t = u ∧ a.chunkId < b.chunkId) ∧
      ∀ item ∈ listing, ∃ e, item.expiresAt = some e ∧
        splitAtColons (expiringCursor item.key).toList = some (e.toList, item.chunkId.toList) := by
  have hsort : (expiringListing (normalizeIsoUtc now) (normalizeIsoUtc cutoff)
    table.rows).Pairwise fun a b => a.key < b.key := pairwise_expiringListing hids
  refine ⟨expiringListing (normalizeIsoUtc now) (normalizeIsoUtc cutoff) table.rows,
    fun items => follows_iff_eq expiringCursor hsort hlimit fun cursor hcur page next => ?_,
    fun row hr => ?_, fun item hitem => (mem_expiringListing.mp hitem).1, ?_,
    hsort.imp fun hab t u ht hu => ?_, fun item hitem => ?_⟩
  · have hans (scan : BoundedScan π) := @queryExpiringChunks_eq_page π scan now cutoff within
      limit table hwithin hcutoff hlimit hids hstamps hceiling cursor hcur
    constructor
    · rintro ⟨scan, hpage⟩
      rw [hans scan] at hpage
      cases hpage
      exact ⟨rfl, rfl⟩
    · rintro ⟨rfl, rfl⟩
      exact ⟨firstRows, hans firstRows⟩
  · rw [mem_expiringListing, and_iff_right ⟨row, hr, rfl⟩, basePred, Option.any_eq_true]
    constructor
    · rintro ⟨e, he, hwithin⟩
      obtain ⟨t, rfl⟩ := hstamps row hr e he
      simp only [Bool.and_eq_true, decide_eq_true_eq, normalizeIsoUtc_le_iff] at hwithin
      exact ⟨t, he, hwithin⟩
    · rintro ⟨t, ht, hnow, hcut⟩
      refine ⟨normalizeIsoUtc t, ht, ?_⟩
      simp only [Bool.and_eq_true, decide_eq_true_eq, normalizeIsoUtc_le_iff]
      exact ⟨hnow, hcut⟩
  · refine (((List.perm_insertionSort _ _).map _).nodup_iff).mpr
      (List.Nodup.sublist (List.filter_sublist.map _) ?_)
    rwa [List.map_map]
  · rw [key, key, ht, hu, Option.getD_some, Option.getD_some,
      Prod.Lex.toLex_lt_toLex, normalizeIsoUtc_lt_iff] at hab
    exact hab.imp_right fun h => ⟨normalizeIsoUtc_injective h.1, h.2⟩
  · obtain ⟨t, ht, -⟩ := exists_stamp_of_mem_listing hstamps hitem
    exact ⟨_, ht, splitAtColons_expiringCursor ht⟩

theorem one_lt_hoursOfDay : 1 < 24 := by decide

def twoAtOnce : ExpiryTable Unit where
  rows := [⟨"a::b", "d", "d.md", some (normalizeIsoUtc (newYearAt 1 one_lt_hoursOfDay)), ()⟩,
    ⟨"a", "d", "d.md", some (normalizeIsoUtc (newYearAt 1 one_lt_hoursOfDay)), ()⟩]
  hasExpiresAt := true
  absent h := by cases h

theorem queryExpiringChunks_follows_twoAtOnce :
    ∃ listing : List ExpiringItem,
      (∀ items, Follows (fun cursor page next => ∃ scan, queryExpiringChunks scan
        (newYearAt 0 (by decide)) 3600 1 cursor (some twoAtOnce) = .ok (page, next)) none
          items ↔ items = listing) ∧
      ∀ row ∈ twoAtOnce.rows, row.select ∈ listing := by
  have hcut : (newYearAt 0 (by decide)).addSeconds 3600 = some (newYearAt 1 (by decide)) := by
    decide +kernel
  have hstam : ∀ row ∈ twoAtOnce.rows, row.expiresAt =
      some (normalizeIsoUtc (newYearAt 1 (by decide))) := by
    intro row hr
    simp only [twoAtOnce, List.mem_cons, List.not_mem_nil, or_false] at hr
    rcases hr with rfl | rfl <;> rfl
  have hsp : ∀ row ∈ twoAtOnce.rows, ∀ e ∈ row.expiresAt, ∃ t, e = normalizeIsoUtc t :=
    fun row hr e he => ⟨newYearAt 1 (by decide),
      (Option.some.inj ((hstam row hr).symm.trans he)).symm⟩
  obtain ⟨listing, hfol, hm, -⟩ := queryExpiringChunks_follows (by decide) hcut
    Nat.one_pos (by decide) hsp (List.length_filter_le _ _ |>.trans (by decide))
  exact ⟨listing, hfol, fun row hr => (hm row hr).mpr
    ⟨_, hstam row hr, by decide +kernel, le_refl _⟩⟩

end ArchonSearch.Store
