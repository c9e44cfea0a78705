import Mathlib.Data.Finset.Sort
import Mathlib.Data.String.Basic
import ArchonSearch.Lib.Keyed
import ArchonSearch.Lib.Pages
import ArchonSearch.Search.Filters

/-!
# Listing the documents

`list_documents` lists the documents of which a namespace may see a chunk, by doc id and a page at
a time. It reads so many rows of the table, fifty for each document of a page, and gathers the
documents from those. The rows are the first of the table, whatever the cursor is: each page is
gathered from the same rows. So a client that follows the cursors gets the documents of those rows
(`follows_listDocuments_iff`), and all documents only if each of them has a chunk there that may be
seen (`listsAll_iff`). The total is counted over the whole table.
-/

namespace ArchonSearch.Store

open Lib Search List

/-! ### The table -/

structure DocRow where
  (docId sourcePath indexedAt : String)
  (scopes acl : Option (List String))
  deriving DecidableEq

structure DocTable where
  rows : List DocRow
  /-- `"scopes" in tbl_schema.names`. -/
  hasScopesCol : Bool
  /-- `"acl" in tbl_schema.names`. -/
  hasAclCol : Bool

/-- `is_acl_allowed(decode_row_acl_fields(r)["acl"], namespace)`, of a row that has the column. -/
def DocTable.allows (table : DocTable) (ns : String) (row : DocRow) : Bool :=
  isAclAllowed (if table.hasAclCol then row.acl else none) ns

/-- `count_visible_documents`. -/
def countVisibleDocuments (table : DocTable) (ns : String) : ℕ :=
  ((table.rows.filter (table.allows ns)).map DocRow.docId).dedup.length

/-! ### The listing -/

/-- `_LIST_DOCUMENTS_MAX_LIMIT`. -/
def listDocumentsMaxLimit : ℤ := 1000

/-- `_DOCS_PREFETCH_MULTIPLIER`. -/
def docsPrefetchMultiplier : ℕ := 50

def clampLimit (limit : ℤ) : ℕ := (max 0 (min limit listDocumentsMaxLimit)).toNat

/-- An entry of `docs`, with its key. -/
structure DocEntry where
  /-- The key, `doc_id`. -/
  (docId sourcePath indexedAt : String)
  chunkCount : ℕ
  scopesSet : Finset String

open DocEntry

/-- `DocumentInfo`. -/
structure DocumentInfo where
  (docId sourcePath : String)
  chunkCount : ℕ
  indexedAt : String
  scopes : List String

theorem isTrans_le : IsTrans String LE.le := inferInstance

theorem antisymm_le : @Std.Antisymm String LE.le := inferInstance

/-- `DocumentInfo(…)`, of an entry. -/
def DocEntry.info (entry : DocEntry) : DocumentInfo where
  docId := entry.docId
  sourcePath := entry.sourcePath
  chunkCount := entry.chunkCount
  indexedAt := entry.indexedAt
  scopes := @Finset.sort _ entry.scopesSet LE.le _ isTrans_le antisymm_le _

def addRow (hasScopesCol : Bool) (docs : Keyed docId) (row : DocRow) :
    Keyed docId :=
  let entry := (docs.get? row.docId).getD ⟨row.docId, row.sourcePath, row.indexedAt, 0, ∅⟩
  docs.insert
    { docId := row.docId
      sourcePath := entry.sourcePath
      indexedAt := entry.indexedAt
      chunkCount := entry.chunkCount + 1
      scopesSet := if hasScopesCol then entry.scopesSet ∪ (row.scopes.getD []).toFinset
        else entry.scopesSet }

def sortedDocs (table : DocTable) (ns : String) (rows : List DocRow) : List DocEntry :=
  let docs := (rows.filter (table.allows ns)).foldl (addRow table.hasScopesCol) Keyed.empty
  docs.items.insertionSort fun a b => a.docId ≤ b.docId

/-- `list_documents`: the page, the next cursor and the total. A schema that cannot be read lists
nothing. -/
def listDocuments (table : Option DocTable) (schemaReads : Bool) (ns : String) (limit : ℤ)
    (cursor : Option String) : List DocumentInfo × Option String × ℕ :=
  match table with
  | none => ([], none, 0)
  | some table =>
    if schemaReads = false then ([], none, 0)
    else
      let limit := clampLimit limit
      let docs := sortedDocs table ns (table.rows.take (limit * docsPrefetchMultiplier))
      let docs := match cursor with
        | none => docs
        | some cursor => docs.filter fun entry => cursor < entry.docId
      let total := countVisibleDocuments table ns
      if limit < docs.length then
        ((docs.take limit).map info, (docs.take limit).getLast?.map docId, total)
      else (docs.map info, none, total)

/-! ### The documents of some rows -/

variable {table : DocTable} {ns : String} {rows : List DocRow} {docId : String}
  {docs : Keyed DocEntry.docId} {hasScopesCol : Bool}

theorem mem_keys_addRow {row : DocRow} :
    docId ∈ (addRow hasScopesCol docs row).items.map DocEntry.docId ↔
      docId ∈ docs.items.map DocEntry.docId ∨ row.docId = docId := by
  simp only [mem_map]
  constructor
  · rintro ⟨entry, hent, rfl⟩
    rcases Keyed.mem_insert.mp hent with rfl | ⟨hold, -⟩
    · exact Or.inr rfl
    · exact Or.inl ⟨entry, hold, rfl⟩
  · rintro (⟨entry, hent, rfl⟩ | rfl)
    · by_cases heq : entry.docId = row.docId
      · exact ⟨_, Keyed.mem_insert.mpr (Or.inl rfl), heq.symm⟩
      · exact ⟨entry, Keyed.mem_insert.mpr (Or.inr ⟨hent, heq⟩), rfl⟩
    · exact ⟨_, Keyed.mem_insert.mpr (Or.inl rfl), rfl⟩

theorem mem_keys_foldl_addRow :
    docId ∈ (rows.foldl (addRow hasScopesCol) docs).items.map DocEntry.docId ↔
      docId ∈ docs.items.map DocEntry.docId ∨ ∃ row ∈ rows, row.docId = docId := by
  induction rows generalizing docs with
  | nil => simp
  | cons row rows ih =>
    rw [foldl_cons, ih, mem_keys_addRow, exists_mem_cons_iff, or_assoc]

/-- The documents are those of the rows that are allowed. -/
theorem mem_docIds_sortedDocs :
    docId ∈ (sortedDocs table ns rows).map DocEntry.docId ↔
      ∃ row ∈ rows, table.allows ns row = true ∧ row.docId = docId := by
  rw [sortedDocs, ((perm_insertionSort _ _).map _).mem_iff, mem_keys_foldl_addRow]
  simp [Keyed.empty, and_assoc]

theorem pairwise_sortedDocs :
    (sortedDocs table ns rows).Pairwise fun a b => a.docId < b.docId := by
  have hnd : ((sortedDocs table ns rows).map docId).Nodup :=
    ((perm_insertionSort _ _).map _).nodup_iff.mpr (Keyed.nodup _)
  have hsort : (sortedDocs table ns rows).Pairwise fun a b => a.docId ≤ b.docId :=
    pairwise_insertionSort _ _
  exact (hsort.and (pairwise_map.mp hnd)).imp fun h => lt_of_le_of_ne h.1 h.2

/-! ### Following the cursors -/

def listed (table : DocTable) (ns : String) (limit : ℤ) : List DocumentInfo :=
  (sortedDocs table ns (table.rows.take (clampLimit limit * docsPrefetchMultiplier))).map info

variable {limit : ℤ}

theorem pairwise_listed :
    (listed table ns limit).Pairwise fun a b => a.docId < b.docId :=
  pairwise_map.mpr pairwise_sortedDocs

/-- **A fetch answers a page of them.** -/
theorem listDocuments_eq_page (limit : ℤ) (cursor : Option String) :
    listDocuments (some table) true ns limit cursor =
      ((page DocumentInfo.docId (clampLimit limit)
          (after DocumentInfo.docId cursor (listed table ns limit))).1,
        (page DocumentInfo.docId (clampLimit limit)
          (after DocumentInfo.docId cursor (listed table ns limit))).2,
        countVisibleDocuments table ns) := by
  have haft (docs : List DocEntry) : after DocumentInfo.docId cursor (docs.map info) =
      (match cursor with
        | none => docs
        | some cursor => docs.filter fun entry => cursor < entry.docId).map info := by
    cases cursor with
    | none => exact after_none _
    | some cursor => exact filter_map
  simp only [listDocuments, Bool.true_eq_false, if_false, listed, haft, page, length_map]
  split_ifs
  · rw [← map_take, getLast?_map, Option.map_map]
    rfl
  · rfl

def Fetches (table : DocTable) (ns : String) (limit : ℤ) (cursor : Option String)
    (items : List DocumentInfo) (next : Option String) : Prop :=
  ∃ total, listDocuments (some table) true ns limit cursor = (items, next, total)

/-- **A client that follows the cursors gets these documents.** -/
theorem follows_listDocuments_iff (hlim : 1 ≤ limit) {items : List DocumentInfo} :
    Follows (Fetches table ns limit) none items ↔ items = listed table ns limit := by
  have hclamp : 0 < clampLimit limit := by
    rw [clampLimit, listDocumentsMaxLimit]
    omega
  refine follows_iff_eq id pairwise_listed hclamp fun cursor _ page next => ?_
  rw [Fetches, Option.map_id, id, listDocuments_eq_page]
  simp [eq_comm]

theorem mem_docIds_listed :
    docId ∈ (listed table ns limit).map DocumentInfo.docId ↔
      ∃ row ∈ table.rows.take (clampLimit limit * docsPrefetchMultiplier),
        table.allows ns row = true ∧ row.docId = docId := by
  rw [listed, map_map]
  exact mem_docIds_sortedDocs

/-! ### Complete listings -/

/-- Following the cursors ends, and gives every document that may be seen, once and in the order
of the ids, and as many as every page has as the total. -/
def ListsAll (table : DocTable) (ns : String) (limit : ℤ) : Prop :=
  ∃ items : List DocumentInfo,
    (∀ followed, Follows (Fetches table ns limit) none followed ↔ followed = items) ∧
    (∀ docId, docId ∈ items.map DocumentInfo.docId ↔
      ∃ row ∈ table.rows, table.allows ns row = true ∧ row.docId = docId) ∧
    (items.Pairwise fun a b => a.docId < b.docId) ∧
    ∀ cursor, (listDocuments (some table) true ns limit cursor).2.2 = items.length

/-- **The listing is complete** exactly when each document has, among the rows that are read, one
that may be seen. -/
theorem listsAll_iff (table : DocTable) (ns : String) (limit : ℤ) (hlimit : 1 ≤ limit) :
    ListsAll table ns limit ↔
      ∀ row ∈ table.rows, table.allows ns row = true →
        ∃ read ∈ table.rows.take (50 * (min limit 1000).toNat),
          table.allows ns read = true ∧ read.docId = row.docId := by
  have hrd : clampLimit limit * docsPrefetchMultiplier = 50 * (min limit 1000).toNat := by
    rw [clampLimit, listDocumentsMaxLimit, docsPrefetchMultiplier, max_eq_right (by omega),
      Nat.mul_comm]
  constructor
  · rintro ⟨items, hfol, hm, -, -⟩ row hr hallo
    have his : items = listed table ns limit :=
      (follows_listDocuments_iff hlimit).mp ((hfol items).mpr rfl)
    have hlis := (hm row.docId).mpr ⟨row, hr, hallo, rfl⟩
    rwa [his, mem_docIds_listed, hrd] at hlis
  · intro hall
    have hm : ∀ docId, docId ∈ (listed table ns limit).map DocumentInfo.docId ↔
        ∃ row ∈ table.rows, table.allows ns row = true ∧ row.docId = docId := by
      intro docId
      rw [mem_docIds_listed, hrd]
      constructor
      · rintro ⟨row, hr, hd⟩
        exact ⟨row, mem_of_mem_take hr, hd⟩
      · rintro ⟨row, hr, hallo, rfl⟩
        exact hall row hr hallo
    refine ⟨listed table ns limit, fun followed => follows_listDocuments_iff hlimit, hm,
      pairwise_listed, fun cursor => ?_⟩
    -- both are lists of the same ids, each once
    have hids : ((listed table ns limit).map DocumentInfo.docId).Nodup :=
      pairwise_map.mpr (pairwise_listed.imp ne_of_lt)
    have hp : ((table.rows.filter (table.allows ns)).map DocRow.docId).dedup.Perm
        ((listed table ns limit).map DocumentInfo.docId) := by
      refine (perm_ext_iff_of_nodup (nodup_dedup _) hids).mpr fun docId => ?_
      rw [hm, mem_dedup]
      simp [and_assoc]
    rw [listDocuments_eq_page, ← @length_map _ _ (listed table ns limit) DocumentInfo.docId]
    exact hp.length_eq

def plainRow (docId : String) : DocRow := ⟨docId, docId, "2026-01-01T00:00:00.000000Z", none, none⟩

def fiftyOneDocuments : DocTable where
  rows := (List.range 51).map fun i => plainRow s!"doc-{i}"
  hasScopesCol := true
  hasAclCol := true

/-- A page of one document is gathered from the first fifty rows, so the last document is on no
page. -/
theorem not_listsAll_fiftyOneDocuments :
    (∀ docId, (fiftyOneDocuments.rows.filter fun row => row.docId = docId).length ≤ 50) ∧
      ¬ ListsAll fiftyOneDocuments "default" 1 := by
  constructor
  · intro docId
    have hnd : (fiftyOneDocuments.rows.map DocRow.docId).Nodup := by decide +kernel
    have hcnt := nodup_iff_count_le_one.mp hnd docId
    rw [count_eq_countP, countP_map, countP_eq_length_filter] at hcnt
    refine le_trans (le_of_eq (congrArg List.length (filter_congr fun row _ => ?_)))
      (hcnt.trans (by decide))
    rfl
  · rintro ⟨items, hfol, hm, -, -⟩
    have his : items = listed fiftyOneDocuments "default" 1 :=
      (follows_listDocuments_iff le_rfl).mp ((hfol items).mpr rfl)
    have hl : "doc-50" ∈ items.map DocumentInfo.docId :=
      (hm "doc-50").mpr ⟨plainRow "doc-50", by decide +kernel, by decide +kernel, rfl⟩
    rw [his, mem_docIds_listed] at hl
    exact absurd hl (by decide +kernel)

/-- Pages of two documents are gathered from enough rows. -/
theorem listsAll_iff_fiftyOneDocuments : ListsAll fiftyOneDocuments "default" 2 :=
  (listsAll_iff fiftyOneDocuments "default" 2 (by decide)).mpr (by decide +kernel)

end ArchonSearch.Store
