import Mathlib.Algebra.Order.Field.Basic
import Mathlib.Data.List.Sort
import Mathlib.Tactic.Linarith
import ArchonSearch.Lib.Keyed
import ArchonSearch.Search.Filters

/-!
# Retrieval

The candidates of a search come from two places. A hybrid search (`Store.hybridSearchWithTrace`)
asks for the rows nearest to a vector and for those that match a text, each under the predicate of
the filters, and fuses the two by rank. A graph path fetches rows by their ids
(`Store.getChunksByIds`), and no predicate is applied to them.

What a hybrid search returns is `Retrieved`: a stored row under the predicate, each chunk once
(`retrieved_of_hybrid`). Its scores are below the neutral score of the candidates that a graph path
makes, so that the score tells the two apart.

The database is a parameter, of which is known that a query returns rows of the table for which its
predicate holds (`Lance`). Scores are the rational numbers that the code approximates.
-/

namespace ArchonSearch.Search

open Lib List Option

/-! ### The store -/

inductive FtsError where
  | noIndex
  | other

/-- The queries of LanceDB, on the rows of a table: the nearest rows to a vector, the best
matches of a text, and a scan. `none` is a query that raises. -/
structure Lance (ν : Type) where
  /-- `table.vector_search(vector).where(p).limit(depth)`. -/
  vectorSearch : List Row → ν → (Row → Bool) → ℕ → Option (List Row)
  /-- `table.search(text, query_type="fts").where(p).limit(depth)`. -/
  ftsSearch : List Row → String → (Row → Bool) → ℕ → Except FtsError (List Row)
  /-- `table.query().where(p)`. -/
  scan : List Row → (Row → Bool) → List Row
  mem_of_vectorSearch : ∀ {rows v p depth out}, vectorSearch rows v p depth = some out →
    ∀ row ∈ out, row ∈ rows ∧ p row = true
  mem_of_ftsSearch : ∀ {rows text p depth out}, ftsSearch rows text p depth = .ok out →
    ∀ row ∈ out, row ∈ rows ∧ p row = true
  scan_perm : ∀ rows p, (scan rows p).Perm (rows.filter p)

structure Table where
  rows : List Row
  hasVector : Bool := true

/-- `SearchStore`, as it is read. -/
structure Store (ν : Type) where
  lance : Lance ν
  tables : String → Option Table

def Store.rows {ν : Type} (store : Store ν) (collection : String) : List Row :=
  (store.tables collection).elim [] Table.rows

/-- `has_vector_index`. -/
def Store.hasVectorIndex {ν : Type} (store : Store ν) (collection : String) : Bool :=
  (store.tables collection).any Table.hasVector

/-- `get_chunks_by_ids`. -/
def Store.getChunksByIds {ν : Type} (store : Store ν) (collection : String)
    (chunkIds : List String) : List Row :=
  if chunkIds = [] then []
  else store.lance.scan (store.rows collection) fun row => chunkIds.contains row.chunkId

/-! ### Candidates -/

/-- `ScoredSearchCandidate`. -/
structure Candidate where
  (docId chunkId text sourcePath fileType language indexedAt : String)
  (acl scopes : Option (List String))
  collection : String
  /-- `score_breakdown.rrf_score`. -/
  rrfScore : ℚ
  /-- `score_breakdown.reranker_score`. -/
  rerankerScore : Option ℚ := none
  deriving DecidableEq

/-- `row_to_scored_candidate`. -/
def rowToScoredCandidate (row : Row) (collection : String) (rrfScore : ℚ) : Candidate where
  docId := row.docId
  chunkId := row.chunkId
  text := row.text
  sourcePath := row.sourcePath
  fileType := row.fileType.getD ""
  language := row.language.getD ""
  indexedAt := row.indexedAt.getD ""
  acl := row.acl
  scopes := row.scopes
  collection := collection
  rrfScore := rrfScore

/-- `_GRAPH_NEUTRAL_RRF_SCORE`. -/
def graphNeutralRrfScore : ℚ := 1

/-- `_row_to_graph_candidate`. -/
def rowToGraphCandidate (collection : String) (row : Row) : Candidate :=
  rowToScoredCandidate row collection graphNeutralRrfScore

/-- `_candidate_to_search_result`. -/
def candidateToSearchResult (c : Candidate) : SearchResult where
  docId := c.docId
  chunkId := c.chunkId
  text := c.text
  score := c.rerankerScore.getD c.rrfScore
  sourcePath := c.sourcePath
  fileType := c.fileType
  language := c.language
  indexedAt := c.indexedAt
  acl := c.acl
  collection := c.collection
  rerankerScore := c.rerankerScore

/-- The order of `key=lambda c: (-c.score_breakdown.rrf_score, c.chunk_id)`. -/
def Before (a b : Candidate) : Prop :=
  b.rrfScore < a.rrfScore ∨ a.rrfScore = b.rrfScore ∧ a.chunkId ≤ b.chunkId

instance : DecidableRel Before := fun _ _ => inferInstanceAs (Decidable (_ ∨ _ ∧ _))

def sortByScore (cs : List Candidate) : List Candidate := cs.insertionSort Before

/-! ### The hybrid search -/

/-- `_rrf_score`. -/
def rrfScoreAt (rank : ℕ) : ℚ := 1 / (60 + rank + 1)

def rankIn (rows : List Row) (chunkId : String) : Option ℕ :=
  ((rows.zipIdx.filter fun entry => entry.1.chunkId = chunkId).getLast?).map Prod.snd

def fusedScore (vecRows ftsRows : List Row) (chunkId : String) : ℚ :=
  ((rankIn vecRows chunkId).elim 0 rrfScoreAt) + ((rankIn ftsRows chunkId).elim 0 rrfScoreAt)

def mergeRows (vecRows ftsRows : List Row) : Keyed Row.chunkId :=
  ftsRows.foldl (fun all row => if (all.get? row.chunkId).isSome then all else all.insert row)
    (Keyed.ofList vecRows)

def Store.vectorLeg {ν : Type} (store : Store ν) (rows : List Row) (queryVector : Option ν)
    (predicate : Row → Bool) (candidateDepth : ℕ) : Option (List Row) :=
  match queryVector with
  | none => some []
  | some v => store.lance.vectorSearch rows v predicate candidateDepth

def Store.ftsLeg {ν : Type} (store : Store ν) (rows : List Row) (queryText : String)
    (predicate : Row → Bool) (candidateDepth : ℕ) : Option (List Row) :=
  match store.lance.ftsSearch rows queryText predicate candidateDepth with
  | .ok found => some found
  | .error .noIndex => some []
  | .error .other => none

/-- `hybrid_search_with_trace`; `none` if a query raises. -/
def Store.hybridSearchWithTrace {ν : Type} (store : Store ν) (collection : String)
    (queryVector : Option ν) (queryText : String) (candidateDepth : ℕ)
    (filters : Option SearchFilters) (scopeFilter : Option String) : Option (List Candidate) :=
  match store.tables collection with
  | none => some []
  | some table => do
    let predicate := whereHolds (buildWhere filters scopeFilter)
    let vecRows ← store.vectorLeg table.rows queryVector predicate candidateDepth
    let ftsRows ← store.ftsLeg table.rows queryText predicate candidateDepth
    pure (sortByScore ((mergeRows vecRows ftsRows).items.map fun row =>
      rowToScoredCandidate row collection (fusedScore vecRows ftsRows row.chunkId)))

/-! ### What a hybrid search returns -/

variable {ν : Type} {store : Store ν} {collection : String} {filters : Option SearchFilters}
  {scopeFilter : Option String}

/-- A candidate of a hybrid search: it shows a stored row for which the predicate holds. -/
structure Retrieved (store : Store ν) (collection : String) (filters : Option SearchFilters)
    (scopeFilter : Option String) (c : Candidate) : Prop where
  collection_eq : c.collection = collection
  row : ∃ row ∈ store.rows collection, whereHolds (buildWhere filters scopeFilter) row = true ∧
    c = rowToScoredCandidate row collection c.rrfScore
  score : c.rrfScore < graphNeutralRrfScore

theorem mem_of_mem_mergeRows {vecRows ftsRows : List Row} {row : Row}
    (h : row ∈ mergeRows vecRows ftsRows) : row ∈ vecRows ∨ row ∈ ftsRows := by
  have hfold : ∀ (l : List Row) (all : Keyed Row.chunkId),
      row ∈ l.foldl (fun all row => if (all.get? row.chunkId).isSome then all else all.insert row)
        all → row ∈ all ∨ row ∈ l := by
    intro l
    induction l with
    | nil => exact fun all h => Or.inl h
    | cons r l ih =>
      intro all h
      rcases ih _ h with hall | hl
      · dsimp only at hall
        split_ifs at hall
        · exact Or.inl hall
        · rcases (Keyed.mem_insert.mp hall) with rfl | ⟨hm, -⟩
          · exact Or.inr mem_cons_self
          · exact Or.inl hm
      · exact Or.inr (mem_cons_of_mem r hl)
  exact (hfold ftsRows _ h).imp_left Keyed.mem_of_mem_ofList

theorem rrfScoreAt_le (rank : ℕ) : rrfScoreAt rank ≤ 1 / 61 := by
  have hrank : (0 : ℚ) ≤ rank := Nat.cast_nonneg rank
  exact one_div_le_one_div_of_le (by norm_num) (by linarith)

theorem elim_rrfScoreAt_le (rank : Option ℕ) : rank.elim 0 rrfScoreAt ≤ 1 / 61 := by
  cases rank with
  | none => norm_num
  | some rank => exact rrfScoreAt_le rank

theorem fusedScore_lt (vecRows ftsRows : List Row) (chunkId : String) :
    fusedScore vecRows ftsRows chunkId < graphNeutralRrfScore := by
  have hvec := elim_rrfScoreAt_le (rankIn vecRows chunkId)
  have hfts := elim_rrfScoreAt_le (rankIn ftsRows chunkId)
  rw [fusedScore, graphNeutralRrfScore]
  linarith

theorem sortByScore_perm (cs : List Candidate) : (sortByScore cs).Perm cs :=
  perm_insertionSort Before cs

variable {cs : List Candidate}

theorem mem_sortByScore {c : Candidate} : c ∈ sortByScore cs ↔ c ∈ cs :=
  (sortByScore_perm cs).mem_iff

variable {candidateDepth : ℕ} {queryVector : Option ν} {p : Row → Bool}

theorem mem_of_vectorLeg {rows found : List Row}
    (h : store.vectorLeg rows queryVector p candidateDepth = some found) :
    ∀ row ∈ found, row ∈ rows ∧ p row = true := by
  cases queryVector with
  | none =>
    cases h
    exact fun row hr => absurd hr not_mem_nil
  | some v => exact store.lance.mem_of_vectorSearch h

variable {queryText : String}

theorem mem_of_ftsLeg {rows found : List Row}
    (h : store.ftsLeg rows queryText p candidateDepth = some found) :
    ∀ row ∈ found, row ∈ rows ∧ p row = true := by
  unfold Store.ftsLeg at h
  split at h
  · cases h
    exact store.lance.mem_of_ftsSearch ‹_›
  · cases h
    exact fun row hr => absurd hr not_mem_nil
  · cases h

/-- **A hybrid search returns stored rows under its predicate, each chunk once.** -/
theorem retrieved_of_hybrid
    (h : store.hybridSearchWithTrace collection queryVector queryText candidateDepth filters
      scopeFilter = some cs) :
    (∀ c ∈ cs, Retrieved store collection filters scopeFilter c) ∧
      (cs.map Candidate.chunkId).Nodup := by
  unfold Store.hybridSearchWithTrace at h
  cases htab : store.tables collection with
  | none =>
    rw [htab] at h
    cases h
    exact ⟨fun c hc => absurd hc not_mem_nil, nodup_nil⟩
  | some table =>
    rw [htab] at h
    obtain ⟨vecRows, hvec, h⟩ := bind_eq_some_iff.mp h
    obtain ⟨ftsRows, hfts, h⟩ := bind_eq_some_iff.mp h
    cases h
    have hrw : store.rows collection = table.rows := by rw [Store.rows, htab]; rfl
    refine ⟨fun c hc => ?_, ?_⟩
    · obtain ⟨row, hr, rfl⟩ := List.mem_map.mp (mem_sortByScore.mp hc)
      obtain ⟨hm, hwhere⟩ := (mem_of_mem_mergeRows hr).elim
        (mem_of_vectorLeg hvec row) (mem_of_ftsLeg hfts row)
      exact ⟨rfl, ⟨row, hrw ▸ hm, hwhere, rfl⟩, fusedScore_lt vecRows ftsRows row.chunkId⟩
    · refine ((sortByScore_perm _).map Candidate.chunkId).nodup_iff.mpr ?_
      rw [List.map_map]
      exact (mergeRows vecRows ftsRows).nodup

theorem mem_of_mem_getChunksByIds {chunkIds : List String} {row : Row}
    (h : row ∈ store.getChunksByIds collection chunkIds) : row ∈ store.rows collection := by
  unfold Store.getChunksByIds at h
  split_ifs at h
  · exact absurd h not_mem_nil
  · exact (mem_filter.mp ((store.lance.scan_perm _ _).mem_iff.mp h)).1

end ArchonSearch.Search
