import ArchonSearch.Search.Ranking

/-!
# The search pipeline

`SearchPipeline.search` searches one collection and `SearchPipeline.search_many` several.
Each has its paths: the standard hybrid search, RAG Fusion over several variants of the
query, and four graph modes, most of which fall back to the standard search where the graph
has nothing to offer.

What the pipeline is made of is taken as it is found: the graph store, the walker, the
expander, the generator and the embedder may answer anything, or raise. A search that raises
has no results. Time limits, which only raise, are left out, and so are timings and logs.
-/

namespace ArchonSearch.Search

open Lib

/-! ### The pipeline -/

/-- `GraphStore`, as it is read; `none` is a call that raises. Nodes are their ids, and a
community is the list of its `representative_chunk_ids`. -/
structure GraphStore where
  listCommunityRepresentatives : (collection ns : String) → Option (List (List String))
  findNodesByName : (collection : String) → (ngrams : List String) → (ns : String) →
    Option (List String)
  communitiesTableExists : (collection ns : String) → Option Bool
  getCommunitiesForEntities : (collection : String) → (entityIds : List String) →
    (ns : String) → Option (List (List String))

/-- `ExpandedQuery`. -/
structure ExpandedQuery where
  expandedText : String
  expansionApplied : Bool

structure PprResult where
  entitiesMatched : ℕ
  chunkIds : List String

/-- `SearchPipeline`, without its reranker. -/
structure Pipeline (ν : Type) where
  store : Store ν
  /-- `_global_embedder.embed_one`. -/
  embedOne : String → Option ν
  /-- `_global_embedder.model_name`. -/
  modelName : String
  /-- `get_all_collections_meta`: names and active models. -/
  getAllCollectionsMeta : (ns : String) → Option (List (String × String))
  /-- `_top_k_retrieve`. -/
  topKRetrieve : ℕ
  /-- `_top_k_return`. -/
  topKReturn : ℕ
  topKReturn_pos : 0 < topKReturn
  fanoutLegTrim : ℕ
  graphStore : Option GraphStore
  /-- `_graph_config.max_global_candidates`, or 100. -/
  maxGlobalCandidates : ℕ
  /-- `_graph_expander.expand`. -/
  graphExpander : Option ((query collection ns : String) → Option ExpandedQuery)
  /-- `_ppr_walker.walk`. -/
  pprWalker : Option ((query collection ns : String) → Option PprResult)
  /-- `tokenize_and_generate_ngrams`. -/
  ngrams : String → List String

inductive SearchError where
  | scopeInGraphMode
  /-- `GraphCommunitiesNotBuiltError`. -/
  | graphCommunitiesNotBuilt (collection : String)
  /-- `CollectionNotFoundError`. -/
  | collectionNotFound (names : List String)
  /-- `MetadataLookupError`. -/
  | metadataLookup
  | raised
  deriving DecidableEq

def called {α : Type} : Option α → Except SearchError α
  | some a => .ok a
  | none => .error .raised

/-- `SearchPipelineResult`. -/
structure SearchPipelineResult where
  results : List SearchResult
  aclFiltered : Bool
  /-- `excluded_collections`: those of another model. -/
  excludedCollections : List String := []
  ragFusionApplied : Bool := false
  ragFusionQueriesUsed : ℕ := 0
  ragFusionAttempted : Bool := false
  ragFusionWarning : Option String := none
  graphExpansionApplied : Bool := false
  pprEntitiesMatched : Option ℕ := none

variable {ν : Type} (p : Pipeline ν) (reranker : Option Reranker) (req : Request ν)

/-- `max(self._top_k_retrieve * 3, 20)`. -/
def Pipeline.candidateDepth : ℕ := max (p.topKRetrieve * 3) 20

def Pipeline.fanoutDepth : ℕ :=
  match req.filters.bind SearchFilters.sourcePathGlob with
  | some _ => max (p.candidateDepth * 5) 60
  | none => p.candidateDepth

def Pipeline.finish (sorted : Bool) (cs : List Candidate) :
    Except SearchError (List SearchResult) := do
  let ranked ← called (rank reranker req.rerank sorted req.query p.topKReturn cs)
  pure (ranked.map candidateToSearchResult)

def vectorFor (embedOne : String → Option ν) (query : String) (queryVector : Option ν)
    (ftsOnly : Bool) : Except SearchError (Option ν) :=
  if queryVector.isSome then .ok queryVector
  else if ftsOnly then .ok none
  else some <$> called (embedOne query)

def expandQuery (expand : (query collection ns : String) → Option ExpandedQuery)
    (collection : String) : Except SearchError String := do
  let expanded ← called (expand req.query collection req.ns)
  pure (if expanded.expansionApplied then expanded.expandedText else req.query)

/-! ### One collection -/

/-- `_search_standard`. -/
def Pipeline.searchStandard (embedOne : String → Option ν) (query collection : String)
    (queryVector : Option ν) (scopeFilter : Option String) (ragFusionAttempted ftsOnly : Bool) :
    Except SearchError SearchPipelineResult := do
  let vector ← vectorFor embedOne query queryVector ftsOnly
  let candidates ← called (p.store.hybridSearchWithTrace collection vector query p.candidateDepth
    req.filters (storeScope scopeFilter))
  let (candidates, aclFiltered) :=
    visibleTo req.ns (applyScopeWildcard scopeFilter (applyGlob req.filters candidates))
  let ranked ← called (rank reranker req.rerank false query p.topKReturn candidates)
  pure
    { results := ranked.map candidateToSearchResult
      aclFiltered := aclFiltered
      ragFusionAttempted := ragFusionAttempted }

def Pipeline.fallBack (query collection : String) : Except SearchError SearchPipelineResult :=
  p.searchStandard reranker req p.embedOne query collection none none false false

def Pipeline.fetch (collection : String) (chunkIds : List String) : List Candidate :=
  (p.store.getChunksByIds collection chunkIds).map (rowToGraphCandidate collection)

def Pipeline.hybridForMerge (collection : String) : Option (List Candidate) := do
  let vector ← p.embedOne req.query
  p.store.hybridSearchWithTrace collection (some vector) req.query p.candidateDepth req.filters none

/-- The last steps of the modes `local` and `ppr`: the candidates of the graph are merged with
those of a hybrid search, and ranked. -/
def Pipeline.blend (collection : String) (graph : List Candidate) (graphFiltered : Bool) :
    Except SearchError SearchPipelineResult := do
  let hybrid ← called (p.hybridForMerge req collection)
  let (hybrid, hybridFiltered) := visibleTo req.ns (applyGlob req.filters hybrid)
  let results ← p.finish reranker req true (mergeNew graph hybrid)
  pure
    { results := results
      aclFiltered := graphFiltered || hybridFiltered
      graphExpansionApplied := true }

/-- The chunks of the mode `global`. -/
def Pipeline.globalChunkIds (communities : List (List String)) : List String :=
  communities.flatten.take p.maxGlobalCandidates

/-- The mode `global` of `_search_graph_mode`. -/
def Pipeline.searchGlobalMode (collection : String) : Except SearchError SearchPipelineResult :=
  match p.graphStore with
  | none => p.fallBack reranker req req.query collection
  | some graphStore => do
    let communities ← called (graphStore.listCommunityRepresentatives collection req.ns)
    if communities = [] then .error (.graphCommunitiesNotBuilt collection)
    else
      -- without rows there is nothing to be seen, and the fallback is the same
      let (candidates, aclFiltered) :=
        visibleTo req.ns (p.fetch collection (p.globalChunkIds communities))
      if candidates = [] then p.fallBack reranker req req.query collection
      else
        let results ← p.finish reranker req true candidates
        pure { results := results, aclFiltered := aclFiltered, graphExpansionApplied := true }

/-- What the graph says about a query, for the mode `local`. -/
inductive Matched where
  | nothing
  | notBuilt
  | isolated
  | communities : List (List String) → Matched

def Pipeline.matchCommunities (graphStore : GraphStore) (collection : String) : Matched :=
  if p.ngrams req.query = [] then .nothing
  else
    match graphStore.findNodesByName collection (p.ngrams req.query) req.ns with
    | none | some [] => .nothing
    | some nodes =>
      match graphStore.communitiesTableExists collection req.ns with
      | none => .nothing
      | some false => .notBuilt
      | some true =>
        match graphStore.getCommunitiesForEntities collection nodes req.ns with
        | none => .nothing
        | some [] => .isolated
        | some communities => .communities communities

/-- `_MAX_LOCAL_COMMUNITY_CANDIDATES`. -/
def maxLocalCommunityCandidates : ℕ := 200

/-- The chunks of the mode `local`. -/
def localChunkIds (communities : List (List String)) : List String :=
  communities.flatten.eraseDups.take maxLocalCommunityCandidates

/-- `_search_local_mode`. -/
def Pipeline.searchLocalMode (collection : String) : Except SearchError SearchPipelineResult :=
  match p.graphStore with
  | none => p.fallBack reranker req req.query collection
  | some graphStore =>
    match p.matchCommunities req graphStore collection with
    | .nothing => p.fallBack reranker req req.query collection
    | .notBuilt => .error (.graphCommunitiesNotBuilt collection)
    | .isolated => do
      let effective ← p.graphExpander.elim (.ok req.query) fun expand =>
        expandQuery req expand collection
      let standard ← p.fallBack reranker req effective collection
      pure
        { results := standard.results
          aclFiltered := standard.aclFiltered
          graphExpansionApplied := true }
    | .communities communities =>
      -- without ids or rows there is nothing to be seen, and the fallback is the same
      let (candidates, aclFiltered) := visibleTo req.ns
        (applyGlob req.filters (p.fetch collection (localChunkIds communities)))
      if candidates = [] then p.fallBack reranker req req.query collection
      else p.blend reranker req collection candidates aclFiltered

/-- `_search_ppr_mode`, without its check of the scope. -/
def Pipeline.searchPprMode (collection : String) : Except SearchError SearchPipelineResult :=
  let fallBack (entitiesMatched : ℕ) : Except SearchError SearchPipelineResult := do
    let standard ← p.fallBack reranker req req.query collection
    pure { standard with pprEntitiesMatched := some entitiesMatched }
  match p.pprWalker, p.graphStore with
  | none, _ | _, none => fallBack 0
  | some walk, some _ =>
    match walk req.query collection req.ns with
    | none => fallBack 0
    | some found =>
      if found.entitiesMatched = 0 then fallBack 0
      else
        let (candidates, aclFiltered) :=
          visibleTo req.ns (applyGlob req.filters (p.fetch collection found.chunkIds))
        if candidates = [] then fallBack found.entitiesMatched
        else do
          let blended ← p.blend reranker req collection candidates aclFiltered
          pure { blended with pprEntitiesMatched := some found.entitiesMatched }

def Pipeline.ragFallBack (embedOne : String → Option ν) (effectiveQuery collection : String)
    (warning : Option String) : Except SearchError SearchPipelineResult := do
  let standard ← p.searchStandard reranker req embedOne effectiveQuery collection none
    req.scopeFilter true false
  pure { standard with ragFusionWarning := warning }

/-- The RAG Fusion path of `search`. -/
def Pipeline.searchRagFusion (embedOne : String → Option ν) (effectiveQuery collection : String)
    (generateVariants : String → Except GenerateError (List String)) :
    Except SearchError SearchPipelineResult :=
  if p.store.hasVectorIndex collection = false then
    p.ragFallBack reranker req embedOne effectiveQuery collection none
  else
    match generateVariants req.query with
    | .error .timeout =>
      p.ragFallBack reranker req embedOne effectiveQuery collection (some "RAG Fusion timed out")
    | .error .other =>
      p.ragFallBack reranker req embedOne effectiveQuery collection
        (some "RAG Fusion expansion failed")
    | .ok variants =>
      match (effectiveQuery :: variants).mapM embedOne with
      | none =>
        p.ragFallBack reranker req embedOne effectiveQuery collection
          (some "RAG Fusion expansion failed")
      | some vectors =>
        let raw := vectors.map fun v => p.store.hybridSearchWithTrace collection (some v) req.query
          p.candidateDepth req.filters (storeScope req.scopeFilter)
        let successful := raw.filterMap id
        if successful = [] then
          p.ragFallBack reranker req embedOne effectiveQuery collection none
        else do
          let (fused, aclFiltered) := visibleTo req.ns (applyScopeWildcard req.scopeFilter
            (applyGlob req.filters (fuseRagFusionResults successful)))
          let results ← p.finish reranker req false fused
          let queriesUsed := ((raw.drop 1).filterMap id).length
          pure
            { results := results
              aclFiltered := aclFiltered
              ragFusionApplied := queriesUsed ≠ 0
              ragFusionQueriesUsed := queriesUsed
              ragFusionAttempted := true }

def Request.isFtsOnly (req : Request ν) : Bool := req.ftsOnly && req.queryVector.isNone

def Request.effectiveMode (req : Request ν) : Option GraphMode :=
  if req.isFtsOnly = true then none else req.graphMode

def Request.effectiveGenerator (req : Request ν) :
    Option (String → Except GenerateError (List String)) :=
  if req.isFtsOnly = true then none else req.generateVariants

/-- The query as the mode `naive` expands it. -/
def Pipeline.expandNaive (collection : String) : Except SearchError String :=
  match req.effectiveMode, p.graphExpander with
  | some .naive, some expand =>
    if req.scopeFilter.isSome then .error .scopeInGraphMode
    else expandQuery req expand collection
  | _, _ => .ok req.query

/-- The paths without a graph: RAG Fusion, or the standard search. A vector that was given is
that of the query as it is. -/
def Pipeline.searchExpanded (embedOne : String → Option ν) (effectiveQuery collection : String) :
    Except SearchError SearchPipelineResult :=
  match req.effectiveGenerator with
  | some generateVariants =>
    p.searchRagFusion reranker req embedOne effectiveQuery collection generateVariants
  | none =>
    p.searchStandard reranker req embedOne effectiveQuery collection
      (if effectiveQuery ≠ req.query then none else req.queryVector) req.scopeFilter false
      req.isFtsOnly

/-- `search`, with the embedder of the collection. -/
def Pipeline.search (embedOne : String → Option ν) (collection : String) :
    Except SearchError SearchPipelineResult :=
  let inGraphMode (path : Except SearchError SearchPipelineResult) :=
    if req.scopeFilter.isSome then .error .scopeInGraphMode else path
  match req.effectiveMode with
  | some .ppr => inGraphMode (p.searchPprMode reranker req collection)
  | some .local => inGraphMode (p.searchLocalMode reranker req collection)
  | some .global => inGraphMode (p.searchGlobalMode reranker req collection)
  | some .naive | none => do
    let effectiveQuery ← p.expandNaive req collection
    let result ← p.searchExpanded reranker req embedOne effectiveQuery collection
    pure { result with graphExpansionApplied := effectiveQuery ≠ req.query }

end ArchonSearch.Search
