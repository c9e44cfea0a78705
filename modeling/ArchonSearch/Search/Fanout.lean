import ArchonSearch.Search.Pipeline

/-!
# Searching several collections

`SearchPipeline.search_many` searches several collections at once: each is a leg of its own,
of which so many candidates are kept, and the candidates of all legs are ranked together. The
mode `ppr` has no legs of its own, and a graph mode whose part of the pipeline is missing is
the standard search.

The names of the collections are distinct, as the routes and the tool see to.
-/

namespace ArchonSearch.Search

open Lib

variable {ν : Type} (p : Pipeline ν) (reranker : Option Reranker) (req : Request ν)

/-- `trim`: what is kept of a leg. -/
def Pipeline.trim : ℕ := max p.fanoutLegTrim 1

def Pipeline.trimLeg (cs : List Candidate) : List Candidate := (sortByScore cs).take p.trim

/-- A leg of a hybrid search: the glob and a scope with a wildcard are applied afterwards. -/
def Pipeline.hybridLeg (queryVector : Option ν) (queryText : String) (depth : ℕ)
    (scopeFilter : Option String) (collection : String) : Option (List Candidate) := do
  let cs ← p.store.hybridSearchWithTrace collection queryVector queryText depth req.filters
    (storeScope scopeFilter)
  pure (applyScopeWildcard scopeFilter (applyGlob req.filters cs))

def mergeLegs (legs : List (String × List Candidate)) : List Candidate :=
  ((Keyed.ofList legs : Dict String (List Candidate)).items.insertionSort
    fun a b => a.1 ≤ b.1).flatMap Prod.snd

/-- `_fanout_merge_acl`. -/
def Pipeline.fanoutMergeAcl (queryVector : Option ν) (collections : List String) :
    Except SearchError (List Candidate × Bool) := do
  let legs ← collections.mapM fun collection => do
    let cs ← called (p.hybridLeg req queryVector req.query (p.fanoutDepth req) req.scopeFilter
      collection)
    pure (collection, p.trimLeg cs)
  pure (visibleTo req.ns (mergeLegs legs))

def Pipeline.fanoutStandard (queryVector : Option ν) (collections : List String) :
    Except SearchError SearchPipelineResult := do
  let (merged, aclFiltered) ← p.fanoutMergeAcl req queryVector collections
  let results ← p.finish reranker req true merged
  pure { results := results, aclFiltered := aclFiltered }

/-! ### RAG Fusion -/

def Pipeline.variantSearches (vectors : List ν) (collection : String) :
    List (Option (List Candidate)) :=
  vectors.map fun v => p.store.hybridSearchWithTrace collection (some v) req.query
    (p.fanoutDepth req) req.filters (storeScope req.scopeFilter)

def Pipeline.ragCandidates (vectors : List ν) (collection : String) : Option (List Candidate) :=
  if p.store.hasVectorIndex collection = true then
    some (fuseRagFusionResults ((p.variantSearches req vectors collection).filterMap id))
  else
    p.store.hybridSearchWithTrace collection vectors.head? req.query (p.fanoutDepth req)
      req.filters (storeScope req.scopeFilter)

def Pipeline.ragLeg (vectors : List ν) (collection : String) : Option (List Candidate) := do
  let fused ← p.ragCandidates req vectors collection
  pure (applyScopeWildcard req.scopeFilter (applyGlob req.filters fused))

/-- The variants after the first, which is the query itself, that were searched successfully
in some collection. -/
def Pipeline.successfulVariants (vectors : List ν) (collections : List String) : List ℕ :=
  (List.range vectors.length).filter fun index => index ≠ 0 &&
    collections.any fun collection => p.store.hasVectorIndex collection &&
      ((p.variantSearches req vectors collection)[index]?).any Option.isSome

/-- The RAG Fusion path of `search_many`. -/
def Pipeline.fanoutRagFusion
    (generateVariants : String → Except GenerateError (List String))
    (collections : List String) : Except SearchError SearchPipelineResult :=
  let (variants, warning) :=
    match generateVariants req.query with
    | .ok variants => (variants, none)
    | .error .timeout => ([], some "RAG Fusion timed out")
    | .error .other => ([], some "RAG Fusion expansion failed")
  match (req.query :: variants).mapM p.embedOne with
  | none => do
    let vector ← called (p.embedOne req.query)
    let standard ← p.fanoutStandard reranker req (some vector) collections
    pure
      { standard with
        ragFusionAttempted := true
        ragFusionWarning := some (warning.getD "RAG Fusion expansion failed") }
  | some vectors => do
    let legs ← (collections.insertionSort (· ≤ ·)).mapM fun collection => do
      let cs ← called (p.ragLeg req vectors collection)
      pure (collection, p.trimLeg cs)
    let (merged, aclFiltered) := visibleTo req.ns (mergeLegs legs)
    let results ← p.finish reranker req true merged
    let queriesUsed := (p.successfulVariants req vectors collections).length
    pure
      { results := results
        aclFiltered := aclFiltered
        ragFusionApplied := queriesUsed ≠ 0
        ragFusionQueriesUsed := queriesUsed
        ragFusionAttempted := true
        ragFusionWarning := warning }

/-! ### Graph modes -/

/-- The path of the mode `naive`: every leg has a query of its own, and a leg that raises is
left out. -/
def Pipeline.fanoutNaive (expand : (query collection ns : String) → Option ExpandedQuery)
    (collections : List String) : Except SearchError SearchPipelineResult := do
  let expansions ← collections.mapM fun collection => called (expand req.query collection req.ns)
  let vectors ← (expansions.map ExpandedQuery.expandedText).eraseDups.mapM fun text => do
    let vector ← called (p.embedOne text)
    pure (text, vector)
  let legs := (collections.zip expansions).map fun (collection, expanded) => do
    let cs ← p.hybridLeg req (vectors.lookup expanded.expandedText) expanded.expandedText
      (p.fanoutDepth req) none collection
    pure (p.trimLeg cs)
  let (merged, aclFiltered) := visibleTo req.ns (legs.filterMap id).flatten
  let results ← p.finish reranker req true merged
  pure
    { results := results
      aclFiltered := aclFiltered
      graphExpansionApplied := expansions.any ExpandedQuery.expansionApplied }

/-- The candidates of a collection in the mode `global`. -/
def Pipeline.globalLeg (graphStore : GraphStore) (collection : String) :
    Except SearchError (List Candidate) := do
  let communities ← called (graphStore.listCommunityRepresentatives collection req.ns)
  if communities = [] then .error (.graphCommunitiesNotBuilt collection)
  else pure (p.fetch collection (p.globalChunkIds communities))

/-- The candidates of a collection that the graph offers in the mode `local`, where it offers
any. -/
def Pipeline.localFetched (graphStore : GraphStore) (collection : String) : List Candidate :=
  match p.matchCommunities req graphStore collection with
  | .nothing | .notBuilt | .isolated => []
  | .communities communities =>
    applyGlob req.filters (p.fetch collection (localChunkIds communities))

/-- A leg of the mode `local`, and whether the graph has offered something. -/
def Pipeline.localLeg (graphStore : GraphStore) (vector : ν) (collection : String) :
    Option (List Candidate × Bool) := do
  let hybrid ← p.hybridLeg req (some vector) req.query (p.fanoutDepth req) none collection
  match p.localFetched req graphStore collection with
  | [] => pure (hybrid.take p.trim, false)
  | fetched => pure (p.trimLeg (mergeNew fetched hybrid), true)

/-- The path of the mode `local`: a leg that raises is left out. -/
def Pipeline.fanoutLocal (graphStore : GraphStore) (collections : List String) :
    Except SearchError SearchPipelineResult := do
  let vector ← called (req.queryVector.or (p.embedOne req.query))
  let legs := collections.filterMap (p.localLeg req graphStore vector)
  let (merged, aclFiltered) := visibleTo req.ns (legs.flatMap Prod.fst)
  let results ← p.finish reranker req true merged
  pure
    { results := results
      aclFiltered := aclFiltered
      graphExpansionApplied := legs.any Prod.snd }

/-- The standard path of `search_many`, with the vector of the query if there is to be one. -/
def Pipeline.fanoutFallBack (collections : List String) :
    Except SearchError SearchPipelineResult := do
  let vector ← vectorFor p.embedOne req.query req.queryVector req.isFtsOnly
  let standard ← p.fanoutStandard reranker req vector collections
  pure
    { standard with
      pprEntitiesMatched := if req.effectiveMode = some .ppr then some 0 else none }

/-- The path of the mode `global`. -/
def Pipeline.fanoutGlobal (graphStore : GraphStore) (collections : List String) :
    Except SearchError SearchPipelineResult := do
  let legs ← collections.mapM (p.globalLeg req graphStore)
  let (candidates, aclFiltered) := visibleTo req.ns legs.flatten
  if candidates = [] then p.fanoutFallBack reranker req collections
  else
    let results ← p.finish reranker req true candidates
    pure { results := results, aclFiltered := aclFiltered, graphExpansionApplied := true }

/-! ### The fan-out -/

/-- The paths of `search_many`, for the collections in scope. -/
def Pipeline.fanout (collections : List String) : Except SearchError SearchPipelineResult :=
  let inGraphMode (path : Except SearchError SearchPipelineResult) :=
    if req.scopeFilter.isSome then .error .scopeInGraphMode else path
  match req.effectiveGenerator with
  | some generateVariants => p.fanoutRagFusion reranker req generateVariants collections
  | none =>
    match req.effectiveMode, p.graphExpander, p.graphStore with
    | some .naive, some expand, _ => inGraphMode (p.fanoutNaive reranker req expand collections)
    | some .global, _, some graphStore =>
      inGraphMode (p.fanoutGlobal reranker req graphStore collections)
    | some .local, _, some graphStore =>
      inGraphMode (p.fanoutLocal reranker req graphStore collections)
    | _, _, _ => p.fanoutFallBack reranker req collections

def Pipeline.inScope (metas : Dict String String) (collections : List String) : List String :=
  collections.filter fun name => Dict.get metas name = some p.modelName

/-- `search_many`. -/
def Pipeline.searchMany (collections : List String) :
    Except SearchError SearchPipelineResult :=
  match p.getAllCollectionsMeta req.ns with
  | none => .error .metadataLookup
  | some all => do
    let metas : Dict String String := Keyed.ofList all
    let missing := collections.filter fun name => (Dict.get metas name).isNone
    if missing ≠ [] then .error (.collectionNotFound missing)
    else
      let inScope := p.inScope metas collections
      let excluded := collections.filter fun name => !inScope.contains name
      if inScope = [] then
        pure { results := [], aclFiltered := false, excludedCollections := excluded }
      else
        let result ← p.fanout reranker req inScope
        pure { result with excludedCollections := excluded }

end ArchonSearch.Search
