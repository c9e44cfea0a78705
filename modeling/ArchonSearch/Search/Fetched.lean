import ArchonSearch.Search.Meets

/-!
# What a search of one collection fetches by id

The modes `local`, `global` and `ppr` fetch chunks by their ids, and apply to them the ACL and, but
for `global`, the glob: none of the other filters. What reaches the ranking this way is
`Pipeline.fetched`, and `search_iff` says that a search returns what it was asked for, whatever the
reranker does, exactly if that is as requested.
-/

namespace ArchonSearch.Search

open Lib List Option

/-! ### What is fetched -/

section Fetched

variable {ν : Type} (p : Pipeline ν) (req : Request ν)

/-- The candidates of the mode `global`, if the graph can be asked. -/
def Pipeline.globalFetched (collection : String) : List Candidate :=
  match p.graphStore with
  | none => []
  | some graphStore =>
    match graphStore.listCommunityRepresentatives collection req.ns with
    | none => []
    | some communities => p.fetch collection (p.globalChunkIds communities)

/-- The candidates of the mode `ppr`, if there is a walk. -/
def Pipeline.pprFetched (collection : String) : List Candidate :=
  match p.pprWalker, p.graphStore with
  | some walk, some _ =>
    match walk req.query collection req.ns with
    | some found =>
      if found.entitiesMatched = 0 then []
      else applyGlob req.filters (p.fetch collection found.chunkIds)
    | none => []
  | _, _ => []

def Pipeline.fetched (collection : String) : List Candidate :=
  if req.scopeFilter.isSome then []
  else
    match req.effectiveMode with
    | some .global => (visibleTo req.ns (p.globalFetched req collection)).1
    | some .local =>
      if (p.hybridForMerge req collection).isSome then
        (visibleTo req.ns (p.graphStore.elim [] fun graphStore =>
          p.localFetched req graphStore collection)).1
      else []
    | some .ppr =>
      if (p.hybridForMerge req collection).isSome then
        (visibleTo req.ns (p.pprFetched req collection)).1
      else []
    | some .naive | none => []

end Fetched

variable {ν : Type} {p : Pipeline ν} {req : Request ν} {collection : String}
  {cs : List Candidate}

/-! ### Candidates that were fetched -/

structure FetchedLeg (store : Store ν) (req : Request ν) (collection : String)
    (cs : List Candidate) : Prop where
  stored : ∀ c ∈ cs, ∃ row ∈ store.rows collection, (candidateToSearchResult c).IsOf row ∧
    AdmitsScope req.scopeFilter row.scopes
  fetched : ∀ c ∈ cs, c.graphSourced = true
  collection_eq : ∀ c ∈ cs, c.collection = collection

variable {store : Store ν}

theorem FetchedLeg.sublist {out : List Candidate}
    (h : FetchedLeg store req collection cs) (hsub : out.Sublist cs) :
    FetchedLeg store req collection out :=
  ⟨fun c hc => h.stored c (hsub.subset hc), fun c hc => h.fetched c (hsub.subset hc),
    fun c hc => h.collection_eq c (hsub.subset hc)⟩

theorem fetchedLeg_fetch (p : Pipeline ν) (hsc : req.scopeFilter = none)
    (collection : String) (chunkIds : List String) :
    FetchedLeg p.store req collection (p.fetch collection chunkIds) := by
  have hm {c : Candidate} (hc : c ∈ p.fetch collection chunkIds) :
      ∃ row ∈ p.store.rows collection, rowToGraphCandidate collection row = c := by
    obtain ⟨row, hr, heq⟩ := List.mem_map.mp hc
    exact ⟨row, mem_of_mem_getChunksByIds hr, heq⟩
  constructor
  · intro c hc
    obtain ⟨row, hr, rfl⟩ := hm hc
    refine ⟨row, hr, ⟨rfl, rfl, rfl, rfl, rfl, rfl, rfl, rfl⟩, ?_⟩
    rw [hsc]
    exact fun scope h => by cases h
  · intro c hc
    obtain ⟨row, -, rfl⟩ := hm hc
    exact decide_eq_true rfl
  · intro c hc
    obtain ⟨row, -, rfl⟩ := hm hc
    rfl

theorem pool_of_fetched
    (hsto : ∀ c ∈ cs, ∃ row ∈ store.rows c.collection,
      (candidateToSearchResult c).IsOf row ∧ AdmitsScope req.scopeFilter row.scopes)
    (hfet : ∀ c ∈ cs, c.graphSourced = true) : Pool store req cs where
  stored := hsto
  admitted c hc hg := by
    rw [hfet c hc] at hg
    cases hg
  low c hc hg := by
    rw [hfet c hc] at hg
    cases hg
  once := pairwise_of_forall_mem_list fun a ha b hb _ => ⟨hfet a ha, hfet b hb⟩

theorem FetchedLeg.pool (h : FetchedLeg store req collection cs) :
    Pool store req cs :=
  pool_of_fetched (fun c hc => h.collection_eq c hc ▸ h.stored c hc) h.fetched

theorem FetchedLeg.filter_eq (h : FetchedLeg store req collection cs) :
    cs.filter Candidate.graphSourced = cs :=
  filter_eq_self.mpr h.fetched

theorem HybridLeg.nodup (h : HybridLeg store req collection cs) :
    (cs.map Candidate.chunkId).Nodup := by
  have hpr := List.Pairwise.and_mem.mp h.pool.once
  refine pairwise_map.mpr (hpr.imp fun {a b} ⟨ha, hb, hab⟩ heq => ?_)
  have hk : a.key = b.key :=
    Prod.ext ((h.collection_eq a ha).trans (h.collection_eq b hb).symm) heq
  have hfet := (hab hk).1
  rw [h.retrieved a ha] at hfet
  cases hfet

/-- **What is merged**: the part that was fetched is the one of the graph. -/
theorem pool_mergeNew {hybrid : List Candidate}
    (hg : FetchedLeg store req collection cs)
    (hhyb : HybridLeg store req collection hybrid) :
    Pool store req (mergeNew cs hybrid) ∧
      (mergeNew cs hybrid).filter Candidate.graphSourced = cs ∧
      ∀ c ∈ mergeNew cs hybrid, c ∈ cs ∨ c ∈ hybrid := by
  rw [mergeNew_eq hhyb.nodup]
  have hw := hhyb.sublist
    (filter_sublist (p := fun c => !(cs.map Candidate.chunkId).contains c.chunkId) (l := hybrid))
  refine ⟨⟨fun c hc => ?_, fun c hc => ?_, fun c hc => ?_, ?_⟩, ?_, fun c hc => ?_⟩
  · exact (mem_append.mp hc).elim (hg.pool.stored c) (hw.pool.stored c)
  · exact (mem_append.mp hc).elim (hg.pool.admitted c) (hw.pool.admitted c)
  · exact (mem_append.mp hc).elim (hg.pool.low c) (hw.pool.low c)
  · refine pairwise_append.mpr ⟨hg.pool.once, hw.pool.once, fun a ha b hb heq => ?_⟩
    have hnot := (mem_filter.mp hb).2
    have hch : a.chunkId = b.chunkId := congrArg Prod.snd heq
    have hm : b.chunkId ∈ cs.map Candidate.chunkId := hch ▸ List.mem_map_of_mem ha
    simp [hm] at hnot
  · rw [filter_append, hg.filter_eq, filter_graphSourced_eq_nil hw.retrieved, append_nil]
  · exact (mem_append.mp hc).imp_right mem_of_mem_filter

/-! ### The paths of one collection -/

/-- What a graph mode falls back to is as requested. -/
theorem allMeet_fallBack (hsc : req.scopeFilter = none) (query collection : String) :
    AllMeet p req fun reranker => p.fallBack reranker req query collection :=
  allMeet_searchStandard hsc.symm

/-- **The candidates of the graph, merged with those of a hybrid search.** -/
theorem allMeet_blend_iff (hsc : req.scopeFilter = none)
    (hg : FetchedLeg p.store req collection cs)
    (hvis : ∀ c ∈ cs, isAclAllowed c.acl req.ns = true) (graphFiltered : Bool) :
    AllMeet p req (fun reranker => p.blend reranker req collection cs graphFiltered) ↔
      FetchedMeet req p.topKReturn
        (if (p.hybridForMerge req collection).isSome then cs else []) := by
  cases hhyb : p.hybridForMerge req collection with
  | none =>
    refine iff_of_true ?_ fetchedMeet_nil
    intro reranker result h
    obtain ⟨hybrid, hs, -⟩ := bind_called_eq_ok.mp h
    rw [hhyb] at hs
    cases hs
  | some hybrid =>
    obtain ⟨vector, -, hsear⟩ := bind_eq_some_iff.mp hhyb
    have hleg : HybridLeg p.store req collection
        (visibleTo req.ns (applyGlob req.filters hybrid)).1 := by
      have hstore : p.store.hybridSearchWithTrace collection (some vector) req.query
          p.candidateDepth req.filters (storeScope req.scopeFilter) = some hybrid := by
        rw [hsc]
        exact hsear
      have hall := hybridLeg_of_hybrid hstore
      rw [hsc] at hall
      exact hall.sublist (visibleTo_fst_sublist req.ns _)
    obtain ⟨hpool, hfil, hm⟩ := pool_mergeNew hg hleg
    have hall : ∀ c ∈ mergeNew cs (visibleTo req.ns (applyGlob req.filters hybrid)).1,
        isAclAllowed c.acl req.ns = true :=
      fun c hc => (hm c hc).elim (hvis c) isAclAllowed_of_mem_visibleTo
    have hiff := allMeet_finish_iff
      (f := fun results =>
        { results := results
          aclFiltered := graphFiltered || (visibleTo req.ns (applyGlob req.filters hybrid)).2
          graphExpansionApplied := true })
      (fun _ => rfl) hpool hall
    rw [hfil] at hiff
    rw [isSome_some, if_pos rfl, ← hiff]
    unfold Pipeline.blend
    rw [hhyb]
    exact Iff.rfl

theorem fetchedMeet_ite_nil {topK : ℕ} {q : Prop} [Decidable q] :
    FetchedMeet req topK (if q then [] else []) := by
  rw [ite_self]
  exact fetchedMeet_nil

theorem called_some_bind {α β : Type} (a : α) (f : α → Except SearchError β) :
    called (some a) >>= f = f a := rfl

/-- A path that falls back where the namespace may see nothing that was fetched. -/
theorem allMeet_ite_iff {path other : Option Reranker → Except SearchError SearchPipelineResult}
    {shown : List Candidate} (hoth : AllMeet p req other)
    (hp : AllMeet p req path ↔ FetchedMeet req p.topKReturn shown)
    (hnil : cs = [] → shown = []) :
    AllMeet p req (fun reranker => if cs = [] then other reranker else path reranker) ↔
      FetchedMeet req p.topKReturn shown := by
  by_cases hcs : cs = []
  · simp only [if_pos hcs, hnil hcs]
    exact iff_of_true hoth fetchedMeet_nil
  · simp only [if_neg hcs]
    exact hp

/-- **The mode `global`.** -/
theorem allMeet_searchGlobalMode_iff (hsc : req.scopeFilter = none) :
    AllMeet p req (fun reranker => p.searchGlobalMode reranker req collection) ↔
      FetchedMeet req p.topKReturn (visibleTo req.ns (p.globalFetched req collection)).1 := by
  have hfallBack := allMeet_fallBack (p := p) hsc req.query collection
  unfold Pipeline.searchGlobalMode Pipeline.globalFetched
  cases p.graphStore with
  | none => exact iff_of_true hfallBack fetchedMeet_nil
  | some graphStore =>
    cases hlist : graphStore.listCommunityRepresentatives collection req.ns with
    | none =>
      simp only [hlist]
      exact iff_of_true allMeet_error fetchedMeet_nil
    | some communities =>
      simp only [hlist]
      by_cases hnil : communities = []
      · subst hnil
        have hemp : p.globalChunkIds [] = [] := take_nil
        rw [hemp]
        exact iff_of_true allMeet_error fetchedMeet_nil
      have hleg := (fetchedLeg_fetch p hsc collection
        (p.globalChunkIds communities)).sublist (visibleTo_fst_sublist req.ns _)
      have hiff := allMeet_finish_iff
        (f := fun results =>
          { results := results
            aclFiltered :=
              (visibleTo req.ns (p.fetch collection (p.globalChunkIds communities))).2
            graphExpansionApplied := true })
        (fun _ => rfl) hleg.pool (fun c hc => isAclAllowed_of_mem_visibleTo hc)
      rw [hleg.filter_eq] at hiff
      simp only [called_some_bind, if_neg hnil]
      exact allMeet_ite_iff hfallBack hiff id

/-- **The mode `local`.** -/
theorem allMeet_searchLocalMode_iff (hsc : req.scopeFilter = none) :
    AllMeet p req (fun reranker => p.searchLocalMode reranker req collection) ↔
      FetchedMeet req p.topKReturn
        (if (p.hybridForMerge req collection).isSome then
          (visibleTo req.ns (p.graphStore.elim [] fun graphStore =>
            p.localFetched req graphStore collection)).1
        else []) := by
  have hfallBack (query : String) := allMeet_fallBack (p := p) hsc query collection
  unfold Pipeline.searchLocalMode
  cases p.graphStore with
  | none => exact iff_of_true (hfallBack req.query) fetchedMeet_ite_nil
  | some graphStore =>
    simp only [elim_some, Pipeline.localFetched]
    cases p.matchCommunities req graphStore collection with
    | nothing => exact iff_of_true (hfallBack req.query) fetchedMeet_ite_nil
    | notBuilt => exact iff_of_true allMeet_error fetchedMeet_ite_nil
    | isolated =>
      refine iff_of_true (fun reranker result h => ?_) fetchedMeet_ite_nil
      obtain ⟨effective, -, h⟩ := bind_eq_ok.mp h
      exact (allMeet_bind_pure (f := fun standard =>
        { results := standard.results
          aclFiltered := standard.aclFiltered
          graphExpansionApplied := true }) fun _ => rfl).mpr (hfallBack effective) reranker result h
    | communities communities =>
      have hleg := ((fetchedLeg_fetch p hsc collection
        (localChunkIds communities)).sublist (filter_sublist
          (p := fun c => passesGlob req.filters c.sourcePath))).sublist
            (visibleTo_fst_sublist req.ns _)
      refine allMeet_ite_iff (hfallBack req.query)
        (allMeet_blend_iff hsc hleg (fun c hc => isAclAllowed_of_mem_visibleTo hc) _) ?_
      intro hcs
      split_ifs
      · exact hcs
      · rfl

/-- **The mode `ppr`.** -/
theorem allMeet_searchPprMode_iff (hsc : req.scopeFilter = none) :
    AllMeet p req (fun reranker => p.searchPprMode reranker req collection) ↔
      FetchedMeet req p.topKReturn
        (if (p.hybridForMerge req collection).isSome then
          (visibleTo req.ns (p.pprFetched req collection)).1
        else []) := by
  have hfallBack (entitiesMatched : ℕ) : AllMeet p req (fun reranker => do
      let standard ← p.fallBack reranker req req.query collection
      pure { standard with pprEntitiesMatched := some entitiesMatched }) :=
    (allMeet_bind_pure (f := fun standard =>
      { standard with pprEntitiesMatched := some entitiesMatched }) fun _ => rfl).mpr
        (allMeet_fallBack hsc req.query collection)
  unfold Pipeline.searchPprMode Pipeline.pprFetched
  cases p.pprWalker with
  | none => exact iff_of_true (hfallBack 0) fetchedMeet_ite_nil
  | some walk =>
    cases p.graphStore with
    | none => exact iff_of_true (hfallBack 0) fetchedMeet_ite_nil
    | some graphStore =>
      cases hwalk : walk req.query collection req.ns with
      | none =>
        simp only [hwalk]
        exact iff_of_true (hfallBack 0) fetchedMeet_ite_nil
      | some found =>
        simp only [hwalk]
        by_cases hmat : found.entitiesMatched = 0
        · simp only [if_pos hmat]
          exact iff_of_true (hfallBack 0) fetchedMeet_ite_nil
        simp only [if_neg hmat]
        have hleg := ((fetchedLeg_fetch p hsc collection
          found.chunkIds).sublist (filter_sublist
            (p := fun c => passesGlob req.filters c.sourcePath))).sublist
              (visibleTo_fst_sublist req.ns _)
        refine allMeet_ite_iff (hfallBack found.entitiesMatched)
          ((allMeet_bind_pure (f := fun blended =>
              { blended with pprEntitiesMatched := some found.entitiesMatched })
            fun _ => rfl).trans
            (allMeet_blend_iff hsc hleg (fun c hc => isAclAllowed_of_mem_visibleTo hc) _)) ?_
        intro hcs
        split_ifs
        · exact hcs
        · rfl

/-! ### RAG Fusion -/

variable {embedOne : String → Option ν} {effectiveQuery : String}

theorem allMeet_ragFallBack
    {warning : Option String} :
    AllMeet p req fun reranker => p.ragFallBack reranker req embedOne effectiveQuery collection
      warning :=
  (allMeet_bind_pure (f := fun standard => { standard with ragFusionWarning := warning })
    fun _ => rfl).mpr (allMeet_searchStandard rfl)

/-- **RAG Fusion is as requested.** -/
theorem allMeet_searchRagFusion
    {generateVariants : String → Except GenerateError (List String)} :
    AllMeet p req fun reranker => p.searchRagFusion reranker req embedOne effectiveQuery collection
      generateVariants := by
  intro reranker result h
  unfold Pipeline.searchRagFusion at h
  split at h
  · exact allMeet_ragFallBack reranker result h
  split at h
  · exact allMeet_ragFallBack reranker result h
  · exact allMeet_ragFallBack reranker result h
  · split at h
    · exact allMeet_ragFallBack reranker result h
    rename_i vectors _
    dsimp only at h
    split at h
    · exact allMeet_ragFallBack reranker result h
    obtain ⟨results, hrs, heq⟩ := bind_eq_ok.mp h
    obtain ⟨out, hout, hmap⟩ := bind_called_eq_ok.mp hrs
    cases heq
    cases hmap
    have hret : ∀ variant ∈ (vectors.map fun v =>
        p.store.hybridSearchWithTrace collection (some v) req.query p.candidateDepth
          req.filters (storeScope req.scopeFilter)).filterMap id, ∀ c ∈ variant,
        Retrieved p.store collection req.filters (storeScope req.scopeFilter) c := by
      intro variant hvar
      obtain ⟨search, hsear, hs⟩ := mem_filterMap.mp hvar
      obtain ⟨v, -, rfl⟩ := List.mem_map.mp hsear
      exact (retrieved_of_hybrid hs).1
    have hleg := (hybridLeg_of_fuse hret).sublist (visibleTo_fst_sublist req.ns _)
    exact meets_rank hleg.pool (fun c hc => isAclAllowed_of_mem_visibleTo hc)
      hleg.retrieved hout

/-! ### The search -/

theorem allMeet_searchExpanded (effectiveQuery : String) :
    AllMeet p req fun reranker => p.searchExpanded reranker req embedOne effectiveQuery
      collection := by
  unfold Pipeline.searchExpanded
  cases req.effectiveGenerator with
  | none => exact allMeet_searchStandard rfl
  | some generateVariants => exact allMeet_searchRagFusion

/-- **A search of one collection** returns what it was asked for, whatever the reranker does,
exactly if what it fetches by ids, and may show, is as requested. -/
theorem search_iff :
    AllMeet p req (fun reranker => p.search reranker req embedOne collection) ↔
      FetchedMeet req p.topKReturn (p.fetched req collection) := by
  have hpl : AllMeet p req (fun reranker => do
      let effectiveQuery ← p.expandNaive req collection
      let result ← p.searchExpanded reranker req embedOne effectiveQuery collection
      pure { result with graphExpansionApplied := effectiveQuery ≠ req.query }) := by
    intro reranker result h
    obtain ⟨effectiveQuery, -, h⟩ := bind_eq_ok.mp h
    exact (allMeet_bind_pure (f := fun result =>
      { result with graphExpansionApplied := effectiveQuery ≠ req.query })
        fun _ => rfl).mpr (allMeet_searchExpanded effectiveQuery) reranker result h
  unfold Pipeline.search Pipeline.fetched
  cases hsc : req.scopeFilter with
  | some scope =>
    simp only [isSome_some, if_pos]
    split
    · exact iff_of_true allMeet_error fetchedMeet_nil
    · exact iff_of_true allMeet_error fetchedMeet_nil
    · exact iff_of_true allMeet_error fetchedMeet_nil
    · exact iff_of_true hpl fetchedMeet_nil
    · exact iff_of_true hpl fetchedMeet_nil
  | none =>
    cases req.effectiveMode with
    | none => exact iff_of_true hpl fetchedMeet_nil
    | some mode =>
      cases mode with
      | naive => exact iff_of_true hpl fetchedMeet_nil
      | «local» => exact allMeet_searchLocalMode_iff hsc
      | «global» => exact allMeet_searchGlobalMode_iff hsc
      | ppr => exact allMeet_searchPprMode_iff hsc

end ArchonSearch.Search
