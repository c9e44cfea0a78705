import ArchonSearch.Search.Fetched

/-!
# What a search of several collections fetches by id

The legs of a fan-out are candidates of distinct collections, and are as requested if each is. In
the modes `local` and `global` some of what they have was fetched by ids: `Pipeline.fetchedMany`.

`answers_iff` is about any search, of one collection or of several: its results satisfy the
request, whatever the reranker does, exactly if what was fetched by ids and may be shown does.
`not_answers_global` is a search that shows what was not asked for.
-/

namespace ArchonSearch.Search

open Lib List Pipeline

/-! ### What is fetched -/

section Fetched

variable {ν : Type} (p : Pipeline ν) (req : Request ν)

/-- The candidates of the mode `global`, if all collections can be asked. -/
def Pipeline.globalFetchedMany (graphStore : GraphStore) (collections : List String) :
    List Candidate :=
  match collections.mapM (p.globalLeg req graphStore) with
  | .ok legs => legs.flatten
  | .error _ => []

/-- The candidates of a leg of the mode `local`, if it does not raise. -/
def Pipeline.localLegFetched (graphStore : GraphStore) (vector : ν) (collection : String) :
    List Candidate :=
  if (p.hybridLeg req (some vector) req.query (p.fanoutDepth req) none collection).isSome then
    p.trimLeg (p.localFetched req graphStore collection)
  else []

/-- The candidates of the mode `local`, if there is a vector. -/
def Pipeline.localFetchedMany (graphStore : GraphStore) (collections : List String) :
    List Candidate :=
  match req.queryVector.or (p.embedOne req.query) with
  | none => []
  | some vector => collections.flatMap (p.localLegFetched req graphStore vector)

def Pipeline.fanoutFetched (collections : List String) : List Candidate :=
  if req.effectiveGenerator.isSome ∨ req.scopeFilter.isSome then []
  else
    match req.effectiveMode, p.graphStore with
    | some .global, some graphStore =>
      (visibleTo req.ns (p.globalFetchedMany req graphStore collections)).1
    | some .local, some graphStore =>
      (visibleTo req.ns (p.localFetchedMany req graphStore collections)).1
    | _, _ => []

/-- The candidates that a search of several collections fetches by their ids and ranks. -/
def Pipeline.fetchedMany (collections : List String) : List Candidate :=
  match p.getAllCollectionsMeta req.ns with
  | none => []
  | some all =>
    let metas : Dict String String := Keyed.ofList all
    if collections.filter (fun name => (Dict.get metas name).isNone) ≠ [] then []
    else p.fanoutFetched req (p.inScope metas collections)

end Fetched

variable {ν : Type} {p : Pipeline ν} {req : Request ν} {collection : String}
  {collections : List String} {cs : List Candidate}

/-! ### Legs -/

theorem visibleTo_fst (ns : String) (cs : List Candidate) :
    (visibleTo ns cs).1 = cs.filter fun c => isAclAllowed c.acl ns := rfl

variable {store : Store ν} {α : Type}

theorem pool_flatMap {l : List α} (name : α → String)
    {leg : α → List Candidate} (hpool : ∀ a ∈ l, Pool store req (leg a))
    (hnm : ∀ a ∈ l, ∀ c ∈ leg a, c.collection = name a) (hnd : (l.map name).Nodup) :
    Pool store req (l.flatMap leg) where
  stored c hc := by
    obtain ⟨a, ha, hm⟩ := mem_flatMap.mp hc
    exact (hpool a ha).stored c hm
  admitted c hc := by
    obtain ⟨a, ha, hm⟩ := mem_flatMap.mp hc
    exact (hpool a ha).admitted c hm
  low c hc := by
    obtain ⟨a, ha, hm⟩ := mem_flatMap.mp hc
    exact (hpool a ha).low c hm
  once := by
    refine pairwise_flatMap.mpr ⟨fun a ha => (hpool a ha).once, ?_⟩
    refine (List.Pairwise.and_mem.mp (pairwise_map.mp hnd)).imp ?_
    intro a b ⟨ha, hb, hne⟩ c hc d hd heq
    refine absurd ?_ hne
    rw [← hnm a ha c hc, ← hnm b hb d hd]
    exact congrArg Prod.fst heq

theorem hybridLeg_nil : HybridLeg store req collection [] := by
  refine ⟨⟨?_, ?_, ?_, List.Pairwise.nil⟩, ?_, ?_⟩ <;>
    exact fun c hc => absurd hc not_mem_nil

theorem HybridLeg.trimLeg (h : HybridLeg p.store req collection cs) :
    HybridLeg p.store req collection (p.trimLeg cs) where
  pool := h.pool.of_subperm (subperm_take_sortByScore cs p.trim)
  retrieved c hc := h.retrieved c (mem_sortByScore.mp (mem_of_mem_take hc))
  collection_eq c hc := h.collection_eq c (mem_sortByScore.mp (mem_of_mem_take hc))

/-- **The legs of hybrid searches, merged.** -/
theorem pool_mergeLegs {legs : List (String × List Candidate)}
    (h : ∀ leg ∈ legs, HybridLeg store req leg.1 leg.2) :
    Pool store req (mergeLegs legs) ∧ ∀ c ∈ mergeLegs legs, c.graphSourced = false := by
  have hm {leg : String × List Candidate}
      (hleg : leg ∈ (Keyed.ofList legs : Dict String (List Candidate)).items.insertionSort
        fun a b => a.1 ≤ b.1) : HybridLeg store req leg.1 leg.2 :=
    h leg (Keyed.mem_of_mem_ofList ((mem_insertionSort _).mp hleg))
  constructor
  · refine pool_flatMap Prod.fst (fun leg hleg => (hm hleg).pool)
      (fun leg hleg => (hm hleg).collection_eq) ?_
    exact ((perm_insertionSort _ _).map Prod.fst).nodup_iff.mpr (Keyed.nodup _)
  · intro c hc
    obtain ⟨leg, hleg, hcleg⟩ := mem_flatMap.mp hc
    exact (hm hleg).retrieved c hcleg

theorem mem_of_mapM {β : Type} {f : α → Except SearchError β} {l : List α} {l' : List β}
    (h : l.mapM f = .ok l') {b : β} (hb : b ∈ l') : ∃ a ∈ l, f a = .ok b := by
  have hall := exists_of_mapM h
  clear h
  induction hall with
  | nil => cases hb
  | @cons a b' l l' hab hrs ih =>
    rcases mem_cons.mp hb with rfl | hm
    · exact ⟨a, mem_cons_self, hab⟩
    · obtain ⟨a', ha', heq⟩ := ih hm
      exact ⟨a', mem_cons_of_mem a ha', heq⟩

theorem flatMap_filterMap {β γ : Type} (f : α → Option β) (g : β → List γ) (l : List α) :
    (l.filterMap f).flatMap g = l.flatMap fun a => (f a).elim [] g := by
  induction l with
  | nil => rfl
  | cons a l ih =>
    rw [flatMap_cons, ← ih]
    cases hfa : f a with
    | none => rw [filterMap_cons_none hfa, Option.elim_none, nil_append]
    | some b => rw [filterMap_cons_some hfa, Option.elim_some, flatMap_cons]

/-- The legs of distinct collections, of which those that raise are left out. -/
theorem hybrid_legs (store : Store ν) (req : Request ν) {l : List α}
    (name : α → String) (leg : α → Option (List Candidate))
    (h : ∀ a ∈ l, ∀ cs, leg a = some cs → HybridLeg store req (name a) cs)
    (hnd : (l.map name).Nodup) :
    Pool store req ((l.map leg).filterMap id).flatten ∧
      ∀ c ∈ ((l.map leg).filterMap id).flatten, c.graphSourced = false := by
  have hleg : ∀ a ∈ l, HybridLeg store req (name a) ((leg a).elim [] id) := by
    intro a ha
    cases hcs : leg a with
    | none => exact hybridLeg_nil
    | some cs => exact h a ha cs hcs
  have heq : ((l.map leg).filterMap id).flatten = l.flatMap fun a => (leg a).elim [] id := by
    rw [filterMap_map, ← flatMap_id, flatMap_filterMap]
    rfl
  rw [heq]
  refine ⟨pool_flatMap name (fun a ha => (hleg a ha).pool) (fun a ha => (hleg a ha).collection_eq)
    hnd, fun c hc => ?_⟩
  obtain ⟨a, ha, hca⟩ := mem_flatMap.mp hc
  exact (hleg a ha).retrieved c hca

/-- The last steps of a path without candidates that were fetched. -/
theorem meets_of_finish {reranker : Option Reranker} {sorted : Bool} {results : List SearchResult}
    (hpool : Pool p.store req cs) (hret : ∀ c ∈ cs, c.graphSourced = false)
    (h : p.finish reranker req sorted (visibleTo req.ns cs).1 = .ok results) :
    Meets p.store p.topKReturn req results := by
  obtain ⟨out, hout, hmap⟩ := bind_called_eq_ok.mp h
  cases hmap
  have hsub := visibleTo_fst_sublist req.ns cs
  exact meets_rank (hpool.sublist hsub) (fun c hc => isAclAllowed_of_mem_visibleTo hc)
    (fun c hc => hret c (hsub.subset hc)) hout

variable {queryVector : Option ν}

theorem hybridLeg_of_eq_some {queryText : String} {depth : ℕ}
    {scopeFilter : Option String} (hsc : scopeFilter = req.scopeFilter)
    (h : p.hybridLeg req queryVector queryText depth scopeFilter collection = some cs) :
    HybridLeg p.store req collection cs := by
  subst hsc
  obtain ⟨found, hfnd, heq⟩ := Option.bind_eq_some_iff.mp h
  cases heq
  exact hybridLeg_of_hybrid hfnd

/-! ### Paths without candidates that are fetched -/

/-- **The standard path of several collections is as requested.** -/
theorem allMeet_fanoutStandard :
    AllMeet p req fun reranker => p.fanoutStandard reranker req queryVector collections := by
  intro reranker result h
  obtain ⟨⟨merged, aclFiltered⟩, hmer, h⟩ := bind_eq_ok.mp h
  obtain ⟨legs, hlegs, hvis⟩ := bind_eq_ok.mp hmer
  obtain ⟨results, hrs, heq⟩ := bind_eq_ok.mp h
  cases heq
  have hvis : visibleTo req.ns (mergeLegs legs) = (merged, aclFiltered) :=
    Except.ok.inj hvis
  have hlegs : ∀ leg ∈ legs, HybridLeg p.store req leg.1 leg.2 := by
    intro leg hleg
    obtain ⟨collection, -, hcoll⟩ := mem_of_mapM hlegs hleg
    obtain ⟨cs, hcs, heq⟩ := bind_called_eq_ok.mp hcoll
    cases heq
    exact (hybridLeg_of_eq_some rfl hcs).trimLeg
  have hpool := pool_mergeLegs hlegs
  have hmer : merged = (visibleTo req.ns (mergeLegs legs)).1 :=
    (congrArg Prod.fst hvis).symm
  exact meets_of_finish hpool.1 hpool.2 (hmer ▸ hrs)

theorem allMeet_fanoutFallBack :
    AllMeet p req fun reranker => p.fanoutFallBack reranker req collections := by
  intro reranker result h
  obtain ⟨vector, -, h⟩ := bind_eq_ok.mp h
  exact (allMeet_bind_pure (f := fun standard =>
    { standard with
      pprEntitiesMatched := if req.effectiveMode = some .ppr then some 0 else none })
    fun _ => rfl).mpr allMeet_fanoutStandard reranker result h

theorem hybridLeg_of_ragLeg {vectors : List ν}
    (h : p.ragLeg req vectors collection = some cs) : HybridLeg p.store req collection cs := by
  obtain ⟨found, hfnd, heq⟩ := Option.bind_eq_some_iff.mp h
  cases heq
  unfold ragCandidates at hfnd
  split_ifs at hfnd
  · cases hfnd
    refine hybridLeg_of_fuse fun variant hvar => ?_
    obtain ⟨search, hsear, hs⟩ := mem_filterMap.mp hvar
    obtain ⟨v, -, rfl⟩ := mem_map.mp hsear
    exact (retrieved_of_hybrid hs).1
  · exact hybridLeg_of_hybrid hfnd

/-- **RAG Fusion over several collections is as requested.** -/
theorem allMeet_fanoutRagFusion
    {generateVariants : String → Except GenerateError (List String)} :
    AllMeet p req fun reranker => p.fanoutRagFusion reranker req generateVariants collections := by
  intro reranker result h
  unfold fanoutRagFusion at h
  split at h
  rename_i variants warning _
  split at h
  · obtain ⟨vector, -, h⟩ := bind_eq_ok.mp h
    exact (allMeet_bind_pure (f := fun standard =>
      { standard with
        ragFusionAttempted := true
        ragFusionWarning := some (warning.getD "RAG Fusion expansion failed") })
      fun _ => rfl).mpr allMeet_fanoutStandard reranker result h
  · rename_i vectors _
    obtain ⟨legs, hlegs, h⟩ := bind_eq_ok.mp h
    obtain ⟨results, hrs, heq⟩ := bind_eq_ok.mp h
    cases heq
    have hlegs : ∀ leg ∈ legs, HybridLeg p.store req leg.1 leg.2 := by
      intro leg hleg
      obtain ⟨collection, -, hcoll⟩ := mem_of_mapM hlegs hleg
      obtain ⟨cs, hcs, heq⟩ := bind_called_eq_ok.mp hcoll
      cases heq
      exact (hybridLeg_of_ragLeg hcs).trimLeg
    have hpool := pool_mergeLegs hlegs
    exact meets_of_finish hpool.1 hpool.2 hrs

/-- **The mode `naive` over several collections is as requested.** -/
theorem allMeet_fanoutNaive (hsc : req.scopeFilter = none) (hnd : collections.Nodup)
    {expand : (query collection ns : String) → Option ExpandedQuery} :
    AllMeet p req fun reranker => p.fanoutNaive reranker req expand collections := by
  intro reranker result h
  obtain ⟨expansions, hexp, h⟩ := bind_eq_ok.mp h
  obtain ⟨vectors, -, h⟩ := bind_eq_ok.mp h
  obtain ⟨results, hrs, heq⟩ := bind_eq_ok.mp h
  cases heq
  have hlen := (exists_of_mapM hexp).length_eq
  have hnms : ((collections.zip expansions).map Prod.fst).Nodup := by
    rwa [map_fst_zip hlen.le]
  have hlegs : ∀ entry ∈ collections.zip expansions, ∀ cs,
      (do
        let found ← p.hybridLeg req (vectors.lookup entry.2.expandedText) entry.2.expandedText
          (p.fanoutDepth req) none entry.1
        pure (p.trimLeg found)) = some cs → HybridLeg p.store req entry.1 cs := by
    intro entry _ cs hcs
    obtain ⟨found, hfnd, heq⟩ := Option.bind_eq_some_iff.mp hcs
    cases heq
    exact (hybridLeg_of_eq_some hsc.symm hfnd).trimLeg
  have hpool := hybrid_legs p.store req Prod.fst _ hlegs hnms
  exact meets_of_finish hpool.1 hpool.2 hrs

/-! ### Paths with candidates that are fetched -/

variable {graphStore : GraphStore}

/-- **The mode `global` over several collections.** -/
theorem allMeet_fanoutGlobal_iff (hsc : req.scopeFilter = none) :
    AllMeet p req (fun reranker => p.fanoutGlobal reranker req graphStore collections) ↔
      FetchedMeet req p.topKReturn
        (visibleTo req.ns (p.globalFetchedMany req graphStore collections)).1 := by
  unfold fanoutGlobal globalFetchedMany
  cases hlegs : collections.mapM (p.globalLeg req graphStore) with
  | error e => exact iff_of_true allMeet_error fetchedMeet_nil
  | ok legs =>
    have hm {c : Candidate} (hc : c ∈ legs.flatten) :
        (∃ row ∈ p.store.rows c.collection, (candidateToSearchResult c).IsOf row ∧
          AdmitsScope req.scopeFilter row.scopes) ∧ c.graphSourced = true := by
      obtain ⟨leg, hleg, hcleg⟩ := mem_flatten.mp hc
      obtain ⟨collection, -, hcoll⟩ := mem_of_mapM hlegs hleg
      obtain ⟨communities, -, h⟩ := bind_called_eq_ok.mp hcoll
      split_ifs at h
      cases h
      have hfet := fetchedLeg_fetch p hsc collection (p.globalChunkIds communities)
      exact ⟨hfet.pool.stored c hcleg, hfet.fetched c hcleg⟩
    have hsub := visibleTo_fst_sublist req.ns legs.flatten
    have hiff := allMeet_finish_iff
      (f := fun results =>
        { results := results
          aclFiltered := (visibleTo req.ns legs.flatten).2
          graphExpansionApplied := true })
      (fun _ => rfl)
      (pool_of_fetched (fun c hc => (hm (hsub.subset hc)).1) fun c hc => (hm (hsub.subset hc)).2)
      (fun c hc => isAclAllowed_of_mem_visibleTo hc)
    rw [filter_eq_self.mpr fun c hc => (hm (hsub.subset hc)).2] at hiff
    exact allMeet_ite_iff allMeet_fanoutFallBack hiff id

variable {vector : ν}

/-- A leg of the mode `local`: what the graph has offered comes first. -/
theorem pool_localLeg (hsc : req.scopeFilter = none)
    {leg : List Candidate × Bool} (h : p.localLeg req graphStore vector collection = some leg) :
    Pool p.store req leg.1 ∧ (∀ c ∈ leg.1, c.collection = collection) ∧
      leg.1.filter Candidate.graphSourced = p.trimLeg (p.localFetched req graphStore collection)
      := by
  obtain ⟨hybrid, hhyb, h⟩ := Option.bind_eq_some_iff.mp h
  have hleg : HybridLeg p.store req collection hybrid :=
    hybridLeg_of_eq_some hsc.symm hhyb
  have hfet : FetchedLeg p.store req collection
      (p.localFetched req graphStore collection) := by
    unfold localFetched
    split
    · exact (fetchedLeg_fetch p hsc collection []).sublist (nil_sublist _)
    · exact (fetchedLeg_fetch p hsc collection []).sublist (nil_sublist _)
    · exact (fetchedLeg_fetch p hsc collection []).sublist (nil_sublist _)
    · exact (fetchedLeg_fetch p hsc collection _).sublist filter_sublist
  split at h
  · rename_i hnil
    cases h
    have hsub := hleg.sublist (take_sublist p.trim hybrid)
    rw [hnil, filter_graphSourced_eq_nil hsub.retrieved]
    exact ⟨hsub.pool, hsub.collection_eq, take_nil.symm⟩
  · cases h
    obtain ⟨hpool, hfil, hm⟩ := pool_mergeNew hfet hleg
    refine ⟨hpool.of_subperm (subperm_take_sortByScore _ p.trim), fun c hc => ?_, ?_⟩
    · exact (hm c (mem_sortByScore.mp (mem_of_mem_take hc))).elim
        (hfet.collection_eq c) (hleg.collection_eq c)
    · rw [trimLeg, filter_take_sortByScore hpool.low, hfil, trimLeg]

theorem isSome_localLeg (graphStore : GraphStore) :
    (p.localLeg req graphStore vector collection).isSome =
      (p.hybridLeg req (some vector) req.query (p.fanoutDepth req) none collection).isSome := by
  unfold localLeg
  cases p.hybridLeg req (some vector) req.query (p.fanoutDepth req) none collection with
  | none => rfl
  | some hybrid =>
    split <;> rfl

/-- **The mode `local` over several collections.** -/
theorem allMeet_fanoutLocal_iff (hsc : req.scopeFilter = none) (hnd : collections.Nodup) :
    AllMeet p req (fun reranker => p.fanoutLocal reranker req graphStore collections) ↔
      FetchedMeet req p.topKReturn
        (visibleTo req.ns (p.localFetchedMany req graphStore collections)).1 := by
  unfold fanoutLocal localFetchedMany
  cases req.queryVector.or (p.embedOne req.query) with
  | none => exact iff_of_true allMeet_error fetchedMeet_nil
  | some vector =>
    simp only [called_some_bind, flatMap_filterMap]
    have hleg (collection : String) :
        Pool p.store req ((p.localLeg req graphStore vector collection).elim [] Prod.fst) ∧
          (∀ c ∈ (p.localLeg req graphStore vector collection).elim [] Prod.fst,
            c.collection = collection) ∧
          ((p.localLeg req graphStore vector collection).elim [] Prod.fst).filter
            Candidate.graphSourced = p.localLegFetched req graphStore vector collection := by
      rw [localLegFetched, ← isSome_localLeg graphStore]
      cases hcase : p.localLeg req graphStore vector collection with
      | none =>
        have hnil : HybridLeg p.store req collection [] := hybridLeg_nil
        exact ⟨hnil.pool, hnil.collection_eq, rfl⟩
      | some leg => exact pool_localLeg hsc hcase
    have hpool := pool_flatMap id (fun collection _ => (hleg collection).1)
      (fun collection _ => (hleg collection).2.1) (by rwa [map_id])
    have hiff := allMeet_finish_iff
      (f := fun results =>
        { results := results
          aclFiltered := (visibleTo req.ns (collections.flatMap fun collection =>
            (p.localLeg req graphStore vector collection).elim [] Prod.fst)).2
          graphExpansionApplied :=
            (collections.filterMap (p.localLeg req graphStore vector)).any Prod.snd })
      (fun _ => rfl) (hpool.sublist (visibleTo_fst_sublist req.ns _))
      (fun c hc => isAclAllowed_of_mem_visibleTo hc)
    have hfil : (visibleTo req.ns (collections.flatMap fun collection =>
        (p.localLeg req graphStore vector collection).elim [] Prod.fst)).1.filter
          Candidate.graphSourced =
        (visibleTo req.ns (collections.flatMap (p.localLegFetched req graphStore vector))).1 := by
      rw [visibleTo_fst, visibleTo_fst, filter_comm, filter_flatMap]
      simp only [(hleg _).2.2]
    rw [hfil] at hiff
    exact hiff

/-! ### The search of several collections -/

theorem fanoutFetched_nil : p.fanoutFetched req [] = [] := by
  unfold fanoutFetched
  split_ifs
  · rfl
  · split
    · rfl
    · unfold localFetchedMany
      split <;> rfl
    · rfl

/-- **The paths of the collections in scope.** -/
theorem allMeet_fanout_iff (hnd : collections.Nodup) :
    AllMeet p req (fun reranker => p.fanout reranker req collections) ↔
      FetchedMeet req p.topKReturn (p.fanoutFetched req collections) := by
  unfold fanout fanoutFetched
  cases req.effectiveGenerator with
  | some generateVariants => exact iff_of_true allMeet_fanoutRagFusion fetchedMeet_nil
  | none =>
    cases hsc : req.scopeFilter with
    | some scope =>
      simp only [Option.isSome_some, Option.isSome_none, if_pos, or_true]
      split
      · exact iff_of_true allMeet_error fetchedMeet_nil
      · exact iff_of_true allMeet_error fetchedMeet_nil
      · exact iff_of_true allMeet_error fetchedMeet_nil
      · exact iff_of_true allMeet_fanoutFallBack fetchedMeet_nil
    | none =>
      have hfallBack : AllMeet p req (fun reranker => p.fanoutFallBack reranker req collections) :=
        allMeet_fanoutFallBack
      cases req.effectiveMode with
      | none => exact iff_of_true hfallBack fetchedMeet_nil
      | some mode =>
        cases mode with
        | naive =>
          cases p.graphExpander with
          | none => exact iff_of_true hfallBack fetchedMeet_nil
          | some expand => exact iff_of_true (allMeet_fanoutNaive hsc hnd) fetchedMeet_nil
        | «local» =>
          cases p.graphStore with
          | none => exact iff_of_true hfallBack fetchedMeet_nil
          | some graphStore => exact allMeet_fanoutLocal_iff hsc hnd
        | «global» =>
          cases p.graphStore with
          | none => exact iff_of_true hfallBack fetchedMeet_nil
          | some graphStore => exact allMeet_fanoutGlobal_iff hsc
        | ppr => exact iff_of_true hfallBack fetchedMeet_nil

theorem meets_nil {topK : ℕ} : Meets store topK req [] where
  admitted _ hr := absurd hr not_mem_nil
  visible _ hr := absurd hr not_mem_nil
  scope _ hr := absurd hr not_mem_nil
  once := nodup_nil
  length_le := Nat.zero_le topK

/-- **A search of several collections** returns what it was asked for, whatever the reranker
does, exactly if what it fetches by ids, and may show, is as requested. -/
theorem searchMany_iff (hnd : collections.Nodup) :
    AllMeet p req (fun reranker => p.searchMany reranker req collections) ↔
      FetchedMeet req p.topKReturn (p.fetchedMany req collections) := by
  unfold searchMany fetchedMany
  cases p.getAllCollectionsMeta req.ns with
  | none => exact iff_of_true allMeet_error fetchedMeet_nil
  | some all =>
    dsimp only
    split_ifs with hmis hnil
    · exact iff_of_true allMeet_error fetchedMeet_nil
    · rw [hnil, fanoutFetched_nil]
      refine iff_of_true (fun reranker result h => ?_) fetchedMeet_nil
      cases h
      exact meets_nil
    · exact (allMeet_bind_pure (f := fun result =>
        { result with
          excludedCollections := collections.filter fun name =>
            !(p.inScope (Keyed.ofList all) collections).contains name })
        fun _ => rfl).trans (allMeet_fanout_iff (hnd.filter _))

/-! ### Any search -/

/-- What a search is of: one collection, with its embedder, or several distinct ones. -/
inductive Target (ν : Type) where
  /-- `search`. -/
  | one (embedOne : String → Option ν) (collection : String)
  /-- `search_many`. -/
  | many (collections : List String) (distinct : collections.Nodup)

def Pipeline.answer (p : Pipeline ν) (reranker : Option Reranker) (req : Request ν) :
    Target ν → Except SearchError SearchPipelineResult
  | .one embedOne collection => p.search reranker req embedOne collection
  | .many collections _ => p.searchMany reranker req collections

def Pipeline.fetchedFor (p : Pipeline ν) (req : Request ν) : Target ν → List Candidate
  | .one _ collection => p.fetched req collection
  | .many collections _ => p.fetchedMany req collections

/-- **Every result satisfies the request**, whatever the reranker does, exactly if what is
fetched by ids, and may be shown, satisfies it. -/
theorem answers_iff (p : Pipeline ν) (req : Request ν) (target : Target ν) :
    (∀ reranker result, p.answer reranker req target = .ok result →
        Meets p.store p.topKReturn req result.results) ↔
      FetchedMeet req p.topKReturn (p.fetchedFor req target) := by
  cases target with
  | one embedOne collection => exact search_iff
  | many collections distinct => exact searchMany_iff distinct

/-! ### A search that shows what was not asked for -/

/-- A database that returns every row of which the predicate holds, in the order of the
table. -/
def sampleLance : Lance Unit where
  vectorSearch rows _ p depth := some ((rows.filter p).take depth)
  ftsSearch rows _ p depth := .ok ((rows.filter p).take depth)
  scan rows p := rows.filter p
  mem_of_vectorSearch h row hrow := by
    cases h
    exact mem_filter.mp (mem_of_mem_take hrow)
  mem_of_ftsSearch h row hrow := by
    cases h
    exact mem_filter.mp (mem_of_mem_take hrow)
  scan_perm rows p := List.Perm.refl (rows.filter p)

def samplePipeline : Pipeline Unit where
  store :=
    { lance := sampleLance
      tables := fun _ => some
        { rows := [{ docId := "d", chunkId := "c", text := "t", sourcePath := "/notes.md",
                     fileType := some "md" }] } }
  embedOne _ := some ()
  modelName := "m"
  getAllCollectionsMeta _ := some [("notes", "m")]
  topKRetrieve := 20
  topKReturn := 5
  topKReturn_pos := by decide
  fanoutLegTrim := 10
  graphStore := some
    { listCommunityRepresentatives := fun _ _ => some [["c"]]
      findNodesByName := fun _ _ _ => some []
      communitiesTableExists := fun _ _ => some true
      getCommunitiesForEntities := fun _ _ _ => some [] }
  maxGlobalCandidates := 100
  graphExpander := none
  pprWalker := none
  ngrams _ := []

/-- A search of the mode `global` for Python files. -/
def sampleRequest : Request Unit where
  query := "q"
  ns := "default"
  filters := some { fileType := some "py" }
  graphMode := some .global

/-- **The mode `global` shows a file of another type than the one asked for.** -/
theorem not_answers_global :
    ¬∀ reranker result,
      samplePipeline.answer reranker sampleRequest (.one (fun _ => some ()) "notes") =
          .ok result →
        Meets samplePipeline.store samplePipeline.topKReturn sampleRequest result.results := by
  intro h
  have hmeets := h none _ rfl
  have htype := (hmeets.admitted _ mem_cons_self _ rfl).fileType
  revert htype
  decide

end ArchonSearch.Search
