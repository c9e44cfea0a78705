import Mathlib.Data.List.Rotate
import Mathlib.Data.Prod.Lex
import ArchonSearch.Search.SecondPass

/-!
# Does the fused order decide?

The list that RAG Fusion makes is by falling second-pass score, and the candidates in it do not know
that score. What a search shows of the list without a reranker, the second-pass score should decide
(`FusedOrderDecides`).

`search` cuts the list as it is, and there it does. `search_many` sorts the list again, by the score
that a candidate has from its own variant, and cuts it twice, once before it drops what the
namespace may not see; `explain` sorts it by that score too. There it does exactly if, of the
candidates that are shown, none has a lower second-pass score than one that the sort puts behind it
(`fusedOrder_decides`), which it need not be (`fusedOrder_undecided`).
-/

namespace ArchonSearch.Search

open Lib List Candidate

/-- **The fused order decides** what is shown of a pool: what is shown comes by falling second-pass
score, nothing that is left out has a higher one, and a chunk that outranks one that is shown is
shown before it. -/
structure FusedOrderDecides (variants : List (List Candidate)) (pool shown : List Candidate) :
    Prop where
  decided : DecidedBy (fun c => secondPassScore variants c.chunkId) pool shown
  outranking : ∀ a ∈ pool, ∀ b ∈ shown, Outranks variants a.chunkId b.chunkId → [a, b].Sublist shown

/-- The order of the variants needs no proof of its own. -/
theorem fusedOrderDecides_iff {variants : List (List Candidate)} {pool shown : List Candidate} :
    FusedOrderDecides variants pool shown ↔
      DecidedBy (fun c => secondPassScore variants c.chunkId) pool shown := by
  refine ⟨FusedOrderDecides.decided, fun h => ⟨h, fun a ha b hb hout => ?_⟩⟩
  exact h.sublist_of_lt ha hb (secondPassScore_lt_of_outranks hout)

/-! ### `explain` with RAG Fusion -/

/-- `RagFusionSubQueryInfo`. -/
structure RagFusionSubQueryInfo where
  /-- `variant_index`: 0 is the query itself. -/
  (variantIndex resultCount : ℕ)
  topDocIds : List String

/-- `ExplainPipelineResult`, with what RAG Fusion says. -/
structure RagFusionExplained extends ExplainPipelineResult where
  ragFusionApplied : Bool := false
  ragFusionQueriesUsed : ℕ := 0
  ragFusionSubQueryResults : Option (List RagFusionSubQueryInfo) := none

/-- The RAG Fusion path of `explain`. What the generator or the embedder raises is the name of its
type. -/
def Pipeline.explainRagFusion {ν : Type} (p : Pipeline ν) (reranker : Option Reranker)
    (embed : String → Except String ν) (generateVariants : String → Except String (List String))
    (query collection ns : String) (topK : ℕ) (rerank : Bool) (queryVector : Option ν)
    (scopeFilter : Option String) : Except ExplainError RagFusionExplained :=
  let fallBack (queryVector : Option ν) (reason : Option String) :
      Except ExplainError RagFusionExplained := do
    let standard ← p.explainStandard reranker (fun text => (embed text).toOption) query collection
      ns topK rerank queryVector scopeFilter true reason
    pure { toExplainPipelineResult := standard }
  if p.store.hasVectorIndex collection = false then fallBack queryVector none
  else
    match generateVariants query with
    | .error reason => fallBack none (some reason)
    | .ok variants =>
      match (query :: variants).mapM embed with
      | .error reason => fallBack none (some reason)
      | .ok vectors =>
        let raw := vectors.map fun v => p.store.hybridSearchWithTrace collection (some v) query
          p.candidateDepth none (storeScope scopeFilter)
        let successful := raw.zipIdx.filterMap fun (found, index) => found.map fun cs => (cs, index)
        if successful = [] then fallBack none none
        else do
          let (fused, aclFiltered) := visibleTo ns (applyScopeWildcard scopeFilter
            (fuseRagFusionResults (successful.map Prod.fst)))
          let ranked ← stage .reranker (rerankAll reranker rerank query fused)
          let kept := (ranked.insertionSort ExplainedBefore).take p.topKRetrieve
          let queriesUsed := (successful.filter fun variant => variant.2 > 0).length
          pure
            { topResults := kept.take topK
              nearMisses := kept.drop topK
              aclFiltered := aclFiltered
              ragFusionApplied := queriesUsed ≠ 0
              ragFusionQueriesUsed := queriesUsed
              ragFusionAttempted := true
              ragFusionSubQueryResults := some (successful.map fun (cs, index) =>
                ⟨index, cs.length, (cs.take 5).map docId⟩) }

/-! ### What is shown of the fused list -/

section Shown

variable {ν : Type} (p : Pipeline ν) (req : Request ν) (variants : List (List Candidate))

def fusedFor : List Candidate :=
  applyScopeWildcard req.scopeFilter (applyGlob req.filters (fuseRagFusionResults variants))

def visibleFused : List Candidate := (visibleTo req.ns (fusedFor req variants)).1

/-- What `search` shows without a reranker. -/
def Pipeline.shownBySearch : List Candidate := (visibleFused req variants).take p.topKReturn

/-- What `search_many` shows of one collection without a reranker. -/
def Pipeline.shownBySearchMany : List Candidate :=
  (sortByScore (visibleTo req.ns (p.trimLeg (fusedFor req variants))).1).take p.topKReturn

/-- What `explain` keeps without a reranker. -/
def Pipeline.keptByExplain : List Candidate :=
  ((visibleFused req variants).insertionSort ExplainedBefore).take p.topKRetrieve

def Pipeline.shownByExplain (topK : ℕ) : List Candidate := (p.keptByExplain req variants).take topK

/-- The key `(-c.score_breakdown.rrf_score, c.chunk_id)`. -/
def scoreKey (c : Candidate) : ℚ ×ₗ String := toLex (-c.rrfScore, c.chunkId)

/-- The key `(-_final_score(c), c.doc_id, c.chunk_id)`. -/
def explainedKey (c : Candidate) : ℚ ×ₗ String ×ₗ String :=
  toLex (-c.finalScore, toLex (c.docId, c.chunkId))

/-- No candidate that `search_many` shows has a lower second-pass score than one that comes behind
it by its own score. Shown is what few enough candidates precede, of all and of those that are
visible. -/
def Pipeline.ManyAgrees : Prop :=
  ∀ a ∈ visibleFused req variants,
    ((fusedFor req variants).filter fun b => scoreKey b < scoreKey a).length < p.trim →
    ((visibleFused req variants).filter fun b => scoreKey b < scoreKey a).length < p.topKReturn →
    ∀ b ∈ visibleFused req variants, scoreKey a < scoreKey b →
      secondPassScore variants b.chunkId ≤ secondPassScore variants a.chunkId

/-- No candidate that `explain` shows has a lower second-pass score than one that comes behind it
by its own score. -/
def Pipeline.ExplainAgrees (topK : ℕ) : Prop :=
  ∀ a ∈ visibleFused req variants,
    ((visibleFused req variants).filter fun b => explainedKey b < explainedKey a).length <
      min topK p.topKRetrieve →
    ∀ b ∈ visibleFused req variants, explainedKey a < explainedKey b →
      secondPassScore variants b.chunkId ≤ secondPassScore variants a.chunkId

end Shown

/-! ### The keys -/

theorem scoreKey_lt_of_before {a b : Candidate} (h : Before a b) (hne : a.chunkId ≠ b.chunkId) :
    scoreKey a < scoreKey b := by
  rw [scoreKey, scoreKey, Prod.Lex.toLex_lt_toLex]
  rcases h with hlt | ⟨hsc, hid⟩
  · exact Or.inl (neg_lt_neg hlt)
  · exact Or.inr ⟨congrArg Neg.neg hsc, lt_of_le_of_ne hid hne⟩

theorem explainedKey_lt_of_before {a b : Candidate} (h : ExplainedBefore a b)
    (hne : a.chunkId ≠ b.chunkId) : explainedKey a < explainedKey b := by
  rw [explainedKey, explainedKey, Prod.Lex.toLex_lt_toLex]
  rcases h with hlt | ⟨hsc, hids⟩
  · exact Or.inl (neg_lt_neg hlt)
  · refine Or.inr ⟨congrArg Neg.neg hsc, ?_⟩
    rw [Prod.Lex.toLex_lt_toLex]
    exact hids.imp_right fun hid => ⟨hid.1, lt_of_le_of_ne hid.2 hne⟩

/-- A sorted list of distinct chunks is sorted by its key. -/
theorem pairwise_key {κ : Type*} [LinearOrder κ] {key : Candidate → κ}
    {r : Candidate → Candidate → Prop}
    (hk : ∀ {a b}, r a b → a.chunkId ≠ b.chunkId → key a < key b) {cs : List Candidate}
    (hsort : cs.Pairwise r) (hnd : (cs.map chunkId).Nodup) :
    cs.Pairwise fun a b => key a < key b :=
  (hsort.and (pairwise_map.mp hnd)).imp fun h => hk h.1 h.2

/-! ### Whether the fused order decides -/

section Decides

variable {ν : Type} (p : Pipeline ν) (req : Request ν) {variants : List (List Candidate)}

theorem fusedFor_sublist : (fusedFor req variants).Sublist (fuseRagFusionResults variants) :=
  (applyScopeWildcard_sublist req.scopeFilter _).trans filter_sublist

theorem nodup_fusedFor : ((fusedFor req variants).map chunkId).Nodup :=
  (nodup_fuse variants).sublist ((fusedFor_sublist req).map chunkId)

theorem visibleFused_sublist : (visibleFused req variants).Sublist (fusedFor req variants) :=
  visibleTo_fst_sublist req.ns _

/-- **`search` leaves the fused list as it is.** -/
theorem shownBySearch_decided
    (h : ∀ variant ∈ variants, (variant.map chunkId).Nodup) :
    FusedOrderDecides variants (visibleFused req variants) (p.shownBySearch req variants) := by
  refine fusedOrderDecides_iff.mpr (decidedBy_take ?_ p.topKReturn)
  exact (pairwise_fuse h).sublist ((visibleFused_sublist req).trans (fusedFor_sublist req))

variable (variants) in
/-- **`search_many`** sorts the list again. -/
theorem shownBySearchMany_decided_iff :
    FusedOrderDecides variants (visibleFused req variants) (p.shownBySearchMany req variants) ↔
      p.ManyAgrees req variants := by
  have hp := sortByScore_perm (fusedFor req variants)
  have hnd : ((sortByScore (fusedFor req variants)).map chunkId).Nodup :=
    (hp.map chunkId).nodup_iff.mpr (nodup_fusedFor req)
  have hsort := pairwise_insertionSort Before (fusedFor req variants)
  -- what is kept is sorted already
  have hk : sortByScore (visibleTo req.ns (p.trimLeg (fusedFor req variants))).1 =
      ((sortByScore (fusedFor req variants)).take p.trim).filter fun c =>
        isAclAllowed c.acl req.ns := by
    have hsub := (visibleTo_fst_sublist req.ns (p.trimLeg (fusedFor req variants))).trans
      (take_sublist p.trim _)
    exact (hsort.sublist hsub).insertionSort_eq
  rw [fusedOrderDecides_iff, Pipeline.shownBySearchMany, hk]
  exact decidedBy_take_filter_take_iff hp (pairwise_key scoreKey_lt_of_before hsort hnd)
    _ p.trim p.topKReturn

variable (variants) in
/-- **`explain`** sorts it, too. -/
theorem shownByExplain_decided_iff (topK : ℕ) :
    FusedOrderDecides variants (visibleFused req variants) (p.shownByExplain req variants topK) ↔
      p.ExplainAgrees req variants topK := by
  have hp := perm_insertionSort ExplainedBefore (visibleFused req variants)
  have hnd : (((visibleFused req variants).insertionSort ExplainedBefore).map
      chunkId).Nodup := by
    refine (hp.map chunkId).nodup_iff.mpr ?_
    exact (nodup_fusedFor req).sublist ((visibleFused_sublist req).map chunkId)
  have hsort := pairwise_insertionSort ExplainedBefore (visibleFused req variants)
  rw [fusedOrderDecides_iff, Pipeline.shownByExplain, Pipeline.keptByExplain, take_take]
  exact decidedBy_take_iff hp (pairwise_key explainedKey_lt_of_before hsort hnd) _

/-- **Whether the fused order decides.** What `search` shows, it does decide; what `search_many` or
`explain` shows, exactly if it agrees with their own order on what they show. -/
theorem fusedOrder_decides (h : ∀ variant ∈ variants, (variant.map chunkId).Nodup) :
    FusedOrderDecides variants (visibleFused req variants) (p.shownBySearch req variants) ∧
      (FusedOrderDecides variants (visibleFused req variants) (p.shownBySearchMany req variants) ↔
        p.ManyAgrees req variants) ∧
      ∀ topK, (FusedOrderDecides variants (visibleFused req variants)
        (p.shownByExplain req variants topK) ↔ p.ExplainAgrees req variants topK) :=
  ⟨shownBySearch_decided p req h, shownBySearchMany_decided_iff p req variants,
    shownByExplain_decided_iff p req variants⟩

end Decides

/-! ### The paths -/

section Paths

variable {ν : Type} {p : Pipeline ν} {req : Request ν} {reranker : Option Reranker}
  {collection : String}

variable (p req) in
def Pipeline.searchedVariants (depth : ℕ) (collection : String) (vectors : List ν) :
    List (List Candidate) :=
  (vectors.map fun v => p.store.hybridSearchWithTrace collection (some v) req.query depth
    req.filters (storeScope req.scopeFilter)).filterMap id

theorem nodup_searchedVariants {depth : ℕ} {vectors : List ν} :
    ∀ variant ∈ p.searchedVariants req depth collection vectors, (variant.map chunkId).Nodup := by
  intro variant hvar
  obtain ⟨search, hsear, hs⟩ := mem_filterMap.mp hvar
  obtain ⟨v, -, rfl⟩ := mem_map.mp hsear
  exact (retrieved_of_hybrid hs).2

/-- There is no reranker, or it is not asked for. -/
def RunsNoReranker (reranker : Option Reranker) (rerank : Bool) : Prop :=
  reranker = none ∨ rerank = false

theorem rank_eq_of_runsNoReranker (h : RunsNoReranker reranker req.rerank) (sorted : Bool)
    (cs : List Candidate) : rank reranker req.rerank sorted req.query p.topKReturn cs =
      some ((if sorted then sortByScore cs else cs).take p.topKReturn) := by
  unfold rank
  split
  · next hrer =>
    rcases h with h | h
    · cases h
    · exact absurd (h.symm.trans hrer) Bool.false_ne_true
  · rfl

variable {generateVariants : String → Except GenerateError (List String)}
  {result : SearchPipelineResult}

/-- **`search`**, where RAG Fusion is applied, shows what the fused order of the query and its
generated variants decides. -/
theorem shown_searchRagFusion (hr : RunsNoReranker reranker req.rerank)
    {embedOne : String → Option ν} {effectiveQuery : String}
    (h : p.searchRagFusion reranker req embedOne effectiveQuery collection generateVariants =
      .ok result) (happ : result.ragFusionApplied = true) :
    ∃ texts vectors, generateVariants req.query = .ok texts ∧
      (effectiveQuery :: texts).mapM embedOne = some vectors ∧
      let variants := p.searchedVariants req p.candidateDepth collection vectors
      result.results = (p.shownBySearch req variants).map candidateToSearchResult ∧
        FusedOrderDecides variants (visibleFused req variants) (p.shownBySearch req variants) := by
  have hfallBack {warning : Option String} (h : p.ragFallBack reranker req embedOne effectiveQuery
      collection warning = .ok result) : False := by
    obtain ⟨standard, hstan, heq⟩ := bind_eq_ok.mp h
    obtain ⟨vector, -, hstan⟩ := bind_eq_ok.mp hstan
    obtain ⟨candidates, -, hstan⟩ := bind_eq_ok.mp hstan
    obtain ⟨ranked, -, hran⟩ := bind_eq_ok.mp hstan
    cases heq
    cases hran
    cases happ
  unfold Pipeline.searchRagFusion at h
  split at h
  · cases hfallBack h
  split at h
  · cases hfallBack h
  · cases hfallBack h
  next texts htext =>
  split at h
  · cases hfallBack h
  next vectors hvec =>
  dsimp only at h
  split at h
  · cases hfallBack h
  refine ⟨texts, vectors, htext, hvec, ?_⟩
  rw [Pipeline.finish, rank_eq_of_runsNoReranker hr] at h
  cases h
  exact ⟨rfl, shownBySearch_decided p req nodup_searchedVariants⟩

/-- **`search_many`** of one collection, where RAG Fusion is applied. -/
theorem shown_fanoutRagFusion (hr : RunsNoReranker reranker req.rerank)
    (h : p.fanoutRagFusion reranker req generateVariants [collection] = .ok result)
    (happ : result.ragFusionApplied = true) :
    ∃ texts vectors, generateVariants req.query = .ok texts ∧
      (req.query :: texts).mapM p.embedOne = some vectors ∧
      let variants := p.searchedVariants req (p.fanoutDepth req) collection vectors
      result.results = (p.shownBySearchMany req variants).map candidateToSearchResult ∧
        (FusedOrderDecides variants (visibleFused req variants) (p.shownBySearchMany req variants) ↔
          p.ManyAgrees req variants) := by
  unfold Pipeline.fanoutRagFusion at h
  split at h
  next texts warning htext =>
  split at h
  · obtain ⟨vector, -, h⟩ := bind_called_eq_ok.mp h
    obtain ⟨standard, hstan, heq⟩ := bind_eq_ok.mp h
    obtain ⟨⟨merged, filtered⟩, -, hstan⟩ := bind_eq_ok.mp hstan
    obtain ⟨results, -, hrs⟩ := bind_eq_ok.mp hstan
    cases heq
    cases hrs
    cases happ
  · next vectors hvec =>
    obtain ⟨legs, hlegs, h⟩ := bind_eq_ok.mp h
    obtain ⟨results, hrs, heq⟩ := bind_eq_ok.mp h
    cases heq
    -- a variant was searched, so the generator has made one, and the collection has a vector index
    have hused : (p.successfulVariants req vectors [collection]).length ≠ 0 := by
      simpa using happ
    have hgen : generateVariants req.query = .ok texts := by
      cases hg : generateVariants req.query with
      | ok made =>
        rw [hg] at htext
        exact congrArg Except.ok (Prod.mk.inj htext).1
      | error failure =>
        have htexts : texts = [] := by
          rw [hg] at htext
          cases failure <;> exact (Prod.mk.inj htext).1.symm
        rw [htexts, mapM_cons, mapM_nil] at hvec
        obtain ⟨vector, -, heq⟩ := Option.bind_eq_some_iff.mp hvec
        cases heq
        exact absurd rfl hused
    refine ⟨texts, vectors, hgen, hvec, ?_⟩
    have hind : p.store.hasVectorIndex collection = true := by
      obtain ⟨index, hind⟩ := exists_mem_of_length_pos (Nat.pos_of_ne_zero hused)
      have hany := (mem_filter.mp hind).2
      simp only [any_cons, any_nil, Bool.or_false, Bool.and_eq_true] at hany
      exact hany.2.1
    have hleg : p.ragLeg req vectors collection = some (fusedFor req
        (p.searchedVariants req (p.fanoutDepth req) collection vectors)) := by
      rw [Pipeline.ragLeg, Pipeline.ragCandidates, if_pos hind]
      rfl
    have hone : [collection].insertionSort (· ≤ ·) = [collection] := rfl
    rw [hone, mapM_cons, mapM_nil, hleg] at hlegs
    cases hlegs
    rw [Pipeline.finish, rank_eq_of_runsNoReranker hr] at hrs
    cases hrs
    have hmer (cs : List Candidate) : mergeLegs [(collection, cs)] = cs :=
      append_nil cs
    rw [hmer]
    exact ⟨rfl, shownBySearchMany_decided_iff p req _⟩

/-- `explain` has no glob. -/
theorem fusedFor_plainRequest (query ns : String) (rerank : Bool) (queryVector : Option ν)
    (scopeFilter : Option String) (variants : List (List Candidate)) :
    fusedFor (plainRequest query ns rerank queryVector scopeFilter) variants =
      applyScopeWildcard scopeFilter (fuseRagFusionResults variants) :=
  congrArg (applyScopeWildcard scopeFilter) (applyGlob_none _)

/-- **`explain`**, where RAG Fusion is applied. -/
theorem shown_explainRagFusion {rerank : Bool} (hr : RunsNoReranker reranker rerank)
    {embed : String → Except String ν} {generateVariants : String → Except String (List String)}
    {query ns : String} {topK : ℕ} {queryVector : Option ν} {scopeFilter : Option String}
    {result : RagFusionExplained}
    (h : p.explainRagFusion reranker embed generateVariants query collection ns topK rerank
      queryVector scopeFilter = .ok result) (happ : result.ragFusionApplied = true) :
    ∃ texts vectors, generateVariants query = .ok texts ∧
      (query :: texts).mapM embed = .ok vectors ∧
      let req := plainRequest query ns rerank queryVector scopeFilter
      let variants := p.searchedVariants req p.candidateDepth collection vectors
      result.topResults = p.shownByExplain req variants topK ∧
        result.nearMisses = (p.keptByExplain req variants).drop topK ∧
        (FusedOrderDecides variants (visibleFused req variants)
          (p.shownByExplain req variants topK) ↔ p.ExplainAgrees req variants topK) := by
  have hfallBack {vector : Option ν} {reason : Option String}
      (h : (p.explainStandard reranker (fun text => (embed text).toOption) query collection ns topK
        rerank vector scopeFilter true reason >>= fun standard =>
          pure { toExplainPipelineResult := standard }) = Except.ok result) : False := by
    obtain ⟨standard, -, heq⟩ := bind_eq_ok.mp h
    cases heq
    cases happ
  have hall (cs : List Candidate) : rerankAll reranker rerank query cs = some cs := by
    unfold rerankAll
    split
    · rcases hr with hr | hr <;> cases hr
    · rfl
  have hfst (l : List (Option (List Candidate))) (k : ℕ) :
      ((l.zipIdx k).filterMap fun (found, index) => found.map fun cs => (cs, index)).map Prod.fst =
        l.filterMap id := by
    induction l generalizing k with
    | nil => rfl
    | cons found l ih => cases found <;> simp [zipIdx_cons, ih]
  unfold Pipeline.explainRagFusion at h
  dsimp only at h
  split at h
  · cases hfallBack h
  split at h
  · cases hfallBack h
  next texts htext =>
  split at h
  · cases hfallBack h
  next vectors hvec =>
  split at h
  · cases hfallBack h
  rw [hall, hfst] at h
  cases h
  refine ⟨texts, vectors, htext, hvec, ?_, ?_, shownByExplain_decided_iff p _ _ topK⟩
  all_goals
    simp only [Pipeline.shownByExplain, Pipeline.keptByExplain, visibleFused, fusedFor_plainRequest]
    rfl

end Paths

/-! ### A better chunk that comes second -/

theorem five_pos : 0 < 5 := by decide

theorem scanned_perm (rows : List Row) (p : Row → Bool) : (rows.filter p).Perm (rows.filter p) :=
  .refl _

/-- A database that finds the rows as they are for one vector, the last of them first for another,
and nothing by text. -/
def rotatingLance : Lance Bool where
  vectorSearch rows v p depth :=
    some (((if v then rows.rotate (rows.length - 1) else rows).filter p).take depth)
  ftsSearch _ _ _ _ := .ok []
  scan rows p := rows.filter p
  mem_of_vectorSearch {rows v p depth out} h row hrow := by
    cases h
    obtain ⟨hmem, hp⟩ := mem_filter.mp (mem_of_mem_take hrow)
    refine ⟨?_, hp⟩
    cases v with
    | true => exact mem_rotate.mp hmem
    | false => exact hmem
  mem_of_ftsSearch h row hrow := by
    cases h
    exact absurd hrow not_mem_nil
  scan_perm := scanned_perm

/-- Three chunks, found as `b`, `c`, `a` for a query and as `a`, `b`, `c` for its variant. -/
def rotatingPipeline : Pipeline Bool where
  store :=
    { lance := rotatingLance
      tables := fun _ => some
        { rows := [{ docId := "e", chunkId := "b", text := "t", sourcePath := "/a.md" },
                   { docId := "f", chunkId := "c", text := "u", sourcePath := "/b.md" },
                   { docId := "d", chunkId := "a", text := "v", sourcePath := "/c.md" }] } }
  embedOne query := some (query ≠ "q")
  modelName := "m"
  getAllCollectionsMeta _ := some [("notes", "m")]
  topKRetrieve := 20
  topKReturn := 5
  topKReturn_pos := five_pos
  fanoutLegTrim := 10
  graphStore := none
  maxGlobalCandidates := 100
  graphExpander := none
  pprWalker := none
  ngrams _ := []

def variantRequest : Request Bool where
  query := "q"
  ns := "default"
  generateVariants := some fun _ => .ok ["r"]

/-- What is found for the query and for its variant. -/
def rotatedVariants : List (List Candidate) :=
  rotatingPipeline.searchedVariants variantRequest rotatingPipeline.candidateDepth "notes"
    [false, true]

theorem vectors_rotated : ["q", "r"].mapM rotatingPipeline.embedOne = some [false, true] := rfl

theorem shown_searchRagFusion_rotated :
    ∃ result, rotatingPipeline.searchRagFusion none variantRequest rotatingPipeline.embedOne "q"
        "notes" (fun _ => .ok ["r"]) = .ok result ∧
      result.results.map SearchResult.chunkId = ["b", "a", "c"] ∧
      FusedOrderDecides rotatedVariants (visibleFused variantRequest rotatedVariants)
        (rotatingPipeline.shownBySearch variantRequest rotatedVariants) := by
  have h : rotatingPipeline.searchRagFusion none variantRequest rotatingPipeline.embedOne "q"
    "notes" (fun _ => .ok ["r"]) = .ok _ := rfl
  obtain ⟨texts, vectors, htext, hvec, hres, hdec⟩ := shown_searchRagFusion (Or.inl rfl) h rfl
  cases htext
  cases hvec.symm.trans vectors_rotated
  refine ⟨_, h, ?_, hdec⟩
  rw [hres]
  decide +kernel

/-- The fan-out shows the same three chunks in another order. -/
theorem shown_fanoutRagFusion_rotated :
    ∃ result, rotatingPipeline.fanoutRagFusion none variantRequest (fun _ => .ok ["r"]) ["notes"] =
        .ok result ∧
      result.results.map SearchResult.chunkId = ["a", "b", "c"] := by
  have h : rotatingPipeline.fanoutRagFusion none variantRequest (fun _ => .ok ["r"]) ["notes"] =
    .ok _ := rfl
  obtain ⟨texts, vectors, htext, hvec, hres, -⟩ := shown_fanoutRagFusion (Or.inl rfl) h rfl
  cases htext
  cases hvec.symm.trans vectors_rotated
  refine ⟨_, h, ?_⟩
  rw [hres]
  decide +kernel

/-- So does `explain`, with the third as a near miss. -/
theorem shown_explainRagFusion_rotated :
    ∃ result, rotatingPipeline.explainRagFusion none (fun query => .ok (query ≠ "q"))
        (fun _ => .ok ["r"]) "q" "notes" "default" 2 true none none = .ok result ∧
      result.topResults.map chunkId = ["a", "b"] ∧ result.nearMisses.map chunkId = ["c"] := by
  have h : rotatingPipeline.explainRagFusion none (fun query => .ok (query ≠ "q"))
    (fun _ => .ok ["r"]) "q" "notes" "default" 2 true none none = .ok _ := rfl
  obtain ⟨texts, vectors, htext, hvec, htop, hmis, -⟩ := shown_explainRagFusion (Or.inl rfl) h rfl
  cases htext
  have hone : (["q", "r"].mapM fun query => .ok (query ≠ "q") : Except String (List Bool)) =
    .ok [false, true] := rfl
  cases hvec.symm.trans hone
  refine ⟨_, h, ?_, ?_⟩
  · rw [htop]
    decide +kernel
  · rw [hmis]
    decide +kernel

/-- A chunk that is alone in one list and second in another, where it has the higher score, and
those around it. -/
def overtakenVariants : List (List Candidate) :=
  let candidate (chunkId : String) (rrfScore : ℚ) : Candidate :=
    rowToScoredCandidate
      { docId := chunkId, chunkId := chunkId, text := "t", sourcePath := "/a.md" }
      "notes" rrfScore
  [[candidate "x" (1 / 61)],
   [candidate "z" (2 / 61), candidate "x" (2 / 62), candidate "y" (2 / 63)]]

/-- Chunks that do not tie in the fused list are shown in its order. -/
theorem fusedOrder_decides_rotated :
    FusedOrderDecides rotatedVariants (visibleFused variantRequest rotatedVariants)
      (rotatingPipeline.shownBySearch variantRequest rotatedVariants) ∧
      (rotatingPipeline.shownBySearch variantRequest rotatedVariants).map chunkId =
        ["b", "a", "c"] :=
  ⟨(fusedOrder_decides rotatingPipeline variantRequest nodup_searchedVariants).1, by decide +kernel⟩

/-- **The fused order need not decide** what `search_many` and `explain` show. -/
theorem fusedOrder_undecided :
    (rotatingPipeline.searchMany none variantRequest ["notes"]).toOption.map
        (fun result => (result.ragFusionApplied, result.results.map SearchResult.chunkId)) =
      some (true, ["a", "b", "c"]) ∧
    (rotatingPipeline.explainRagFusion none (fun query => .ok (query ≠ "q")) (fun _ => .ok ["r"])
        "q" "notes" "default" 5 true none none).toOption.map
        (fun result => (result.ragFusionApplied, result.topResults.map chunkId)) =
      some (true, ["a", "b", "c"]) ∧
    secondPassScore rotatedVariants "a" < secondPassScore rotatedVariants "b" ∧
    ¬FusedOrderDecides rotatedVariants (visibleFused variantRequest rotatedVariants)
      (rotatingPipeline.shownBySearchMany variantRequest rotatedVariants) ∧
    ¬FusedOrderDecides rotatedVariants (visibleFused variantRequest rotatedVariants)
      (rotatingPipeline.shownByExplain variantRequest rotatedVariants 5) ∧
    Outranks overtakenVariants "x" "y" ∧
    (rotatingPipeline.shownBySearchMany variantRequest overtakenVariants).map chunkId =
      ["z", "y", "x"] ∧
    (rotatingPipeline.shownByExplain variantRequest overtakenVariants 5).map chunkId =
      ["z", "y", "x"] := by
  rw [shownBySearchMany_decided_iff, shownByExplain_decided_iff]
  unfold Pipeline.ManyAgrees Pipeline.ExplainAgrees Outranks
  decide +kernel

end ArchonSearch.Search
