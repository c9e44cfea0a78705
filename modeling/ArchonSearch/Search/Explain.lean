import Mathlib.Data.String.Basic
import ArchonSearch.Search.Hidden

/-!
# Explaining a search

`explain` answers a query as `search` does, and tells which candidates came close. It ranks by
itself: where `search` takes the first candidates of the store or of the reranker, and
`search_many` sorts by score and chunk id, `explain` reranks all the candidates, sorts by score,
document id and chunk id, and keeps `top_k_retrieve` of them, however many it is asked for.

For one collection and no filter but a scope all three rank the same candidates, which come sorted
from the store. `search` and `search_many` have the same results, and the top results of `explain`
are the first `top_k_retrieve` of these, if no tie is broken by the document ids
(`entryPoints_agree`): after a reranker whose scores are distinct there are no ties (`Untied`).
Where more results are returned than `top_k_retrieve`, or where imported documents share a score,
`explain` shows others (`entryPoints_disagree`).
-/

namespace ArchonSearch.Search

open Lib List Option Candidate

variable {ν : Type}

/-! ### `explain` -/

/-- `_final_score`. -/
def Candidate.finalScore (c : Candidate) : ℚ := c.rerankerScore.getD c.rrfScore

/-- The order of `key=lambda c: (-_final_score(c), c.doc_id, c.chunk_id)`. -/
def ExplainedBefore (a b : Candidate) : Prop :=
  b.finalScore < a.finalScore ∨ a.finalScore = b.finalScore ∧
    (a.docId < b.docId ∨ a.docId = b.docId ∧ a.chunkId ≤ b.chunkId)

instance : DecidableRel ExplainedBefore := fun _ _ =>
  inferInstanceAs (Decidable (_ ∨ _ ∧ (_ ∨ _ ∧ _)))

/-- What `explain` raises. -/
inductive ExplainError where
  /-- `ExplainStageError("store", ...)`. -/
  | store
  /-- `ExplainStageError("reranker", ...)`. -/
  | reranker
  | raised

/-- `ExplainPipelineResult`. -/
structure ExplainPipelineResult where
  (topResults nearMisses : List Candidate)
  aclFiltered : Bool
  ragFusionAttempted : Bool := false
  ragFusionFailureReason : Option String := none

/-- A stage of `explain`. -/
def stage {α : Type} (e : ExplainError) : Option α → Except ExplainError α
  | some a => .ok a
  | none => .error e

def rerankAll (reranker : Option Reranker) (rerank : Bool) (query : String)
    (cs : List Candidate) : Option (List Candidate) :=
  match reranker, rerank with
  | some reranker, true => reranker.rerankCandidates query cs cs.length
  | _, _ => some cs

variable (p : Pipeline ν) (reranker : Option Reranker)

/-- `_explain_standard`. -/
def Pipeline.explainStandard (embedOne : String → Option ν) (query collection ns : String)
    (topK : ℕ) (rerank : Bool) (queryVector : Option ν) (scopeFilter : Option String)
    (ragFusionAttempted : Bool) (ragFusionFailureReason : Option String) :
    Except ExplainError ExplainPipelineResult := do
  let vector ← stage .raised (queryVector.or (embedOne query))
  let candidates ← stage .store (p.store.hybridSearchWithTrace collection (some vector) query
    p.candidateDepth none (storeScope scopeFilter))
  let (candidates, aclFiltered) := visibleTo ns (applyScopeWildcard scopeFilter candidates)
  let candidates ← stage .reranker (rerankAll reranker rerank query candidates)
  let candidates := (candidates.insertionSort ExplainedBefore).take p.topKRetrieve
  pure
    { topResults := candidates.take topK
      nearMisses := candidates.drop topK
      aclFiltered := aclFiltered
      ragFusionAttempted := ragFusionAttempted
      ragFusionFailureReason := ragFusionFailureReason }

/-- `explain` of one collection, without a graph mode and RAG Fusion. -/
def Pipeline.explain (query collection ns : String) (topK : ℕ) (rerank : Bool)
    (queryVector : Option ν) (scopeFilter : Option String) :
    Except ExplainError ExplainPipelineResult :=
  p.explainStandard reranker p.embedOne query collection ns topK rerank queryVector scopeFilter
    false none

def plainRequest (query ns : String) (rerank : Bool) (queryVector : Option ν)
    (scopeFilter : Option String) : Request ν where
  query := query
  ns := ns
  rerank := rerank
  queryVector := queryVector
  scopeFilter := scopeFilter

/-! ### The orders -/

theorem explainedBefore_trans {a b c : Candidate} (hab : ExplainedBefore a b)
    (hbc : ExplainedBefore b c) : ExplainedBefore a c := by
  rcases hab with hlt | ⟨heq, hab⟩
  · rcases hbc with hlt' | ⟨heq', -⟩
    · exact Or.inl (hlt'.trans hlt)
    · exact Or.inl (heq' ▸ hlt)
  rcases hbc with hlt' | ⟨heq', hbc⟩
  · exact Or.inl (heq ▸ hlt')
  · refine Or.inr ⟨heq.trans heq', ?_⟩
    rcases hab with hd | ⟨hd, hch⟩
    · rcases hbc with hd' | ⟨hd', -⟩
      · exact Or.inl (hd.trans hd')
      · exact Or.inl (hd' ▸ hd)
    · rcases hbc with hd' | ⟨hd', hch'⟩
      · exact Or.inl (hd ▸ hd')
      · exact Or.inr ⟨hd.trans hd', hch.trans hch'⟩

theorem explainedBefore_total (a b : Candidate) : ExplainedBefore a b ∨ ExplainedBefore b a := by
  rcases lt_trichotomy a.finalScore b.finalScore with hsc | hsc | hsc
  · exact Or.inr (Or.inl hsc)
  · rcases lt_trichotomy a.docId b.docId with hd | hd | hd
    · exact Or.inl (Or.inr ⟨hsc, Or.inl hd⟩)
    · rcases le_total a.chunkId b.chunkId with hch | hch
      · exact Or.inl (Or.inr ⟨hsc, Or.inr ⟨hd, hch⟩⟩)
      · exact Or.inr (Or.inr ⟨hsc.symm, Or.inr ⟨hd.symm, hch⟩⟩)
    · exact Or.inr (Or.inr ⟨hsc.symm, Or.inl hd⟩)
  · exact Or.inl (Or.inl hsc)

instance : Std.Total ExplainedBefore where
  total := explainedBefore_total

instance : IsTrans Candidate ExplainedBefore where
  trans _ _ _ := explainedBefore_trans

/-- No tie among the candidates is broken by the document ids: the scores of the reranker are
distinct, or, without one, candidates of one score are sorted by chunk id as by document id. -/
def Untied (backend : Option (List (String × String) → Option (List ℚ))) (rerank : Bool)
    (query : String) (cs : List Candidate) : Prop :=
  match backend, rerank with
  | some predict, true =>
    ∀ scores, predict (cs.map fun c => (query, c.text)) = some scores → scores.Nodup
  | _, _ => ∀ a ∈ cs, ∀ b ∈ cs, a.rrfScore = b.rrfScore → a.chunkId ≤ b.chunkId → a.docId ≤ b.docId

/-! ### One list of candidates -/

section Candidates

variable {backend : Option (List (String × String) → Option (List ℚ))} {rerank : Bool}
  {query : String} {cs : List Candidate}

/-- What a backend's reranker returns is the beginning of what it returns for all. -/
theorem rerankWith_eq_take (predict : List (String × String) → Option (List ℚ)) (topK : ℕ) :
    rerankWith predict query cs topK =
      (rerankWith predict query cs cs.length).map (List.take topK) := by
  unfold rerankWith
  split_ifs with hnil
  · rw [map_some, take_nil]
  cases predict (cs.map fun c => (query, c.text)) with
  | none => rfl
  | some scores =>
    dsimp only [bind_eq_bind, bind_some]
    split_ifs with hlen
    · rfl
    · have hfull (f : Candidate × ℚ → Candidate) :
          ((cs.zip scores).map f).length = cs.length := by
        rw [length_map, length_zip, not_ne_iff.mp hlen, Nat.min_self]
      have hall (f : Candidate × ℚ → Candidate) :
          (((cs.zip scores).map f).insertionSort fun a b =>
            b.rerankerScore.getD 0 ≤ a.rerankerScore.getD 0).length ≤ cs.length := by
        rw [length_insertionSort, hfull]
      rw [map_some, take_of_length_le (hall _)]

/-- Candidates with distinct scores of a reranker, sorted by them, are in the order of `explain`. -/
theorem pairwise_explainedBefore_of_nodup {traced : List Candidate}
    (hran : ∀ c ∈ traced, c.rerankerScore.isSome = true)
    (hnd : (traced.map finalScore).Nodup) :
    (traced.insertionSort fun a b => b.rerankerScore.getD 0 ≤ a.rerankerScore.getD 0).Pairwise
      ExplainedBefore := by
  have htot : Std.Total fun a b : Candidate =>
      b.rerankerScore.getD 0 ≤ a.rerankerScore.getD 0 := ⟨fun _ _ => le_total _ _⟩
  have htrans : IsTrans Candidate fun a b =>
      b.rerankerScore.getD 0 ≤ a.rerankerScore.getD 0 := ⟨fun _ _ _ hab hbc => hbc.trans hab⟩
  have hsort := pairwise_insertionSort
    (fun a b : Candidate => b.rerankerScore.getD 0 ≤ a.rerankerScore.getD 0) traced
  have hp := perm_insertionSort
    (fun a b : Candidate => b.rerankerScore.getD 0 ≤ a.rerankerScore.getD 0) traced
  have hdis := pairwise_map.mp ((hp.map finalScore).nodup_iff.mpr hnd)
  have hsc {c : Candidate} (hc : c ∈ traced) : c.rerankerScore.getD 0 = c.finalScore := by
    obtain ⟨score, hs⟩ := isSome_iff_exists.mp (hran c hc)
    rw [finalScore, hs, getD_some, getD_some]
  refine (hsort.and hdis).imp_of_mem fun {a b} ha hb hab => Or.inl ?_
  obtain ⟨hle, hne⟩ := hab
  rw [hsc (hp.mem_iff.mp ha), hsc (hp.mem_iff.mp hb)] at hle
  exact lt_of_le_of_ne hle fun heq => hne heq.symm

variable {out : List Candidate}

theorem pairwise_explainedBefore_of_rerankWith
    {predict : List (String × String) → Option (List ℚ)}
    (hscor : ∀ scores, predict (cs.map fun c => (query, c.text)) = some scores → scores.Nodup)
    (h : rerankWith predict query cs cs.length = some out) : out.Pairwise ExplainedBefore := by
  unfold rerankWith at h
  split_ifs at h
  · cases h
    exact List.Pairwise.nil
  obtain ⟨scores, hpred, h⟩ := bind_eq_some_iff.mp h
  split_ifs at h with hlen
  cases h
  refine List.Pairwise.sublist (take_sublist _ _)
    (pairwise_explainedBefore_of_nodup (fun c hc => ?_) ?_)
  · obtain ⟨scored, -, rfl⟩ := List.mem_map.mp hc
    rfl
  · have hsnd (f : Candidate × ℚ → Candidate) (hf : ∀ x, (f x).finalScore = x.2) :
        ((cs.zip scores).map f).map finalScore = (cs.zip scores).map Prod.snd := by
      rw [List.map_map]
      exact map_congr_left fun x _ => hf x
    rw [hsnd _ fun _ => rfl, map_snd_zip (Nat.le_of_eq (not_ne_iff.mp hlen))]
    exact hscor scores hpred

/-- **One order**: what is reranked, or comes sorted from the store, has the order of `explain`. -/
theorem pairwise_explainedBefore
    (hsort : cs.Pairwise Before) (hunr : ∀ c ∈ cs, c.rerankerScore = none)
    (hunt : Untied backend rerank query cs)
    (h : rerankAll (backend.map Reranker.ofBackend) rerank query cs = some out) :
    out.Pairwise ExplainedBefore := by
  have hsto : (∀ a ∈ cs, ∀ b ∈ cs, a.rrfScore = b.rrfScore → a.chunkId ≤ b.chunkId →
      a.docId ≤ b.docId) → cs.Pairwise ExplainedBefore := fun hids => by
    refine hsort.imp_of_mem fun {a b} ha hb hab => ?_
    rw [ExplainedBefore, finalScore, finalScore, hunr a ha, hunr b hb]
    refine hab.imp_right fun ⟨hsc, hch⟩ => ⟨hsc, ?_⟩
    exact (hids a ha b hb hsc hch).lt_or_eq.imp_right fun hd => ⟨hd, hch⟩
  cases backend with
  | none =>
    cases h
    exact hsto hunt
  | some predict =>
    cases rerank with
    | true => exact pairwise_explainedBefore_of_rerankWith hunt h
    | false =>
      cases h
      exact hsto hunt

/-- The results are the first of all that are reranked. -/
theorem rank_eq_take (sorted : Bool) (hsort : cs.Pairwise Before) (topK : ℕ) :
    rank (backend.map Reranker.ofBackend) rerank sorted query topK cs =
      (rerankAll (backend.map Reranker.ofBackend) rerank query cs).map (List.take topK) := by
  have hsto : (if sorted then sortByScore cs else cs) = cs := by
    split_ifs
    · exact hsort.insertionSort_eq
    · rfl
  cases backend with
  | none => exact congrArg (fun cs => some (cs.take topK)) hsto
  | some predict =>
    cases rerank with
    | true => exact rerankWith_eq_take predict topK
    | false => exact congrArg (fun cs => some (cs.take topK)) hsto

end Candidates

/-! ### The three entry points -/

section EntryPoints

variable {p : Pipeline ν} {backend : Option (List (String × String) → Option (List ℚ))}
  {query ns collection : String} {rerank : Bool} {queryVector : Option ν}
  {scopeFilter : Option String}

variable (p query collection ns queryVector scopeFilter) in
def Pipeline.visiblePool : Except SearchError (List Candidate) := do
  let vector ← called (queryVector.or (p.embedOne query))
  let candidates ← called (p.store.hybridSearchWithTrace collection (some vector) query
    p.candidateDepth none (storeScope scopeFilter))
  pure (visibleTo ns (applyScopeWildcard scopeFilter candidates)).1

theorem eq_ok_of_toOption {ε α : Type} {x : Except ε α} {a : α} (h : x.toOption = some a) :
    x = .ok a := by
  cases x with
  | error e => cases h
  | ok b => exact congrArg Except.ok (some.inj h)

theorem vectorFor_eq (embedOne : String → Option ν) :
    vectorFor embedOne query queryVector false =
      some <$> called (queryVector.or (embedOne query)) := by
  cases queryVector <;> rfl

/-- What a hybrid search finds comes in the order of the store. -/
theorem pairwise_before_of_hybrid {store : Store ν} {vector : Option ν} {depth : ℕ}
    {filters : Option SearchFilters} {scope : Option String} {found : List Candidate}
    (h : store.hybridSearchWithTrace collection vector query depth filters scope = some found) :
    found.Pairwise Before := by
  unfold Store.hybridSearchWithTrace at h
  split at h
  · cases h
    exact List.Pairwise.nil
  · obtain ⟨vecRows, -, h⟩ := bind_eq_some_iff.mp h
    obtain ⟨ftsRows, -, h⟩ := bind_eq_some_iff.mp h
    cases h
    exact pairwise_insertionSort Before _

theorem applyScopeWildcard_sublist (scopeFilter : Option String) (cs : List Candidate) :
    (applyScopeWildcard scopeFilter cs).Sublist cs := by
  unfold applyScopeWildcard
  split
  · split_ifs
    · exact filter_sublist
    · exact List.Sublist.refl cs
  · exact List.Sublist.refl cs

theorem applyGlob_none (cs : List Candidate) : applyGlob none cs = cs :=
  filter_eq_self.mpr fun _ _ => rfl

/-- The candidates come in the order of the store, each chunk once, and with no score of a
reranker. -/
theorem sorted_of_visiblePool {cs : List Candidate}
    (h : p.visiblePool query ns collection queryVector scopeFilter = .ok cs) :
    cs.Pairwise Before ∧ (cs.map chunkId).Nodup ∧ ∀ c ∈ cs, c.rerankerScore = none := by
  obtain ⟨vector, -, h⟩ := bind_called_eq_ok.mp h
  obtain ⟨found, hfnd, h⟩ := bind_called_eq_ok.mp h
  cases h
  have hsub := (visibleTo_fst_sublist ns _).trans (applyScopeWildcard_sublist scopeFilter found)
  obtain ⟨hret, hnd⟩ := retrieved_of_hybrid hfnd
  refine ⟨(pairwise_before_of_hybrid hfnd).sublist hsub, (hsub.map _).nodup hnd, fun c hc => ?_⟩
  obtain ⟨row, -, -, heq⟩ := (hret c (hsub.subset hc)).row
  rw [heq]
  rfl

theorem called_bind_pure {α β : Type} (o : Option α) (f : α → β) :
    (called o >>= fun a => pure (f a)) = called (o.map f) := by
  cases o <;> rfl

/-- **`search`** ranks the pool. -/
theorem resultsOf_search (reranker : Option Reranker) :
    resultsOf (p.search reranker (plainRequest query ns rerank queryVector scopeFilter) p.embedOne
      collection) = p.visiblePool query ns collection queryVector scopeFilter >>= fun cs =>
        called ((rank reranker rerank false query p.topKReturn cs).map
          (List.map candidateToSearchResult)) := by
  have hstan : resultsOf (p.search reranker (plainRequest query ns rerank queryVector
      scopeFilter) p.embedOne collection) = resultsOf (p.searchStandard reranker
        (plainRequest query ns rerank queryVector scopeFilter) p.embedOne query collection
          queryVector scopeFilter false false) := by
    have hexp : p.searchExpanded reranker (plainRequest query ns rerank queryVector
        scopeFilter) p.embedOne query collection = p.searchStandard reranker
          (plainRequest query ns rerank queryVector scopeFilter) p.embedOne query collection
            queryVector scopeFilter false false := by
      have hvec : (if query ≠ query then none else queryVector) = queryVector :=
        if_neg (not_not_intro rfl)
      exact congrArg (fun v => p.searchStandard reranker
        (plainRequest query ns rerank queryVector scopeFilter) p.embedOne query collection v
          scopeFilter false false) hvec
    rw [← hexp]
    exact resultsOf_with (f := fun result => { result with graphExpansionApplied := query ≠ query })
      fun _ => rfl
  rw [hstan, Pipeline.searchStandard, Pipeline.visiblePool, vectorFor_eq]
  cases queryVector.or (p.embedOne query) with
  | none => rfl
  | some vector =>
    change resultsOf (called (p.store.hybridSearchWithTrace collection (some vector) query
      p.candidateDepth none (storeScope scopeFilter)) >>= _) = (called
        (p.store.hybridSearchWithTrace collection (some vector) query p.candidateDepth none
          (storeScope scopeFilter)) >>= _) >>= _
    cases p.store.hybridSearchWithTrace collection (some vector) query p.candidateDepth none
      (storeScope scopeFilter) with
    | none => rfl
    | some found =>
      change resultsOf (called (rank reranker rerank false query p.topKReturn (visibleTo ns
        (applyScopeWildcard scopeFilter (applyGlob none found))).1) >>= _) = called
          ((rank reranker rerank false query p.topKReturn (visibleTo ns
            (applyScopeWildcard scopeFilter found)).1).map (List.map candidateToSearchResult))
      rw [applyGlob_none]
      cases rank reranker rerank false query p.topKReturn (visibleTo ns
        (applyScopeWildcard scopeFilter found)).1 <;> rfl

/-- **`search_many`** of one collection of the global model, where no leg is trimmed, ranks the
pool. -/
theorem resultsOf_searchMany (reranker : Option Reranker) {all : List (String × String)}
    (hmet : p.getAllCollectionsMeta ns = some all)
    (hact : Dict.get (Keyed.ofList all : Dict String String) collection = some p.modelName)
    (htrim : ∀ vector cs, p.store.hybridSearchWithTrace collection (some vector) query
      p.candidateDepth none (storeScope scopeFilter) = some cs → cs.length ≤ p.fanoutLegTrim) :
    resultsOf (p.searchMany reranker (plainRequest query ns rerank queryVector scopeFilter)
      [collection]) = p.visiblePool query ns collection queryVector scopeFilter >>= fun cs =>
        called ((rank reranker rerank true query p.topKReturn cs).map
          (List.map candidateToSearchResult)) := by
  have hmis : [collection].filter (fun name =>
      (Dict.get (Keyed.ofList all : Dict String String) name).isNone) = [] := by
    simp [hact]
  have hsc : p.inScope (Keyed.ofList all) [collection] = [collection] := by
    simp [Pipeline.inScope, hact]
  have hwith : p.resultsWith reranker (plainRequest query ns rerank queryVector scopeFilter) id
      [collection] = p.fallBackLegs (plainRequest query ns rerank queryVector scopeFilter)
        [collection] >>= p.settle reranker
          (plainRequest query ns rerank queryVector scopeFilter) := by
    have hns : p.getAllCollectionsMeta
        (plainRequest query ns rerank queryVector scopeFilter).ns = some all := hmet
    rw [Pipeline.resultsWith, hns]
    dsimp only
    rw [hmis, hsc]
    simp only [List.map_id]
    rfl
  have hvec : vectorFor p.embedOne (plainRequest query ns rerank queryVector scopeFilter).query
      (plainRequest query ns rerank queryVector scopeFilter).queryVector
      (plainRequest query ns rerank queryVector scopeFilter).isFtsOnly =
        some <$> called (queryVector.or (p.embedOne query)) := vectorFor_eq p.embedOne
  rw [← resultsWith_id, hwith, Pipeline.fallBackLegs, Pipeline.visiblePool, hvec]
  cases queryVector.or (p.embedOne query) with
  | none => rfl
  | some vector =>
    have hlegs : p.standardLegs (plainRequest query ns rerank queryVector scopeFilter)
        (some vector) [collection] = called (p.store.hybridSearchWithTrace collection
          (some vector) query p.candidateDepth none (storeScope scopeFilter)) >>= fun found =>
            pure [p.trimmed (applyScopeWildcard scopeFilter (applyGlob none found))] := by
      change (called ((p.store.hybridSearchWithTrace collection (some vector) query
        p.candidateDepth none (storeScope scopeFilter)) >>= _) >>= _) >>= _ >>= _ = _
      cases p.store.hybridSearchWithTrace collection (some vector) query p.candidateDepth none
        (storeScope scopeFilter) <;> rfl
    rw [called_some_bind]
    change p.standardLegs (plainRequest query ns rerank queryVector scopeFilter)
        (some vector) [collection] >>= _ = _
    rw [hlegs]
    cases hfnd : p.store.hybridSearchWithTrace collection (some vector) query p.candidateDepth
      none (storeScope scopeFilter) with
    | none => rfl
    | some found =>
      have hsub := applyScopeWildcard_sublist scopeFilter found
      have htrimm : p.trimLeg (applyScopeWildcard scopeFilter found) =
          applyScopeWildcard scopeFilter found := by
        have hlen : (applyScopeWildcard scopeFilter found).length ≤ p.trim :=
          hsub.length_le.trans ((htrim vector found hfnd).trans (Nat.le_max_left _ 1))
        rw [Pipeline.trimLeg, sortByScore,
          ((pairwise_before_of_hybrid hfnd).sublist hsub).insertionSort_eq,
          take_of_length_le hlen]
      change p.settle reranker (plainRequest query ns rerank queryVector scopeFilter)
        [p.trimmed (applyScopeWildcard scopeFilter (applyGlob none found))] = _
      have hcut : [p.trimmed (applyScopeWildcard scopeFilter (applyGlob none found))].flatMap
          Leg.cut = applyScopeWildcard scopeFilter found := by
        rw [applyGlob_none, flatMap_singleton, cut_trimmed, htrimm]
      rw [Pipeline.settle, hcut, Pipeline.finish]
      exact called_bind_pure _ _

variable (p query ns collection rerank queryVector scopeFilter) in
/-- **`explain`** reranks the whole pool, and divides the first of it. -/
theorem explain_eq (reranker : Option Reranker) (topK : ℕ) :
    (p.explain reranker query collection ns topK rerank queryVector scopeFilter).toOption.map
      (fun result => (result.topResults, result.nearMisses)) =
        ((p.visiblePool query ns collection queryVector scopeFilter).toOption.bind fun cs =>
          rerankAll reranker rerank query cs).map fun ranked =>
            (((ranked.insertionSort ExplainedBefore).take p.topKRetrieve).take topK,
              ((ranked.insertionSort ExplainedBefore).take p.topKRetrieve).drop topK) := by
  rw [Pipeline.explain, Pipeline.explainStandard, Pipeline.visiblePool]
  cases queryVector.or (p.embedOne query) with
  | none => rfl
  | some vector =>
    rw [called_some_bind]
    change ((stage .store (p.store.hybridSearchWithTrace collection (some vector) query
      p.candidateDepth none (storeScope scopeFilter)) >>= _).toOption).map _ = _
    cases p.store.hybridSearchWithTrace collection (some vector) query p.candidateDepth none
      (storeScope scopeFilter) with
    | none => rfl
    | some found =>
      change ((stage .reranker (rerankAll reranker rerank query (visibleTo ns
        (applyScopeWildcard scopeFilter found)).1) >>= _).toOption).map _ =
          (rerankAll reranker rerank query (visibleTo ns
            (applyScopeWildcard scopeFilter found)).1).map _
      cases rerankAll reranker rerank query (visibleTo ns
        (applyScopeWildcard scopeFilter found)).1 <;> rfl

/-- What is reranked has the chunks of the pool, each once. -/
theorem nodup_of_rerankAll {cs ranked : List Candidate}
    (hnd : (cs.map chunkId).Nodup) {reranker : Option Reranker}
    (h : rerankAll reranker rerank query cs = some ranked) :
    (ranked.map chunkId).Nodup := by
  have hsto : some cs = some ranked → (ranked.map chunkId).Nodup := fun heq =>
    some.inj heq ▸ hnd
  cases reranker with
  | none => exact hsto h
  | some reranker =>
    cases rerank with
    | false => exact hsto h
    | true =>
      have hids (l : List Candidate) :
          (l.map unranked).map chunkId = l.map chunkId := by
        rw [List.map_map]
        rfl
      obtain ⟨l, hp, hsubl⟩ := reranker.subperm h
      have hsub : ((ranked.map unranked).map chunkId).Subperm
          ((cs.map unranked).map chunkId) :=
        ⟨l.map chunkId, hp.map _, hsubl.map _⟩
      rw [hids, hids] at hsub
      exact nodup_of_subperm hsub hnd

def searchIds (found : Except SearchError SearchPipelineResult) : Option (List String) :=
  found.toOption.map fun result => result.results.map SearchResult.chunkId

/-- The chunk ids of the top results of `explain`. -/
def explainIds (found : Except ExplainError ExplainPipelineResult) : Option (List String) :=
  found.toOption.map fun result => result.topResults.map chunkId

/-- A search that ranks the pool returns the first of what is reranked. -/
theorem searchIds_eq {found : Except SearchError SearchPipelineResult} {sorted : Bool}
    (h : resultsOf found = p.visiblePool query ns collection queryVector scopeFilter >>= fun cs =>
      called ((rank (backend.map Reranker.ofBackend) rerank sorted query p.topKReturn cs).map
        (List.map candidateToSearchResult))) :
    searchIds found = ((p.visiblePool query ns collection queryVector scopeFilter).toOption.bind
      fun cs => rerankAll (backend.map Reranker.ofBackend) rerank query cs).map fun ranked =>
        (ranked.take p.topKReturn).map chunkId := by
  have hids : searchIds found = (resultsOf found).toOption.map (List.map SearchResult.chunkId) := by
    cases found <;> rfl
  rw [hids, h]
  cases hpool : p.visiblePool query ns collection queryVector scopeFilter with
  | error e => rfl
  | ok cs =>
    rw [ok_bind, rank_eq_take sorted (sorted_of_visiblePool hpool).1]
    change _ = (rerankAll (backend.map Reranker.ofBackend) rerank query cs).map _
    cases rerankAll (backend.map Reranker.ofBackend) rerank query cs with
    | none => rfl
    | some ranked =>
      refine congrArg some ?_
      rw [List.map_map]
      rfl

/-- **What `explain` keeps** has no chunk twice, is sorted, and is at most `top_k_retrieve`
long. -/
theorem kept_of_explain {reranker : Option Reranker} {topK : ℕ} {result : ExplainPipelineResult}
    (h : p.explain reranker query collection ns topK rerank queryVector scopeFilter = .ok result) :
    ((result.topResults ++ result.nearMisses).map chunkId).Nodup ∧
      (result.topResults ++ result.nearMisses).Pairwise ExplainedBefore ∧
      (result.topResults ++ result.nearMisses).length ≤ p.topKRetrieve := by
  have heq := explain_eq p query ns collection rerank queryVector scopeFilter reranker topK
  rw [h] at heq
  obtain ⟨ranked, hran, hsplit⟩ := map_eq_some_iff.mp heq.symm
  obtain ⟨htop, hnear⟩ := Prod.mk.inj hsplit
  obtain ⟨cs, hpool, hrer⟩ := bind_eq_some_iff.mp hran
  rw [← htop, ← hnear, take_append_drop]
  have hnd := nodup_of_rerankAll (sorted_of_visiblePool (eq_ok_of_toOption hpool)).2.1 hrer
  have hsort := pairwise_insertionSort ExplainedBefore ranked
  have hsub := take_sublist p.topKRetrieve (ranked.insertionSort ExplainedBefore)
  refine ⟨?_, hsort.sublist hsub, length_take_le _ _⟩
  have hp := (perm_insertionSort ExplainedBefore ranked).map chunkId
  exact (hp.nodup_iff.mpr hnd).sublist (hsub.map chunkId)

variable (backend) in
/-- **The entry points agree** up to the number of candidates that `explain` keeps, if no tie is
broken by the document ids; and what `explain` keeps has no chunk twice, is sorted, and is at most
`top_k_retrieve` long. -/
theorem entryPoints_agree {metas : List (String × String)}
    (hmetas : p.getAllCollectionsMeta ns = some metas)
    (hactive : Dict.get (Keyed.ofList metas : Dict String String) collection = some p.modelName)
    (htrim : ∀ vector cs, p.store.hybridSearchWithTrace collection (some vector) query
      p.candidateDepth none (storeScope scopeFilter) = some cs → cs.length ≤ p.fanoutLegTrim)
    (huntied : ∀ cs, p.visiblePool query ns collection queryVector scopeFilter = .ok cs →
      Untied backend rerank query cs) :
    let reranker := backend.map Reranker.ofBackend
    let request := plainRequest query ns rerank queryVector scopeFilter
    let explained (topK : ℕ) := p.explain reranker query collection ns topK rerank queryVector
      scopeFilter
    searchIds (p.search reranker request p.embedOne collection) =
        searchIds (p.searchMany reranker request [collection]) ∧
      explainIds (explained p.topKReturn) =
        (searchIds (p.search reranker request p.embedOne collection)).map
          (List.take p.topKRetrieve) ∧
      (p.topKReturn ≤ p.topKRetrieve → explainIds (explained p.topKReturn) =
        searchIds (p.search reranker request p.embedOne collection)) ∧
      ∀ topK result, explained topK = .ok result →
        ((result.topResults ++ result.nearMisses).map chunkId).Nodup ∧
          (result.topResults ++ result.nearMisses).Pairwise ExplainedBefore ∧
          (result.topResults ++ result.nearMisses).length ≤ p.topKRetrieve := by
  intro reranker request explained
  let all := (p.visiblePool query ns collection queryVector scopeFilter).toOption.bind fun cs =>
    rerankAll reranker rerank query cs
  have hsear : searchIds (p.search reranker request p.embedOne collection) =
      all.map fun ranked => (ranked.take p.topKReturn).map chunkId :=
    searchIds_eq (resultsOf_search reranker)
  have hmany : searchIds (p.searchMany reranker request [collection]) =
      all.map fun ranked => (ranked.take p.topKReturn).map chunkId :=
    searchIds_eq (resultsOf_searchMany reranker hmetas hactive htrim)
  have htop : explainIds (explained p.topKReturn) =
      all.map fun ranked => ((ranked.take p.topKReturn).map chunkId).take p.topKRetrieve := by
    have hsplit : explainIds (explained p.topKReturn) = ((explained p.topKReturn).toOption.map
        fun result => (result.topResults, result.nearMisses)).map fun split =>
          split.1.map chunkId := by
      cases explained p.topKReturn <;> rfl
    rw [hsplit, explain_eq, Option.map_map]
    refine Option.map_congr fun ranked hran => ?_
    obtain ⟨cs, hpool, hrer⟩ := bind_eq_some_iff.mp hran
    have hok := eq_ok_of_toOption hpool
    obtain ⟨hsort, -, hunr⟩ := sorted_of_visiblePool hok
    have hord := pairwise_explainedBefore hsort hunr (huntied cs hok) hrer
    rw [Function.comp_apply, hord.insertionSort_eq, take_take, Nat.min_comm, ← take_take, map_take]
  have hcut : explainIds (explained p.topKReturn) =
      (searchIds (p.search reranker request p.embedOne collection)).map
        (List.take p.topKRetrieve) := by
    rw [htop, hsear, Option.map_map]
    rfl
  refine ⟨hsear.trans hmany.symm, hcut, fun hle => ?_, fun topK result => kept_of_explain⟩
  rw [hcut, hsear, Option.map_map]
  refine Option.map_congr fun ranked _ => take_of_length_le ?_
  rw [length_map]
  exact (length_take_le _ _).trans hle

end EntryPoints

/-! ### Where they agree, and where they do not -/

def crossedLance : Lance Unit :=
  { sampleLance with
    ftsSearch := fun rows _ p depth => .ok ((rows.filter p).reverse.take depth)
    mem_of_ftsSearch := fun h row hrow => by
      cases h
      exact mem_filter.mp (mem_reverse.mp (mem_of_mem_take hrow)) }

/-- A collection of two imported documents, the first of which has the greater id and the smaller
chunk id. -/
def importedPipeline (lance : Lance Unit) (topKRetrieve : ℕ) : Pipeline Unit :=
  { samplePipeline with
    store :=
      { lance := lance
        tables := fun _ => some
          { rows := [{ docId := "e", chunkId := "c", text := "t", sourcePath := "/a.md" },
                     { docId := "d", chunkId := "f", text := "u", sourcePath := "/b.md" }] } }
    topKRetrieve := topKRetrieve }

def countingBackend (pairs : List (String × String)) : Option (List ℚ) :=
  some ((List.range pairs.length).map Nat.cast)

theorem entryPoints_agree_imported :
    let p := importedPipeline crossedLance 20
    let reranker := (some countingBackend).map Reranker.ofBackend
    explainIds (p.explain reranker "q" "notes" "default" p.topKReturn true none none) =
      searchIds (p.search reranker (plainRequest "q" "default" true none none) p.embedOne
        "notes") := by
  intro p reranker
  have hmet : p.getAllCollectionsMeta "default" = some [("notes", "m")] := rfl
  have hact : Dict.get (Keyed.ofList [("notes", "m")] : Dict String String) "notes" =
      some p.modelName := by decide
  have htrim : ∀ vector cs, p.store.hybridSearchWithTrace "notes" (some vector) "q"
      p.candidateDepth none (storeScope none) = some cs → cs.length ≤ p.fanoutLegTrim := by
    intro vector cs h
    cases h
    decide +kernel
  have hunt : ∀ cs, p.visiblePool "q" "default" "notes" none none = .ok cs →
      Untied (some countingBackend) true "q" cs := by
    intro cs _ scores h
    cases h
    exact nodup_range.map Nat.cast_injective
  have hle : p.topKReturn ≤ p.topKRetrieve := by decide
  exact (entryPoints_agree (some countingBackend) hmet hact htrim hunt).2.2.1 hle

/-- The one collection is of the model of the pipeline, and its rows are not trimmed; still
`explain` shows others than `search`. -/
def ShowsOthers (p : Pipeline Unit) : Prop :=
  p.getAllCollectionsMeta "default" = some [("notes", p.modelName)] ∧
    (p.store.rows "notes").length ≤ p.fanoutLegTrim ∧
      explainIds (p.explain none "q" "notes" "default" p.topKReturn true none none) ≠
        searchIds (p.search none (plainRequest "q" "default" true none none) p.embedOne "notes")

instance : DecidablePred ShowsOthers := fun _ => inferInstanceAs (Decidable (_ ∧ _ ∧ _))

/-- **They disagree** where fewer candidates are kept than returned, and where the document ids
break a tie the other way. -/
theorem entryPoints_disagree :
    ShowsOthers (importedPipeline sampleLance 1) ∧
      ShowsOthers (importedPipeline crossedLance 20) := by
  decide +kernel

end ArchonSearch.Search
