import ArchonSearch.Lib.Calls
import ArchonSearch.Search.Fanout

/-!
# What the results of a search satisfy

Every path of a search ends in the ranking of some candidates (`Pipeline.finish`). The candidates
of a hybrid search are as requested (`HybridLeg`), and so are the results of every path that has no
others.
-/

namespace ArchonSearch.Search

open Lib List

/-! ### Calls that raise -/

theorem called_eq_ok {α : Type} {o : Option α} {a : α} : called o = .ok a ↔ o = some a := by
  cases o with
  | none => exact ⟨fun h => (by cases h), fun h => (by cases h)⟩
  | some b => simp [called]

theorem bind_called_eq_ok {α β : Type} {o : Option α} {f : α → Except SearchError β} {b : β} :
    called o >>= f = .ok b ↔ ∃ a, o = some a ∧ f a = .ok b := by
  simp only [bind_eq_ok, called_eq_ok]

theorem exists_of_mapM {α β : Type} {f : α → Except SearchError β} {l : List α} {l' : List β}
    (h : l.mapM f = .ok l') : List.Forall₂ (fun a b => f a = .ok b) l l' := by
  induction l generalizing l' with
  | nil =>
    cases h
    exact .nil
  | cons a l ih =>
    rw [mapM_cons] at h
    obtain ⟨b, hb, h⟩ := bind_eq_ok.mp h
    obtain ⟨rest, hrs, h⟩ := bind_eq_ok.mp h
    cases h
    exact .cons hb (ih hrs)

variable {ν : Type} {p : Pipeline ν} {req : Request ν} {reranker : Option Reranker}
  {collection : String} {cs : List Candidate}

/-! ### Candidates of a hybrid search -/

/-- Candidates of a collection that satisfy the request but for the ACL, and none of which was
fetched by its id. -/
structure HybridLeg (store : Store ν) (req : Request ν) (collection : String)
    (cs : List Candidate) : Prop where
  pool : Pool store req cs
  retrieved : ∀ c ∈ cs, c.graphSourced = false
  collection_eq : ∀ c ∈ cs, c.collection = collection

variable {store : Store ν}

theorem HybridLeg.sublist {out : List Candidate}
    (h : HybridLeg store req collection cs) (hsub : out.Sublist cs) :
    HybridLeg store req collection out :=
  ⟨h.pool.sublist hsub, fun c hc => h.retrieved c (hsub.subset hc),
    fun c hc => h.collection_eq c (hsub.subset hc)⟩

theorem pairwise_of_nodup {R : Candidate → Candidate → Prop}
    (h : (cs.map Candidate.chunkId).Nodup) (hR : ∀ a b, a.chunkId ≠ b.chunkId → R a b) :
    cs.Pairwise R :=
  (pairwise_map.mp h).imp fun hne => hR _ _ hne

theorem ne_key_of_chunkId {a b : Candidate} (h : a.chunkId ≠ b.chunkId) : a.key ≠ b.key :=
  fun heq => h (congrArg Prod.snd heq)

variable {scopeFilter : Option String}

theorem storeScope_eq_some {scope : String}
    (h : scopeFilter = some scope) (hne : scope ≠ "") (hwild : isWildcard scope = false) :
    storeScope scopeFilter = some scope := by
  subst h
  simp [storeScope, hne, hwild]

/-- The candidates of a hybrid search, after the filters. -/
theorem hybridLeg_of_retrieved
    (h : ∀ c ∈ cs, Retrieved store collection req.filters (storeScope req.scopeFilter) c)
    (hnd : (cs.map Candidate.chunkId).Nodup) :
    HybridLeg store req collection
      (applyScopeWildcard req.scopeFilter (applyGlob req.filters cs)) := by
  have hsub : (applyScopeWildcard req.scopeFilter (applyGlob req.filters cs)).Sublist
      (applyGlob req.filters cs) := by
    unfold applyScopeWildcard
    split
    · split_ifs
      · exact filter_sublist
      · exact List.Sublist.refl _
    · exact List.Sublist.refl _
  have hm {c : Candidate}
      (hc : c ∈ applyScopeWildcard req.scopeFilter (applyGlob req.filters cs)) :
      c ∈ cs ∧ passesGlob req.filters c.sourcePath = true :=
    mem_filter.mp (hsub.subset hc)
  have hsc {c : Candidate} {row : Row}
      (hc : c ∈ applyScopeWildcard req.scopeFilter (applyGlob req.filters cs))
      (hwhere : whereHolds (buildWhere req.filters (storeScope req.scopeFilter)) row = true)
      (hscs : c.scopes = row.scopes) : AdmitsScope req.scopeFilter row.scopes := by
    cases hfil : req.scopeFilter with
    | none => exact fun scope h => by cases h
    | some scope =>
      by_cases hne : scope = ""
      · intro s hs
        cases hs
        exact Or.inl hne
      cases hwild : isWildcard scope with
      | false =>
        rw [storeScope_eq_some hfil hne hwild] at hwhere
        exact admitsScope_of_buildWhere hwild hwhere
      | true =>
        rw [hfil, applyScopeWildcard, if_pos hwild] at hc
        exact admitsScope_of_passes hwild (hscs ▸ (mem_filter.mp hc).2)
  have hr {c : Candidate}
      (hc : c ∈ applyScopeWildcard req.scopeFilter (applyGlob req.filters cs)) :
      ∃ row ∈ store.rows collection, (candidateToSearchResult c).IsOf row ∧
        AdmitsScope req.scopeFilter row.scopes ∧
        ∀ f ∈ req.filters, f.Admits (candidateToSearchResult c) := by
    obtain ⟨row, hr, hwhere, heq⟩ := (h c (hm hc).1).row
    have hof : (candidateToSearchResult c).IsOf row := by
      rw [heq]
      exact ⟨rfl, rfl, rfl, rfl, rfl, rfl, rfl, rfl⟩
    have hglob : passesGlob req.filters row.sourcePath = true := by
      have hp : c.sourcePath = row.sourcePath := hof.sourcePath
      exact hp ▸ (hm hc).2
    refine ⟨row, hr, hof, hsc hc hwhere ?_, admits_of_buildWhere hwhere hglob hof⟩
    rw [heq]
    rfl
  have hlow {c : Candidate}
      (hc : c ∈ applyScopeWildcard req.scopeFilter (applyGlob req.filters cs)) :
      c.rrfScore < graphNeutralRrfScore := (h c (hm hc).1).score
  refine ⟨⟨fun c hc => ?_, fun c hc _ => ?_, fun c hc _ => hlow hc, ?_⟩, fun c hc => ?_,
    fun c hc => (h c (hm hc).1).collection_eq⟩
  · obtain ⟨row, hm', hof, hadm, -⟩ := hr hc
    rw [(h c (hm hc).1).collection_eq]
    exact ⟨row, hm', hof, hadm⟩
  · obtain ⟨_, -, -, -, hadm⟩ := hr hc
    exact hadm
  · refine pairwise_of_nodup (hnd.sublist ((hsub.trans filter_sublist).map _)) ?_
    exact fun a b hne heq => absurd heq (ne_key_of_chunkId hne)
  · exact decide_eq_false (hlow hc).ne

variable {queryVector : Option ν}

theorem hybridLeg_of_hybrid {queryText : String}
    {depth : ℕ}
    (h : store.hybridSearchWithTrace collection queryVector queryText depth req.filters
      (storeScope req.scopeFilter) = some cs) :
    HybridLeg store req collection
      (applyScopeWildcard req.scopeFilter (applyGlob req.filters cs)) :=
  hybridLeg_of_retrieved (retrieved_of_hybrid h).1 (retrieved_of_hybrid h).2

/-- Several searches that are fused, after the filters. -/
theorem hybridLeg_of_fuse {variants : List (List Candidate)}
    (h : ∀ variant ∈ variants, ∀ c ∈ variant,
      Retrieved store collection req.filters (storeScope req.scopeFilter) c) :
    HybridLeg store req collection
      (applyScopeWildcard req.scopeFilter
        (applyGlob req.filters (fuseRagFusionResults variants))) :=
  hybridLeg_of_retrieved
    (fun c hc => by
      obtain ⟨variant, hvar, hm⟩ := mem_of_mem_fuse hc
      exact h variant hvar c hm)
    (nodup_fuse variants)

/-! ### The candidates a namespace may see -/

theorem visibleTo_fst_sublist (ns : String) (cs : List Candidate) :
    (visibleTo ns cs).1.Sublist cs :=
  filter_sublist

theorem isAclAllowed_of_mem_visibleTo {ns : String} {c : Candidate}
    (h : c ∈ (visibleTo ns cs).1) : isAclAllowed c.acl ns = true :=
  (mem_filter.mp h).2

/-! ### Paths -/

def AllMeet (p : Pipeline ν) (req : Request ν)
    (path : Option Reranker → Except SearchError SearchPipelineResult) : Prop :=
  ∀ reranker result, path reranker = .ok result → Meets p.store p.topKReturn req result.results

/-- A path that only changes what is said about its results. -/
theorem allMeet_bind_pure {path : Option Reranker → Except SearchError SearchPipelineResult}
    {f : SearchPipelineResult → SearchPipelineResult} (hf : ∀ r, (f r).results = r.results) :
    AllMeet p req (fun reranker => path reranker >>= fun r => pure (f r)) ↔ AllMeet p req path := by
  constructor
  · intro h reranker result hres
    rw [← hf result]
    exact h reranker (f result) (bind_eq_ok.mpr ⟨result, hres, rfl⟩)
  · intro h reranker result hres
    obtain ⟨r, hr, heq⟩ := bind_eq_ok.mp hres
    cases heq
    rw [hf r]
    exact h reranker r hr

theorem allMeet_error {e : SearchError} : AllMeet p req fun _ => .error e :=
  fun _ _ h => by cases h

/-- The ranking of candidates, some of which were fetched by their ids. -/
theorem allMeet_finish_iff {f : List SearchResult → SearchPipelineResult}
    (hf : ∀ results, (f results).results = results) (hpool : Pool p.store req cs)
    (hvis : ∀ c ∈ cs, isAclAllowed c.acl req.ns = true) :
    AllMeet p req (fun reranker => p.finish reranker req true cs >>= fun results =>
        pure (f results)) ↔
      FetchedMeet req p.topKReturn (cs.filter Candidate.graphSourced) := by
  rw [← rank_iff req.query hpool p.topKReturn_pos hvis]
  constructor
  · intro h reranker out hout
    rw [← hf (out.map candidateToSearchResult)]
    refine h reranker _ (bind_eq_ok.mpr ⟨_, ?_, rfl⟩)
    exact bind_called_eq_ok.mpr ⟨out, hout, rfl⟩
  · intro h reranker result hres
    obtain ⟨results, hrs, heq⟩ := bind_eq_ok.mp hres
    obtain ⟨out, hout, hmap⟩ := bind_called_eq_ok.mp hrs
    cases heq
    cases hmap
    rw [hf]
    exact h reranker out hout

theorem filter_graphSourced_eq_nil (h : ∀ c ∈ cs, c.graphSourced = false) :
    cs.filter Candidate.graphSourced = [] :=
  filter_eq_nil_iff.mpr fun c hc => by simp [h c hc]

/-- Where nothing was fetched by id nothing can be wrong with it. -/
theorem fetchedMeet_nil {topK : ℕ} : FetchedMeet req topK [] := by
  have hshow : mayShow req topK [] = [] := by
    unfold mayShow
    split
    · rfl
    · exact take_nil
  constructor
  · rw [hshow]
    exact fun c hc => absurd hc not_mem_nil
  · rw [hshow]
    exact Or.inr nodup_nil

/-- **The standard search is as requested.** -/
theorem allMeet_searchStandard {embedOne : String → Option ν} {query : String}
    {ragFusionAttempted ftsOnly : Bool}
    (hsc : scopeFilter = req.scopeFilter) :
    AllMeet p req fun reranker => p.searchStandard reranker req embedOne query collection
      queryVector scopeFilter ragFusionAttempted ftsOnly := by
  subst hsc
  intro reranker result h
  obtain ⟨vector, -, h⟩ := bind_eq_ok.mp h
  obtain ⟨candidates, hcan, h⟩ := bind_called_eq_ok.mp h
  obtain ⟨out, hout, h⟩ := bind_called_eq_ok.mp h
  cases h
  have hleg := (hybridLeg_of_hybrid hcan).sublist (visibleTo_fst_sublist req.ns _)
  exact meets_rank hleg.pool (fun c hc => isAclAllowed_of_mem_visibleTo hc) hleg.retrieved hout

end ArchonSearch.Search
