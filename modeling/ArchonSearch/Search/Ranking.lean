import Mathlib.Data.List.Perm.Subperm
import ArchonSearch.Search.Retrieval

/-!
# From candidates to results

The candidates of a search, from however many legs, are fused or merged, and then ranked: by
a reranker, or by their scores; the first of them are the results.

A reranker is any function that returns some of its candidates, in any order and with scores of its
own (`Reranker`), and the one of the code is one of them (`Reranker.ofBackend`). What the results
then satisfy is decided by the candidates alone. Those of a hybrid search are as requested; what a
graph path has fetched by id need not be. `rank_iff` says that the results are as requested,
whatever the reranker does, exactly if the candidates of the graph path that can be shown are.
-/

namespace ArchonSearch.Search

open Lib List Candidate

/-! ### Requests -/

/-- `graph_mode`. -/
inductive GraphMode where
  | naive
  /-- `"local"`. -/
  | «local» : GraphMode
  /-- `"global"`. -/
  | «global» : GraphMode
  | ppr
  deriving DecidableEq

/-- What `generate_variants` fails with. -/
inductive GenerateError where
  /-- `TimeoutError`. -/
  | timeout
  | other

structure Request (ν : Type) where
  query : String
  /-- `namespace`. -/
  ns : String
  filters : Option SearchFilters := none
  scopeFilter : Option String := none
  graphMode : Option GraphMode := none
  rerank : Bool := true
  ftsOnly : Bool := false
  queryVector : Option ν := none
  /-- `generate_variants`, if RAG Fusion is requested, and there is a generator and a config
  that enables it. -/
  generateVariants : Option (String → Except GenerateError (List String)) := none

/-! ### Candidates that are merged -/

def applyGlob (filters : Option SearchFilters) (cs : List Candidate) : List Candidate :=
  cs.filter fun c => passesGlob filters c.sourcePath

def applyScopeWildcard (scopeFilter : Option String) (cs : List Candidate) : List Candidate :=
  match scopeFilter with
  | some scope => if isWildcard scope = true then
      cs.filter fun c => passesScopeWildcard scope c.scopes else cs
  | none => cs

def storeScope (scopeFilter : Option String) : Option String :=
  scopeFilter.filter fun scope => scope ≠ "" && !isWildcard scope

def visibleTo (ns : String) (cs : List Candidate) : List Candidate × Bool :=
  applyAclFilter cs acl ns

/-- A chunk of `_fuse_rag_fusion_results`. -/
structure FusedEntry where
  /-- `best_candidate`. -/
  candidate : Candidate
  bestRank : ℕ
  score : ℚ

def FusedEntry.chunkId (entry : FusedEntry) : String := entry.candidate.chunkId

def fuseStep (entries : Keyed FusedEntry.chunkId) (ranked : Candidate × ℕ) :
    Keyed FusedEntry.chunkId :=
  let (c, index) := ranked
  match entries.get? c.chunkId with
  | none => entries.insert ⟨c, index, rrfScoreAt index⟩
  | some entry =>
    let best := if index < entry.bestRank then (c, index) else (entry.candidate, entry.bestRank)
    entries.insert ⟨best.1, best.2, entry.score + rrfScoreAt index⟩

/-- `_fuse_rag_fusion_results`. -/
def fuseRagFusionResults (variants : List (List Candidate)) : List Candidate :=
  (((variants.flatMap List.zipIdx).foldl fuseStep Keyed.empty).items.insertionSort
    fun a b => b.score ≤ a.score).map FusedEntry.candidate

/-- The candidates that are merged: first the ones of a graph path, then the others of a
hybrid search. -/
def mergeNew (graph hybrid : List Candidate) : List Candidate :=
  hybrid.foldl (fun merged c =>
    if (merged.map chunkId).contains c.chunkId then merged else merged ++ [c]) graph

/-! ### Ranking -/

def Candidate.unranked (c : Candidate) : Candidate := { c with rerankerScore := none }

structure Reranker where
  rerankCandidates : String → List Candidate → ℕ → Option (List Candidate)
  subperm : ∀ {query cs topK out}, rerankCandidates query cs topK = some out →
    (out.map unranked).Subperm (cs.map unranked)
  /-- At most `topK` are returned. -/
  length_le : ∀ {query cs topK out}, rerankCandidates query cs topK = some out → out.length ≤ topK

/-- `Reranker.rerank_candidates`, with the scores of a backend. -/
def rerankWith (predict : List (String × String) → Option (List ℚ)) (query : String)
    (cs : List Candidate) (topK : ℕ) : Option (List Candidate) :=
  if cs = [] then some []
  else do
    let scores ← predict (cs.map fun c => (query, c.text))
    if scores.length ≠ cs.length then none
    else
      let traced := (cs.zip scores).map fun (c, score) => { c with rerankerScore := some score }
      some ((traced.insertionSort fun a b =>
        b.rerankerScore.getD 0 ≤ a.rerankerScore.getD 0).take topK)

theorem rerankWith_eq_some {predict : List (String × String) → Option (List ℚ)} {query : String}
    {cs out : List Candidate} {topK : ℕ} (h : rerankWith predict query cs topK = some out) :
    (out.map unranked).Subperm (cs.map unranked) ∧ out.length ≤ topK := by
  unfold rerankWith at h
  split_ifs at h with hnil
  · cases h
    exact ⟨nil_subperm, Nat.zero_le topK⟩
  obtain ⟨scores, -, h⟩ := Option.bind_eq_some_iff.mp h
  split_ifs at h with hlen
  cases h
  refine ⟨?_, length_take_le topK _⟩
  refine ((take_sublist topK _).map unranked).subperm.trans ?_
  refine ((perm_insertionSort _ _).map unranked).subperm.trans ?_
  have hmap : ((cs.zip scores).map fun (c, score) =>
      ({ c with rerankerScore := some score } : Candidate)).map unranked =
      cs.map unranked := by
    rw [map_map]
    have hcomp : (unranked ∘ fun (c, score) =>
        ({ c with rerankerScore := some score } : Candidate)) =
        unranked ∘ (Prod.fst : Candidate × ℚ → Candidate) := rfl
    rw [hcomp, ← map_map, map_fst_zip (Nat.le_of_eq (not_ne_iff.mp hlen).symm)]
  rw [hmap]

def Reranker.ofBackend (predict : List (String × String) → Option (List ℚ)) : Reranker where
  rerankCandidates := rerankWith predict
  subperm h := (rerankWith_eq_some h).1
  length_le h := (rerankWith_eq_some h).2

/-- The results of a search: those of the reranker, or the first by the order they have or by
their scores. -/
def rank (reranker : Option Reranker) (rerank sorted : Bool) (query : String) (topK : ℕ)
    (cs : List Candidate) : Option (List Candidate) :=
  match reranker, rerank with
  | some reranker, true => reranker.rerankCandidates query cs topK
  | _, _ => some ((if sorted then sortByScore cs else cs).take topK)

/-! ### Fusing and merging -/

theorem mem_fuseStep {entries : Keyed FusedEntry.chunkId} {ranked : Candidate × ℕ}
    {entry : FusedEntry} (h : entry ∈ fuseStep entries ranked) :
    entry.candidate = ranked.1 ∨ ∃ e ∈ entries, e.candidate = entry.candidate := by
  unfold fuseStep at h
  dsimp only at h
  split at h
  · rcases Keyed.mem_insert.mp h with rfl | ⟨hm, -⟩
    · exact Or.inl rfl
    · exact Or.inr ⟨entry, hm, rfl⟩
  · rename_i e hg
    rcases Keyed.mem_insert.mp h with rfl | ⟨hm, -⟩
    · split_ifs
      · exact Or.inl rfl
      · exact Or.inr ⟨e, (Keyed.get?_eq_some_iff.mp hg).1, rfl⟩
    · exact Or.inr ⟨entry, hm, rfl⟩

theorem mem_of_mem_fuse {variants : List (List Candidate)} {c : Candidate}
    (h : c ∈ fuseRagFusionResults variants) : ∃ variant ∈ variants, c ∈ variant := by
  have hfold : ∀ (l : List (Candidate × ℕ)) (entries : Keyed FusedEntry.chunkId)
      (entry : FusedEntry), entry ∈ l.foldl fuseStep entries →
      (∃ ranked ∈ l, entry.candidate = ranked.1) ∨
        ∃ e ∈ entries, e.candidate = entry.candidate := by
    intro l
    induction l with
    | nil => exact fun entries entry h => Or.inr ⟨entry, h, rfl⟩
    | cons ranked l ih =>
      intro entries entry h
      rcases ih _ entry h with ⟨r, hr, heq⟩ | ⟨e, he, heq⟩
      · exact Or.inl ⟨r, mem_cons_of_mem ranked hr, heq⟩
      · rcases mem_fuseStep he with hran | ⟨e', he', heq'⟩
        · exact Or.inl ⟨ranked, mem_cons_self, heq.symm.trans hran⟩
        · exact Or.inr ⟨e', he', heq'.trans heq⟩
  obtain ⟨entry, hent, rfl⟩ := mem_map.mp h
  rcases hfold _ _ entry ((mem_insertionSort _).mp hent) with ⟨ranked, hr, heq⟩ | ⟨e, he, -⟩
  · obtain ⟨variant, hvar, hm⟩ := mem_flatMap.mp hr
    exact ⟨variant, hvar, heq ▸ fst_mem_of_mem_zipIdx hm⟩
  · exact absurd he not_mem_nil

theorem nodup_fuse (variants : List (List Candidate)) :
    ((fuseRagFusionResults variants).map chunkId).Nodup := by
  rw [fuseRagFusionResults, map_map]
  exact ((perm_insertionSort _ _).map FusedEntry.chunkId).nodup_iff.mpr (Keyed.nodup _)

/-- The candidates that are merged, where the hybrid search has each chunk once. -/
theorem mergeNew_eq {hybrid : List Candidate} (h : (hybrid.map chunkId).Nodup)
    (graph : List Candidate) :
    mergeNew graph hybrid = graph ++ hybrid.filter fun c =>
      !(graph.map chunkId).contains c.chunkId := by
  induction hybrid generalizing graph with
  | nil => exact (append_nil graph).symm
  | cons c hybrid ih =>
    obtain ⟨hc, hrs⟩ := nodup_cons.mp h
    rw [mergeNew, foldl_cons, ← mergeNew]
    by_cases hm : (graph.map chunkId).contains c.chunkId = true
    · rw [if_pos hm, ih hrs, filter_cons_of_neg (by simpa using hm)]
    · have hsa : ∀ d ∈ hybrid, d.chunkId ≠ c.chunkId := fun d hd heq =>
        hc (heq ▸ mem_map_of_mem hd)
      rw [if_neg hm, ih hrs, filter_cons_of_pos (by simpa using hm), append_assoc, singleton_append]
      congr 2
      refine filter_congr fun d hd => ?_
      simp [hsa d hd]

/-! ### What is asked of the results -/

def SearchResult.key (r : SearchResult) : String × String := (r.collection, r.chunkId)

def Candidate.key (c : Candidate) : String × String := (c.collection, c.chunkId)

/-- **The results are as requested**. -/
structure Meets {ν : Type} (store : Store ν) (topK : ℕ) (req : Request ν)
    (results : List SearchResult) : Prop where
  admitted : ∀ r ∈ results, ∀ f ∈ req.filters, f.Admits r
  visible : ∀ r ∈ results, isAclAllowed r.acl req.ns = true
  scope : ∀ r ∈ results, ∃ row ∈ store.rows r.collection, r.IsOf row ∧
    AdmitsScope req.scopeFilter row.scopes
  once : (results.map SearchResult.key).Nodup
  length_le : results.length ≤ topK

def Candidate.graphSourced (c : Candidate) : Bool := c.rrfScore = graphNeutralRrfScore

def Candidate.FetchedIfSame (a b : Candidate) : Prop :=
  a.key = b.key → a.graphSourced = true ∧ b.graphSourced = true

/-- The candidates of a search before they are ranked: all that can be wrong with them is in
the part that was fetched by id. -/
structure Pool {ν : Type} (store : Store ν) (req : Request ν) (cs : List Candidate) : Prop where
  stored : ∀ c ∈ cs, ∃ row ∈ store.rows c.collection, (candidateToSearchResult c).IsOf row ∧
    AdmitsScope req.scopeFilter row.scopes
  admitted : ∀ c ∈ cs, c.graphSourced = false → ∀ f ∈ req.filters,
    f.Admits (candidateToSearchResult c)
  low : ∀ c ∈ cs, c.graphSourced = false → c.rrfScore < graphNeutralRrfScore
  once : cs.Pairwise Candidate.FetchedIfSame

/-- What of the candidates that were fetched by id can be shown: any of them where they are
reranked, and else the first by their ids. -/
def mayShow {ν : Type} (req : Request ν) (topK : ℕ) (fetched : List Candidate) :
    List Candidate :=
  if req.rerank = true then fetched else (sortByScore fetched).take topK

structure FetchedMeet {ν : Type} (req : Request ν) (topK : ℕ) (fetched : List Candidate) :
    Prop where
  admitted : ∀ c ∈ mayShow req topK fetched, ∀ f ∈ req.filters, f.Admits (candidateToSearchResult c)
  once : topK = 1 ∨ ((mayShow req topK fetched).map key).Nodup

section Pool

variable {ν : Type} {store : Store ν} {req : Request ν} {topK : ℕ} {cs out : List Candidate}
  {α : Type}

/-- Candidates that are the same up to the score agree on the rest. -/
theorem eq_of_unranked_eq {c d : Candidate} (h : c.unranked = d.unranked)
    {f : Candidate → α} (hf : ∀ e, f e.unranked = f e) : f c = f d := by
  rw [← hf c, h, hf d]

theorem admits_congr {f : SearchFilters} {c d : Candidate} (h : c.unranked = d.unranked)
    (hc : f.Admits (candidateToSearchResult c)) : f.Admits (candidateToSearchResult d) := by
  have hunr : f.Admits (candidateToSearchResult d.unranked) := by
    rw [← h]
    exact ⟨hc.fileType, hc.sourcePathPrefix, hc.sourcePathGlob, hc.indexedAfter,
      hc.indexedBefore, hc.language⟩
  exact ⟨hunr.fileType, hunr.sourcePathPrefix, hunr.sourcePathGlob,
    hunr.indexedAfter, hunr.indexedBefore, hunr.language⟩

theorem isOf_congr {row : Row} {c d : Candidate} (h : c.unranked = d.unranked)
    (hc : (candidateToSearchResult c).IsOf row) : (candidateToSearchResult d).IsOf row := by
  have hunr : (candidateToSearchResult d.unranked).IsOf row := by
    rw [← h]
    exact ⟨hc.docId, hc.chunkId, hc.text, hc.sourcePath, hc.fileType, hc.language, hc.indexedAt,
      hc.acl⟩
  exact ⟨hunr.docId, hunr.chunkId, hunr.text, hunr.sourcePath,
    hunr.fileType, hunr.language, hunr.indexedAt, hunr.acl⟩

/-- Each of some of the candidates is one of them, up to the score. -/
theorem exists_of_subperm (h : (out.map unranked).Subperm (cs.map unranked))
    {c : Candidate} (hc : c ∈ out) : ∃ d ∈ cs, d.unranked = c.unranked :=
  mem_map.mp (h.subset (mem_map_of_mem hc))

/-- Some of the candidates, in any order and with any scores. -/
theorem Pool.of_subperm (h : Pool store req cs)
    (hsub : (out.map unranked).Subperm (cs.map unranked)) :
    Pool store req out where
  stored c hc := by
    obtain ⟨d, hd, heq⟩ := exists_of_subperm hsub hc
    obtain ⟨row, hr, hof, hsc⟩ := h.stored d hd
    have hcoll : d.collection = c.collection := eq_of_unranked_eq heq fun _ => rfl
    exact ⟨row, hcoll ▸ hr, isOf_congr heq hof, hsc⟩
  admitted c hc hg f hf := by
    obtain ⟨d, hd, heq⟩ := exists_of_subperm hsub hc
    have hsa : d.graphSourced = c.graphSourced := eq_of_unranked_eq heq fun _ => rfl
    exact admits_congr heq (h.admitted d hd (hsa.trans hg) f hf)
  low c hc hg := by
    obtain ⟨d, hd, heq⟩ := exists_of_subperm hsub hc
    have hsa : d.graphSourced = c.graphSourced := eq_of_unranked_eq heq fun _ => rfl
    have hscore : d.rrfScore = c.rrfScore := eq_of_unranked_eq heq fun _ => rfl
    exact hscore ▸ h.low d hd (hsa.trans hg)
  once := by
    obtain ⟨l, hp, hsubl⟩ := hsub
    have hsymm : ∀ {a b : Candidate}, a.FetchedIfSame b → b.FetchedIfSame a :=
      fun hab heq => (hab heq.symm).symm
    have hcs : (cs.map unranked).Pairwise Candidate.FetchedIfSame :=
      pairwise_map.mpr h.once
    have hout : (out.map unranked).Pairwise Candidate.FetchedIfSame :=
      (hp.pairwise_iff hsymm).mp (hcs.sublist hsubl)
    exact (pairwise_map.mp hout).imp id

theorem Pool.sublist (h : Pool store req cs) (hsub : out.Sublist cs) : Pool store req out :=
  h.of_subperm (hsub.map unranked).subperm

/-- Candidates that are sorted are the same candidates. -/
theorem subperm_take_sortByScore (cs : List Candidate) (k : ℕ) :
    (((sortByScore cs).take k).map unranked).Subperm (cs.map unranked) :=
  ((take_sublist k _).map unranked).subperm.trans ((sortByScore_perm cs).map unranked).subperm

/-- **Results are as requested** if those of them that were fetched by id are. -/
theorem Pool.meets (h : Pool store req out) (hlen : out.length ≤ topK)
    (hvis : ∀ c ∈ out, isAclAllowed c.acl req.ns = true)
    (hadm : ∀ c ∈ out, c.graphSourced = true → ∀ f ∈ req.filters,
      f.Admits (candidateToSearchResult c))
    (honce : topK = 1 ∨ ((out.filter graphSourced).map key).Nodup) :
    Meets store topK req (out.map candidateToSearchResult) where
  admitted r hr f hf := by
    obtain ⟨c, hc, rfl⟩ := mem_map.mp hr
    cases hg : c.graphSourced with
    | true => exact hadm c hc hg f hf
    | false => exact h.admitted c hc hg f hf
  visible r hr := by
    obtain ⟨c, hc, rfl⟩ := mem_map.mp hr
    exact hvis c hc
  scope r hr := by
    obtain ⟨c, hc, rfl⟩ := mem_map.mp hr
    exact h.stored c hc
  once := by
    rw [map_map]
    rcases honce with rfl | hnd
    · rcases out with _ | ⟨c, _ | ⟨d, out⟩⟩
      · exact nodup_nil
      · exact nodup_singleton _
      · simp at hlen
    · -- two of the same chunk would both be among those that were fetched
      have hfet : out.Pairwise fun a b => a.graphSourced = true → b.graphSourced = true →
          a.key ≠ b.key := pairwise_filter.mp (pairwise_map.mp hnd)
      refine pairwise_map.mpr ((h.once.and hfet).imp fun {a b} hab heq => ?_)
      obtain ⟨ha, hb⟩ := hab.1 heq
      exact hab.2 ha hb heq
  length_le := by rwa [length_map]

/-! ### Sorting -/

variable {r : α → α → Prop}

theorem orderedInsert_append_of_rel [DecidableRel r] {a : α}
    {high low : List α} (h : ∀ b ∈ low, r a b) :
    (high ++ low).orderedInsert r a = high.orderedInsert r a ++ low := by
  induction high with
  | nil =>
    cases low with
    | nil => rfl
    | cons b low => exact orderedInsert_cons_of_le r low (h b mem_cons_self)
  | cons b high ih =>
    rw [cons_append, orderedInsert_cons, orderedInsert_cons]
    split_ifs
    · rfl
    · rw [ih, cons_append]

theorem orderedInsert_append_of_not_rel [DecidableRel r] {a : α}
    {high low : List α} (h : ∀ b ∈ high, ¬r a b) :
    (high ++ low).orderedInsert r a = high ++ low.orderedInsert r a := by
  induction high with
  | nil => rfl
  | cons b high ih =>
    rw [cons_append, orderedInsert_cons, if_neg (h b mem_cons_self),
      ih fun c hc => h c (mem_cons_of_mem b hc), cons_append]

/-- **A sort puts the elements that come before all others in front.** -/
theorem insertionSort_eq_append [DecidableRel r] {p : α → Bool}
    {l : List α}
    (h : ∀ a ∈ l, ∀ b ∈ l, p a = true → p b = false → r a b ∧ ¬r b a) :
    l.insertionSort r =
      (l.filter p).insertionSort r ++ (l.filter fun a => !p a).insertionSort r := by
  induction l with
  | nil => rfl
  | cons a l ih =>
    have ih := ih fun b hb c hc =>
      h b (mem_cons_of_mem a hb) c (mem_cons_of_mem a hc)
    have hrs {b : α} {q : α → Bool} (hb : b ∈ (l.filter q).insertionSort r) :
        b ∈ a :: l ∧ q b = true := by
      obtain ⟨hm, hq⟩ := mem_filter.mp ((mem_insertionSort r).mp hb)
      exact ⟨mem_cons_of_mem a hm, hq⟩
    rw [insertionSort_cons, ih]
    cases hpa : p a with
    | true =>
      rw [filter_cons_of_pos hpa, filter_cons_of_neg (by simp [hpa]), insertionSort_cons]
      refine orderedInsert_append_of_rel fun b hb => ?_
      obtain ⟨hm, hpb⟩ := hrs hb
      exact (h a mem_cons_self b hm hpa (by simpa using hpb)).1
    | false =>
      rw [filter_cons_of_neg (by simp [hpa]), filter_cons_of_pos (by simp [hpa]),
        insertionSort_cons]
      refine orderedInsert_append_of_not_rel fun b hb => ?_
      obtain ⟨hm, hpb⟩ := hrs hb
      exact (h b hm a mem_cons_self hpb hpa).2

/-- The candidates with the neutral score come first. -/
theorem filter_take_sortByScore
    (h : ∀ c ∈ cs, c.graphSourced = false → c.rrfScore < graphNeutralRrfScore) (k : ℕ) :
    ((sortByScore cs).take k).filter graphSourced =
      (sortByScore (cs.filter graphSourced)).take k := by
  have hsort : sortByScore cs = sortByScore (cs.filter graphSourced) ++
      sortByScore (cs.filter fun c => !c.graphSourced) := by
    refine insertionSort_eq_append fun a _ b hb ha hg => ?_
    have hsc : b.rrfScore < a.rrfScore := by
      rw [of_decide_eq_true ha]
      exact h b hb hg
    refine ⟨Or.inl hsc, ?_⟩
    rintro (hlt | ⟨heq, -⟩)
    · exact lt_asymm hsc hlt
    · exact hsc.ne heq
  have hall {q : Candidate → Bool} {i : ℕ} {c : Candidate}
      (hc : c ∈ (sortByScore (cs.filter q)).take i) : q c = true :=
    (mem_filter.mp (mem_sortByScore.mp (mem_of_mem_take hc))).2
  rw [hsort, take_append, filter_append]
  generalize k - (sortByScore (cs.filter graphSourced)).length = rest
  have hhigh : ((sortByScore (cs.filter graphSourced)).take k).filter
      graphSourced = (sortByScore (cs.filter graphSourced)).take k :=
    filter_eq_self.mpr fun c => hall
  have hrs : ((sortByScore (cs.filter fun c => !c.graphSourced)).take rest).filter
      graphSourced = [] :=
    filter_eq_nil_iff.mpr fun c hc => by simpa using hall hc
  rw [hhigh, hrs, append_nil]

/-! ### Ranking -/

open Classical in
noncomputable def Reranker.always (chosen : List Candidate) : Reranker where
  rerankCandidates _ cs topK :=
    if chosen.Sublist cs ∧ chosen.length ≤ topK then some chosen else some []
  subperm h := by
    split_ifs at h with hchosen
    · cases h
      exact (hchosen.1.map unranked).subperm
    · cases h
      exact nil_subperm
  length_le h := by
    split_ifs at h with hchosen
    · cases h
      exact hchosen.2
    · cases h
      exact Nat.zero_le _

variable {query : String}

theorem Reranker.rerankCandidates_always {chosen : List Candidate}
    (hsub : chosen.Sublist cs) (hlen : chosen.length ≤ topK) :
    (Reranker.always chosen).rerankCandidates query cs topK = some chosen :=
  if_pos ⟨hsub, hlen⟩

variable {reranker : Option Reranker}

theorem subperm_of_rank {rerank sorted : Bool}
    (h : rank reranker rerank sorted query topK cs = some out) :
    (out.map unranked).Subperm (cs.map unranked) ∧ out.length ≤ topK := by
  unfold rank at h
  split at h
  · exact ⟨Reranker.subperm _ h, Reranker.length_le _ h⟩
  · cases h
    refine ⟨?_, length_take_le topK _⟩
    split
    · exact subperm_take_sortByScore cs topK
    · exact ((take_sublist topK cs).map unranked).subperm

/-- Candidates that satisfy what is visible still do so when they are ranked. -/
theorem visible_of_subperm
    (hsub : (out.map unranked).Subperm (cs.map unranked))
    (h : ∀ c ∈ cs, isAclAllowed c.acl req.ns = true) :
    ∀ c ∈ out, isAclAllowed c.acl req.ns = true := by
  intro c hc
  obtain ⟨d, hd, heq⟩ := exists_of_subperm hsub hc
  have hacl : d.acl = c.acl := eq_of_unranked_eq heq fun _ => rfl
  exact hacl ▸ h d hd

/-- The part that was fetched, of what is ranked by a reranker. -/
theorem filter_subperm (hsub : (out.map unranked).Subperm (cs.map unranked)) :
    ((out.filter graphSourced).map key).Subperm ((cs.filter graphSourced).map key) := by
  obtain ⟨l, hp, hsubl⟩ := hsub.filter graphSourced
  have hk (l : List Candidate) :
      ((l.map unranked).filter graphSourced).map key = (l.filter graphSourced).map key := by
    rw [filter_map, map_map]
    rfl
  rw [← hk out, ← hk cs]
  exact ⟨l.map key, hp.map _, hsubl.map _⟩

theorem nodup_of_subperm {l l' : List α} (h : l.Subperm l') (hnd : l'.Nodup) :
    l.Nodup := by
  obtain ⟨l'', hp, hsub⟩ := h
  exact hp.nodup_iff.mp (hnd.sublist hsub)

/-- **Candidates of hybrid searches alone give results as requested.** -/
theorem meets_rank {rerank sorted : Bool}
    (h : Pool store req cs) (hvis : ∀ c ∈ cs, isAclAllowed c.acl req.ns = true)
    (hn : ∀ c ∈ cs, c.graphSourced = false)
    (hrank : rank reranker rerank sorted query topK cs = some out) :
    Meets store topK req (out.map candidateToSearchResult) := by
  obtain ⟨hsub, hlen⟩ := subperm_of_rank hrank
  have hn' : ∀ c ∈ out, c.graphSourced = false := by
    intro c hc
    obtain ⟨d, hd, heq⟩ := exists_of_subperm hsub hc
    have hsa : d.graphSourced = c.graphSourced := eq_of_unranked_eq heq fun _ => rfl
    exact hsa ▸ hn d hd
  refine (h.of_subperm hsub).meets hlen (visible_of_subperm hsub hvis) ?_ (Or.inr ?_)
  · intro c hc hg
    rw [hn' c hc] at hg
    cases hg
  · rw [filter_eq_nil_iff.mpr fun c hc => by simp [hn' c hc]]
    exact nodup_nil

/-- **Results are as requested, whatever the reranker does, exactly if what can be shown of
the candidates that were fetched is.** -/
theorem rank_iff (query : String) (h : Pool store req cs) (hpos : 0 < topK)
    (hvis : ∀ c ∈ cs, isAclAllowed c.acl req.ns = true) :
    (∀ reranker out, rank reranker req.rerank true query topK cs = some out →
        Meets store topK req (out.map candidateToSearchResult)) ↔
      FetchedMeet req topK (cs.filter graphSourced) := by
  have hm {c : Candidate} (hc : c ∈ cs.filter graphSourced) : c ∈ cs :=
    mem_of_mem_filter hc
  cases hrer : req.rerank with
  | true =>
    have hshow : mayShow req topK (cs.filter graphSourced) = cs.filter graphSourced := if_pos hrer
    constructor
    · intro hmeets
      -- the reranker that shows just the candidates that are to be shown wrong
      have halw {chosen : List Candidate} (hsub : chosen.Sublist cs)
          (hlen : chosen.length ≤ topK) :
          Meets store topK req (chosen.map candidateToSearchResult) :=
        hmeets (some (Reranker.always chosen)) chosen (Reranker.rerankCandidates_always hsub hlen)
      constructor
      · rw [hshow]
        intro c hc f hf
        have hone := halw (singleton_sublist.mpr (hm hc)) hpos
        exact hone.admitted _ (mem_singleton_self _) f hf
      rw [hshow]
      by_contra hnot
      obtain ⟨hne, hdup⟩ := not_or.mp hnot
      obtain ⟨key, hk⟩ : ∃ key,
          [key, key].Sublist ((cs.filter Candidate.graphSourced).map Candidate.key) := by
        by_contra hn
        exact hdup (nodup_iff_sublist.mpr fun key hk => hn ⟨key, hk⟩)
      obtain ⟨chosen, hsub, hchos⟩ := sublist_map_iff.mp hk
      have hlen : chosen.length = 2 := by
        rw [← length_map (f := Candidate.key), ← hchos]
        rfl
      have htwo := (halw (hsub.trans filter_sublist) (by omega)).once
      rw [map_map] at htwo
      have hks : (SearchResult.key ∘ candidateToSearchResult) = Candidate.key := rfl
      rw [hks, ← hchos] at htwo
      simp at htwo
    · intro hfet reranker out hrank
      obtain ⟨hsub, hlen⟩ := subperm_of_rank hrank
      have hadm := hfet.admitted
      have honce := hfet.once
      rw [hshow] at hadm honce
      refine (h.of_subperm hsub).meets hlen (visible_of_subperm hsub hvis) ?_
        (honce.imp_right (nodup_of_subperm (filter_subperm hsub)))
      intro c hc hg f hf
      obtain ⟨d, hd, heq⟩ := exists_of_subperm hsub hc
      have hsa : d.graphSourced = c.graphSourced := eq_of_unranked_eq heq fun _ => rfl
      exact admits_congr heq (hadm d (mem_filter.mpr ⟨hd, hsa.trans hg⟩) f hf)
  | false =>
    have hrank : ∀ reranker, rank reranker false true query topK cs =
        some ((sortByScore cs).take topK) := fun reranker => by cases reranker <;> rfl
    have hshow : mayShow req topK (cs.filter graphSourced) =
        ((sortByScore cs).take topK).filter graphSourced := by
      rw [mayShow, if_neg (by simp [hrer]), filter_take_sortByScore h.low]
    constructor
    · intro hmeets
      have hmeets := hmeets none _ (hrank none)
      constructor
      · rw [hshow]
        intro c hc f hf
        exact hmeets.admitted _ (mem_map_of_mem (mem_of_mem_filter hc)) f hf
      · rw [hshow]
        refine Or.inr (hmeets.once.sublist ?_)
        rw [map_map]
        exact filter_sublist.map key
    · intro hfet reranker out hout
      rw [hrank] at hout
      cases hout
      have hsub := subperm_take_sortByScore cs topK
      have hadm := hfet.admitted
      have honce := hfet.once
      rw [hshow] at hadm honce
      exact (h.of_subperm hsub).meets (length_take_le topK _)
        (visible_of_subperm hsub hvis)
        (fun c hc hg => hadm c (mem_filter.mpr ⟨hc, hg⟩)) honce

end Pool

end ArchonSearch.Search
