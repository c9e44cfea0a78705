import ArchonSearch.Lib.Cut
import ArchonSearch.Search.FetchedMany

/-!
# Hidden candidates in a fan-out

All paths of `search_many` end in the same way: the candidates of each leg are sorted and cut, the
legs are merged, what the namespace may not see is dropped, and the rest is ranked. Here this end
is a function of the legs alone (`Pipeline.settle`), and the paths are shown to be that function of
the legs that they make (`results_fanout`). So it can be asked what the results would be if the
hidden candidates were removed from the legs before they are cut.

The cut comes first, so a hidden candidate may take the place of a visible one. It does not if in
each leg the candidates that are kept are all visible, or those that are cut off all hidden, and
then the results are the same (`searchMany_withoutHidden`); elsewhere they need not be
(`displaced`).
-/

namespace ArchonSearch.Search

open Lib List Pipeline

/-! ### The end of every path -/

structure Leg where
  candidates : List Candidate
  sorted : Bool
  limit : Option ℕ

namespace Leg

variable (leg : Leg)

def ordered : List Candidate := if leg.sorted then sortByScore leg.candidates else leg.candidates

def cut : List Candidate := leg.limit.elim leg.ordered leg.ordered.take

def withoutHidden (ns : String) (leg : Leg) : Leg :=
  { leg with candidates := leg.candidates.filter fun c => isAclAllowed c.acl ns }

/-- No hidden candidate takes the place of a visible one. -/
def Undisplaced (ns : String) : Prop :=
  ∀ k ∈ leg.limit, Lib.Undisplaced (fun c => isAclAllowed c.acl ns) k leg.ordered

instance (ns : String) : Decidable (leg.Undisplaced ns) :=
  inferInstanceAs (Decidable (∀ k ∈ leg.limit, _))

end Leg

variable {ν : Type} (p : Pipeline ν) (reranker : Option Reranker) (req : Request ν)

def Pipeline.settle (legs : List Leg) : Except SearchError (List SearchResult) :=
  p.finish reranker req true (visibleTo req.ns (legs.flatMap Leg.cut)).1

/-! ### The legs of each path -/

def Pipeline.trimmed (cs : List Candidate) : Leg := ⟨cs, true, some p.trim⟩

def inOrder (legs : List (String × List Candidate)) : List (String × List Candidate) :=
  (Keyed.ofList legs : Dict String (List Candidate)).items.insertionSort fun a b => a.1 ≤ b.1

def Pipeline.standardLegs (queryVector : Option ν) (collections : List String) :
    Except SearchError (List Leg) := do
  let legs ← collections.mapM fun collection => do
    let cs ← called (p.hybridLeg req queryVector req.query (p.fanoutDepth req) req.scopeFilter
      collection)
    pure (collection, cs)
  pure ((inOrder legs).map fun leg => p.trimmed leg.2)

def Pipeline.ragLegs (generateVariants : String → Except GenerateError (List String))
    (collections : List String) : Except SearchError (List Leg) :=
  let variants := (generateVariants req.query).toOption.getD []
  match (req.query :: variants).mapM p.embedOne with
  | none => do
    let vector ← called (p.embedOne req.query)
    p.standardLegs req (some vector) collections
  | some vectors => do
    let legs ← (collections.insertionSort (· ≤ ·)).mapM fun collection => do
      let cs ← called (p.ragLeg req vectors collection)
      pure (collection, cs)
    pure ((inOrder legs).map fun leg => p.trimmed leg.2)

/-- The legs of the mode `naive`. -/
def Pipeline.naiveLegs (expand : (query collection ns : String) → Option ExpandedQuery)
    (collections : List String) : Except SearchError (List Leg) := do
  let expansions ← collections.mapM fun collection => called (expand req.query collection req.ns)
  let vectors ← (expansions.map ExpandedQuery.expandedText).eraseDups.mapM fun text => do
    let vector ← called (p.embedOne text)
    pure (text, vector)
  let legs := (collections.zip expansions).filterMap fun (collection, expanded) =>
    p.hybridLeg req (vectors.lookup expanded.expandedText) expanded.expandedText
      (p.fanoutDepth req) none collection
  pure (legs.map p.trimmed)

/-- A leg of the mode `local`; the one of a fallback is cut in the order of the search. -/
def Pipeline.localUncut (graphStore : GraphStore) (vector : ν) (collection : String) :
    Option Leg := do
  let hybrid ← p.hybridLeg req (some vector) req.query (p.fanoutDepth req) none collection
  match p.localFetched req graphStore collection with
  | [] => pure ⟨hybrid, false, some p.trim⟩
  | fetched => pure (p.trimmed (mergeNew fetched hybrid))

/-- The legs of the mode `local`. -/
def Pipeline.localLegs (graphStore : GraphStore) (collections : List String) :
    Except SearchError (List Leg) := do
  let vector ← called (req.queryVector.or (p.embedOne req.query))
  pure (collections.filterMap (p.localUncut req graphStore vector))

/-- The legs of the standard path, with the vector of the query if there is to be one. -/
def Pipeline.fallBackLegs (collections : List String) : Except SearchError (List Leg) := do
  let vector ← vectorFor p.embedOne req.query req.queryVector req.isFtsOnly
  p.standardLegs req vector collections

/-- The legs of the mode `global`, which are not cut. -/
def Pipeline.globalLegs (graphStore : GraphStore) (collections : List String) :
    Except SearchError (List Leg) := do
  let legs ← collections.mapM (p.globalLeg req graphStore)
  if (visibleTo req.ns legs.flatten).1 = [] then p.fallBackLegs req collections
  else pure (legs.map fun cs => ⟨cs, false, none⟩)

/-- The legs of `search_many`, for the collections in scope. -/
def Pipeline.legs (collections : List String) : Except SearchError (List Leg) :=
  let inGraphMode (legs : Except SearchError (List Leg)) :=
    if req.scopeFilter.isSome then .error .scopeInGraphMode else legs
  match req.effectiveGenerator with
  | some generateVariants => p.ragLegs req generateVariants collections
  | none =>
    match req.effectiveMode, p.graphExpander, p.graphStore with
    | some .naive, some expand, _ => inGraphMode (p.naiveLegs req expand collections)
    | some .global, _, some graphStore => inGraphMode (p.globalLegs req graphStore collections)
    | some .local, _, some graphStore => inGraphMode (p.localLegs req graphStore collections)
    | _, _, _ => p.fallBackLegs req collections

/-- **The results of `search_many` if its legs are changed** before they are cut. -/
def Pipeline.resultsWith (change : Leg → Leg) (collections : List String) :
    Except SearchError (List SearchResult) :=
  match p.getAllCollectionsMeta req.ns with
  | none => .error .metadataLookup
  | some all => do
    let metas : Dict String String := Keyed.ofList all
    let missing := collections.filter fun name => (Dict.get metas name).isNone
    if missing ≠ [] then .error (.collectionNotFound missing)
    else
      let inScope := p.inScope metas collections
      if inScope = [] then pure []
      else
        let legs ← p.legs req inScope
        p.settle reranker req (legs.map change)

/-! ### The paths are functions of their legs -/

def resultsOf (path : Except SearchError SearchPipelineResult) :
    Except SearchError (List SearchResult) := path.map SearchPipelineResult.results

variable {p} {reranker} {req}

theorem cut_trimmed (cs : List Candidate) : (p.trimmed cs).cut = p.trimLeg cs := rfl

theorem inOrder_map (f : List Candidate → List Candidate) (legs : List (String × List Candidate)) :
    inOrder (legs.map (Prod.map id f)) = (inOrder legs).map (Prod.map id f) := by
  unfold inOrder
  rw [Keyed.items_ofList_map (f := Prod.map id f) fun _ => rfl]
  exact (map_insertionSort (fun a b : String × List Candidate => a.1 ≤ b.1)
    (fun a b : String × List Candidate => a.1 ≤ b.1) (Prod.map id f) _
    fun _ _ _ _ => Iff.rfl).symm

theorem mergeLegs_map_trimLeg (legs : List (String × List Candidate)) :
    mergeLegs (legs.map (Prod.map id p.trimLeg)) =
      ((inOrder legs).map fun leg => p.trimmed leg.2).flatMap Leg.cut := by
  have hmer : mergeLegs (legs.map (Prod.map id p.trimLeg)) =
      (inOrder (legs.map (Prod.map id p.trimLeg))).flatMap Prod.snd := rfl
  rw [hmer, inOrder_map, flatMap_map, flatMap_map]
  rfl

/-- What is done to each item of a loop may be done to all of them afterwards. -/
theorem mapM_map_except {ε α β γ : Type} (f : α → Except ε β) (g : β → γ) (l : List α) :
    (l.mapM fun a => (f a).map g) = (l.mapM f).map (List.map g) := by
  induction l with
  | nil => rfl
  | cons a l ih =>
    rw [mapM_cons, mapM_cons, ih]
    cases f a with
    | error e => rfl
    | ok b =>
      cases l.mapM f with
      | error e => rfl
      | ok bs => rfl

/-- The legs of a loop, trimmed one by one or all at the end. -/
theorem mapM_trimLeg (candidates : String → Option (List Candidate)) (collections : List String) :
    (collections.mapM fun collection => do
      let cs ← called (candidates collection)
      pure (collection, p.trimLeg cs)) =
    (collections.mapM fun collection => do
      let cs ← called (candidates collection)
      pure (collection, cs)).map (List.map (Prod.map id p.trimLeg)) := by
  rw [← mapM_map_except]
  refine congrArg (fun f => collections.mapM f) (funext fun collection => ?_)
  cases candidates collection with
  | none => rfl
  | some cs => rfl

theorem ok_bind {α β : Type} (a : α) (f : α → Except SearchError β) :
    (Except.ok a >>= f) = f a := rfl

/-- What a path says beside its results does not matter. -/
theorem resultsOf_finish {found : Except SearchError (List SearchResult)}
    {answer : List SearchResult → SearchPipelineResult} (h : ∀ rs, (answer rs).results = rs) :
    resultsOf (found >>= fun rs => pure (answer rs)) = found := by
  cases found with
  | error e => rfl
  | ok rs => exact congrArg Except.ok (h rs)

variable {path : Except SearchError SearchPipelineResult}

theorem resultsOf_with
    {f : SearchPipelineResult → SearchPipelineResult} (h : ∀ r, (f r).results = r.results) :
    resultsOf (path >>= fun r => pure (f r)) = resultsOf path := by
  cases path with
  | error e => rfl
  | ok r => exact congrArg Except.ok (h r)

variable (p) (reranker) (req) in
/-- **A path that trims its legs one by one, merges them by name and ranks what is visible.** -/
theorem results_merged (answer : Bool → List SearchResult → SearchPipelineResult)
    (h : ∀ filtered rs, (answer filtered rs).results = rs)
    (candidates : String → Option (List Candidate)) (collections : List String) :
    resultsOf (do
      let legs ← collections.mapM fun collection => do
        let cs ← called (candidates collection)
        pure (collection, p.trimLeg cs)
      let (merged, aclFiltered) := visibleTo req.ns (mergeLegs legs)
      let results ← p.finish reranker req true merged
      pure (answer aclFiltered results)) =
    (do
      let legs ← collections.mapM fun collection => do
        let cs ← called (candidates collection)
        pure (collection, cs)
      pure ((inOrder legs).map fun leg => p.trimmed leg.2)) >>= p.settle reranker req := by
  rw [mapM_trimLeg (p := p)]
  generalize (collections.mapM fun collection => do
    let cs ← called (candidates collection)
    pure (collection, cs)) = looked
  cases looked with
  | error e => rfl
  | ok legs =>
    exact (resultsOf_finish (h _)).trans
      (congrArg (fun cs => p.finish reranker req true (visibleTo req.ns cs).1)
        (mergeLegs_map_trimLeg legs))

theorem results_fanoutStandard (queryVector : Option ν) (collections : List String) :
    resultsOf (p.fanoutStandard reranker req queryVector collections) =
      p.standardLegs req queryVector collections >>= p.settle reranker req := by
  have hmer := results_merged p reranker req
    (fun filtered rs => { results := rs, aclFiltered := filtered }) (fun _ _ => rfl)
    (fun collection => p.hybridLeg req queryVector req.query (p.fanoutDepth req) req.scopeFilter
      collection) collections
  refine Eq.trans ?_ hmer
  unfold fanoutStandard fanoutMergeAcl
  rw [bind_assoc]
  rfl

theorem results_fanoutRagFusion
    (generateVariants : String → Except GenerateError (List String))
    (collections : List String) :
    resultsOf (p.fanoutRagFusion reranker req generateVariants collections) =
      p.ragLegs req generateVariants collections >>= p.settle reranker req := by
  have hstan (warning : Option String) :
      resultsOf (do
        let vector ← called (p.embedOne req.query)
        let standard ← p.fanoutStandard reranker req (some vector) collections
        pure { standard with ragFusionAttempted := true, ragFusionWarning := warning }) =
      (do
        let vector ← called (p.embedOne req.query)
        p.standardLegs req (some vector) collections) >>= p.settle reranker req := by
    cases called (p.embedOne req.query) with
    | error e => rfl
    | ok vector =>
      refine Eq.trans ?_ (results_fanoutStandard (some vector) collections)
      exact resultsOf_with (f := fun standard =>
        { standard with ragFusionAttempted := true, ragFusionWarning := warning }) fun _ => rfl
  have hfus (vectors : List ν) (warning : Option String) :=
    results_merged p reranker req
      (fun filtered rs =>
        let queriesUsed := (p.successfulVariants req vectors collections).length
        { results := rs
          aclFiltered := filtered
          ragFusionApplied := queriesUsed ≠ 0
          ragFusionQueriesUsed := queriesUsed
          ragFusionAttempted := true
          ragFusionWarning := warning })
      (fun _ _ => rfl) (p.ragLeg req vectors) (collections.insertionSort (· ≤ ·))
  unfold fanoutRagFusion ragLegs
  -- a generator that fails leaves no variant, and a warning
  cases generateVariants req.query with
  | ok variants =>
    dsimp only [Except.toOption, Option.getD]
    cases (req.query :: variants).mapM p.embedOne with
    | none => exact hstan _
    | some vectors => exact hfus vectors none
  | error e =>
    cases e with
    | timeout =>
      dsimp only [Except.toOption, Option.getD]
      cases [req.query].mapM p.embedOne with
      | none => exact hstan _
      | some vectors => exact hfus vectors (some "RAG Fusion timed out")
    | other =>
      dsimp only [Except.toOption, Option.getD]
      cases [req.query].mapM p.embedOne with
      | none => exact hstan _
      | some vectors => exact hfus vectors (some "RAG Fusion expansion failed")

/-- Legs that are left out where they raise, trimmed one by one or all at the end. -/
theorem flatten_trimLeg {α : Type} (candidates : α → Option (List Candidate)) (l : List α) :
    ((l.map fun a => do
      let cs ← candidates a
      pure (p.trimLeg cs)).filterMap id).flatten =
    ((l.filterMap candidates).map p.trimmed).flatMap Leg.cut := by
  induction l with
  | nil => rfl
  | cons a l ih =>
    rw [map_cons, filterMap_cons, filterMap_cons]
    cases candidates a with
    | none => exact ih
    | some cs => exact congrArg (p.trimLeg cs ++ ·) ih

theorem results_fanoutNaive (expand : (query collection ns : String) → Option ExpandedQuery)
    (collections : List String) :
    resultsOf (p.fanoutNaive reranker req expand collections) =
      p.naiveLegs req expand collections >>= p.settle reranker req := by
  unfold fanoutNaive naiveLegs
  cases collections.mapM fun collection => called (expand req.query collection req.ns) with
  | error e => rfl
  | ok expansions =>
    rw [ok_bind, ok_bind]
    generalize ((expansions.map ExpandedQuery.expandedText).eraseDups.mapM fun text => do
      let vector ← called (p.embedOne text)
      pure (text, vector)) = embedded
    cases embedded with
    | error e => rfl
    | ok vectors =>
      refine Eq.trans (resultsOf_finish fun _ => rfl) ?_
      exact congrArg (fun cs => p.finish reranker req true (visibleTo req.ns cs).1)
        (flatten_trimLeg _ _)

/-- A leg of the mode `local` is cut as the path cuts it. -/
theorem localLeg_eq (graphStore : GraphStore) (vector : ν) (collection : String) :
    (p.localLeg req graphStore vector collection).map Prod.fst =
      (p.localUncut req graphStore vector collection).map Leg.cut := by
  unfold localLeg localUncut
  cases p.hybridLeg req (some vector) req.query (p.fanoutDepth req) none collection with
  | none => rfl
  | some hybrid =>
    cases p.localFetched req graphStore collection with
    | nil => rfl
    | cons c fetched => rfl

theorem results_fanoutLocal (graphStore : GraphStore) (collections : List String) :
    resultsOf (p.fanoutLocal reranker req graphStore collections) =
      p.localLegs req graphStore collections >>= p.settle reranker req := by
  unfold fanoutLocal localLegs
  cases called (req.queryVector.or (p.embedOne req.query)) with
  | error e => rfl
  | ok vector =>
    have hlegs : (collections.filterMap (p.localLeg req graphStore vector)).flatMap Prod.fst =
        (collections.filterMap (p.localUncut req graphStore vector)).flatMap Leg.cut := by
      rw [flatMap_def, flatMap_def, map_filterMap, map_filterMap]
      exact congrArg (fun f => (collections.filterMap f).flatten)
        (funext fun collection => localLeg_eq graphStore vector collection)
    refine Eq.trans (resultsOf_finish fun _ => rfl) ?_
    exact congrArg (fun cs => p.finish reranker req true (visibleTo req.ns cs).1) hlegs

theorem results_fanoutFallBack (collections : List String) :
    resultsOf (p.fanoutFallBack reranker req collections) =
      p.fallBackLegs req collections >>= p.settle reranker req := by
  unfold fanoutFallBack fallBackLegs
  cases vectorFor p.embedOne req.query req.queryVector req.isFtsOnly with
  | error e => rfl
  | ok vector =>
    refine Eq.trans ?_ (results_fanoutStandard vector collections)
    exact resultsOf_with (f := fun standard =>
      { standard with
        pprEntitiesMatched := if req.effectiveMode = some .ppr then some 0 else none })
      fun _ => rfl

theorem results_fanoutGlobal (graphStore : GraphStore) (collections : List String) :
    resultsOf (p.fanoutGlobal reranker req graphStore collections) =
      p.globalLegs req graphStore collections >>= p.settle reranker req := by
  unfold fanoutGlobal globalLegs
  cases collections.mapM (p.globalLeg req graphStore) with
  | error e => rfl
  | ok legs =>
    dsimp only [bind, Except.bind]
    split
    · exact results_fanoutFallBack collections
    · have hcut : (legs.map fun cs => (⟨cs, false, none⟩ : Leg)).flatMap Leg.cut =
          legs.flatten := by
        rw [flatMap_map]
        exact flatMap_id
      refine Eq.trans (resultsOf_finish fun _ => rfl) ?_
      exact congrArg (fun cs => p.finish reranker req true (visibleTo req.ns cs).1) hcut.symm

/-- A graph mode is refused where there is a scope. -/
theorem results_inGraphMode
    {legs : Except SearchError (List Leg)}
    (h : resultsOf path = legs >>= p.settle reranker req) :
    resultsOf (if req.scopeFilter.isSome then .error .scopeInGraphMode else path) =
      (if req.scopeFilter.isSome then .error .scopeInGraphMode else legs) >>=
        p.settle reranker req := by
  split
  · rfl
  · exact h

/-- **The paths of `search_many` are one function of their legs.** -/
theorem results_fanout (collections : List String) :
    resultsOf (p.fanout reranker req collections) =
      p.legs req collections >>= p.settle reranker req := by
  unfold fanout legs
  cases req.effectiveGenerator with
  | some generateVariants => exact results_fanoutRagFusion generateVariants collections
  | none =>
    have hfallBack : resultsOf (p.fanoutFallBack reranker req collections) =
        p.fallBackLegs req collections >>= p.settle reranker req :=
      results_fanoutFallBack collections
    cases req.effectiveMode with
    | none => exact hfallBack
    | some mode =>
      cases mode with
      | naive =>
        cases p.graphExpander with
        | none => exact hfallBack
        | some expand => exact results_inGraphMode (results_fanoutNaive expand collections)
      | «global» =>
        cases p.graphStore with
        | none => exact hfallBack
        | some graphStore =>
          exact results_inGraphMode (results_fanoutGlobal graphStore collections)
      | «local» =>
        cases p.graphStore with
        | none => exact hfallBack
        | some graphStore =>
          exact results_inGraphMode (results_fanoutLocal graphStore collections)
      | ppr => exact hfallBack

/-- Without a change the results are those of `search_many`. -/
theorem resultsWith_id (collections : List String) :
    p.resultsWith reranker req id collections =
      resultsOf (p.searchMany reranker req collections) := by
  unfold resultsWith searchMany
  cases p.getAllCollectionsMeta req.ns with
  | none => rfl
  | some all =>
    dsimp only
    split
    · rfl
    · split
      · rfl
      · simp only [map_id]
        rw [← results_fanout]
        refine (resultsOf_with (f := fun result =>
          { result with excludedCollections := collections.filter (fun name =>
              !(p.inScope (Keyed.ofList all) collections).contains name) }) fun _ => rfl).symm

/-! ### Without what is hidden -/

instance : Std.Total Before where
  total a b := by
    rcases lt_trichotomy a.rrfScore b.rrfScore with h | h | h
    · exact Or.inr (Or.inl h)
    · exact (String.le_total a.chunkId b.chunkId).imp (fun hid => Or.inr ⟨h, hid⟩)
        fun hid => Or.inr ⟨h.symm, hid⟩
    · exact Or.inl (Or.inl h)

instance : IsTrans Candidate Before where
  trans a b c := by
    rintro (hab | ⟨hab, hid⟩) (hbc | ⟨hbc, hid'⟩)
    · exact Or.inl (hbc.trans hab)
    · exact Or.inl (hbc ▸ hab)
    · exact Or.inl (hab ▸ hbc)
    · exact Or.inr ⟨hab.trans hbc, String.le_trans hid hid'⟩

variable {ns : String}

theorem ordered_withoutHidden (leg : Leg) :
    (leg.withoutHidden ns).ordered = leg.ordered.filter fun c => isAclAllowed c.acl ns := by
  unfold Leg.ordered Leg.withoutHidden
  split
  · exact (filter_insertionSort leg.candidates).symm
  · rfl

/-- What is kept of a leg without the hidden candidates is what is visible of what is kept. -/
theorem cut_withoutHidden {leg : Leg} (h : leg.Undisplaced ns) :
    (leg.withoutHidden ns).cut = leg.cut.filter fun c => isAclAllowed c.acl ns := by
  have hlim : (leg.withoutHidden ns).limit = leg.limit := rfl
  unfold Leg.cut
  rw [hlim, ordered_withoutHidden]
  cases hk : leg.limit with
  | none => rfl
  | some k => exact (filter_take_iff.mpr (h k hk)).symm

theorem settle_withoutHidden {legs : List Leg} (h : ∀ leg ∈ legs, leg.Undisplaced req.ns) :
    p.settle reranker req (legs.map (Leg.withoutHidden req.ns)) = p.settle reranker req legs := by
  have hvis : (visibleTo req.ns ((legs.map (Leg.withoutHidden req.ns)).flatMap Leg.cut)).1 =
      (visibleTo req.ns (legs.flatMap Leg.cut)).1 := by
    rw [visibleTo_fst, visibleTo_fst, flatMap_map, filter_flatMap, filter_flatMap]
    refine flatMap_congr fun leg hleg => ?_
    rw [cut_withoutHidden (h leg hleg), filter_filter]
    simp
  unfold settle
  rw [hvis]

/-- In no leg does one. -/
def Pipeline.Undisplaced (p : Pipeline ν) (req : Request ν) (collections : List String) : Prop :=
  ∀ all legs, p.getAllCollectionsMeta req.ns = some all →
    p.legs req (p.inScope (Keyed.ofList all) collections) = .ok legs →
    ∀ leg ∈ legs, leg.Undisplaced req.ns

/-- **Hidden candidates do not influence the results** of a fan-out in which they displace
nothing. -/
theorem searchMany_withoutHidden (collections : List String) (h : p.Undisplaced req collections) :
    p.resultsWith reranker req (Leg.withoutHidden req.ns) collections =
      resultsOf (p.searchMany reranker req collections) := by
  rw [← resultsWith_id]
  unfold resultsWith
  cases hall : p.getAllCollectionsMeta req.ns with
  | none => rfl
  | some all =>
    dsimp only
    split
    · rfl
    · split
      · rfl
      · cases hlegs : p.legs req (p.inScope (Keyed.ofList all) collections) with
        | error e => rfl
        | ok legs =>
          rw [ok_bind, ok_bind, map_id]
          exact settle_withoutHidden (h all legs hall hlegs)

/-! ### A hidden candidate in front of a visible one -/

/-- A collection with a chunk of another namespace and one of everybody, of which so many are
kept. -/
def crowdedPipeline (fanoutLegTrim : ℕ) : Pipeline Unit :=
  { samplePipeline with
    store :=
      { lance := sampleLance
        tables := fun _ => some
          { rows := [{ docId := "d", chunkId := "c", text := "t", sourcePath := "/secret.md",
                       acl := some ["other"] },
                     { docId := "e", chunkId := "e", text := "t", sourcePath := "/notes.md" }] } }
    fanoutLegTrim := fanoutLegTrim }

def ftsRequest : Request Unit where
  query := "q"
  ns := "default"
  ftsOnly := true

theorem searchMany_withoutHidden_both :
    (crowdedPipeline 2).Undisplaced ftsRequest ["notes"] ∧
      (crowdedPipeline 2).resultsWith none ftsRequest (Leg.withoutHidden "default") ["notes"] =
        resultsOf ((crowdedPipeline 2).searchMany none ftsRequest ["notes"]) := by
  have hund : (crowdedPipeline 2).Undisplaced ftsRequest ["notes"] := by
    intro all legs hall hlegs
    cases hall
    cases hlegs
    decide +kernel
  exact ⟨hund, searchMany_withoutHidden ["notes"] hund⟩

/-- **A hidden candidate displaces a visible one**: of the two, the hidden one is kept. -/
theorem displaced : ¬ ∀ (p : Pipeline Unit) reranker req collections,
    p.resultsWith reranker req (Leg.withoutHidden req.ns) collections =
      resultsOf (p.searchMany reranker req collections) := by
  intro h
  have hlen := congrArg (Except.map List.length) (h (crowdedPipeline 1) none ftsRequest ["notes"])
  revert hlen
  decide +kernel

end ArchonSearch.Search
