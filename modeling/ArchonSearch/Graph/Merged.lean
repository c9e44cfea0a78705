import Mathlib.Tactic.Positivity
import ArchonSearch.Graph.Inspect
import ArchonSearch.Lib.Combine
import ArchonSearch.Lib.Least

/-!
# The order of merged collections

`inspect_cross_collection` merges the graphs of several collections, one after the other. A node of
several collections has the chunks of all of them, and the mean of their saliences, weighted by
chunks; an edge has the first `_MAX_SOURCE_CHUNK_IDS` of all chunks that support it somewhere. The
mean is clamped and the chunk ids are cut at each step, but that changes nothing
(`isMeanOf_of_mem`, `isUnionOf_of_mem`): the saliences are no more than one to begin with, and the
first of a union are the first of the first.

So the order of the collections is not seen in the view (`inspectCrossCollection_perm`), up to the
name of an entity, which is the one that the last collection has for it. Pagerank scores are not
looked at in the modes `frequency` and `tfidf`.
-/

namespace ArchonSearch.Graph.Inspect

open Lib List GraphNodeInspection

/-! ### What is merged -/

structure NodeEntry where
  graph : AclVisibleGraph
  totalChunkCount : ℕ
  node : GraphNode

/-- `chunk_count`. -/
def NodeEntry.chunkCount (entry : NodeEntry) : ℕ := (entry.graph.entityChunks entry.node.id).card

/-- `salience`. -/
def NodeEntry.salience (entry : NodeEntry) : ℚ :=
  frequencySalience entry.chunkCount entry.totalChunkCount

structure EdgeEntry where
  graph : AclVisibleGraph
  edge : GraphEdge

/-- `cooccur_chunks`. -/
def EdgeEntry.cooccurChunks (entry : EdgeEntry) : Finset String :=
  entry.graph.entityChunks entry.edge.sourceNodeId ∩
    entry.graph.entityChunks entry.edge.targetNodeId

def nodeEntries (totalChunkCounts : String → Option ℕ) (graphs : List (String × AclVisibleGraph)) :
    List NodeEntry :=
  graphs.flatMap fun entry => entry.2.nodes.map fun node =>
    ⟨entry.2, (totalChunkCounts entry.1).getD 0, node⟩

def edgeEntries (graphs : List (String × AclVisibleGraph)) : List EdgeEntry :=
  graphs.flatMap fun entry => entry.2.edges.map fun edge => ⟨entry.2, edge⟩

def combineNode (existing : Option GraphNodeInspection) (entry : NodeEntry) :
    GraphNodeInspection where
  entityId := entry.node.id
  entityName := entry.node.entityName
  chunkCount := (existing.map chunkCount).getD 0 + entry.chunkCount
  salience :=
    match existing with
    | some n => min ((n.chunkCount * n.salience + entry.chunkCount * entry.salience) /
        (max (n.chunkCount + entry.chunkCount) 1 : ℕ)) 1
    | none => entry.salience
  entityType := entry.node.entityType
  pagerankScore := (existing.bind pagerankScore).or entry.node.pagerankScore

def combineEdge (existing : Option GraphEdgeInspection) (entry : EdgeEntry) :
    GraphEdgeInspection where
  edgeId := entry.edge.id
  sourceEntityId := entry.edge.sourceNodeId
  targetEntityId := entry.edge.targetNodeId
  weight := (existing.map GraphEdgeInspection.weight).getD 0 + entry.cooccurChunks.card
  sourceChunkIds :=
    match existing with
    | some e => least maxSourceChunkIds (e.sourceChunkIds.toFinset ∪
        (least maxSourceChunkIds entry.cooccurChunks).toFinset)
    | none => least maxSourceChunkIds entry.cooccurChunks
  relationshipType := entry.edge.relationshipType

section Merge

variable {totalChunkCounts : String → Option ℕ} {graphs graphs' : List (String × AclVisibleGraph)}

theorem entityId_combineNode (existing : Option GraphNodeInspection) (entry : NodeEntry) :
    (combineNode existing entry).entityId = entry.node.id := rfl

theorem edgeId_combineEdge (existing : Option GraphEdgeInspection) (entry : EdgeEntry) :
    (combineEdge existing entry).edgeId = entry.edge.id := rfl

theorem mergeNode_eq_combine (merged : MergedNodes) (entry : NodeEntry) :
    mergeNode entry.graph entry.totalChunkCount merged entry.node =
      combine (fun entry => entry.node.id) combineNode merged entry := by
  unfold mergeNode combine combineNode
  rcases merged.get? entry.node.id with - | existing
  · simp [NodeEntry.chunkCount, NodeEntry.salience]
  · rfl

theorem mergeEdge_eq_combine (merged : MergedEdges) (entry : EdgeEntry) :
    mergeEdge entry.graph merged entry.edge =
      combine (fun entry => entry.edge.id) combineEdge merged entry := by
  unfold mergeEdge combine combineEdge
  rcases merged.get? entry.edge.id with - | existing
  · simp [edgeInspection, EdgeEntry.cooccurChunks, least]
  · rfl

/-- **The merged nodes** combine the nodes of all collections. -/
theorem mergedNodes_eq : mergedNodes totalChunkCounts graphs =
    combineAll (fun entry => entry.node.id) combineNode (nodeEntries totalChunkCounts graphs) := by
  rw [combineAll, nodeEntries, foldl_flatMap]
  simp only [foldl_map, ← mergeNode_eq_combine]
  rfl

/-- **The merged edges** combine the edges of all collections. -/
theorem mergedEdges_eq : mergedEdges graphs =
    combineAll (fun entry => entry.edge.id) combineEdge (edgeEntries graphs) := by
  rw [combineAll, edgeEntries, foldl_flatMap]
  simp only [foldl_map, ← mergeEdge_eq_combine]
  rfl

end Merge

/-! ### Means -/

section Means

def chunkSum (entries : List NodeEntry) : ℕ := (entries.map NodeEntry.chunkCount).sum

def salienceSum (entries : List NodeEntry) : ℚ :=
  (entries.map fun entry => (entry.chunkCount : ℚ) * entry.salience).sum

def meanSalience (entries : List NodeEntry) : ℚ :=
  salienceSum entries / (max (chunkSum entries) 1 : ℕ)

def IsMeanOf (entries : List NodeEntry) (n : GraphNodeInspection) : Prop :=
  n.chunkCount = chunkSum entries ∧ n.salience = meanSalience entries

variable {entries : List NodeEntry}

theorem frequencySalience_nonneg (chunkCount totalChunkCount : ℕ) :
    0 ≤ frequencySalience chunkCount totalChunkCount := by
  unfold frequencySalience
  split_ifs
  · positivity
  · exact le_rfl

theorem frequencySalience_le_one (chunkCount totalChunkCount : ℕ) :
    frequencySalience chunkCount totalChunkCount ≤ 1 := by
  unfold frequencySalience
  split_ifs
  · exact min_le_right _ _
  · exact zero_le_one

theorem frequencySalience_zero (totalChunkCount : ℕ) :
    frequencySalience 0 totalChunkCount = 0 := by
  unfold frequencySalience
  split_ifs
  · simp
  · rfl

/-- The weighted saliences are no more than the chunks. -/
theorem salienceSum_bounds (entries : List NodeEntry) :
    0 ≤ salienceSum entries ∧ salienceSum entries ≤ chunkSum entries := by
  induction entries with
  | nil => exact ⟨le_rfl, by simp [salienceSum, chunkSum]⟩
  | cons entry entries ih =>
    have hpos : (0 : ℚ) ≤ entry.chunkCount := Nat.cast_nonneg _
    have hlow := mul_nonneg hpos (frequencySalience_nonneg entry.chunkCount entry.totalChunkCount)
    have hhigh := mul_le_of_le_one_right hpos
      (frequencySalience_le_one entry.chunkCount entry.totalChunkCount)
    simp only [salienceSum, chunkSum, map_cons, sum_cons, Nat.cast_add] at ih ⊢
    exact ⟨add_nonneg hlow ih.1, add_le_add hhigh ih.2⟩

/-- **The clamp changes nothing**: a mean is no more than one. -/
theorem meanSalience_le_one (entries : List NodeEntry) : meanSalience entries ≤ 1 := by
  have hpos : (0 : ℚ) < (max (chunkSum entries) 1 : ℕ) := by
    exact_mod_cast lt_of_lt_of_le Nat.one_pos (le_max_right _ _)
  have hmax : (chunkSum entries : ℚ) ≤ (max (chunkSum entries) 1 : ℕ) := by
    exact_mod_cast le_max_left _ _
  rw [meanSalience, div_le_one hpos]
  exact (salienceSum_bounds entries).2.trans hmax

/-- The mean and the chunks tell the weighted saliences. -/
theorem chunkSum_mul_meanSalience (entries : List NodeEntry) :
    chunkSum entries * meanSalience entries = salienceSum entries := by
  obtain ⟨hlow, hhigh⟩ := salienceSum_bounds entries
  rcases Nat.eq_zero_or_pos (chunkSum entries) with hz | hpos
  · rw [hz, Nat.cast_zero] at hhigh ⊢
    rw [zero_mul, le_antisymm hhigh hlow]
  · have hne : (chunkSum entries : ℚ) ≠ 0 := by exact_mod_cast hpos.ne'
    rw [meanSalience, max_eq_left hpos, mul_div_cancel₀ _ hne]

theorem isMeanOf_singleton (entry : NodeEntry) : IsMeanOf [entry] (combineNode none entry) := by
  refine ⟨by simp [combineNode, chunkSum], ?_⟩
  simp only [combineNode, meanSalience, salienceSum, chunkSum, map_cons, map_nil,
    sum_cons, sum_nil, add_zero]
  rcases Nat.eq_zero_or_pos entry.chunkCount with hz | hpos
  · rw [NodeEntry.salience, hz, frequencySalience_zero]
    simp
  · have hne : (entry.chunkCount : ℚ) ≠ 0 := by exact_mod_cast hpos.ne'
    rw [max_eq_left hpos, mul_div_cancel_left₀ _ hne]

variable {n : GraphNodeInspection}

theorem IsMeanOf.combineNode (h : IsMeanOf entries n)
    (entry : NodeEntry) : IsMeanOf (entries ++ [entry]) (combineNode (some n) entry) := by
  obtain ⟨hcnt, hsal⟩ := h
  have hchs : chunkSum (entries ++ [entry]) = chunkSum entries + entry.chunkCount := by
    simp [chunkSum]
  have hsum : salienceSum (entries ++ [entry]) =
      salienceSum entries + entry.chunkCount * entry.salience := by
    simp [salienceSum]
  refine ⟨by simp [Inspect.combineNode, hchs, hcnt], ?_⟩
  have hmean : (n.chunkCount * n.salience + entry.chunkCount * entry.salience) /
      (max (n.chunkCount + entry.chunkCount) 1 : ℕ) = meanSalience (entries ++ [entry]) := by
    rw [hcnt, hsal, chunkSum_mul_meanSalience, ← hsum, ← hchs, meanSalience]
  simp only [Inspect.combineNode]
  rw [hmean, min_eq_left (meanSalience_le_one _)]

/-- **A merged node is the mean of its nodes.** -/
theorem isMeanOf_of_mem {totalChunkCounts : String → Option ℕ}
    {graphs : List (String × AclVisibleGraph)}
    (h : n ∈ mergedNodes totalChunkCounts graphs) :
    IsMeanOf ((nodeEntries totalChunkCounts graphs).filter fun entry =>
      entry.node.id = n.entityId) n := by
  rw [mergedNodes_eq] at h
  exact combineAll_invariant (P := IsMeanOf) entityId_combineNode isMeanOf_singleton
    (fun _ _ entry h => h.combineNode entry) h

theorem IsMeanOf.congr {entries' : List NodeEntry} {n' : GraphNodeInspection}
    (h : IsMeanOf entries n) (h' : IsMeanOf entries' n') (hp : entries.Perm entries') :
    n.chunkCount = n'.chunkCount ∧ n.salience = n'.salience := by
  have hchs : chunkSum entries = chunkSum entries' := (hp.map _).sum_eq
  have hsum : salienceSum entries = salienceSum entries' := (hp.map _).sum_eq
  rw [h.1, h.2, h'.1, h'.2, meanSalience, meanSalience, hchs, hsum]
  exact ⟨rfl, rfl⟩

end Means

/-! ### Unions -/

section Unions

def allCooccurChunks (entries : List EdgeEntry) : Finset String :=
  entries.foldr (fun entry chunks => entry.cooccurChunks ∪ chunks) ∅

/-- The merged edge has the weights of the edges, and the first of their chunks in order. Its ends
and its type are those of the last one. -/
structure IsUnionOf (entries : List EdgeEntry) (e : GraphEdgeInspection) : Prop where
  weight : e.weight = (entries.map fun entry => entry.cooccurChunks.card).sum
  sourceChunkIds : e.sourceChunkIds = least maxSourceChunkIds (allCooccurChunks entries)
  last : ∃ entry ∈ entries, e.sourceEntityId = entry.edge.sourceNodeId ∧
    e.targetEntityId = entry.edge.targetNodeId ∧ e.relationshipType = entry.edge.relationshipType

variable {entries entries' : List EdgeEntry}

theorem mem_allCooccurChunks {chunk : String} :
    chunk ∈ allCooccurChunks entries ↔ ∃ entry ∈ entries, chunk ∈ entry.cooccurChunks := by
  induction entries with
  | nil => simp [allCooccurChunks]
  | cons entry entries ih =>
    rw [allCooccurChunks, foldr_cons, Finset.mem_union, ← allCooccurChunks, ih]
    simp

theorem allCooccurChunks_congr (h : entries.Perm entries') :
    allCooccurChunks entries = allCooccurChunks entries' := by
  ext chunk
  simp only [mem_allCooccurChunks, h.mem_iff]

theorem allCooccurChunks_append (entry : EdgeEntry) :
    allCooccurChunks (entries ++ [entry]) = allCooccurChunks entries ∪ entry.cooccurChunks := by
  ext chunk
  simp [mem_allCooccurChunks, or_and_right, exists_or]

theorem isUnionOf_singleton (entry : EdgeEntry) : IsUnionOf [entry] (combineEdge none entry) := by
  refine ⟨by simp [combineEdge], ?_, entry, mem_singleton.mpr rfl, rfl, rfl, rfl⟩
  simp [combineEdge, allCooccurChunks]

variable {e : GraphEdgeInspection}

theorem IsUnionOf.combineEdge (h : IsUnionOf entries e)
    (entry : EdgeEntry) : IsUnionOf (entries ++ [entry]) (combineEdge (some e) entry) := by
  refine ⟨by simp [Inspect.combineEdge, h.weight], ?_, entry, by simp, rfl, rfl, rfl⟩
  simp only [Inspect.combineEdge]
  rw [h.sourceChunkIds, least_union_least, allCooccurChunks_append]

/-- **A merged edge is the union of its edges.** -/
theorem isUnionOf_of_mem {graphs : List (String × AclVisibleGraph)}
    (h : e ∈ mergedEdges graphs) :
    IsUnionOf ((edgeEntries graphs).filter fun entry => entry.edge.id = e.edgeId) e := by
  rw [mergedEdges_eq] at h
  exact combineAll_invariant (P := IsUnionOf) edgeId_combineEdge isUnionOf_singleton
    (fun _ _ entry h => h.combineEdge entry) h

end Unions

/-! ### The order of the collections -/

section Order

variable {totalChunkCounts : String → Option ℕ} {graphs graphs' : List (String × AclVisibleGraph)}
  {log : ℚ → ℚ} {mode : SalienceMode} {entityPresence : Option (String → Option ℤ)}
  {numCollections : ℤ} {maxNodes maxEdges : ℕ}

/-- Edges with one id have the same ends and the same type: the id is made of them by
`make_stable_edge_id`. -/
def EdgesAgree (graphs : List (String × AclVisibleGraph)) : Prop :=
  ∀ entry ∈ edgeEntries graphs, ∀ entry' ∈ edgeEntries graphs, entry.edge.id = entry'.edge.id →
    entry.edge.sourceNodeId = entry'.edge.sourceNodeId ∧
    entry.edge.targetNodeId = entry'.edge.targetNodeId ∧
    entry.edge.relationshipType = entry'.edge.relationshipType

/-- What the order of the collections does not change of a node: its id, its chunks and its
salience. -/
def GraphNodeInspection.shown (n : GraphNodeInspection) : String × ℕ × ℚ :=
  (n.entityId, n.chunkCount, n.salience)

theorem nodeEntries_perm (h : graphs.Perm graphs') :
    (nodeEntries totalChunkCounts graphs).Perm (nodeEntries totalChunkCounts graphs') :=
  h.flatMap_right _

theorem edgeEntries_perm (h : graphs.Perm graphs') :
    (edgeEntries graphs).Perm (edgeEntries graphs') :=
  h.flatMap_right _

theorem exists_mergedNode (h : graphs.Perm graphs') {n : GraphNodeInspection}
    (hn : n ∈ mergedNodes totalChunkCounts graphs) :
    ∃ n' ∈ mergedNodes totalChunkCounts graphs', n'.shown = n.shown := by
  have hk := mem_map_of_mem (f := entityId) (Keyed.mem_def.mp hn)
  rw [mergedNodes_eq, mem_keys_combineAll entityId_combineNode] at hk
  obtain ⟨entry, hent, hid⟩ := hk
  have hk' : n.entityId ∈ (mergedNodes totalChunkCounts graphs').items.map
      entityId := by
    rw [mergedNodes_eq, mem_keys_combineAll entityId_combineNode]
    exact ⟨entry, (nodeEntries_perm h).mem_iff.mp hent, hid⟩
  obtain ⟨n', hn', hid'⟩ := mem_map.mp hk'
  have hmean := isMeanOf_of_mem (Keyed.mem_def.mpr hn')
  rw [hid'] at hmean
  obtain ⟨hcnt, hsal⟩ :=
    hmean.congr (isMeanOf_of_mem hn) ((nodeEntries_perm h.symm).filter _)
  refine ⟨n', hn', ?_⟩
  rw [shown, shown, hid', hcnt, hsal]

variable (totalChunkCounts) in
/-- **The merged nodes are the same in another order.** -/
theorem map_shown_mergedNodes_perm (h : graphs.Perm graphs') :
    ((mergedNodes totalChunkCounts graphs).items.map shown).Perm
      ((mergedNodes totalChunkCounts graphs').items.map shown) := by
  have hnd (graphs : List (String × AclVisibleGraph)) :
      ((mergedNodes totalChunkCounts graphs).items.map shown).Nodup := by
    refine List.Nodup.of_map Prod.fst ?_
    rw [map_map]
    exact (mergedNodes totalChunkCounts graphs).nodup
  have hm {graphs graphs' : List (String × AclVisibleGraph)} (h : graphs.Perm graphs')
      {s : String × ℕ × ℚ}
      (hs : s ∈ (mergedNodes totalChunkCounts graphs).items.map shown) :
      s ∈ (mergedNodes totalChunkCounts graphs').items.map shown := by
    obtain ⟨n, hn, rfl⟩ := mem_map.mp hs
    obtain ⟨n', hn', hsh⟩ := exists_mergedNode h (Keyed.mem_def.mpr hn)
    exact mem_map.mpr ⟨n', hn', hsh⟩
  exact (perm_ext_iff_of_nodup (hnd _) (hnd _)).mpr fun s => ⟨hm h, hm h.symm⟩

theorem mem_mergedEdges_of_perm (h : graphs.Perm graphs') (hagr : EdgesAgree graphs)
    {e : GraphEdgeInspection} (he : e ∈ mergedEdges graphs) : e ∈ mergedEdges graphs' := by
  have hunion := isUnionOf_of_mem he
  obtain ⟨entry, hent, hsrc, htgt, htype⟩ := hunion.last
  obtain ⟨hent, hid⟩ := mem_filter.mp hent
  have hid := of_decide_eq_true hid
  have hk : e.edgeId ∈ (mergedEdges graphs').items.map GraphEdgeInspection.edgeId := by
    rw [mergedEdges_eq, mem_keys_combineAll edgeId_combineEdge]
    exact ⟨entry, (edgeEntries_perm h).mem_iff.mp hent, hid⟩
  obtain ⟨e', he', hid'⟩ := mem_map.mp hk
  have hunion' := isUnionOf_of_mem (Keyed.mem_def.mpr he')
  obtain ⟨entry', hent', hsrc', htgt', htype'⟩ := hunion'.last
  obtain ⟨hent', hid''⟩ := mem_filter.mp hent'
  obtain ⟨hs, ht, hr⟩ := hagr entry hent entry' ((edgeEntries_perm h).mem_iff.mpr hent')
    (hid.trans (hid'.symm.trans (of_decide_eq_true hid'').symm))
  have hgroup := (edgeEntries_perm h).filter fun entry => decide (entry.edge.id = e.edgeId)
  have hweig := hunion'.weight
  have hchs := hunion'.sourceChunkIds
  rw [hid'] at hweig hchs
  have heq : e = e' := by
    rcases e with ⟨id, source, target, weight, chunks, type⟩
    rcases e' with ⟨id', source', target', weight', chunks', type'⟩
    simp only at hid' hsrc htgt htype hsrc' htgt' htype' hweig hchs
    rw [hid', hsrc, htgt, htype, hsrc', htgt', htype', hs, ht, hr, hweig, hchs,
      ← allCooccurChunks_congr hgroup, ← hunion.sourceChunkIds, ← (hgroup.map _).sum_eq,
      ← hunion.weight]
  exact heq ▸ Keyed.mem_def.mpr he'

theorem EdgesAgree.perm (h : EdgesAgree graphs) (hp : graphs.Perm graphs') :
    EdgesAgree graphs' := by
  intro entry hent entry' hent'
  exact h entry ((edgeEntries_perm hp).mem_iff.mpr hent) entry'
    ((edgeEntries_perm hp).mem_iff.mpr hent')

/-- **The merged edges are the same in another order.** -/
theorem mergedEdges_perm (h : graphs.Perm graphs') (hagr : EdgesAgree graphs) :
    (mergedEdges graphs).items.Perm (mergedEdges graphs').items := by
  refine (perm_ext_iff_of_nodup ?_ ?_).mpr fun e => ⟨?_, ?_⟩
  · exact List.Nodup.of_map _ (mergedEdges graphs).nodup
  · exact List.Nodup.of_map _ (mergedEdges graphs').nodup
  · exact fun he => mem_mergedEdges_of_perm h hagr he
  · exact fun he => mem_mergedEdges_of_perm h.symm (hagr.perm h) he

/-! ### The cut -/

def shownSortKey (mode : SalienceMode) (s : String × ℕ × ℚ) : Bool ×ₗ ℚ ×ₗ String :=
  match mode with
  | .frequency => toLex (false, toLex (-(s.2.1 : ℚ), s.1))
  | _ => toLex (false, toLex (-s.2.2, s.1))

theorem nodeSortKey_eq_shownSortKey (hmd : mode ≠ .importance) (n : GraphNodeInspection) :
    nodeSortKey mode n = shownSortKey mode n.shown := by
  cases mode with
  | importance => exact absurd rfl hmd
  | frequency => rfl
  | tfidf => rfl

theorem map_fst_shown (nodes : List GraphNodeInspection) :
    (nodes.map shown).map Prod.fst = nodes.map entityId :=
  map_map

def inverseFrequency (log : ℚ → ℚ) (entityPresence : String → Option ℤ) (numCollections : ℤ)
    (id : String) : ℚ :=
  let rawIdf := log ((numCollections + 1) / (max ((entityPresence id).getD 1) 1 : ℤ))
  if rawIdf < 0 then 0 else rawIdf

theorem map_shown_applyTfidf (entityPresence : String → Option ℤ)
    (nodes : List GraphNodeInspection) :
    (applyTfidf log nodes entityPresence numCollections).map shown =
      (nodes.map shown).map fun s =>
        (s.1, s.2.1, s.2.2 * inverseFrequency log entityPresence numCollections s.1) := by
  rw [applyTfidf, map_map, map_map]
  exact map_congr_left fun n _ => rfl

variable (log mode entityPresence numCollections) in
theorem map_shown_scored_perm {nodes nodes' : List GraphNodeInspection}
    (h : (nodes.map shown).Perm (nodes'.map shown)) :
    ((scored log nodes mode entityPresence numCollections).map shown).Perm
      ((scored log nodes' mode entityPresence numCollections).map shown) := by
  unfold scored
  split
  · rw [map_shown_applyTfidf, map_shown_applyTfidf]
    exact h.map _
  · exact h

/-- Scoring leaves a node its id and its chunks, and in the mode `frequency` its salience. -/
theorem exists_of_mem_scored {nodes : List GraphNodeInspection} {n : GraphNodeInspection}
    (h : n ∈ scored log nodes mode entityPresence numCollections) :
    ∃ m ∈ nodes, n.entityId = m.entityId ∧ n.chunkCount = m.chunkCount ∧
      (mode = .frequency → n.salience = m.salience) := by
  unfold scored at h
  split at h
  · obtain ⟨m, hm, rfl⟩ := mem_map.mp h
    exact ⟨m, hm, rfl, rfl, nofun⟩
  · exact ⟨n, h, rfl, rfl, fun _ => rfl⟩

theorem map_shown_sortBy {nodes nodes' : List GraphNodeInspection} (hmd : mode ≠ .importance)
    (hnd : (nodes.map entityId).Nodup)
    (h : (nodes.map shown).Perm (nodes'.map shown)) :
    (sortBy (nodeSortKey mode) nodes).map shown = (sortBy (nodeSortKey mode) nodes').map shown := by
  have hmap (nodes : List GraphNodeInspection) :
      (sortBy (nodeSortKey mode) nodes).map shown =
        sortBy (shownSortKey mode) (nodes.map shown) := by
    refine map_insertionSort _ _ _ _ fun n _ m _ => ?_
    rw [nodeSortKey_eq_shownSortKey hmd, nodeSortKey_eq_shownSortKey hmd]
  have hks : ((nodes.map shown).map (shownSortKey mode)).Nodup := by
    rw [map_map]
    have heq : (nodes.map (nodeSortKey mode)).Nodup := nodup_nodeSortKey hnd
    exact map_congr_left (fun n _ => nodeSortKey_eq_shownSortKey hmd n) ▸ heq
  rw [hmap, hmap, sortBy_eq_of_perm hks h]

variable {nodes nodes' : List GraphNodeInspection} {edges edges' : List GraphEdgeInspection}

/-- The ends of synonym edges are the same in another order. -/
theorem contains_synonymEndpointIds (nodeIds : List String) (h : edges.Perm edges') (id : String) :
    (synonymEndpointIds nodeIds edges).contains id =
      (synonymEndpointIds nodeIds edges').contains id := by
  rw [Bool.eq_iff_iff, contains_iff_mem, contains_iff_mem, mem_synonymEndpointIds,
    mem_synonymEndpointIds]
  simp only [h.mem_iff]

theorem joins_congr (h : nodes.map entityId =
    nodes'.map entityId) : joins nodes = joins nodes' := by
  funext e
  rw [joins, joins, h]

/-- The nodes that a cut leaves are those that it takes of the sorted ones. -/
theorem map_shown_truncateGraph_nodes :
    (truncateGraph nodes edges maxNodes maxEdges mode).nodes.map shown =
      ((sortBy (nodeSortKey mode) nodes).map shown).take maxNodes ++
        (((sortBy (nodeSortKey mode) nodes).map shown).drop maxNodes).filter
          fun s => (synonymEndpointIds (((sortBy (nodeSortKey mode) nodes).map
            shown).map Prod.fst) edges).contains s.1 := by
  rw [map_fst_shown, ← map_take, ← map_drop, filter_map, ← map_append]
  rfl

variable (maxNodes maxEdges) in
/-- **A cut leaves the same nodes and edges of them in another order.** -/
theorem truncateGraph_perm (hmd : mode ≠ .importance)
    (hnds : (nodes.map entityId).Nodup)
    (hes : (edges.map GraphEdgeInspection.edgeId).Nodup)
    (hn : (nodes.map shown).Perm (nodes'.map shown))
    (he : edges.Perm edges') :
    (truncateGraph nodes edges maxNodes maxEdges mode).nodes.map shown =
        (truncateGraph nodes' edges' maxNodes maxEdges mode).nodes.map
          shown ∧
      (truncateGraph nodes edges maxNodes maxEdges mode).edges.Perm
        (truncateGraph nodes' edges' maxNodes maxEdges mode).edges ∧
      (truncateGraph nodes edges maxNodes maxEdges mode).truncated =
        (truncateGraph nodes' edges' maxNodes maxEdges mode).truncated := by
  have hsh : (truncateGraph nodes edges maxNodes maxEdges mode).nodes.map
      shown = (truncateGraph nodes' edges' maxNodes maxEdges mode).nodes.map
        shown := by
    rw [map_shown_truncateGraph_nodes, map_shown_truncateGraph_nodes, map_shown_sortBy hmd hnds hn]
    simp only [contains_synonymEndpointIds _ he]
  have hjoins := joins_congr ((map_fst_shown _).symm.trans
    ((congrArg (List.map Prod.fst) hsh).trans (map_fst_shown _)))
  have hks : ((edges.filter fun e => !e.isSynonym &&
      joins (truncateGraph nodes edges maxNodes maxEdges mode).nodes e).map edgeSortKey).Nodup := by
    refine List.Nodup.of_map (fun k => (ofLex (ofLex k).2).2) ?_
    rw [map_map]
    exact hes.sublist (filter_sublist.map GraphEdgeInspection.edgeId)
  refine ⟨hsh, ?_, ?_⟩
  · rw [truncateGraph_edges, truncateGraph_edges, hjoins,
      sortBy_eq_of_perm (hjoins ▸ hks) (he.filter _)]
    exact (he.filter _).append_left _
  · have hnds' : (nodes'.map entityId).Nodup := by
      rw [← map_fst_shown] at hnds ⊢
      exact (hn.map Prod.fst).nodup_iff.mp hnds
    have hlen : nodes.length = nodes'.length := by simpa using hn.length_eq
    rw [Bool.eq_iff_iff, (truncates_truncateGraph hnds).truncated_iff,
      (truncates_truncateGraph hnds').truncated_iff, hjoins, hlen, (he.filter _).length_eq]

/-- **Two views show the same**: the same nodes with their chunks and saliences, in the same order,
the same edges, and the same counts. -/
structure SameView (v v' : CrossCollectionGraphView) : Prop where
  nodes : v.nodes.map shown = v'.nodes.map shown
  edges : v.edges.Perm v'.edges
  nodeCount : v.nodeCount = v'.nodeCount
  edgeCount : v.edgeCount = v'.edgeCount
  truncated : v.truncated = v'.truncated

/-- **The order of the collections is not seen**: in any other order `inspect_cross_collection`
shows the same. Each node has the chunks of all its nodes, and in the mode `frequency` the mean of
their saliences; each edge has the first of all chunks that support it. -/
theorem inspectCrossCollection_perm (hmode : mode ≠ .importance) (hagree : EdgesAgree graphs)
    (hperm : graphs.Perm graphs') {v : CrossCollectionGraphView}
    (h : inspectCrossCollection log graphs totalChunkCounts maxNodes maxEdges mode entityPresence
      numCollections = .ok v) :
    (∃ v', inspectCrossCollection log graphs' totalChunkCounts maxNodes maxEdges mode entityPresence
        numCollections = .ok v' ∧ SameView v v') ∧
      (∀ n ∈ v.nodes, let entries := (nodeEntries totalChunkCounts graphs).filter fun entry =>
          entry.node.id = n.entityId
        n.chunkCount = chunkSum entries ∧ (mode = .frequency → n.salience = meanSalience entries)) ∧
      ∀ e ∈ v.edges, IsUnionOf ((edgeEntries graphs).filter fun entry =>
        entry.edge.id = e.edgeId) e := by
  unfold inspectCrossCollection at h ⊢
  rcases hcheck : checkTfidf mode entityPresence numCollections with message | checked
  · rw [hcheck] at h
    cases h
  rw [hcheck] at h
  cases h
  have hids := (mergedNodes totalChunkCounts graphs).nodup
  rw [← map_entityId_scored log mode entityPresence numCollections] at hids
  have hmer := map_shown_mergedNodes_perm totalChunkCounts hperm
  have hes := mergedEdges_perm hperm hagree
  obtain ⟨hn, he, ht⟩ := truncateGraph_perm maxNodes maxEdges hmode hids
    (mergedEdges graphs).nodup (map_shown_scored_perm log mode entityPresence numCollections
      hmer) hes
  refine ⟨⟨_, rfl, hn, he, ?_, hes.length_eq, ?_⟩, fun n hsh => ?_, fun e hsh => ?_⟩
  · simpa using hmer.length_eq
  · exact congrArg₂ or ht hperm.any_eq
  · have hcut : n ∈ (truncateGraph _ _ maxNodes maxEdges mode).nodes := hsh
    have hsort := (sortBy_perm _ _).mem_iff.mp (truncateGraph_nodes_sublist.subset hcut)
    obtain ⟨m, hm, hid, hcnt, hsal⟩ := exists_of_mem_scored hsort
    obtain ⟨hsum, hmean⟩ := isMeanOf_of_mem (Keyed.mem_def.mpr hm)
    rw [hid]
    exact ⟨hcnt.trans hsum, fun hfreq => (hsal hfreq).trans hmean⟩
  · refine isUnionOf_of_mem (Keyed.mem_def.mpr ?_)
    rw [truncateGraph_edges] at hsh
    rcases mem_append.mp hsh with hsh | hsh
    · have hsort := (sortBy_perm _ _).mem_iff.mp (mem_of_mem_take hsh)
      exact mem_of_mem_filter hsort
    · exact mem_of_mem_filter hsh

/-- Two entities, one of them in two chunks and the other one in the first of these. -/
def chunksGraph (chunk : String) : AclVisibleGraph where
  nodes := [⟨"a", "Alpha", "concept", none⟩, ⟨"b", "Beta", "concept", none⟩]
  edges := [⟨"ab", "a", "b", "related_to"⟩]
  entityChunks := fun id => if id = "a" then {chunk, "both"} else {chunk}
  mentionsCeilingHit := false

def twoCollections : List (String × AclVisibleGraph) :=
  [("x", chunksGraph "1"), ("y", chunksGraph "2")]

/-- In either order the entities have the chunks of both collections, and so has their edge. -/
theorem inspectCrossCollection_perm_chunksGraph :
    ∃ v v', inspectCrossCollection id twoCollections (fun _ => some 4) 2 10 .frequency none 1 =
        .ok v ∧
      inspectCrossCollection id twoCollections.reverse (fun _ => some 4) 2 10 .frequency none 1 =
        .ok v' ∧ SameView v v' ∧
      v'.nodes.map (fun n => (n.entityId, n.chunkCount)) = [("a", 4), ("b", 2)] ∧
      v.edges.map GraphEdgeInspection.edgeId = ["ab"] ∧
      ∀ e ∈ v.edges, e.weight = 2 ∧ e.sourceChunkIds = ["1", "2"] := by
  have hagr : EdgesAgree twoCollections := by
    simp [EdgesAgree, edgeEntries, twoCollections, chunksGraph]
  obtain ⟨v, hv, hids⟩ : ∃ v, inspectCrossCollection id twoCollections (fun _ => some 4) 2 10
      .frequency none 1 = .ok v ∧ v.edges.map GraphEdgeInspection.edgeId = ["ab"] :=
    ⟨_, rfl, by decide +kernel⟩
  obtain ⟨⟨v', hv', heq⟩, -, hunion⟩ :=
    inspectCrossCollection_perm (by decide) hagr (reverse_perm _).symm hv
  refine ⟨v, v', hv, hv', heq, ?_, hids, fun e he => ?_⟩
  · cases hv'
    decide +kernel
  · have hid : e.edgeId = "ab" := mem_singleton.mp (hids ▸ mem_map_of_mem he)
    obtain ⟨hweight, hchunks, -⟩ := hunion e he
    rw [hid] at hweight hchunks
    have hall : allCooccurChunks ((edgeEntries twoCollections).filter fun entry =>
        entry.edge.id = "ab") = ["1", "2"].toFinset := by decide +kernel
    rw [hall, least, (toFinset_sort (· ≤ ·) (by decide)).mpr (by decide)] at hchunks
    exact ⟨hweight.trans (by decide +kernel), hchunks⟩

end Order

end ArchonSearch.Graph.Inspect
