import Mathlib.Data.Finset.Sort
import Mathlib.Data.Prod.Lex
import Mathlib.Data.String.Basic
import Mathlib.Algebra.Order.Field.Rat
import ArchonSearch.Lib.Cut
import ArchonSearch.Lib.Keyed

/-!
# The graph as it is shown

`inspect_collection` and `inspect_cross_collection` show the nodes and edges of one collection, or
of several merged ones, cut to `max_nodes` and `max_edges`. `_truncate_graph` cuts: of the nodes
the best ones stay, and the ends of synonym edges; of the edges those between nodes that stay, the
best ones and all synonym edges (`truncates_truncateGraph`).

A view counts its nodes before the cut, and its edges behind the cut of the nodes and before their
own. So does `inspect_collection` (`isConsistent_inspectCollection`). But
`inspect_cross_collection` counts all merged edges. That is the same exactly if each of them has
both ends among the nodes that stay (`isConsistent_inspectCrossCollection_iff`): an edge to a node
that was cut off is counted, and so is one to a node that does not exist, where nothing was cut at
all.

Floating-point numbers are rationals here, and the logarithm is a parameter.
-/

namespace ArchonSearch.Graph.Inspect

open Lib List

/-! ### What is read -/

/-- `GraphNode`, as far as it is shown. -/
structure GraphNode where
  (id entityName : String)
  /-- `entity_type.value`. -/
  entityType : String
  pagerankScore : Option ℚ

/-- `GraphEdge`, as far as it is shown. -/
structure GraphEdge where
  (id sourceNodeId targetNodeId : String)
  /-- `relationship_type.value`. -/
  relationshipType : String

/-- `_AclVisibleGraph`. -/
structure AclVisibleGraph where
  nodes : List GraphNode
  edges : List GraphEdge
  /-- `entity_chunks`: the visible chunks in which an entity is mentioned. -/
  entityChunks : String → Finset String
  mentionsCeilingHit : Bool

/-! ### What is shown -/

/-- `GraphNodeInspection`. -/
structure GraphNodeInspection where
  (entityId entityName : String)
  chunkCount : ℕ
  salience : ℚ
  entityType : String
  pagerankScore : Option ℚ

open GraphNodeInspection

/-- `GraphEdgeInspection`. -/
structure GraphEdgeInspection where
  (edgeId sourceEntityId targetEntityId : String)
  weight : ℕ
  sourceChunkIds : List String
  relationshipType : String

/-- `salience_mode`. -/
inductive SalienceMode where
  | frequency
  | tfidf
  | importance
  deriving DecidableEq

/-- `CollectionGraphView`. -/
structure CollectionGraphView where
  nodes : List GraphNodeInspection
  edges : List GraphEdgeInspection
  (nodeCount edgeCount : ℕ)
  truncated : Bool
  salienceMode : SalienceMode

/-- `CrossCollectionGraphView`. -/
structure CrossCollectionGraphView extends CollectionGraphView where
  collections : List String

/-! ### Cutting a graph -/

/-- `_node_sort_key`. The keys that have no flag have `False` for it. -/
def nodeSortKey (mode : SalienceMode) (n : GraphNodeInspection) : Bool ×ₗ ℚ ×ₗ String :=
  match mode with
  | .importance =>
    toLex (n.pagerankScore.isNone, toLex (-n.pagerankScore.getD 0, n.entityId))
  | .tfidf => toLex (false, toLex (-n.salience, n.entityId))
  | .frequency => toLex (false, toLex (-(n.chunkCount : ℚ), n.entityId))

/-- `_edge_sort_key`. -/
def edgeSortKey (e : GraphEdgeInspection) : ℤ ×ₗ Bool ×ₗ String :=
  toLex (-(e.weight : ℤ), toLex (e.relationshipType == "related_to", e.edgeId))

/-- `e.relationship_type == RelationshipType.synonym_of.value`. -/
def GraphEdgeInspection.isSynonym (e : GraphEdgeInspection) : Bool :=
  e.relationshipType == "synonym_of"

def joins (nodes : List GraphNodeInspection) (e : GraphEdgeInspection) : Bool :=
  let ids := nodes.map entityId
  ids.contains e.sourceEntityId && ids.contains e.targetEntityId

/-- What `_truncate_graph` returns. -/
structure Truncation where
  /-- `nodes_out`. -/
  nodes : List GraphNodeInspection
  /-- `edges_out`. -/
  edges : List GraphEdgeInspection
  truncated : Bool

/-- `synonym_endpoint_ids`: the ends of synonym edges that are nodes. -/
def synonymEndpointIds (nodeIds : List String) (edges : List GraphEdgeInspection) : List String :=
  ((edges.filter fun e => e.isSynonym).flatMap fun e =>
    [e.sourceEntityId, e.targetEntityId]).filter fun id => nodeIds.contains id

/-- `_truncate_graph`. -/
def truncateGraph (nodes : List GraphNodeInspection) (edges : List GraphEdgeInspection)
    (maxNodes maxEdges : ℕ) (mode : SalienceMode) : Truncation :=
  let sortedNodes := sortBy (nodeSortKey mode) nodes
  let nodeIds := sortedNodes.map entityId
  let synonymEdges := edges.filter fun e => e.isSynonym
  let nonSynonymEdges := edges.filter fun e => !e.isSynonym
  let nodesOut := sortedNodes.take maxNodes ++ (sortedNodes.drop maxNodes).filter fun n =>
    (synonymEndpointIds nodeIds edges).contains n.entityId
  let sortedNonSynonym := sortBy edgeSortKey (nonSynonymEdges.filter (joins nodesOut))
  let survivingSynonym := synonymEdges.filter (joins nodesOut)
  { nodes := nodesOut
    edges := sortedNonSynonym.take maxEdges ++ survivingSynonym
    truncated := decide (maxNodes < sortedNodes.length) ||
      decide (maxEdges < sortedNonSynonym.length) }

/-! ### What a collection shows -/

/-- `_MAX_SOURCE_CHUNK_IDS`. -/
def maxSourceChunkIds : ℕ := 20

/-- `min(chunk_count / total_chunk_count, 1.0)`. -/
def frequencySalience (chunkCount totalChunkCount : ℕ) : ℚ :=
  if 0 < totalChunkCount then min (chunkCount / totalChunkCount) 1 else 0

/-- `_apply_tfidf`. -/
def applyTfidf (log : ℚ → ℚ) (nodes : List GraphNodeInspection)
    (entityPresence : String → Option ℤ) (numCollections : ℤ) : List GraphNodeInspection :=
  nodes.map fun n =>
    let df := max ((entityPresence n.entityId).getD 1) 1
    let rawIdf := log ((numCollections + 1) / df)
    let idf := if rawIdf < 0 then 0 else rawIdf
    { n with salience := n.salience * idf }

def baseSalience (mode : SalienceMode) (chunkCount totalChunkCount : ℕ) : ℚ :=
  match mode with
  | .tfidf => if totalChunkCount = 0 then 0 else chunkCount / totalChunkCount
  | _ => frequencySalience chunkCount totalChunkCount

def nodeInspections (graph : AclVisibleGraph) (totalChunkCount : ℕ) (mode : SalienceMode) :
    List GraphNodeInspection :=
  graph.nodes.map fun node =>
    let chunkCount := (graph.entityChunks node.id).card
    { entityId := node.id
      entityName := node.entityName
      chunkCount := chunkCount
      salience := baseSalience mode chunkCount totalChunkCount
      entityType := node.entityType
      pagerankScore := node.pagerankScore }

def edgeInspection (graph : AclVisibleGraph) (edge : GraphEdge) : GraphEdgeInspection :=
  let cooccurChunks := graph.entityChunks edge.sourceNodeId ∩ graph.entityChunks edge.targetNodeId
  { edgeId := edge.id
    sourceEntityId := edge.sourceNodeId
    targetEntityId := edge.targetNodeId
    weight := cooccurChunks.card
    sourceChunkIds := (cooccurChunks.sort (· ≤ ·)).take maxSourceChunkIds
    relationshipType := edge.relationshipType }

def checkTfidf (mode : SalienceMode) (entityPresence : Option (String → Option ℤ))
    (numCollections : ℤ) : Except String Unit :=
  if mode = .tfidf ∧ entityPresence.isNone then .error "entity_presence required for tfidf mode"
  else if mode = .tfidf ∧ numCollections < 1 then
    .error "num_collections must be >= 1 in tfidf mode"
  else .ok ()

def scored (log : ℚ → ℚ) (nodes : List GraphNodeInspection) (mode : SalienceMode)
    (entityPresence : Option (String → Option ℤ)) (numCollections : ℤ) :
    List GraphNodeInspection :=
  match mode, entityPresence with
  | .tfidf, some presence => applyTfidf log nodes presence numCollections
  | _, _ => nodes

/-- `inspect_collection`, of the visible graph of the collection. -/
def inspectCollection (log : ℚ → ℚ) (graph : AclVisibleGraph)
    (totalChunkCount maxNodes maxEdges : ℕ) (mode : SalienceMode)
    (entityPresence : Option (String → Option ℤ)) (numCollections : ℤ) :
    Except String CollectionGraphView := do
  checkTfidf mode entityPresence numCollections
  let nodes := scored log (nodeInspections graph totalChunkCount mode) mode entityPresence
    numCollections
  let edges := graph.edges.map (edgeInspection graph)
  let t := truncateGraph nodes edges maxNodes maxEdges mode
  let edgesPostNodeFilter := edges.filter (joins t.nodes)
  return {
    nodes := t.nodes
    edges := t.edges
    nodeCount := nodes.length
    edgeCount := edgesPostNodeFilter.length
    truncated := t.truncated || graph.mentionsCeilingHit
    salienceMode := mode }

/-! ### What several collections show -/

/-- `merged_nodes`. -/
abbrev MergedNodes : Type := Keyed entityId

/-- `merged_edges`. -/
abbrev MergedEdges : Type := Keyed GraphEdgeInspection.edgeId

def mergeNode (graph : AclVisibleGraph) (totalChunkCount : ℕ) (merged : MergedNodes)
    (node : GraphNode) : MergedNodes :=
  let chunkCount := (graph.entityChunks node.id).card
  let salience := frequencySalience chunkCount totalChunkCount
  match merged.get? node.id with
  | some existing =>
    let mergedChunkCount := existing.chunkCount + chunkCount
    let mergedSalience := (existing.chunkCount * existing.salience + chunkCount * salience) /
      (max mergedChunkCount 1 : ℕ)
    merged.insert
      { entityId := node.id
        entityName := node.entityName
        chunkCount := mergedChunkCount
        salience := min mergedSalience 1
        entityType := node.entityType
        pagerankScore := existing.pagerankScore.or node.pagerankScore }
  | none =>
    merged.insert
      { entityId := node.id
        entityName := node.entityName
        chunkCount := chunkCount
        salience := salience
        entityType := node.entityType
        pagerankScore := node.pagerankScore }

def mergeEdge (graph : AclVisibleGraph) (merged : MergedEdges) (edge : GraphEdge) : MergedEdges :=
  let found := edgeInspection graph edge
  match merged.get? edge.id with
  | some existing =>
    let mergedChunkIds := existing.sourceChunkIds.toFinset ∪ found.sourceChunkIds.toFinset
    merged.insert
      { found with
        weight := existing.weight + found.weight
        sourceChunkIds := (mergedChunkIds.sort (· ≤ ·)).take maxSourceChunkIds }
  | none => merged.insert found

def mergedNodes (totalChunkCounts : String → Option ℕ) (graphs : List (String × AclVisibleGraph)) :
    MergedNodes :=
  graphs.foldl (fun merged entry =>
    entry.2.nodes.foldl (mergeNode entry.2 ((totalChunkCounts entry.1).getD 0)) merged) Keyed.empty

def mergedEdges (graphs : List (String × AclVisibleGraph)) : MergedEdges :=
  graphs.foldl (fun merged entry => entry.2.edges.foldl (mergeEdge entry.2) merged) Keyed.empty

/-- `inspect_cross_collection`, of the names of the collections and their visible graphs. -/
def inspectCrossCollection (log : ℚ → ℚ) (graphs : List (String × AclVisibleGraph))
    (totalChunkCounts : String → Option ℕ) (maxNodes maxEdges : ℕ) (mode : SalienceMode)
    (entityPresence : Option (String → Option ℤ)) (numCollections : ℤ) :
    Except String CrossCollectionGraphView := do
  checkTfidf mode entityPresence numCollections
  let mergedNodesList := scored log (mergedNodes totalChunkCounts graphs).items mode entityPresence
    numCollections
  let mergedEdgesList := (mergedEdges graphs).items
  let t := truncateGraph mergedNodesList mergedEdgesList maxNodes maxEdges mode
  return {
    collections := graphs.map Prod.fst
    nodes := t.nodes
    edges := t.edges
    nodeCount := (mergedNodes totalChunkCounts graphs).items.length
    -- the edges between other nodes are counted too
    edgeCount := mergedEdgesList.length
    truncated := t.truncated || graphs.any fun entry => entry.2.mentionsCeilingHit
    salienceMode := mode }

/-! ### Which nodes and edges stay -/

section Truncation

variable (nodes : List GraphNodeInspection) (edges : List GraphEdgeInspection)
  (maxNodes maxEdges : ℕ) (mode : SalienceMode)

/-- **A node stays** if it is one of the `maxNodes` best ones, which fewer nodes precede, or a
synonym edge ends at it. -/
def Stays (n : GraphNodeInspection) : Prop :=
  (nodes.filter fun m => nodeSortKey mode m < nodeSortKey mode n).length < maxNodes ∨
    ∃ e ∈ edges, e.isSynonym = true ∧ (n.entityId = e.sourceEntityId ∨
      n.entityId = e.targetEntityId)

instance (n : GraphNodeInspection) : Decidable (Stays nodes edges maxNodes mode n) :=
  inferInstanceAs (Decidable (_ ∨ _))

/-- A node of this id is not cut off. -/
def StaysWithId (id : String) : Prop :=
  ∃ n ∈ nodes, n.entityId = id ∧ Stays nodes edges maxNodes mode n

instance (id : String) : Decidable (StaysWithId nodes edges maxNodes mode id) :=
  inferInstanceAs (Decidable (∃ _ ∈ _, _))

/-- **The cut is the one that was asked for.** -/
structure Truncates (t : Truncation) : Prop where
  mem_nodes : ∀ n, n ∈ t.nodes ↔ n ∈ nodes ∧ Stays nodes edges maxNodes mode n
  nodup : (t.nodes.map entityId).Nodup
  joins_of_mem : ∀ e ∈ t.edges, joins t.nodes e = true
  edges_eq : ∃ best rest, t.edges = best ++ (edges.filter fun e => e.isSynonym && joins t.nodes e) ∧
    (best ++ rest).Perm (edges.filter fun e => !e.isSynonym && joins t.nodes e) ∧
    best.length = min maxEdges (edges.filter fun e => !e.isSynonym && joins t.nodes e).length ∧
    ∀ e ∈ best, ∀ f ∈ rest, edgeSortKey e ≤ edgeSortKey f
  truncated_iff : t.truncated = true ↔ maxNodes < nodes.length ∨
    maxEdges < (edges.filter fun e => !e.isSynonym && joins t.nodes e).length

variable {nodes} {edges} {maxNodes} {maxEdges} {mode}

theorem nodeSortKey_id (mode : SalienceMode) (n : GraphNodeInspection) :
    (ofLex (ofLex (nodeSortKey mode n)).2).2 = n.entityId := by
  cases mode <;> rfl

theorem nodup_nodeSortKey (h : (nodes.map entityId).Nodup) :
    (nodes.map (nodeSortKey mode)).Nodup := by
  refine List.Nodup.of_map (fun k => (ofLex (ofLex k).2).2) ?_
  rw [map_map]
  exact (map_congr_left fun n _ => nodeSortKey_id mode n) ▸ h

theorem joins_iff {e : GraphEdgeInspection} : joins nodes e = true ↔
    (∃ n ∈ nodes, n.entityId = e.sourceEntityId) ∧ ∃ n ∈ nodes, n.entityId = e.targetEntityId := by
  simp [joins]

theorem mem_synonymEndpointIds {nodeIds : List String} {id : String} :
    id ∈ synonymEndpointIds nodeIds edges ↔ id ∈ nodeIds ∧
      ∃ e ∈ edges, e.isSynonym = true ∧ (id = e.sourceEntityId ∨ id = e.targetEntityId) := by
  simp only [synonymEndpointIds, mem_filter, mem_flatMap, contains_iff_mem,
    mem_cons, not_mem_nil, or_false, and_assoc]
  exact and_comm

theorem mem_truncateGraph_nodes (h : (nodes.map entityId).Nodup)
    {n : GraphNodeInspection} : n ∈ (truncateGraph nodes edges maxNodes maxEdges mode).nodes ↔
      n ∈ nodes ∧ Stays nodes edges maxNodes mode n := by
  have hp := sortBy_perm (nodeSortKey mode) nodes
  have hbest : n ∈ (sortBy (nodeSortKey mode) nodes).take maxNodes ↔ n ∈ nodes ∧
      (nodes.filter fun m => nodeSortKey mode m < nodeSortKey mode n).length < maxNodes :=
    mem_take_sortBy_iff (nodup_nodeSortKey h)
  have hsplit : n ∈ nodes ↔ n ∈ (sortBy (nodeSortKey mode) nodes).take maxNodes ∨
      n ∈ (sortBy (nodeSortKey mode) nodes).drop maxNodes := by
    rw [← mem_append, take_append_drop, hp.mem_iff]
  have hid (hn : n ∈ nodes) :
      n.entityId ∈ (sortBy (nodeSortKey mode) nodes).map entityId :=
    mem_map_of_mem (hp.mem_iff.mpr hn)
  simp only [truncateGraph, mem_append, mem_filter, contains_iff_mem, mem_synonymEndpointIds]
  constructor
  · rintro (hn | ⟨hn, -, hsyn⟩)
    · exact ⟨(hbest.mp hn).1, Or.inl (hbest.mp hn).2⟩
    · exact ⟨hsplit.mpr (Or.inr hn), Or.inr hsyn⟩
  · rintro ⟨hm, hrank | hsyn⟩
    · exact Or.inl (hbest.mpr ⟨hm, hrank⟩)
    · exact (hsplit.mp hm).imp_right fun hn => ⟨hn, hid hm, hsyn⟩

/-- The nodes that the cut returns are a part of the sorted ones. -/
theorem truncateGraph_nodes_sublist :
    (truncateGraph nodes edges maxNodes maxEdges mode).nodes.Sublist
      (sortBy (nodeSortKey mode) nodes) := by
  have h := (List.Sublist.refl ((sortBy (nodeSortKey mode) nodes).take maxNodes)).append
    (filter_sublist (p := fun n => (synonymEndpointIds
      ((sortBy (nodeSortKey mode) nodes).map entityId) edges).contains
        n.entityId) (l := (sortBy (nodeSortKey mode) nodes).drop maxNodes))
  rwa [take_append_drop] at h

theorem filter_filter_and (p q : GraphEdgeInspection → Bool) :
    (edges.filter p).filter q = edges.filter fun e => p e && q e := by
  rw [filter_filter]
  exact filter_congr fun e _ => Bool.and_comm _ _

theorem truncateGraph_edges :
    (truncateGraph nodes edges maxNodes maxEdges mode).edges =
      (sortBy edgeSortKey (edges.filter fun e => !e.isSynonym &&
        joins (truncateGraph nodes edges maxNodes maxEdges mode).nodes e)).take maxEdges ++
      edges.filter fun e => e.isSynonym &&
        joins (truncateGraph nodes edges maxNodes maxEdges mode).nodes e := by
  simp only [truncateGraph, filter_filter_and]

/-- **The cut is the one that was asked for**, of nodes with distinct ids. -/
theorem truncates_truncateGraph (h : (nodes.map entityId).Nodup) :
    Truncates nodes edges maxNodes maxEdges mode
      (truncateGraph nodes edges maxNodes maxEdges mode) where
  mem_nodes n := mem_truncateGraph_nodes h
  nodup := by
    have hsort := ((sortBy_perm (nodeSortKey mode) nodes).map entityId).nodup_iff.mpr h
    exact hsort.sublist (truncateGraph_nodes_sublist.map _)
  joins_of_mem e he := by
    rcases mem_append.mp he with he | he
    · have hm := (sortBy_perm _ _).mem_iff.mp (mem_of_mem_take he)
      exact (mem_filter.mp hm).2
    · exact (mem_filter.mp he).2
  edges_eq := by
    let others := edges.filter fun e => !e.isSynonym &&
      joins (truncateGraph nodes edges maxNodes maxEdges mode).nodes e
    have hsort := sortBy_perm edgeSortKey others
    refine ⟨(sortBy edgeSortKey others).take maxEdges, (sortBy edgeSortKey others).drop maxEdges,
      truncateGraph_edges, ?_, ?_, ?_⟩
    · rwa [take_append_drop]
    · rw [length_take, hsort.length_eq]
    · exact fun e he f hf => rel_of_mem_take_of_mem_drop (pairwise_sortBy _ _) he hf
  truncated_iff := by
    simp only [truncateGraph, filter_filter_and, (sortBy_perm _ _).length_eq, Bool.or_eq_true,
      decide_eq_true_eq]

/-- Where nothing was cut off, everything is there. -/
theorem perm_of_truncated_eq_false
    (h : (truncateGraph nodes edges maxNodes maxEdges mode).truncated = false) :
    (truncateGraph nodes edges maxNodes maxEdges mode).nodes.Perm nodes ∧
      (truncateGraph nodes edges maxNodes maxEdges mode).edges.Perm
        (edges.filter (joins (truncateGraph nodes edges maxNodes maxEdges mode).nodes)) := by
  simp only [truncateGraph, Bool.or_eq_false_iff, decide_eq_false_iff_not, not_lt] at h
  obtain ⟨hnds, hes⟩ := h
  simp only [truncateGraph]
  rw [take_of_length_le hes, take_of_length_le hnds, drop_eq_nil_of_le hnds, filter_nil, append_nil]
  refine ⟨sortBy_perm _ _, ?_⟩
  refine ((sortBy_perm _ _).append_right _).trans ?_
  rw [← filter_append]
  refine List.Perm.filter _ ?_
  exact perm_append_comm.trans (filter_append_perm _ _)

end Truncation

/-! ### What a view says -/

/-- **A view is consistent** with the nodes and edges that it was made of: it counts all nodes, and
the edges between those that it shows; and if it does not say that it was cut, it shows what it
counts. -/
structure CollectionGraphView.IsConsistent (v : CollectionGraphView)
    (nodes : List GraphNodeInspection) (edges : List GraphEdgeInspection) : Prop where
  nodeCount : v.nodeCount = nodes.length
  edgeCount : v.edgeCount = (edges.filter (joins v.nodes)).length
  all_nodes : v.truncated = false → v.nodes.Perm nodes ∧ v.nodes.length = v.nodeCount
  all_edges : v.truncated = false →
    v.edges.Perm (edges.filter (joins v.nodes)) ∧ v.edges.length = v.edgeCount

section Views

variable {log : ℚ → ℚ} {graph : AclVisibleGraph} {graphs : List (String × AclVisibleGraph)}
  {totalChunkCount : ℕ} {totalChunkCounts : String → Option ℕ} {maxNodes maxEdges : ℕ}
  {mode : SalienceMode} {entityPresence : Option (String → Option ℤ)} {numCollections : ℤ}
  {v : CollectionGraphView}

/-- The view of a cut graph is consistent, if it counts the edges behind the cut of the nodes. -/
theorem isConsistent_of_truncateGraph {nodes : List GraphNodeInspection}
    {edges : List GraphEdgeInspection} {ceilingHit : Bool}
    (hnds : v.nodes = (truncateGraph nodes edges maxNodes maxEdges mode).nodes)
    (hes : v.edges = (truncateGraph nodes edges maxNodes maxEdges mode).edges)
    (htrun : v.truncated =
      ((truncateGraph nodes edges maxNodes maxEdges mode).truncated || ceilingHit))
    (hnodeCount : v.nodeCount = nodes.length)
    (hedgeCount : v.edgeCount = (edges.filter (joins v.nodes)).length) :
    v.IsConsistent nodes edges := by
  have hall (h : v.truncated = false) := by
    rw [htrun, Bool.or_eq_false_iff] at h
    exact perm_of_truncated_eq_false h.1
  rw [← hnds, ← hes] at hall
  refine ⟨hnodeCount, hedgeCount, fun h => ⟨(hall h).1, ?_⟩, fun h => ⟨(hall h).2, ?_⟩⟩
  · rw [(hall h).1.length_eq, hnodeCount]
  · rw [(hall h).2.length_eq, hedgeCount]

/-- **The view of a collection is consistent.** -/
theorem isConsistent_inspectCollection
    (h : inspectCollection log graph totalChunkCount maxNodes maxEdges mode entityPresence
      numCollections = .ok v) :
    v.IsConsistent
      (scored log (nodeInspections graph totalChunkCount mode) mode entityPresence numCollections)
      (graph.edges.map (edgeInspection graph)) := by
  unfold inspectCollection at h
  cases hcheck : checkTfidf mode entityPresence numCollections with
  | error message =>
    rw [hcheck] at h
    cases h
  | ok checked =>
    rw [hcheck] at h
    cases h
    exact isConsistent_of_truncateGraph rfl rfl rfl rfl rfl

variable (log mode entityPresence numCollections) in
theorem map_entityId_scored (nodes : List GraphNodeInspection) :
    (scored log nodes mode entityPresence numCollections).map entityId = nodes.map entityId := by
  unfold scored
  split
  · exact map_map
  · rfl

variable (log mode entityPresence numCollections) in
theorem length_scored (nodes : List GraphNodeInspection) :
    (scored log nodes mode entityPresence numCollections).length = nodes.length := by
  simpa using congrArg List.length
    (map_entityId_scored log mode entityPresence numCollections nodes)

/-- **The view of several collections is consistent exactly if no merged edge is left out with a
node.** -/
theorem isConsistent_inspectCrossCollection_iff {v : CrossCollectionGraphView}
    (h : inspectCrossCollection log graphs totalChunkCounts maxNodes maxEdges mode entityPresence
      numCollections = .ok v) :
    v.IsConsistent
      (scored log (mergedNodes totalChunkCounts graphs).items mode entityPresence numCollections)
      (mergedEdges graphs).items ↔
      ∀ e ∈ mergedEdges graphs, ∀ id ∈ [e.sourceEntityId, e.targetEntityId],
        StaysWithId
          (scored log (mergedNodes totalChunkCounts graphs).items mode entityPresence
            numCollections) (mergedEdges graphs).items maxNodes mode id := by
  unfold inspectCrossCollection at h
  cases hcheck : checkTfidf mode entityPresence numCollections with
  | error message =>
    rw [hcheck] at h
    cases h
  | ok checked =>
    rw [hcheck] at h
    obtain rfl := Except.ok.inj h
    have hids := (mergedNodes totalChunkCounts graphs).nodup
    rw [← map_entityId_scored log mode entityPresence numCollections] at hids
    have hlen := length_scored log mode entityPresence numCollections
      (mergedNodes totalChunkCounts graphs).items
    revert hids hlen
    generalize scored log (mergedNodes totalChunkCounts graphs).items mode entityPresence
      numCollections = nodes
    intro hids hlen
    have hjoins (e : GraphEdgeInspection) :
        joins (truncateGraph nodes (mergedEdges graphs).items maxNodes maxEdges mode).nodes e =
            true ↔
          ∀ id ∈ [e.sourceEntityId, e.targetEntityId],
            StaysWithId nodes (mergedEdges graphs).items maxNodes mode id := by
      simp [joins_iff, mem_truncateGraph_nodes hids, StaysWithId, and_comm, and_left_comm]
    constructor
    · intro hview e he
      have hall := length_filter_eq_length_iff.mp hview.edgeCount.symm e he
      exact (hjoins e).mp hall
    · intro hall
      refine isConsistent_of_truncateGraph rfl rfl rfl hlen.symm ?_
      exact (length_filter_eq_length_iff.mpr fun e he => (hjoins e).mpr (hall e he)).symm

end Views

/-! ### The views -/

/-- **A graph is cut as asked, and the view of a collection is consistent. The view of several
collections is if and only if every merged edge joins two nodes that stay.** -/
theorem graphViews_isConsistent (log : ℚ → ℚ) (maxNodes maxEdges : ℕ) (mode : SalienceMode)
    (entityPresence : Option (String → Option ℤ)) (numCollections : ℤ) :
    (∀ (nodes : List GraphNodeInspection) (edges : List GraphEdgeInspection),
      (nodes.map entityId).Nodup →
        Truncates nodes edges maxNodes maxEdges mode
          (truncateGraph nodes edges maxNodes maxEdges mode)) ∧
    (∀ (graph : AclVisibleGraph) (totalChunkCount : ℕ) (v : CollectionGraphView),
      inspectCollection log graph totalChunkCount maxNodes maxEdges mode entityPresence
          numCollections = .ok v →
        v.IsConsistent
          (scored log (nodeInspections graph totalChunkCount mode) mode entityPresence
            numCollections)
          (graph.edges.map (edgeInspection graph))) ∧
    (∀ (graphs : List (String × AclVisibleGraph)) (totalChunkCounts : String → Option ℕ)
      (v : CrossCollectionGraphView),
      inspectCrossCollection log graphs totalChunkCounts maxNodes maxEdges mode entityPresence
          numCollections = .ok v →
        (v.IsConsistent
          (scored log (mergedNodes totalChunkCounts graphs).items mode entityPresence
            numCollections)
          (mergedEdges graphs).items ↔
          ∀ e ∈ mergedEdges graphs, ∀ id ∈ [e.sourceEntityId, e.targetEntityId],
            StaysWithId
              (scored log (mergedNodes totalChunkCounts graphs).items mode entityPresence
                numCollections) (mergedEdges graphs).items maxNodes mode id)) :=
  ⟨fun _ _ h => truncates_truncateGraph h,
    fun _ _ _ h => isConsistent_inspectCollection h,
    fun _ _ _ h => isConsistent_inspectCrossCollection_iff h⟩

def sampleGraph : AclVisibleGraph where
  nodes := [⟨"a", "Alpha", "concept", none⟩, ⟨"b", "Beta", "concept", none⟩]
  edges := [⟨"ab", "a", "b", "related_to"⟩]
  entityChunks := fun _ => ∅
  mentionsCeilingHit := false

def danglingGraph : AclVisibleGraph where
  nodes := [⟨"a", "Alpha", "concept", none⟩]
  edges := [⟨"ab", "a", "b", "related_to"⟩]
  entityChunks := fun _ => ∅
  mentionsCeilingHit := false

theorem graphViews_sampleGraph :
    Truncates (nodeInspections sampleGraph 1 .frequency) [] 1 1 .frequency
      (truncateGraph (nodeInspections sampleGraph 1 .frequency) [] 1 1 .frequency) ∧
    (∃ v, inspectCollection id sampleGraph 1 1 1 .frequency none 1 = .ok v ∧
      v.IsConsistent (nodeInspections sampleGraph 1 .frequency)
        (sampleGraph.edges.map (edgeInspection sampleGraph))) ∧
    ∃ v, inspectCrossCollection id [("docs", sampleGraph)] (fun _ => none) 2 1 .frequency none 1 =
        .ok v ∧
      v.IsConsistent (mergedNodes (fun _ => none) [("docs", sampleGraph)]).items
        (mergedEdges [("docs", sampleGraph)]).items :=
  ⟨(graphViews_isConsistent id 1 1 .frequency none 1).1 _ _ (by decide),
    ⟨_, rfl, (graphViews_isConsistent id 1 1 .frequency none 1).2.1 sampleGraph 1 _ rfl⟩,
    ⟨_, rfl, ((graphViews_isConsistent id 2 1 .frequency none 1).2.2 [("docs", sampleGraph)]
      (fun _ => none) _ rfl).mpr (by decide +kernel)⟩⟩

/-- The edge of a node that was cut off is counted, and so is that of a node that is not there. -/
theorem edgeCount_inspectCrossCollection :
    (∃ v, inspectCrossCollection id [("docs", sampleGraph)] (fun _ => none) 1 10 .frequency none 1 =
        .ok v ∧ v.edgeCount = 1 ∧
      ((mergedEdges [("docs", sampleGraph)]).items.filter (joins v.nodes)).length = 0) ∧
    ∃ v, inspectCrossCollection id [("docs", danglingGraph)] (fun _ => none) 10 10 .frequency none
        1 = .ok v ∧ v.edgeCount = 1 ∧ v.truncated = false ∧ v.edges.length = 0 :=
  ⟨⟨_, rfl, by decide +kernel, by decide +kernel⟩,
    ⟨_, rfl, by decide +kernel, by decide +kernel, by decide +kernel⟩⟩

end ArchonSearch.Graph.Inspect
