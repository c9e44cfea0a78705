import ArchonSearch.Lib.Batches
import ArchonSearch.Lib.Keyed

/-!
# The garbage collection of a graph

`delete_orphan_nodes_and_edges` reads the three tables of a graph and deletes what nothing holds:
the nodes without a mention, but for those that a def/ref edge or their own type saves; the edges
that go with such a node; and the edges that were derived from mentions of which no chunk is left
that mentions both ends. The ids are collected first, in four passes over the rows, and the rows
deleted by them, so many at a time.

The pass deletes exactly these rows, and finds nothing to do on what it has left
(`deleteOrphanNodesAndEdges_exact`): it never deletes what saves a node.
-/

namespace ArchonSearch.Graph.Collect

open Lib List

/-! ### Tables -/

structure NodeRow where
  (id entityType : String)
  entitySubtype : Option String

structure EdgeRow where
  (id sourceNodeId targetNodeId relationshipType : String)
  extractionMethod : Option String

structure MentionRow where
  (entityId chunkId : String)

structure EdgeTable where
  rows : Keyed EdgeRow.id
  /-- It has the column `extraction_method`. -/
  hasExtractionMethod : Bool

structure GraphTables where
  nodes : Option (Keyed NodeRow.id)
  edges : Option EdgeTable
  mentions : Option (List MentionRow)

open GraphTables

/-- `GcPassResult`. -/
structure GcPassResult where
  (orphanNodesRemoved orphanEdgesRemoved : ℕ)
  deriving DecidableEq

/-- `communities_invalidated`. -/
def GcPassResult.communitiesInvalidated (r : GcPassResult) : Bool :=
  decide (0 < r.orphanNodesRemoved ∨ 0 < r.orphanEdgesRemoved)

/-! ### The exemptions -/

/-- `_GC_EXEMPT_EXTRACTION_METHODS`. -/
def gcExemptExtractionMethods : List String := ["extracted", "inferred"]

/-- `_DEFREF_RELATIONSHIP_TYPES`. -/
def defrefRelationshipTypes : List String := ["calls", "imports", "defines", "inherits"]

/-- `_MENTION_DERIVED_RELATIONSHIP_TYPES`. -/
def mentionDerivedRelationshipTypes : List String :=
  ["related_to", "uses", "implements", "depends_on"]

/-- `_edge_is_defref`. -/
def edgeIsDefref (extractionMethod : Option String) (relationshipType : String) : Bool :=
  if extractionMethod.any gcExemptExtractionMethods.contains then true
  else defrefRelationshipTypes.contains relationshipType

/-- `_node_is_module_pseudo`. -/
def nodeIsModulePseudo (entityType : String) (entitySubtype : Option String) : Bool :=
  entityType == "code_symbol" && entitySubtype.any fun subtype =>
    "-defref-module".toList.isSuffixOf subtype.toList

/-- The method of an edge: `None` where the table has no column for it. -/
def EdgeTable.method (edges : EdgeTable) (e : EdgeRow) : Option String :=
  if edges.hasExtractionMethod then e.extractionMethod else none

def EdgeTable.isDefref (edges : EdgeTable) (e : EdgeRow) : Bool :=
  edgeIsDefref (edges.method e) e.relationshipType

/-! ### The pass -/

/-- `_GC_DELETE_BATCH_SIZE`. -/
def gcDeleteBatchSize : ℕ := 500

/-- `entity_chunks.get(id)`: the chunks that an entity is mentioned in. -/
def entityChunks (mentions : List MentionRow) (id : String) : List String :=
  (mentions.filter fun m => m.entityId = id).map MentionRow.chunkId

/-- `exempt_edge_ids`. -/
def exemptEdgeIds (edges : Option EdgeTable) : List String :=
  match edges with
  | none => []
  | some table => (table.rows.items.filter table.isDefref).map EdgeRow.id

/-- `module_pseudo_node_ids`. -/
def modulePseudoNodeIds (nodes : Keyed NodeRow.id) : List String :=
  (nodes.items.filter fun n => nodeIsModulePseudo n.entityType n.entitySubtype).map NodeRow.id

/-- `exempt_node_ids`. -/
def exemptNodeIds (nodes : Keyed NodeRow.id) (edges : Option EdgeTable) : List String :=
  modulePseudoNodeIds nodes ++
    match edges with
    | none => []
    | some table =>
      (table.rows.items.filter table.isDefref).flatMap fun e => [e.sourceNodeId, e.targetNodeId]

/-- `orphan_node_ids`. -/
def orphanNodeIds (nodes : Keyed NodeRow.id) (edges : Option EdgeTable)
    (mentions : List MentionRow) : List String :=
  let mentionedEntityIds := mentions.map MentionRow.entityId
  let orphanNodeIdsPreExempt := (nodes.items.map NodeRow.id).filter fun nid =>
    !mentionedEntityIds.contains nid && !(modulePseudoNodeIds nodes).contains nid
  orphanNodeIdsPreExempt.filter fun nid => !(exemptNodeIds nodes edges).contains nid

/-- `orphan_edge_ids`, of the edges at an orphan. -/
def orphanEdgeIds (edges : Option EdgeTable) (orphans : List String) : List String :=
  match edges with
  | none => []
  | some table => (table.rows.items.filter fun e => !(exemptEdgeIds edges).contains e.id &&
      (orphans.contains e.sourceNodeId || orphans.contains e.targetNodeId)).map EdgeRow.id

/-- `unsupported_edge_ids`. -/
def unsupportedEdgeIds (edges : Option EdgeTable) (mentions : List MentionRow)
    (orphaned : List String) : List String :=
  match edges with
  | none => []
  | some table => (table.rows.items.filter fun e =>
      if !mentionDerivedRelationshipTypes.contains e.relationshipType then false
      else if (exemptEdgeIds edges).contains e.id || orphaned.contains e.id then false
      else if table.isDefref e then false
      else !(entityChunks mentions e.sourceNodeId).any
        (entityChunks mentions e.targetNodeId).contains).map EdgeRow.id

theorem gcDeleteBatchSize_pos : 0 < gcDeleteBatchSize := Nat.succ_pos 499

def deleteByIds {α : Type} {key : α → String} (rows : Keyed key) (ids : List String) :
    Keyed key :=
  ⟨deleteInBatches key gcDeleteBatchSize rows.items ids,
    rows.nodup.sublist ((deleteInBatches_sublist key _ _ _).map key)⟩

/-- `delete_orphan_nodes_and_edges`. -/
def deleteOrphanNodesAndEdges (g : GraphTables) (noLiveChunks : Bool) :
    GraphTables × GcPassResult :=
  match g.mentions with
  | none => (g, ⟨0, 0⟩)
  | some mentions =>
    if mentions.isEmpty && !noLiveChunks then (g, ⟨0, 0⟩)
    else
      match g.nodes with
      | none => (g, ⟨0, 0⟩)
      | some nodes =>
        let orphanNodes := orphanNodeIds nodes g.edges mentions
        let orphanEdges := orphanEdgeIds g.edges orphanNodes
        let orphanEdges := orphanEdges ++ unsupportedEdgeIds g.edges mentions orphanEdges
        ({ g with
            edges := g.edges.map fun table =>
              { table with rows := deleteByIds table.rows orphanEdges }
            nodes := some (deleteByIds nodes orphanNodes) },
          ⟨orphanNodes.length, orphanEdges.length⟩)

/-! ### What nothing holds -/

def GraphTables.nodeRows (g : GraphTables) : List NodeRow := (g.nodes.map Keyed.items).getD []

def GraphTables.edgeRows (g : GraphTables) : List EdgeRow :=
  (g.edges.map fun table => table.rows.items).getD []

def GraphTables.mentionRows (g : GraphTables) : List MentionRow := g.mentions.getD []

def GraphTables.isDefref (g : GraphTables) (e : EdgeRow) : Bool :=
  g.edges.any fun table => table.isDefref e

/-- The edge has this end. -/
def EdgeRow.HasEnd (e : EdgeRow) (id : String) : Prop := id = e.sourceNodeId ∨ id = e.targetNodeId

/-- Nothing holds the node: no mention, not its type, no def/ref edge. -/
def GraphTables.IsOrphanNode (g : GraphTables) (n : NodeRow) : Prop :=
  (∀ m ∈ g.mentionRows, m.entityId ≠ n.id) ∧
    nodeIsModulePseudo n.entityType n.entitySubtype = false ∧
      ∀ e ∈ g.edgeRows, g.isDefref e = true → ¬ e.HasEnd n.id

def GraphTables.IsSupported (g : GraphTables) (e : EdgeRow) : Prop :=
  ∃ m ∈ g.mentionRows, ∃ m' ∈ g.mentionRows, m.entityId = e.sourceNodeId ∧
    m'.entityId = e.targetNodeId ∧ m.chunkId = m'.chunkId

/-- An edge that is no def/ref edge, and goes with an orphan or was derived from mentions that are
no more. -/
def GraphTables.IsOrphanEdge (g : GraphTables) (e : EdgeRow) : Prop :=
  g.isDefref e = false ∧
    ((∃ n ∈ g.nodeRows, g.IsOrphanNode n ∧ e.HasEnd n.id) ∨
      e.relationshipType ∈ mentionDerivedRelationshipTypes ∧ ¬ g.IsSupported e)

variable {g : GraphTables} {nodes : Keyed NodeRow.id} {mentions : List MentionRow} {n : NodeRow}
  {e : EdgeRow} {table : EdgeTable} {noLiveChunks : Bool}

theorem mem_modulePseudoNodeIds (hn : n ∈ nodes) : n.id ∈ modulePseudoNodeIds nodes ↔
    nodeIsModulePseudo n.entityType n.entitySubtype = true := by
  simp only [modulePseudoNodeIds, mem_map, mem_filter]
  constructor
  · rintro ⟨n', ⟨hn', hpseudo⟩, hid⟩
    rwa [Keyed.eq_of_key_eq hn' hn hid] at hpseudo
  · exact fun hpseudo => ⟨n, ⟨hn, hpseudo⟩, rfl⟩

variable {id : String}

theorem mem_exemptNodeIds : id ∈ exemptNodeIds nodes g.edges ↔
    id ∈ modulePseudoNodeIds nodes ∨ ∃ e ∈ g.edgeRows, g.isDefref e = true ∧ e.HasEnd id := by
  unfold exemptNodeIds edgeRows isDefref EdgeRow.HasEnd
  cases g.edges with
  | none => simp
  | some table => simp [and_assoc]

/-- The ids that are collected are those of the orphans. -/
theorem mem_orphanNodeIds (hment : g.mentions = some mentions) (hn : n ∈ nodes) :
    n.id ∈ orphanNodeIds nodes g.edges mentions ↔ g.IsOrphanNode n := by
  have hrw : g.mentionRows = mentions := by rw [mentionRows, hment]; rfl
  have hid : n.id ∈ nodes.items.map NodeRow.id := mem_map_of_mem hn
  unfold orphanNodeIds GraphTables.IsOrphanNode
  simp only [mem_filter, hid, true_and, Bool.and_eq_true, Bool.not_eq_true',
    ← Bool.not_eq_true, contains_iff_mem, mem_exemptNodeIds,
    mem_modulePseudoNodeIds hn, hrw, mem_map]
  constructor
  · rintro ⟨⟨hmen, hpseudo⟩, hexem⟩
    exact ⟨fun m hm heq => hmen ⟨m, hm, heq⟩, hpseudo,
      fun e he hdef hend => hexem (Or.inr ⟨e, he, hdef, hend⟩)⟩
  · rintro ⟨hmen, hpseudo, hes⟩
    refine ⟨⟨fun ⟨m, hm, heq⟩ => hmen m hm heq, hpseudo⟩, ?_⟩
    rintro (h | ⟨e, he, hdef, hend⟩)
    · exact hpseudo h
    · exact hes e he hdef hend

theorem orphanNodeIds_subset (edges : Option EdgeTable) :
    orphanNodeIds nodes edges mentions ⊆ nodes.items.map NodeRow.id :=
  (filter_sublist.trans filter_sublist).subset

theorem nodup_orphanNodeIds (edges : Option EdgeTable) :
    (orphanNodeIds nodes edges mentions).Nodup :=
  nodes.nodup.sublist (filter_sublist.trans filter_sublist)

theorem mem_orphanNodeIds_iff (hnds : g.nodes = some nodes)
    (hmen : g.mentions = some mentions) :
    id ∈ orphanNodeIds nodes g.edges mentions ↔ ∃ n ∈ g.nodeRows, g.IsOrphanNode n ∧ n.id = id := by
  have hrw : g.nodeRows = nodes.items := by rw [nodeRows, hnds]; rfl
  rw [hrw]
  constructor
  · intro h
    obtain ⟨n, hn, rfl⟩ := mem_map.mp (orphanNodeIds_subset _ h)
    exact ⟨n, hn, (mem_orphanNodeIds hmen hn).mp h, rfl⟩
  · rintro ⟨n, hn, horph, rfl⟩
    exact (mem_orphanNodeIds hmen hn).mpr horph

/-! ### The edges -/

theorem mem_exemptEdgeIds (he : e ∈ table.rows) :
    e.id ∈ exemptEdgeIds (some table) ↔ table.isDefref e = true := by
  simp only [exemptEdgeIds, mem_map, mem_filter]
  constructor
  · rintro ⟨e', ⟨he', hdef⟩, hid⟩
    rwa [Keyed.eq_of_key_eq he' he hid] at hdef
  · exact fun hdef => ⟨e, ⟨he, hdef⟩, rfl⟩

theorem mem_orphanEdgeIds {orphans : List String} (he : e ∈ table.rows) :
    e.id ∈ orphanEdgeIds (some table) orphans ↔ table.isDefref e = false ∧
      (e.sourceNodeId ∈ orphans ∨ e.targetNodeId ∈ orphans) := by
  have hr (e' : EdgeRow) (he' : e' ∈ table.rows) :
      (!(exemptEdgeIds (some table)).contains e'.id &&
        (orphans.contains e'.sourceNodeId || orphans.contains e'.targetNodeId)) = true ↔
      table.isDefref e' = false ∧ (e'.sourceNodeId ∈ orphans ∨ e'.targetNodeId ∈ orphans) := by
    simp [mem_exemptEdgeIds he']
  simp only [orphanEdgeIds, mem_map, mem_filter]
  constructor
  · rintro ⟨e', ⟨he', h⟩, hid⟩
    rw [Keyed.eq_of_key_eq he' he hid] at h
    exact (hr e he).mp h
  · exact fun h => ⟨e, ⟨he, (hr e he).mpr h⟩, rfl⟩

theorem mem_entityChunks {chunk : String} :
    chunk ∈ entityChunks mentions id ↔ ∃ m ∈ mentions, m.entityId = id ∧ m.chunkId = chunk := by
  simp [entityChunks, and_assoc]

/-- The chunks of the two ends are apart if nothing supports the edge. -/
theorem any_entityChunks (hmen : g.mentions = some mentions) :
    (entityChunks mentions e.sourceNodeId).any
      (entityChunks mentions e.targetNodeId).contains = true ↔ g.IsSupported e := by
  have hrw : g.mentionRows = mentions := by rw [mentionRows, hmen]; rfl
  simp only [any_eq_true, contains_iff_mem, mem_entityChunks, GraphTables.IsSupported, hrw]
  constructor
  · rintro ⟨chunk, ⟨m, hm, hsrc, rfl⟩, m', hm', htgt, hch⟩
    exact ⟨m, hm, m', hm', hsrc, htgt, hch.symm⟩
  · rintro ⟨m, hm, m', hm', hsrc, htgt, hch⟩
    exact ⟨m.chunkId, ⟨m, hm, hsrc, rfl⟩, m', hm', htgt, hch.symm⟩

theorem mem_unsupportedEdgeIds {orphaned : List String} (hmen : g.mentions = some mentions)
    (he : e ∈ table.rows) : e.id ∈ unsupportedEdgeIds (some table) mentions orphaned ↔
      e.relationshipType ∈ mentionDerivedRelationshipTypes ∧ e.id ∉ orphaned ∧
        table.isDefref e = false ∧ ¬ g.IsSupported e := by
  have hr (e' : EdgeRow) (he' : e' ∈ table.rows) :
      (if !mentionDerivedRelationshipTypes.contains e'.relationshipType then false
        else if (exemptEdgeIds (some table)).contains e'.id || orphaned.contains e'.id then false
        else if table.isDefref e' then false
        else !(entityChunks mentions e'.sourceNodeId).any
          (entityChunks mentions e'.targetNodeId).contains) = true ↔
      e'.relationshipType ∈ mentionDerivedRelationshipTypes ∧ e'.id ∉ orphaned ∧
        table.isDefref e' = false ∧ ¬ g.IsSupported e' := by
    have hexem : (exemptEdgeIds (some table)).contains e'.id = table.isDefref e' :=
      Bool.eq_iff_iff.mpr (contains_iff_mem.trans (mem_exemptEdgeIds he'))
    rw [hexem, ← any_entityChunks hmen, ← contains_iff_mem, ← contains_iff_mem]
    cases mentionDerivedRelationshipTypes.contains e'.relationshipType <;>
      cases orphaned.contains e'.id <;> cases table.isDefref e' <;> simp
  simp only [unsupportedEdgeIds, mem_map, mem_filter]
  constructor
  · rintro ⟨e', ⟨he', h⟩, hid⟩
    rw [Keyed.eq_of_key_eq he' he hid] at h
    exact (hr e he).mp h
  · exact fun h => ⟨e, ⟨he, (hr e he).mpr h⟩, rfl⟩

def doomedEdgeIds (nodes : Keyed NodeRow.id) (edges : Option EdgeTable)
    (mentions : List MentionRow) : List String :=
  let orphanEdges := orphanEdgeIds edges (orphanNodeIds nodes edges mentions)
  orphanEdges ++ unsupportedEdgeIds edges mentions orphanEdges

theorem doomedEdgeIds_subset :
    doomedEdgeIds nodes (some table) mentions ⊆ table.rows.items.map EdgeRow.id :=
  append_subset.mpr ⟨(filter_sublist.map EdgeRow.id).subset, (filter_sublist.map EdgeRow.id).subset⟩

theorem nodup_doomedEdgeIds (hmen : g.mentions = some mentions) :
    (doomedEdgeIds nodes (some table) mentions).Nodup := by
  refine nodup_append.mpr ⟨table.rows.nodup.sublist (filter_sublist.map EdgeRow.id),
    table.rows.nodup.sublist (filter_sublist.map EdgeRow.id), fun id hid id' hid' heq => ?_⟩
  subst heq
  obtain ⟨e, he, rfl⟩ := mem_map.mp ((filter_sublist.map EdgeRow.id).subset hid')
  exact ((mem_unsupportedEdgeIds hmen he).mp hid').2.1 hid

/-- The edges that are deleted are those that nothing holds. -/
theorem mem_doomedEdgeIds (hnds : g.nodes = some nodes) (hes : g.edges = some table)
    (hmen : g.mentions = some mentions) (he : e ∈ table.rows) :
    e.id ∈ doomedEdgeIds nodes (some table) mentions ↔ g.IsOrphanEdge e := by
  have hdef : g.isDefref e = table.isDefref e := by
    rw [isDefref, hes, Option.any_some]
  have horph {id : String} : id ∈ orphanNodeIds nodes (some table) mentions ↔
      ∃ n ∈ g.nodeRows, g.IsOrphanNode n ∧ n.id = id :=
    hes ▸ mem_orphanNodeIds_iff hnds hmen
  have htch : (e.sourceNodeId ∈ orphanNodeIds nodes (some table) mentions ∨
      e.targetNodeId ∈ orphanNodeIds nodes (some table) mentions) ↔
        ∃ n ∈ g.nodeRows, g.IsOrphanNode n ∧ e.HasEnd n.id := by
    rw [horph, horph]
    constructor
    · rintro (⟨n, hn, horph, hid⟩ | ⟨n, hn, horph, hid⟩)
      · exact ⟨n, hn, horph, Or.inl hid⟩
      · exact ⟨n, hn, horph, Or.inr hid⟩
    · rintro ⟨n, hn, horph, hid | hid⟩
      · exact Or.inl ⟨n, hn, horph, hid⟩
      · exact Or.inr ⟨n, hn, horph, hid⟩
  unfold doomedEdgeIds GraphTables.IsOrphanEdge
  rw [mem_append, mem_unsupportedEdgeIds hmen he, mem_orphanEdgeIds he, htch, hdef]
  generalize (∃ n ∈ g.nodeRows, g.IsOrphanNode n ∧ e.HasEnd n.id) = atOrphan
  tauto

/-! ### What the pass does -/

theorem deleteOrphanNodesAndEdges_eq (hnds : g.nodes = some nodes)
    (hmen : g.mentions = some mentions) (h : mentions ≠ [] ∨ noLiveChunks = true) :
    deleteOrphanNodesAndEdges g noLiveChunks =
      ({ g with
          edges := g.edges.map fun table =>
            { table with rows := deleteByIds table.rows (doomedEdgeIds nodes g.edges mentions) }
          nodes := some (deleteByIds nodes (orphanNodeIds nodes g.edges mentions)) },
        ⟨(orphanNodeIds nodes g.edges mentions).length,
          (doomedEdgeIds nodes g.edges mentions).length⟩) := by
  have hjud : (mentions.isEmpty && !noLiveChunks) = false := by
    rcases h with h | rfl
    · rw [isEmpty_eq_false_iff.mpr h, Bool.false_and]
    · rw [Bool.not_true, Bool.and_false]
  unfold deleteOrphanNodesAndEdges
  rw [hmen]
  dsimp only
  rw [hjud, hnds]
  rfl

variable {α : Type} {key : α → String}

theorem items_deleteByIds (rows : Keyed key) (ids : List String) :
    (deleteByIds rows ids).items = deleteIn key rows.items ids :=
  deleteInBatches_eq key gcDeleteBatchSize_pos rows.items ids

variable {ids : List String}

theorem mem_deleteByIds {rows : Keyed key}
    {a : α} : a ∈ deleteByIds rows ids ↔ a ∈ rows ∧ key a ∉ ids := by
  rw [Keyed.mem_def, items_deleteByIds, mem_deleteIn]
  rfl

theorem deleteByIds_nil (rows : Keyed key) :
    deleteByIds rows [] = rows :=
  Keyed.ext (deleteInBatches_nil key gcDeleteBatchSize_pos rows.items)

theorem length_deleteByIds {rows : Keyed key}
    (hids : ids.Nodup) (hsub : ids ⊆ rows.items.map key) :
    ids.length + (deleteByIds rows ids).items.length = rows.items.length := by
  rw [items_deleteByIds]
  exact length_deleteIn rows.nodup hids hsub

/-- `after` is `g` without its orphans. -/
structure GraphTables.Swept (g after : GraphTables) : Prop where
  nodes : ∀ n, n ∈ after.nodeRows ↔ n ∈ g.nodeRows ∧ ¬ g.IsOrphanNode n
  edges : ∀ e, e ∈ after.edgeRows ↔ e ∈ g.edgeRows ∧ ¬ g.IsOrphanEdge e
  mentionRows : after.mentionRows = g.mentionRows
  isDefref : ∀ e, after.isDefref e = g.isDefref e

variable {after : GraphTables}

theorem GraphTables.Swept.isOrphanNode (h : g.Swept after) (horph : after.IsOrphanNode n) :
    g.IsOrphanNode n := by
  refine ⟨h.mentionRows ▸ horph.1, horph.2.1, fun e he hdef hend => ?_⟩
  refine horph.2.2 e ((h.edges e).mpr ⟨he, fun hdoom => ?_⟩) ((h.isDefref e).trans hdef) hend
  rw [hdoom.1] at hdef
  cases hdef

theorem GraphTables.Swept.not_isOrphanNode (h : g.Swept after) (hn : n ∈ after.nodeRows) :
    ¬ after.IsOrphanNode n := fun horph =>
  ((h.nodes n).mp hn).2 (h.isOrphanNode horph)

theorem GraphTables.Swept.not_isOrphanEdge (h : g.Swept after) (he : e ∈ after.edgeRows) :
    ¬ after.IsOrphanEdge e := by
  rintro ⟨hdef, ⟨n, hn, horph, -⟩ | ⟨htype, hsup⟩⟩
  · exact h.not_isOrphanNode hn horph
  · refine ((h.edges e).mp he).2 ⟨(h.isDefref e).symm.trans hdef, Or.inr ⟨htype, ?_⟩⟩
    unfold GraphTables.IsSupported at hsup ⊢
    rwa [h.mentionRows] at hsup

theorem GraphTables.Swept.hasEnd (h : g.Swept after) (he : e ∈ after.edgeRows)
    (hend : e.HasEnd id) (hn : n ∈ g.nodeRows) (hid : n.id = id) : n ∈ after.nodeRows := by
  subst hid
  refine (h.nodes n).mpr ⟨hn, fun horph => ?_⟩
  obtain ⟨hm, hdoom⟩ := (h.edges e).mp he
  cases hdef : g.isDefref e with
  | true => exact horph.2.2 e hm hdef hend
  | false => exact hdoom ⟨hdef, Or.inl ⟨n, hn, horph, hend⟩⟩

/-- Where nothing is an orphan the pass does nothing. -/
theorem deleteOrphanNodesAndEdges_of_none (hnds : g.nodes = some nodes)
    (hmen : g.mentions = some mentions) (h : mentions ≠ [] ∨ noLiveChunks = true)
    (hn : ∀ n ∈ g.nodeRows, ¬ g.IsOrphanNode n) (he : ∀ e ∈ g.edgeRows, ¬ g.IsOrphanEdge e) :
    deleteOrphanNodesAndEdges g noLiveChunks = (g, ⟨0, 0⟩) := by
  have hnoNodes : orphanNodeIds nodes g.edges mentions = [] := by
    refine eq_nil_iff_forall_not_mem.mpr fun id hid => ?_
    obtain ⟨n, hm, horph, -⟩ := (mem_orphanNodeIds_iff hnds hmen).mp hid
    exact hn n hm horph
  have hnoEdges : doomedEdgeIds nodes g.edges mentions = [] := by
    cases hes : g.edges with
    | none => rfl
    | some table =>
      refine eq_nil_iff_forall_not_mem.mpr fun id hid => ?_
      obtain ⟨e, hm, rfl⟩ := mem_map.mp (doomedEdgeIds_subset hid)
      refine he e ?_ ((mem_doomedEdgeIds hnds hes hmen hm).mp hid)
      rw [edgeRows, hes]
      exact hm
  rw [deleteOrphanNodesAndEdges_eq hnds hmen h, hnoNodes, hnoEdges, deleteByIds_nil, ← hnds]
  cases hes : g.edges with
  | none =>
    cases g
    cases hes
    rfl
  | some table =>
    cases g
    cases hes
    simp [deleteByIds_nil]

theorem swept_deleteOrphanNodesAndEdges (hnds : g.nodes = some nodes)
    (hmen : g.mentions = some mentions) (h : mentions ≠ [] ∨ noLiveChunks = true) :
    g.Swept (deleteOrphanNodesAndEdges g noLiveChunks).1 := by
  rw [deleteOrphanNodesAndEdges_eq hnds hmen h]
  refine ⟨fun n => ?_, fun e => ?_, rfl, fun e => ?_⟩
  · unfold nodeRows
    rw [hnds]
    change n ∈ deleteByIds nodes (orphanNodeIds nodes g.edges mentions) ↔
      n ∈ nodes ∧ ¬ g.IsOrphanNode n
    rw [mem_deleteByIds]
    exact and_congr_right fun hn => not_congr (mem_orphanNodeIds hmen hn)
  · unfold edgeRows
    cases hes : g.edges with
    | none => simp
    | some table =>
      change e ∈ deleteByIds table.rows (doomedEdgeIds nodes (some table) mentions) ↔
        e ∈ table.rows ∧ ¬ g.IsOrphanEdge e
      rw [mem_deleteByIds]
      exact and_congr_right fun he => not_congr (mem_doomedEdgeIds hnds hes hmen he)
  · unfold isDefref
    cases g.edges <;> rfl

theorem counts_deleteOrphanNodesAndEdges (hnds : g.nodes = some nodes)
    (hmen : g.mentions = some mentions) (h : mentions ≠ [] ∨ noLiveChunks = true) :
    (deleteOrphanNodesAndEdges g noLiveChunks).2.orphanNodesRemoved +
        (deleteOrphanNodesAndEdges g noLiveChunks).1.nodeRows.length = g.nodeRows.length ∧
      (deleteOrphanNodesAndEdges g noLiveChunks).2.orphanEdgesRemoved +
        (deleteOrphanNodesAndEdges g noLiveChunks).1.edgeRows.length = g.edgeRows.length := by
  rw [deleteOrphanNodesAndEdges_eq hnds hmen h]
  unfold nodeRows edgeRows
  constructor
  · rw [hnds]
    exact length_deleteByIds (nodup_orphanNodeIds _) (orphanNodeIds_subset _)
  · cases hes : g.edges with
    | none => rfl
    | some table =>
      exact length_deleteByIds (nodup_doomedEdgeIds hmen) doomedEdgeIds_subset

/-- **The garbage collection is exact, and done at once**: it removes the orphans and the edges
that nothing holds, and nothing else; it counts the rows that it removed; every edge that is left
has the ends that it had; and a second pass removes nothing. -/
theorem deleteOrphanNodesAndEdges_exact {g : GraphTables} {nodes : Keyed NodeRow.id}
    {mentions : List MentionRow} {noLiveChunks : Bool} (hnodes : g.nodes = some nodes)
    (hmentions : g.mentions = some mentions) (h : mentions ≠ [] ∨ noLiveChunks = true) :
    ∃ after result, deleteOrphanNodesAndEdges g noLiveChunks = (after, result) ∧
      (∀ n, n ∈ after.nodeRows ↔ n ∈ g.nodeRows ∧ ¬ g.IsOrphanNode n) ∧
      (∀ e, e ∈ after.edgeRows ↔ e ∈ g.edgeRows ∧ ¬ g.IsOrphanEdge e) ∧
      after.mentionRows = g.mentionRows ∧
      result.orphanNodesRemoved + after.nodeRows.length = g.nodeRows.length ∧
      result.orphanEdgesRemoved + after.edgeRows.length = g.edgeRows.length ∧
      (∀ e ∈ after.edgeRows, ∀ n ∈ g.nodeRows, e.HasEnd n.id → n ∈ after.nodeRows) ∧
      deleteOrphanNodesAndEdges after noLiveChunks = (after, ⟨0, 0⟩) := by
  have hswept := swept_deleteOrphanNodesAndEdges hnodes hmentions h
  have hcnts := counts_deleteOrphanNodesAndEdges hnodes hmentions h
  have haft : ∃ nodes', (deleteOrphanNodesAndEdges g noLiveChunks).1.nodes = some nodes' ∧
      (deleteOrphanNodesAndEdges g noLiveChunks).1.mentions = some mentions := by
    rw [deleteOrphanNodesAndEdges_eq hnodes hmentions h]
    exact ⟨_, rfl, hmentions⟩
  obtain ⟨nodes', hnds', hmen'⟩ := haft
  exact ⟨_, _, rfl, hswept.nodes, hswept.edges, hswept.mentionRows, hcnts.1, hcnts.2,
    fun e he n hn hend => hswept.hasEnd he hend hn rfl,
    deleteOrphanNodesAndEdges_of_none hnds' hmen' h (fun n => hswept.not_isOrphanNode)
      fun e => hswept.not_isOrphanEdge⟩

/-- Two entities that no chunk mentions together any more, one that none mentions, and a function
with the module that it is defined in. -/
def staleGraph : GraphTables where
  nodes := some ⟨[⟨"ada", "person", none⟩, ⟨"engine", "system", none⟩, ⟨"loom", "concept", none⟩,
    ⟨"parse", "code_symbol", some "function"⟩,
    ⟨"main.py", "code_symbol", some "python-defref-module"⟩], by decide⟩
  edges := some
    { rows := ⟨[⟨"e1", "ada", "engine", "related_to", none⟩, ⟨"e2", "ada", "loom", "uses", none⟩,
        ⟨"e3", "main.py", "parse", "defines", some "extracted"⟩], by decide⟩
      hasExtractionMethod := true }
  mentions := some [⟨"ada", "c1"⟩, ⟨"engine", "c2"⟩]

/-- One of them is removed, with its edge and with the one that nothing supports. -/
theorem deleteOrphanNodesAndEdges_staleGraph :
    (deleteOrphanNodesAndEdges staleGraph false).2 = ⟨1, 2⟩ ∧
      deleteOrphanNodesAndEdges (deleteOrphanNodesAndEdges staleGraph false).1 false =
        ((deleteOrphanNodesAndEdges staleGraph false).1, ⟨0, 0⟩) := by
  have hres : (deleteOrphanNodesAndEdges staleGraph false).2 = ⟨1, 2⟩ := by decide +kernel
  obtain ⟨after, result, heq, -, -, -, -, -, -, hagain⟩ :=
    deleteOrphanNodesAndEdges_exact (g := staleGraph) rfl rfl
      (Or.inl (cons_ne_nil _ _) : _ ∨ false = true)
  refine ⟨hres, ?_⟩
  rw [heq]
  exact hagain

/-- **The communities are invalidated exactly if the pass has changed the graph.** -/
theorem communitiesInvalidated_iff (g : GraphTables) (noLiveChunks : Bool) :
    (deleteOrphanNodesAndEdges g noLiveChunks).2.communitiesInvalidated = true ↔
      (deleteOrphanNodesAndEdges g noLiveChunks).1 ≠ g := by
  unfold GcPassResult.communitiesInvalidated
  rw [decide_eq_true_eq]
  by_cases hruns : ∃ nodes mentions, g.nodes = some nodes ∧ g.mentions = some mentions ∧
      (mentions ≠ [] ∨ noLiveChunks = true)
  · obtain ⟨nodes, mentions, hnds, hmen, h⟩ := hruns
    have hcnts := counts_deleteOrphanNodesAndEdges hnds hmen h
    constructor
    · intro hinv heq
      rw [heq] at hcnts
      omega
    · rw [deleteOrphanNodesAndEdges_eq hnds hmen h]
      contrapose!
      rintro ⟨hnodes, hedges⟩
      rw [length_eq_zero_iff.mp (Nat.le_zero.mp hnodes),
        length_eq_zero_iff.mp (Nat.le_zero.mp hedges)]
      simp [deleteByIds_nil, ← hnds]
  · have hskip : deleteOrphanNodesAndEdges g noLiveChunks = (g, ⟨0, 0⟩) := by
      unfold deleteOrphanNodesAndEdges
      split
      · rfl
      rename_i mentions hmen
      split
      · rfl
      split
      · rfl
      cases mentions <;> simp_all
    simp [hskip]

end ArchonSearch.Graph.Collect
