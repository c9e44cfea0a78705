import ArchonSearch.Lib.Keyed

/-!
# The tables of a graph

The graph of a collection is kept in a table of nodes, one of edges and one of mentions. Nodes
and edges are upserted by their ids, so that two documents which say the same share a row, and
`source_doc_id` names the one that wrote it last. An edge is known by its ends and its type,
which are what its id is the hash of.

An edge is either derived from mentions or from a file: a def/ref edge. The routines that delete
from the tables exempt each other's rows: the one for def/ref rows (`Tables.deleteDefref`) spares
what other files use, and the garbage collection (`Tables.deleteOrphans`) judges nodes and edges by
the mentions and spares all def/ref rows.

The tables are created together and then stay; before that nothing is in them. What they
store for display and for ranking is left out.
-/

namespace ArchonSearch.Graph

open Lib List

/-! ### Rows -/

/-- `EntityType`. -/
inductive EntityType where
  | person
  | concept
  | system
  | event
  | codeSymbol
  deriving DecidableEq

/-- `RelationshipType`. -/
inductive RelationshipType where
  | uses
  | implements
  | dependsOn
  | relatedTo
  | synonymOf
  | calls
  | imports
  | defines
  | inherits
  deriving DecidableEq

/-- `extraction_method`. -/
inductive ExtractionMethod where
  | manual
  | embedding
  | extracted
  | inferred
  deriving DecidableEq

/-- `GraphNode`. -/
structure Node where
  (id entityName : String)
  entityType : EntityType
  entitySubtype : Option String := none
  sourceDocId : String
  sourcePath : Option String := none
  deriving DecidableEq

/-- `GraphEdge`. -/
structure Edge where
  (sourceNodeId targetNodeId : String)
  relationshipType : RelationshipType
  sourceDocId : String
  extractionMethod : Option ExtractionMethod := none
  deriving DecidableEq

/-- `make_stable_edge_id`, before it is hashed. -/
def Edge.key (e : Edge) : String × String × RelationshipType :=
  (e.sourceNodeId, e.targetNodeId, e.relationshipType)

/-- `GraphMention`. -/
structure Mention where
  (entityId chunkId docId : String)
  deriving DecidableEq

/-- `_DEFREF_RELATIONSHIP_TYPES`. -/
def RelationshipType.isDefref : RelationshipType → Bool
  | calls | imports | defines | inherits => true
  | uses | implements | dependsOn | relatedTo | synonymOf => false

/-- `_MENTION_DERIVED_RELATIONSHIP_TYPES`. -/
def RelationshipType.isMentionDerived : RelationshipType → Bool
  | relatedTo | uses | implements | dependsOn => true
  | synonymOf | calls | imports | defines | inherits => false

/-- `_GC_EXEMPT_EXTRACTION_METHODS`. -/
def ExtractionMethod.isGcExempt : ExtractionMethod → Bool
  | extracted | inferred => true
  | manual | embedding => false

/-- `_edge_is_defref`. -/
def Edge.isDefref (e : Edge) : Bool :=
  e.extractionMethod.any ExtractionMethod.isGcExempt || e.relationshipType.isDefref

def Edge.isMentionDerived (e : Edge) : Bool :=
  e.relationshipType.isMentionDerived && !e.isDefref

def Edge.touches (e : Edge) (ids : List String) : Bool :=
  ids.contains e.sourceNodeId || ids.contains e.targetNodeId

def Node.subtypeEnds (n : Node) (suffix : String) : Bool :=
  n.entitySubtype.any fun subtype => suffix.toList.isSuffixOf subtype.toList

/-- It is a `code_symbol`. -/
def Node.isCodeSymbol (n : Node) : Bool := n.entityType = .codeSymbol

/-- `_node_is_module_pseudo`. -/
def Node.isModulePseudo (n : Node) : Bool := n.isCodeSymbol && n.subtypeEnds "-defref-module"

def Node.isOrdinaryCodeModule (n : Node) : Bool :=
  n.isCodeSymbol && n.subtypeEnds "-module" && !n.isModulePseudo

/-! ### Tables -/

structure Tables where
  nodes : Keyed Node.id
  edges : Keyed Edge.key
  mentions : List Mention

open Tables

def Tables.empty : Tables := ⟨Keyed.empty, Keyed.empty, []⟩

def Tables.nodeIds (g : Tables) : List String := g.nodes.items.map Node.id

/-- An edge as it is written: what is stored as `extracted` is not written as `inferred`. -/
def resolveMethod (stored : Keyed Edge.key) (e : Edge) : Edge :=
  if e.extractionMethod = some .inferred ∧
      (stored.get? e.key).bind Edge.extractionMethod = some .extracted then
    { e with extractionMethod := some .extracted }
  else e

/-- `write_graph`, its nodes. -/
def Tables.writeNodes (g : Tables) (nodes : List Node) : Tables :=
  { g with nodes := nodes.foldl Keyed.insert g.nodes }

/-- `write_graph`, its edges. -/
def Tables.writeEdges (g : Tables) (edges : List Edge) : Tables :=
  { g with edges := (edges.map (resolveMethod g.edges)).foldl Keyed.insert g.edges }

/-- `write_graph`. -/
def Tables.writeGraph (g : Tables) (nodes : List Node) (edges : List Edge) : Tables :=
  (g.writeNodes nodes).writeEdges edges

/-- `write_mentions`. -/
def Tables.writeMentions (g : Tables) (mentions : List Mention) : Tables :=
  { g with mentions := g.mentions ++ mentions }

/-- `delete_mentions_by_doc`. -/
def Tables.deleteMentionsByDoc (g : Tables) (doc : String) : Tables :=
  { g with mentions := g.mentions.filter fun m => m.docId ≠ doc }

/-! ### Deleting the rows of a document -/

def Tables.defrefEdges (g : Tables) (doc : String) : List Edge :=
  g.edges.items.filter fun e => e.sourceDocId = doc && e.isDefref

def Tables.endpointIds (g : Tables) (doc : String) : List String :=
  (g.defrefEdges doc).flatMap fun e => [e.sourceNodeId, e.targetNodeId]

/-- A node of the document that is not preserved, and that these are the ends of its def/ref
edges makes a def/ref node. -/
def Node.isCandidate (n : Node) (doc : String) (preserve : List String) (deleteOwned : Bool)
    (endpoints : List String) : Bool :=
  n.sourceDocId = doc && !preserve.contains n.id &&
    (endpoints.contains n.id && !n.isOrdinaryCodeModule || n.isModulePseudo ||
      deleteOwned && n.isCodeSymbol)

/-- `node_candidates`. -/
def Tables.isCandidate (g : Tables) (doc : String) (preserve : List String)
    (deleteOwned : Bool) (n : Node) : Bool :=
  n.isCandidate doc preserve deleteOwned (g.endpointIds doc)

/-- `shared_node_ids`: a module that the def/ref edges of another document use. -/
def Tables.isShared (g : Tables) (doc : String) (n : Node) : Bool :=
  n.isModulePseudo &&
    g.edges.items.any fun e => e.sourceDocId ≠ doc && e.isDefref && e.touches [n.id]

/-- `node_ids_to_delete`. -/
def Tables.doomedIds (g : Tables) (doc : String) (preserve : List String) (deleteOwned : Bool) :
    List String :=
  (g.nodes.items.filter fun n => g.isCandidate doc preserve deleteOwned n &&
    !g.isShared doc n).map Node.id

def Tables.deleteEdges (g : Tables) (p : Edge → Bool) : Tables :=
  { g with edges := g.edges.filter fun e => !p e }

def Tables.deleteNodes (g : Tables) (ids : List String) : Tables :=
  { g with nodes := g.nodes.filter fun n => !ids.contains n.id }

/-- `delete_defref_graph_by_doc`. -/
def Tables.deleteDefref (g : Tables) (doc : String) (preserve : List String)
    (deleteOwned : Bool) : Tables :=
  let doomed := g.doomedIds doc preserve deleteOwned
  (g.deleteEdges fun e => e.sourceDocId = doc && e.isDefref || e.touches doomed).deleteNodes doomed

/-- `delete_graph_by_doc`. -/
def Tables.deleteGraphByDoc (g : Tables) (doc : String) : Tables :=
  (g.deleteDefref doc [] false).deleteEdges fun e => e.sourceDocId = doc

/-- `_cleanup_graph_for_doc`. -/
def Tables.cleanupGraphForDoc (g : Tables) (doc : String) : Tables :=
  (g.deleteMentionsByDoc doc).deleteGraphByDoc doc

/-! ### Garbage collection -/

/-- `prune_stale_mentions`. -/
def Tables.pruneStaleMentions (g : Tables) (live : List String) : Tables :=
  { g with mentions := g.mentions.filter fun m => live.contains m.chunkId }

def Tables.isMentioned (g : Tables) (id : String) : Bool := g.mentions.any fun m => m.entityId = id

def Tables.isSupported (g : Tables) (e : Edge) : Bool :=
  g.mentions.any fun m => m.entityId = e.sourceNodeId &&
    g.mentions.any fun m' => m'.entityId = e.targetNodeId && m'.chunkId = m.chunkId

def Tables.isOrphan (g : Tables) (n : Node) : Bool :=
  !g.isMentioned n.id && !n.isModulePseudo &&
    !g.edges.items.any fun e => e.isDefref && e.touches [n.id]

/-- `orphan_node_ids`. -/
def Tables.orphanIds (g : Tables) : List String := (g.nodes.items.filter g.isOrphan).map Node.id

/-- `orphan_edge_ids`: the edges that go with an orphan, and those that nothing supports. -/
def Tables.isOrphanEdge (g : Tables) (e : Edge) : Bool :=
  !e.isDefref && e.touches g.orphanIds || e.isMentionDerived && !g.isSupported e

/-- `delete_orphan_nodes_and_edges`. -/
def Tables.deleteOrphans (g : Tables) (noLiveChunks : Bool) : Tables :=
  if g.mentions = [] ∧ noLiveChunks = false then g
  else
    (g.deleteEdges g.isOrphanEdge).deleteNodes g.orphanIds

/-- `_collect_graph_garbage`. -/
def Tables.collectGarbage (g : Tables) (live : List String) : Tables :=
  (g.pruneStaleMentions live).deleteOrphans live.isEmpty

/-! ### What the operations do -/

variable {g : Tables} {doc : String} {preserve live ids : List String} {deleteOwned : Bool}
  {n : Node} {e : Edge} {m : Mention}

@[simp] theorem Edge.touches_iff :
    e.touches ids = true ↔ e.sourceNodeId ∈ ids ∨ e.targetNodeId ∈ ids := by
  simp [Edge.touches]

@[simp] theorem key_resolveMethod (stored : Keyed Edge.key) (e : Edge) :
    (resolveMethod stored e).key = e.key := by
  unfold resolveMethod
  split <;> rfl

@[simp] theorem sourceDocId_resolveMethod (stored : Keyed Edge.key) (e : Edge) :
    (resolveMethod stored e).sourceDocId = e.sourceDocId := by
  unfold resolveMethod
  split <;> rfl

theorem map_key_resolveMethod (stored : Keyed Edge.key) (batch : List Edge) :
    (batch.map (resolveMethod stored)).map Edge.key = batch.map Edge.key := by
  rw [map_map]
  exact map_congr_left fun e _ => key_resolveMethod stored e

/-- An edge that was written replaces the one of its key. -/
theorem mem_writeEdges {batch : List Edge} (h : e ∈ (g.writeEdges batch).edges) :
    e ∈ g.edges ∧ e.key ∉ batch.map Edge.key ∨
      ∃ e' ∈ batch, e'.key = e.key ∧ e'.sourceDocId = e.sourceDocId := by
  rcases Keyed.mem_foldl_insert h with ⟨hm, hk⟩ | hm
  · rw [map_key_resolveMethod] at hk
    exact Or.inl ⟨hm, hk⟩
  · obtain ⟨e', he', rfl⟩ := mem_map.mp hm
    exact Or.inr ⟨e', he', (key_resolveMethod _ e').symm, (sourceDocId_resolveMethod _ e').symm⟩

theorem mem_deleteEdges {p : Edge → Bool} :
    e ∈ (g.deleteEdges p).edges ↔ e ∈ g.edges ∧ p e = false := by
  rw [deleteEdges, Keyed.mem_filter, Bool.not_eq_true']

theorem mem_deleteNodes : n ∈ (g.deleteNodes ids).nodes ↔ n ∈ g.nodes ∧ n.id ∉ ids := by
  rw [deleteNodes, Keyed.mem_filter]
  simp

variable {id : String}

theorem mem_doomedIds :
    id ∈ g.doomedIds doc preserve deleteOwned ↔ ∃ n ∈ g.nodes, n.id = id ∧
      g.isCandidate doc preserve deleteOwned n = true ∧ g.isShared doc n = false := by
  simp only [doomedIds, mem_map, mem_filter, Bool.and_eq_true, Bool.not_eq_true']
  constructor
  · rintro ⟨n, ⟨hn, hcan⟩, rfl⟩
    exact ⟨n, hn, rfl, hcan⟩
  · rintro ⟨n, hn, rfl, hcan⟩
    exact ⟨n, ⟨hn, hcan⟩, rfl⟩

/-- What is left of the edges by `delete_defref_graph_by_doc`. -/
theorem mem_deleteDefref_edges : e ∈ (g.deleteDefref doc preserve deleteOwned).edges ↔
    e ∈ g.edges ∧ ¬(e.sourceDocId = doc ∧ e.isDefref = true) ∧
      e.sourceNodeId ∉ g.doomedIds doc preserve deleteOwned ∧
      e.targetNodeId ∉ g.doomedIds doc preserve deleteOwned := by
  have heq : (g.deleteDefref doc preserve deleteOwned).edges = (g.deleteEdges fun e =>
      e.sourceDocId = doc && e.isDefref ||
        e.touches (g.doomedIds doc preserve deleteOwned)).edges := rfl
  rw [heq, mem_deleteEdges, Bool.or_eq_false_iff, ← Bool.not_eq_true, ← Bool.not_eq_true,
    Edge.touches_iff, not_or]
  simp

theorem mem_deleteDefref_nodes : n ∈ (g.deleteDefref doc preserve deleteOwned).nodes ↔
    n ∈ g.nodes ∧ n.id ∉ g.doomedIds doc preserve deleteOwned := mem_deleteNodes

/-- What is left of the edges by `delete_graph_by_doc`. -/
theorem mem_deleteGraphByDoc_edges : e ∈ (g.deleteGraphByDoc doc).edges ↔
    e ∈ g.edges ∧ e.sourceDocId ≠ doc ∧ e.sourceNodeId ∉ g.doomedIds doc [] false ∧
      e.targetNodeId ∉ g.doomedIds doc [] false := by
  rw [deleteGraphByDoc, mem_deleteEdges, mem_deleteDefref_edges]
  simp only [decide_eq_false_iff_not]
  constructor
  · rintro ⟨⟨he, -, hes⟩, hd⟩
    exact ⟨he, hd, hes⟩
  · rintro ⟨he, hd, hes⟩
    exact ⟨⟨he, fun h => hd h.1, hes⟩, hd⟩

theorem mem_deleteMentionsByDoc :
    m ∈ (g.deleteMentionsByDoc doc).mentions ↔ m ∈ g.mentions ∧ m.docId ≠ doc := by
  simp [deleteMentionsByDoc]

theorem mem_pruneStaleMentions :
    m ∈ (g.pruneStaleMentions live).mentions ↔ m ∈ g.mentions ∧ m.chunkId ∈ live := by
  simp [pruneStaleMentions]

theorem mem_orphanIds (hn : n ∈ g.nodes) : n.id ∈ g.orphanIds ↔ g.isOrphan n = true := by
  simp only [orphanIds, mem_map, mem_filter]
  constructor
  · rintro ⟨n', ⟨hn', horph⟩, hid⟩
    rwa [Keyed.eq_of_key_eq hn' hn hid] at horph
  · exact fun horph => ⟨n, ⟨hn, horph⟩, rfl⟩

theorem isMentioned_iff :
    g.isMentioned id = true ↔ ∃ m ∈ g.mentions, m.entityId = id := by
  simp [isMentioned]

end ArchonSearch.Graph
