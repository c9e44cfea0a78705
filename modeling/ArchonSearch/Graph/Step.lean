import ArchonSearch.Graph.Documents

/-!
# The calls that a graph is written by

What is done to a graph is a sequence of calls on its tables, and between two calls of one
operation any calls of others can come. `Call` lists them, with what the operation has read before:
the deletion of def/ref rows reads edges, then nodes, then edges again, and deletes edges and then
nodes in batches. An ingest writes nodes before edges, and the write of the def/ref rows looks up
the callees that a file does not define before it deletes the old rows.

The collection lock is held around the write of what the chunks mention and around the garbage
collection, and nowhere else. A call can fail, which ends its block (`Block`) and not the
operation.
-/

namespace ArchonSearch.Graph

open Lib List

/-! ### What is extracted from a file -/

/-- What the chunks of a document mention: an edge joins two entities that were found. -/
structure MentionGraph (doc : String) extends Extraction doc where
  edge_ends : ∀ e ∈ edges, e.sourceNodeId ∈ nodes.map Node.id ∧ e.targetNodeId ∈ nodes.map Node.id

/-- What the syntax tree of a file says, in `DefRefExtractor._build_result` before it looks
for other files. -/
structure ParsedFile (doc : String) where
  nodes : List Node
  edges : List Edge
  /-- `unresolved_calls` and `unresolved_inherits`: who refers to which name, and how. -/
  unresolved : List (String × RelationshipType × String)
  edge_doc : ∀ e ∈ edges, e.sourceDocId = doc
  edge_ends : ∀ e ∈ edges, e.sourceNodeId ∈ nodes.map Node.id ∧ e.targetNodeId ∈ nodes.map Node.id
  unresolved_source : ∀ u ∈ unresolved, u.1 ∈ nodes.map Node.id

def Node.isDefinitionOf (n : Node) (name : String) : Bool :=
  n.isCodeSymbol && !n.subtypeEnds "-import" && !n.subtypeEnds "-defref-module" &&
    n.entityName = name

def ParsedFile.inferred {doc : String} (f : ParsedFile doc) (stored : List Node) : List Edge :=
  f.unresolved.flatMap fun u => (stored.filter fun n => n.isDefinitionOf u.2.2).map fun n =>
    { sourceNodeId := u.1
      targetNodeId := n.id
      relationshipType := u.2.1
      sourceDocId := doc
      extractionMethod := some .inferred }

variable {stored : List Node} {doc : String}

theorem ParsedFile.mem_inferred {f : ParsedFile doc}
    {e : Edge} (h : e ∈ f.inferred stored) : e.sourceNodeId ∈ f.nodes.map Node.id ∧
      e.targetNodeId ∈ stored.map Node.id ∧ e.sourceDocId = doc := by
  obtain ⟨u, hu, he⟩ := mem_flatMap.mp h
  obtain ⟨n, hn, rfl⟩ := mem_map.mp he
  exact ⟨f.unresolved_source u hu, mem_map_of_mem (mem_filter.mp hn).1, rfl⟩

/-- `DefRefExtractor.extract`, where these nodes are stored. -/
def ParsedFile.extract {doc : String} (f : ParsedFile doc) (stored : List Node) :
    Extraction doc where
  nodes := f.nodes
  edges := (Keyed.ofList (f.edges ++ f.inferred stored) : Keyed Edge.key).items
  mentions := []
  edge_doc := by
    intro e he
    rcases mem_append.mp (Keyed.mem_of_mem_ofList he) with hown | hinferred
    · exact f.edge_doc e hown
    · exact (ParsedFile.mem_inferred hinferred).2.2
  mention_doc := fun _ hm => absurd hm not_mem_nil

/-- An edge of a file starts at a node of the file, and ends at one or at a stored node. -/
theorem ParsedFile.mem_extract {f : ParsedFile doc}
    {e : Edge} (h : e ∈ (f.extract stored).edges) : e.sourceNodeId ∈ f.nodes.map Node.id ∧
      (e.targetNodeId ∈ f.nodes.map Node.id ∨ e.targetNodeId ∈ stored.map Node.id) := by
  rcases mem_append.mp (Keyed.mem_of_mem_ofList h) with ho | hinf
  · exact ⟨(f.edge_ends e ho).1, Or.inl (f.edge_ends e ho).2⟩
  · obtain ⟨hsrc, htgt, -⟩ := ParsedFile.mem_inferred hinf
    exact ⟨hsrc, Or.inr htgt⟩

structure Parsed (doc : String) where
  /-- `_extraction_result`. -/
  mentioned : Option (MentionGraph doc)
  /-- `degraded`: only code symbols were looked for. -/
  degraded : Bool
  file : Option (ParsedFile doc)

/-! ### Calls -/

structure Batching where
  split : {α : Type} → List α → List (List α)
  flatten_split : ∀ {α : Type} (ids : List α), (split ids).flatten = ids

def slices {α : Type} (size : ℕ) : ℕ → List α → List (List α)
  | _, [] => []
  | 0, ids => [ids]
  | rounds + 1, ids => ids.take size :: slices size rounds (ids.drop size)

theorem flatten_slices {α : Type} (size rounds : ℕ) (ids : List α) :
    (slices size rounds ids).flatten = ids := by
  induction rounds generalizing ids with
  | zero => cases ids <;> simp [slices]
  | succ rounds ih =>
    cases ids with
    | nil => rfl
    | cons id ids =>
      have hslic : slices size (rounds + 1) (id :: ids) =
          (id :: ids).take size :: slices size rounds ((id :: ids).drop size) := rfl
      rw [hslic, flatten_cons, ih, take_append_drop]

/-- Batches of `_GC_DELETE_BATCH_SIZE`. -/
def gcDeleteBatches : Batching where
  split ids := slices 500 ids.length ids
  flatten_split ids := flatten_slices 500 ids.length ids

inductive EndpointCol where
  /-- `source_node_id`. -/
  | source
  /-- `target_node_id`. -/
  | target

structure Query where
  endpointCol : EndpointCol
  batch : List String

def Query.finds (q : Query) (e : Edge) : Bool :=
  match q.endpointCol with
  | .source => q.batch.contains e.sourceNodeId
  | .target => q.batch.contains e.targetNodeId

def Batching.queries (b : Batching) (ids : List String) : List Query :=
  (b.split ids).flatMap fun batch => [⟨.source, batch⟩, ⟨.target, batch⟩]

abbrev EdgeKey := String × String × RelationshipType

inductive Call where
  /-- `delete_mentions_by_doc`. -/
  | deleteMentions : (doc : String) → Call
  | writeMentions : List Mention → Call
  /-- `write_graph`, its nodes. -/
  | writeNodes : List Node → Call
  /-- `write_graph`, its edges: how the stored ones were extracted is read. -/
  | writeEdges : List Edge → Call
  | mergeEdges : List Edge → Call
  | extract : (doc : String) → ParsedFile doc → Call
  /-- `delete_defref_graph_by_doc`: the def/ref edges of the document are read. -/
  | deleteDefref : (doc : String) → (preserve : List String) → (deleteOwned : Bool) → Call
  | readNodes : (doc : String) → (preserve : List String) → (deleteOwned : Bool) →
      (defref : List Edge) → Call
  /-- It is asked who else uses the candidates: `shared_node_ids`. -/
  | readShared : (doc : String) → (preserve : List String) → (defref : List EdgeKey) →
      (candidates : List Node) → (shared : List String) → List Query → Call
  /-- The edges at the nodes that go are collected: `incident_edge_ids`. -/
  | readIncident : (preserve : List String) → (doomed : List String) → (found : List EdgeKey) →
      List Query → Call
  | purge : (preserve : List String) → (edges : List (List EdgeKey)) →
      (nodes : List (List String)) → Call
  /-- `delete_graph_by_doc`: all edges of the document are deleted. -/
  | deleteDocEdges : (doc : String) → Call
  /-- `_collect_graph_garbage`: the live chunks are listed. -/
  | listLive
  /-- `prune_stale_mentions`: the stale ones are read. -/
  | readStale : (live : List String) → Call
  | pruneMentions : (stale : List (List String)) → Call
  /-- `delete_orphan_nodes_and_edges`: the mentions are read. -/
  | readMentions : (noLiveChunks : Bool) → Call
  | scanNodes : List Mention → Call
  | scanEdges : List Mention → Keyed Node.id → Call

def Call.preserved : Call → List String
  | deleteDefref _ preserve _ | readNodes _ preserve _ _ | readShared _ preserve _ _ _ _
  | readIncident preserve _ _ _ | purge preserve _ _ => preserve
  | _ => []

/-- A call, and what the operation does instead of it afterwards. What `list_chunks_raw`
returns is given. -/
def Call.run (b : Batching) (live : List String) (g : Tables) : Call → Tables × List Call
  | deleteMentions doc => (g.deleteMentionsByDoc doc, [])
  | writeMentions mentions => (g.writeMentions mentions, [])
  | writeNodes nodes => (g.writeNodes nodes, [])
  | writeEdges edges => (g, [mergeEdges (edges.map (resolveMethod g.edges))])
  | mergeEdges edges => ({ g with edges := edges.foldl Keyed.insert g.edges }, [])
  | extract doc f =>
    let x := f.extract g.nodes.items
    (g, [deleteDefref doc (x.nodes.map Node.id) false, writeNodes x.nodes, writeEdges x.edges])
  | deleteDefref doc preserve owned =>
    (g, [readNodes doc preserve owned (g.defrefEdges doc)])
  | readNodes doc preserve owned defref =>
    let endpoints := defref.flatMap fun e => [e.sourceNodeId, e.targetNodeId]
    let candidates := g.nodes.items.filter fun n => n.isCandidate doc preserve owned endpoints
    (g, [readShared doc preserve (defref.map Edge.key) candidates []
      (b.queries (candidates.map Node.id))])
  | readShared doc preserve defref candidates shared (query :: queries) =>
    let incident := g.edges.items.filter fun e =>
      query.finds e && e.sourceDocId ≠ doc && e.isDefref
    let modules := (candidates.filter Node.isModulePseudo).map Node.id
    let used := (incident.flatMap fun e => [e.sourceNodeId, e.targetNodeId]).filter modules.contains
    (g, [readShared doc preserve defref candidates (shared ++ used) queries])
  | readShared _ preserve defref candidates shared [] =>
    let doomed := (candidates.map Node.id).filter fun id => !shared.contains id
    (g, [readIncident preserve doomed defref (b.queries doomed)])
  | readIncident preserve doomed found (query :: queries) =>
    let incident := (g.edges.items.filter query.finds).map Edge.key
    (g, [readIncident preserve doomed (found ++ incident) queries])
  | readIncident preserve doomed found [] =>
    (g, [purge preserve (b.split found.eraseDups) (b.split doomed)])
  | purge preserve (batch :: edges) nodes =>
    (g.deleteEdges fun e => batch.contains e.key, [purge preserve edges nodes])
  | purge preserve [] (batch :: nodes) => (g.deleteNodes batch, [purge preserve [] nodes])
  | purge _ [] [] => (g, [])
  | deleteDocEdges doc => (g.deleteEdges fun e => e.sourceDocId = doc, [])
  | listLive => (g, [readStale live, readMentions live.isEmpty])
  | readStale live =>
    let stale := (g.mentions.map Mention.chunkId).filter fun chunk => !live.contains chunk
    (g, [pruneMentions (b.split stale.eraseDups)])
  | pruneMentions (batch :: stale) =>
    ({ g with mentions := g.mentions.filter fun m => !batch.contains m.chunkId },
      [pruneMentions stale])
  | pruneMentions [] => (g, [])
  | readMentions noLiveChunks =>
    (g, if g.mentions = [] ∧ noLiveChunks = false then [] else [scanNodes g.mentions])
  | scanNodes mentions => (g, [scanEdges mentions g.nodes])
  | scanEdges mentions nodes =>
    let seen : Tables := ⟨nodes, g.edges, mentions⟩
    (g, [purge [] (b.split ((seen.edges.items.filter seen.isOrphanEdge).map Edge.key))
      (b.split seen.orphanIds)])

/-! ### Operations -/

/-- Calls that are made together: under the collection lock or not, and none after one that
fails. -/
structure Block where
  /-- `async with locked_collection`. -/
  locked : Bool
  calls : List Call

inductive Operation where
  /-- The graph writes of `_ingest_text`. -/
  | ingest : (doc : String) → Parsed doc → Operation
  /-- `_cleanup_graph_for_doc`. -/
  | cleanup : (doc : String) → Operation
  /-- `delete_graph_by_doc`. -/
  | deleteGraph : (doc : String) → Operation
  /-- `delete_defref_graph_by_doc`. -/
  | deleteDefref : (doc : String) → (preserve : List String) → (deleteOwned : Bool) → Operation
  /-- `_run_graph_gc`. -/
  | collectGarbage

/-- The calls of `delete_graph_by_doc`. -/
def deleteGraphCalls (doc : String) : List Call :=
  [.deleteDefref doc [] false, .deleteDocEdges doc]

def mentionBlock {doc : String} (degraded : Bool) (x : MentionGraph doc) : Block where
  locked := true
  calls := (if degraded then deleteGraphCalls doc else []) ++
    [.writeNodes x.nodes, .writeEdges x.edges, .deleteMentions doc, .writeMentions x.mentions]

def Operation.blocks : Operation → List Block
  | ingest doc found =>
    (found.mentioned.map (mentionBlock found.degraded)).toList ++
      (found.file.map fun f => { locked := false, calls := [.extract doc f] }).toList
  | cleanup doc => [⟨false, [.deleteMentions doc]⟩, ⟨false, deleteGraphCalls doc⟩]
  | deleteGraph doc => [⟨false, deleteGraphCalls doc⟩]
  | deleteDefref doc preserve owned => [⟨false, [.deleteDefref doc preserve owned]⟩]
  | collectGarbage => [⟨true, [.listLive]⟩]

structure Task where
  calls : List Call
  blocks : List Block

structure World (ι : Type) where
  tables : Tables
  holder : Option ι
  tasks : ι → Task

inductive Step (ι : Type) where
  | start : ι → Operation → Step ι
  | enter : ι → Step ι
  | call : ι → (live : List String) → Step ι
  | fail : ι → Step ι
  | skip : ι → Step ι
  | release : ι → Step ι

section World

variable {ι : Type} [DecidableEq ι]

def World.setTask (s : World ι) (i : ι) (task : Task) : World ι :=
  { s with tasks := Function.update s.tasks i task }

@[simp] theorem World.setTask_self (s : World ι) (i : ι) (task : Task) :
    (s.setTask i task).tasks i = task := Function.update_self ..

theorem World.setTask_of_ne (s : World ι) {i k : ι} (h : k ≠ i) (task : Task) :
    (s.setTask i task).tasks k = s.tasks k := Function.update_of_ne h ..

def step (b : Batching) (s : World ι) : Step ι → Option (World ι)
  | .start i operation =>
    match s.tasks i with
    | ⟨[], []⟩ => some (s.setTask i ⟨[], operation.blocks⟩)
    | _ => none
  | .enter i =>
    match s.tasks i with
    | ⟨[], block :: blocks⟩ =>
      if block.locked then
        if s.holder = none then
          some { s.setTask i ⟨block.calls, blocks⟩ with holder := some i }
        else none
      else if s.holder = some i then none
      else some (s.setTask i ⟨block.calls, blocks⟩)
    | _ => none
  | .call i live =>
    match s.tasks i with
    | ⟨call :: calls, blocks⟩ =>
      let (tables, next) := call.run b live s.tables
      some { s.setTask i ⟨next ++ calls, blocks⟩ with tables := tables }
    | _ => none
  | .fail i => some (s.setTask i ⟨[], (s.tasks i).blocks⟩)
  | .skip i =>
    match s.tasks i with
    | ⟨[], _ :: blocks⟩ => some (s.setTask i ⟨[], blocks⟩)
    | _ => none
  | .release i =>
    if s.holder = some i ∧ (s.tasks i).calls = [] then some { s with holder := none } else none

/-- No operation runs. -/
def World.IsIdle (s : World ι) : Prop :=
  s.holder = none ∧ ∀ i, (s.tasks i).calls = [] ∧ (s.tasks i).blocks = []

def World.init (ι : Type) : World ι := ⟨Tables.empty, none, fun _ => ⟨[], []⟩⟩

end World

end ArchonSearch.Graph
