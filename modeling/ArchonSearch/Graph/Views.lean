import ArchonSearch.Graph.Step
import ArchonSearch.Py.Str
import ArchonSearch.Search.Filters

/-!
# Views of a graph

What a namespace is shown of a graph follows the ACLs of the chunks it was read from. There are two
routines. `loadAclVisibleGraph` judges nodes and edges by the chunks that mention them, and by the
document that wrote them last where no chunk does. `computeImpact` knows of no chunks: it starts at
a symbol and follows edges whose last writers are visible.

The graph is built by ingests (`Collection.ingest`). Each replaces the chunks of its document, and
writes into the tables that all documents share.
-/

namespace ArchonSearch.Graph.Views

open Lib Py Search List

/-! ### What a namespace may not see -/

structure ChunkRow where
  (docId chunkId : String)
  acl : Option (List String)

/-- `ChunkVisibility`: only what is hidden is kept. -/
structure ChunkVisibility where
  (hiddenChunkIds hiddenDocIds : List String)

/-- `from_chunk_acls`. -/
def ChunkVisibility.fromChunkAcls (rows : List ChunkRow) (ns : String) : ChunkVisibility :=
  let hidden := rows.filter fun r => !isAclAllowed r.acl ns
  let visibleDocs := (rows.filter fun r => isAclAllowed r.acl ns).map ChunkRow.docId
  { hiddenChunkIds := hidden.map ChunkRow.chunkId
    hiddenDocIds := (hidden.map ChunkRow.docId).filter fun doc => !visibleDocs.contains doc }

/-- `chunk_visible`. -/
def ChunkVisibility.chunkVisible (v : ChunkVisibility) (chunkId : String) : Bool :=
  !v.hiddenChunkIds.contains chunkId

/-- `doc_visible`. -/
def ChunkVisibility.docVisible (v : ChunkVisibility) (docId : String) : Bool :=
  !v.hiddenDocIds.contains docId

/-! ### What the chunk ACL leaves of a graph -/

/-- `_AclVisibleGraph`. -/
structure VisibleGraph where
  nodes : List Node
  edges : List Edge
  entityChunks : String → List String
  mentionCount : ℕ
  mentionsCeilingHit : Bool

/-- `_MENTIONS_SCAN_CEILING`. -/
def mentionsScanCeiling : ℕ := 500000

def chunksOf (mentions : List Mention) (id : String) : List String :=
  (mentions.filter fun m => m.entityId = id).map Mention.chunkId

def cooccur (mentions : List Mention) (e : Edge) : Bool :=
  (chunksOf mentions e.sourceNodeId).any fun chunk =>
    (chunksOf mentions e.targetNodeId).contains chunk

/-- `_load_acl_visible_graph`. -/
def loadAclVisibleGraph (g : Tables) (visibility : ChunkVisibility) : VisibleGraph :=
  let mentions := g.mentions.take mentionsScanCeiling
  let visible := mentions.filter fun m => visibility.chunkVisible m.chunkId
  let nodes := g.nodes.items.filter fun n => !(chunksOf visible n.id).isEmpty ||
    (chunksOf mentions n.id).isEmpty && visibility.docVisible n.sourceDocId
  let hiddenNodeIds := g.nodeIds.filter fun id => !(nodes.map Node.id).contains id
  let edges := g.edges.items.filter fun e => !e.touches hiddenNodeIds &&
    if cooccur mentions e then cooccur visible e else visibility.docVisible e.sourceDocId
  { nodes := nodes
    edges := edges
    entityChunks := chunksOf visible
    mentionCount := mentions.length
    mentionsCeilingHit := mentionsScanCeiling ≤ mentions.length }

/-! ### What a change of a symbol reaches -/

/-- `ImpactDirection`. -/
inductive ImpactDirection where
  | callers
  | callees
  | both
  deriving DecidableEq

/-- `ImpactEdge`. -/
structure ImpactEdge where
  (entityId entityName : String)
  relationshipType : RelationshipType
  extractionMethod : Option ExtractionMethod
  depth : ℕ

/-- `ImpactGroup`. -/
structure ImpactGroup where
  (direct indirect : List ImpactEdge)
  truncated : Bool
  omittedCount : ℕ

/-- `ImpactResult`. -/
structure ImpactResult where
  symbol : String
  (callers callees : ImpactGroup)
  depthUsed : ℕ

/-- `MAX_IMPACT_DEPTH`. -/
def maxImpactDepth : ℤ := 5

/-- `MAX_IMPACT_GROUP_SIZE`. -/
def maxImpactGroupSize : ℕ := 50

/-- What `compute_impact` is asked. -/
structure ImpactQuery where
  symbol : String
  filePath : Option String
  depth : ℤ
  direction : ImpactDirection
  extractionMethodFilter : Option String

/-- What is looked up elsewhere: how strings are folded, the hash of an edge, and the scores. -/
structure Lookup where
  /-- `str.lower`. -/
  lower : String → String
  /-- `lower` of the database. -/
  sqlLower : String → String
  /-- `str.casefold`. -/
  casefold : String → String
  /-- `make_stable_edge_id`. -/
  edgeId : EdgeKey → String
  /-- `pagerank_score`, by the id of a node. -/
  pagerankScore : String → Option ℚ

/-- The value of `extraction_method`. -/
def methodValue : ExtractionMethod → String
  | .manual => "manual"
  | .embedding => "embedding"
  | .extracted => "extracted"
  | .inferred => "inferred"

def ImpactQuery.follows (q : ImpactQuery) (e : Edge) : Bool :=
  q.extractionMethodFilter.all fun method => e.extractionMethod.map methodValue = some method

/-- `(score is None, -(score or 0.0), id)` is smaller. -/
def rankedBefore (x y : Option ℚ × String) : Bool :=
  match x.1, y.1 with
  | some s, some t => t < s || s = t && x.2 < y.2
  | some _, none => true
  | none, some _ => false
  | none, none => x.2 < y.2

/-- `_highest_pagerank_node`. -/
def highestPagerankNode (look : Lookup) : List Node → Option Node
  | [] => none
  | n :: nodes => some <| nodes.foldl (fun best n =>
      if rankedBefore (look.pagerankScore n.id, n.id) (look.pagerankScore best.id, best.id) then n
      else best) n

/-- `/` and `\`. -/
def isPathSeparator (c : Char) : Bool := c = '/' || c = '\\'

/-- The path with `/` as its separator. -/
def slashed (path : String) : List Char := path.toList.map fun c => if c = '\\' then '/' else c

/-- `_source_path_matches`. -/
def sourcePathMatches (look : Lookup) (stored : Option String) (query : String) : Bool :=
  match stored with
  | none | some "" => false
  | some stored =>
    let s := look.casefold (strip stored)
    let q := look.casefold (strip query)
    if q = "" then false
    else if s = q then true
    else if q.toList.any isPathSeparator then ('/' :: slashed q).isSuffixOf (slashed s)
    else (reSplit isPathSeparator s).getLast? = some q

/-- `_resolve_impact_root`, which is only called if there are candidates. -/
def resolveImpactRoot (look : Lookup) (candidates : List Node) (filePath : Option String) :
    Option Node :=
  match filePath with
  | none => highestPagerankNode look candidates
  | some filePath =>
    if strip filePath = "" || candidates.all fun n => n.sourcePath.isNone then
      highestPagerankNode look candidates
    else highestPagerankNode look
      (candidates.filter fun n => sourcePathMatches look n.sourcePath filePath)

/-- `_traverse_impact` for callees, or for callers. -/
inductive Side where
  | callers
  | callees

/-- `frontier_id`. -/
def Side.frontierId (side : Side) (e : Edge) : String :=
  match side with
  | .callers => e.targetNodeId
  | .callees => e.sourceNodeId

/-- `neighbour_id`. -/
def Side.neighbourId (side : Side) (e : Edge) : String :=
  match side with
  | .callers => e.sourceNodeId
  | .callees => e.targetNodeId

structure Walk where
  (visited frontier : List String)
  (direct indirect : List ImpactEdge)
  depthUsed : ℕ

/-- An edge of a hop: of those that reach a node, the one with the smallest id is kept. -/
def Walk.reach (look : Lookup) (side : Side) (w : Walk) (next : Dict String Edge) (e : Edge) :
    Dict String Edge :=
  if w.frontier.contains (side.frontierId e) && !w.visited.contains (side.neighbourId e) then
    match Dict.get next (side.neighbourId e) with
    | none => next.insert (side.neighbourId e, e)
    | some existing =>
      if look.edgeId e.key < look.edgeId existing.key then next.insert (side.neighbourId e, e)
      else next
  else next

/-- `next_hop`. -/
def Walk.nextHop (look : Lookup) (side : Side) (w : Walk) (edges : List Edge) :
    Dict String Edge :=
  edges.foldl (w.reach look side) Keyed.empty

/-- `_pagerank_sort_key`. -/
def sortKey (look : Lookup) (nodeAt : String → Option Node) (id : String) : Option ℚ × String :=
  ((nodeAt id).bind fun n => look.pagerankScore n.id, id)

/-- Sorted by `_pagerank_sort_key`. -/
def sortRanked {α : Type} (look : Lookup) (nodeAt : String → Option Node) (id : α → String)
    (l : List α) : List α :=
  ((l.map fun a => (sortKey look nodeAt (id a), a)).mergeSort fun a b =>
    !rankedBefore b.1 a.1).map Prod.snd

def Walk.hop (look : Lookup) (nodeAt : String → Option Node) (depth : ℕ)
    (next : Dict String Edge) (w : Walk) : Walk :=
  let keys := next.items.map Prod.fst
  let found := next.items.map fun entry =>
    { entityId := entry.1
      entityName := (nodeAt entry.1).elim entry.1 Node.entityName
      relationshipType := entry.2.relationshipType
      extractionMethod := entry.2.extractionMethod
      depth := depth }
  { visited := w.visited ++ keys
    frontier := if maxImpactGroupSize < keys.length then
        (sortRanked look nodeAt id keys).take maxImpactGroupSize
      else keys
    direct := if depth = 1 then w.direct ++ found else w.direct
    indirect := if depth = 1 then w.indirect else w.indirect ++ found
    depthUsed := depth }

/-- The loop of `_traverse_impact`, for so many hops from a depth on. -/
def Walk.run (look : Lookup) (edgesAt : List String → List Edge)
    (nodeAt : String → Option Node) (side : Side) : ℕ → ℕ → Walk → Walk
  | 0, _, w => w
  | hops + 1, depth, w =>
    if w.frontier.isEmpty then w
    else
      let next := w.nextHop look side (edgesAt w.frontier)
      if next.items.isEmpty then w
      else Walk.run look edgesAt nodeAt side hops (depth + 1) (w.hop look nodeAt depth next)

def cappedGroup (direct indirect : List ImpactEdge) : ImpactGroup :=
  let total := direct.length + indirect.length
  if maxImpactGroupSize < total then
    let keptDirect := direct.take maxImpactGroupSize
    let keptIndirect := indirect.take (maxImpactGroupSize - keptDirect.length)
    ⟨keptDirect, keptIndirect, true, total - (keptDirect.length + keptIndirect.length)⟩
  else ⟨direct, indirect, false, 0⟩

/-- `_traverse_impact`. -/
def traverseImpact (look : Lookup) (edgesAt : List String → List Edge)
    (nodeAt : String → Option Node) (rootId : String) (effectiveDepth : ℤ) (side : Side) :
    ImpactGroup × ℕ :=
  let w := Walk.run look edgesAt nodeAt side effectiveDepth.toNat 1 ⟨[rootId], [rootId], [], [], 0⟩
  (cappedGroup (sortRanked look nodeAt ImpactEdge.entityId w.direct)
    (sortRanked look nodeAt ImpactEdge.entityId w.indirect), w.depthUsed)

/-- `empty_group`. -/
def emptyGroup : ImpactGroup := ⟨[], [], false, 0⟩

def impactCandidates (look : Lookup) (g : Tables) (visibility : ChunkVisibility)
    (symbol : String) : List Node :=
  g.nodes.items.filter fun n => look.sqlLower n.entityName = look.lower symbol &&
    n.isCodeSymbol && visibility.docVisible n.sourceDocId

def impactEdges (g : Tables) (visibility : ChunkVisibility) (q : ImpactQuery)
    (frontier : List String) : List Edge :=
  g.edges.items.filter fun e => e.touches frontier && q.follows e &&
    visibility.docVisible e.sourceDocId

/-- What `compute_impact` does once there is a root. -/
def impactFrom (look : Lookup) (edgesAt : List String → List Edge)
    (nodeAt : String → Option Node) (q : ImpactQuery) (rootId : String) : ImpactResult :=
  let effectiveDepth := min q.depth maxImpactDepth
  let callers := if q.direction = .callees then (emptyGroup, 0)
    else traverseImpact look edgesAt nodeAt rootId effectiveDepth .callers
  let callees := if q.direction = .callers then (emptyGroup, 0)
    else traverseImpact look edgesAt nodeAt rootId effectiveDepth .callees
  ⟨q.symbol, callers.1, callees.1, max callers.2 callees.2⟩

/-- `compute_impact`. -/
def computeImpact (look : Lookup) (g : Tables) (visibility : ChunkVisibility) (q : ImpactQuery) :
    ImpactResult :=
  match resolveImpactRoot look (impactCandidates look g visibility q.symbol) q.filePath with
  | none => ⟨q.symbol, emptyGroup, emptyGroup, 0⟩
  | some root => impactFrom look (impactEdges g visibility q) g.nodes.get? q root.id

/-! ### What a traversal looks at -/

section Walk

variable {look : Lookup} {side : Side} {w : Walk} {nodeAt nodeAt' : String → Option Node}
  {edgesAt edgesAt' : List String → List Edge} {S : String → Prop}

theorem mem_sortRanked {α : Type} {id : α → String} {l : List α} {a : α}
    (h : a ∈ sortRanked look nodeAt id l) : a ∈ l := by
  obtain ⟨b, hb, rfl⟩ := mem_map.mp h
  obtain ⟨a, ha, rfl⟩ := mem_map.mp (mem_mergeSort.mp hb)
  exact ha

theorem sortRanked_congr {α : Type} {id : α → String} {l : List α}
    (h : ∀ a ∈ l, nodeAt (id a) = nodeAt' (id a)) :
    sortRanked look nodeAt id l = sortRanked look nodeAt' id l := by
  have hks : (l.map fun a => (sortKey look nodeAt (id a), a)) =
      l.map fun a => (sortKey look nodeAt' (id a), a) :=
    map_congr_left fun a ha => by rw [sortKey, sortKey, h a ha]
  rw [sortRanked, sortRanked, hks]

theorem mem_nextHop {edges : List Edge} {entry : String × Edge}
    (h : entry ∈ w.nextHop look side edges) : ∃ e ∈ edges, entry.1 = side.neighbourId e := by
  have hfold : ∀ (edges : List Edge) (next : Dict String Edge),
      entry ∈ edges.foldl (w.reach look side) next →
        entry ∈ next ∨ ∃ e ∈ edges, entry.1 = side.neighbourId e := by
    intro edges
    induction edges with
    | nil => exact fun next h => Or.inl h
    | cons e edges ih =>
      intro next h
      rcases ih _ h with hs | ⟨e', he', heq⟩
      · have hreach : entry ∈ next ∨ entry = (side.neighbourId e, e) := by
          unfold Walk.reach at hs
          split at hs
          · split at hs
            · exact (Keyed.mem_insert.mp hs).symm.imp_left And.left
            · split at hs
              · exact (Keyed.mem_insert.mp hs).symm.imp_left And.left
              · exact Or.inl hs
          · exact Or.inl hs
        rcases hreach with hold | rfl
        · exact Or.inl hold
        · exact Or.inr ⟨e, mem_cons_self, rfl⟩
      · exact Or.inr ⟨e', mem_cons_of_mem _ he', heq⟩
  exact (hfold edges Keyed.empty h).resolve_left (Keyed.notMem_empty entry)

def Walk.Within (S : String → Prop) (w : Walk) : Prop :=
  (∀ id ∈ w.frontier, S id) ∧ (∀ entry ∈ w.direct, S entry.entityId) ∧
    ∀ entry ∈ w.indirect, S entry.entityId

variable {next : Dict String Edge}

theorem Walk.Within.hop (h : w.Within S)
    (hx : ∀ entry ∈ next, S entry.1) (depth : ℕ) :
    (w.hop look nodeAt depth next).Within S := by
  have hks : ∀ id ∈ next.items.map Prod.fst, S id := by
    intro id hid
    obtain ⟨entry, hent, rfl⟩ := mem_map.mp hid
    exact hx entry hent
  have hfnd {found old : List ImpactEdge} (hold : ∀ entry ∈ old, S entry.entityId)
      (hsub : ∀ entry ∈ found, entry.entityId ∈ next.items.map Prod.fst) :
      ∀ entry ∈ old ++ found, S entry.entityId := by
    intro entry hent
    rcases mem_append.mp hent with hent | hent
    · exact hold entry hent
    · exact hks _ (hsub entry hent)
  refine ⟨?_, ?_, ?_⟩
  · simp only [Walk.hop]
    split
    · exact fun id hid => hks id (mem_sortRanked (mem_of_mem_take hid))
    · exact hks
  · simp only [Walk.hop]
    split
    · refine hfnd h.2.1 fun entry hent => ?_
      obtain ⟨pair, hpr, rfl⟩ := mem_map.mp hent
      exact mem_map_of_mem hpr
    · exact h.2.1
  · simp only [Walk.hop]
    split
    · exact h.2.2
    · refine hfnd h.2.2 fun entry hent => ?_
      obtain ⟨pair, hpr, rfl⟩ := mem_map.mp hent
      exact mem_map_of_mem hpr

theorem Walk.hop_congr (hn : ∀ id, S id → nodeAt id = nodeAt' id)
    (hx : ∀ entry ∈ next, S entry.1) (depth : ℕ) :
    w.hop look nodeAt depth next = w.hop look nodeAt' depth next := by
  have hks : sortRanked look nodeAt id (next.items.map Prod.fst) =
      sortRanked look nodeAt' id (next.items.map Prod.fst) := by
    refine sortRanked_congr fun id hid => ?_
    obtain ⟨entry, hent, rfl⟩ := mem_map.mp hid
    exact hn _ (hx entry hent)
  have hfnd : (next.items.map fun entry => (⟨entry.1,
        (nodeAt entry.1).elim entry.1 Node.entityName, entry.2.relationshipType,
        entry.2.extractionMethod, depth⟩ : ImpactEdge)) =
      next.items.map fun entry => ⟨entry.1, (nodeAt' entry.1).elim entry.1 Node.entityName,
        entry.2.relationshipType, entry.2.extractionMethod, depth⟩ :=
    map_congr_left fun entry hent => by rw [hn _ (hx entry hent)]
  simp only [Walk.hop, hks, hfnd]

/-- **A walk stays where edges lead**, and depends on nothing else. -/
theorem Walk.run_congr
    (hes : ∀ frontier, (∀ id ∈ frontier, S id) → edgesAt frontier = edgesAt' frontier)
    (hcls : ∀ frontier, (∀ id ∈ frontier, S id) → ∀ e ∈ edgesAt frontier,
      S e.sourceNodeId ∧ S e.targetNodeId)
    (hn : ∀ id, S id → nodeAt id = nodeAt' id) (hops depth : ℕ) (h : w.Within S) :
    Walk.run look edgesAt nodeAt side hops depth w =
        Walk.run look edgesAt' nodeAt' side hops depth w ∧
      (Walk.run look edgesAt nodeAt side hops depth w).Within S := by
  induction hops generalizing depth w with
  | zero => exact ⟨rfl, h⟩
  | succ hops ih =>
    have hx : ∀ entry ∈ w.nextHop look side (edgesAt w.frontier), S entry.1 := by
      intro entry hent
      obtain ⟨e, he, heq⟩ := mem_nextHop hent
      rw [heq]
      cases side
      · exact (hcls w.frontier h.1 e he).1
      · exact (hcls w.frontier h.1 e he).2
    simp only [Walk.run]
    rw [← hes w.frontier h.1, ← Walk.hop_congr hn hx]
    split
    · exact ⟨rfl, h⟩
    · split
      · exact ⟨rfl, h⟩
      · exact ih (depth + 1) (h.hop hx depth)

theorem traverseImpact_congr {root : String} {effectiveDepth : ℤ}
    (hes : ∀ frontier, (∀ id ∈ frontier, S id) → edgesAt frontier = edgesAt' frontier)
    (hcls : ∀ frontier, (∀ id ∈ frontier, S id) → ∀ e ∈ edgesAt frontier,
      S e.sourceNodeId ∧ S e.targetNodeId)
    (hn : ∀ id, S id → nodeAt id = nodeAt' id) (hroot : S root) :
    traverseImpact look edgesAt nodeAt root effectiveDepth side =
      traverseImpact look edgesAt' nodeAt' root effectiveDepth side := by
  have hst : (⟨[root], [root], [], [], 0⟩ : Walk).Within S :=
    ⟨fun id hid => by rwa [mem_singleton.mp hid],
      fun entry hent => absurd hent not_mem_nil,
      fun entry hent => absurd hent not_mem_nil⟩
  have hwalk : Walk.run look edgesAt nodeAt side effectiveDepth.toNat 1 _ =
        Walk.run look edgesAt' nodeAt' side effectiveDepth.toNat 1 _ ∧
      (Walk.run look edgesAt nodeAt side effectiveDepth.toNat 1 _).Within S :=
    Walk.run_congr hes hcls hn effectiveDepth.toNat 1 hst
  obtain ⟨hr, -, hdir, hind⟩ := hwalk
  simp only [traverseImpact, ← hr]
  rw [sortRanked_congr fun entry hent => hn _ (hdir entry hent),
    sortRanked_congr fun entry hent => hn _ (hind entry hent)]

theorem mem_of_highestPagerankNode {nodes : List Node} {n : Node}
    (h : highestPagerankNode look nodes = some n) : n ∈ nodes := by
  cases nodes with
  | nil => cases h
  | cons first rest =>
    have hfold : ∀ (rest : List Node) (best : Node), rest.foldl (fun best n =>
        if rankedBefore (look.pagerankScore n.id, n.id) (look.pagerankScore best.id, best.id)
        then n else best) best ∈ best :: rest := by
      intro rest
      induction rest with
      | nil => exact fun best => mem_cons_self
      | cons n rest ih =>
        intro best
        rw [foldl_cons]
        split
        · exact mem_cons_of_mem best (ih n)
        · rcases mem_cons.mp (ih best) with heq | hrs
          · rw [heq]
            exact mem_cons_self
          · exact mem_cons_of_mem best (mem_cons_of_mem n hrs)
    exact Option.some.inj h ▸ hfold rest first

theorem mem_of_resolveImpactRoot {candidates : List Node} {filePath : Option String} {n : Node}
    (h : resolveImpactRoot look candidates filePath = some n) : n ∈ candidates := by
  cases filePath with
  | none => exact mem_of_highestPagerankNode h
  | some filePath =>
    simp only [resolveImpactRoot] at h
    split at h
    · exact mem_of_highestPagerankNode h
    · exact (mem_filter.mp (mem_of_highestPagerankNode h)).1

end Walk

/-! ### How a graph is built -/

section Found

variable {doc : String}

def mentionedNodes (found : Parsed doc) : List Node := found.mentioned.elim [] fun x => x.nodes

def relations (found : Parsed doc) : List Edge := found.mentioned.elim [] fun x => x.edges

def mentions (found : Parsed doc) : List Mention := found.mentioned.elim [] fun x => x.mentions

def symbols (found : Parsed doc) : List Node := found.file.elim [] ParsedFile.nodes

def symbolEdges (found : Parsed doc) : List Edge := found.file.elim [] ParsedFile.edges

def references (found : Parsed doc) : List String :=
  found.file.elim [] fun f => f.unresolved.map fun u => u.2.2

def foundNodes (found : Parsed doc) : List Node := mentionedNodes found ++ symbols found

end Found

structure Naming where
  /-- `make_stable_entity_id`: the type of a node. -/
  typeOf : String → EntityType
  /-- `_module_symbol_id`: a node is the module of a file. -/
  isModuleId : String → Bool
  docOf : String → String

structure Ingest (ids : Naming) where
  /-- `doc_id`. -/
  doc : String
  /-- `resolved_acl`. -/
  acl : Option (List String)
  chunks : List String
  found : Parsed doc
  chunks_ne : chunks ≠ []
  chunk_doc : ∀ chunk ∈ chunks, ids.docOf chunk = doc
  node_doc : ∀ n ∈ foundNodes found, n.sourceDocId = doc
  node_type : ∀ n ∈ foundNodes found, n.entityType = ids.typeOf n.id
  node_module : ∀ n ∈ foundNodes found, n.isModulePseudo = ids.isModuleId n.id
  symbol : ∀ n ∈ symbols found, n.entityType = .codeSymbol
  symbolEdge : ∀ e ∈ symbolEdges found, e.isDefref = true
  relation_method : ∀ e ∈ relations found, e.extractionMethod = none
  relation_type : ∀ e ∈ relations found, ids.typeOf e.sourceNodeId ≠ .codeSymbol ∧
    ids.typeOf e.targetNodeId ≠ .codeSymbol
  mention_node : ∀ m ∈ mentions found, m.entityId ∈ (mentionedNodes found).map Node.id
  mention_chunk : ∀ m ∈ mentions found, m.chunkId ∈ chunks

/-- The graph writes of `_ingest_text`, one after the other: a file is parsed, and other files are
looked for, once what its chunks mention is written. -/
def ingestText (g : Tables) {doc : String} (found : Parsed doc) : Tables :=
  let g := found.mentioned.elim g fun x => g.writeMentioned found.degraded x.toExtraction
  found.file.elim g fun f => g.writeDefref (f.extract g.nodes.items)

structure Collection where
  graph : Tables
  chunks : List ChunkRow

def Collection.empty : Collection := ⟨Tables.empty, []⟩

variable {ids : Naming}

def Collection.ingest (c : Collection) (i : Ingest ids) : Collection where
  graph := ingestText c.graph i.found
  chunks := (c.chunks.filter fun r => r.docId ≠ i.doc) ++
    i.chunks.map fun chunk => ⟨i.doc, chunk, i.acl⟩

def collectionOf (history : List (Ingest ids)) : Collection :=
  history.foldl Collection.ingest Collection.empty

/-- `get_chunk_visibility`. -/
def Collection.visibility (c : Collection) (ns : String) : ChunkVisibility :=
  .fromChunkAcls c.chunks ns

def Collection.view (c : Collection) (ns : String) : VisibleGraph :=
  loadAclVisibleGraph c.graph (c.visibility ns)

def Collection.impact (look : Lookup) (c : Collection) (ns : String) (q : ImpactQuery) :
    ImpactResult :=
  computeImpact look c.graph (c.visibility ns) q

end ArchonSearch.Graph.Views
