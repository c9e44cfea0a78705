import ArchonSearch.Graph.DefRef
import ArchonSearch.Lib.Batches

/-!
# What is extracted from the chunks of a document

`GraphExtractor.extract` makes a graph of a document: a symbol for each chunk of code, and for a
chunk of prose the entities that an engine lists for it, with the relations that the engine finds
between two spans of it. Entities that are listed for one chunk are linked by a `related_to` edge.
A relation comes with the texts of its spans only, and is attached to the entity that was listed
last with the text.

So a relation is attached as the engine has linked it exactly if the last entity of either text is
that of the span (`extract_consistent_iff`). A text that is listed under two labels stands for
the second one (`relation_astray`). What else is to be expected of the graph it keeps in any case.
-/

namespace ArchonSearch.Graph.Extract

open Lib Py Upsert DefRef List

/-! ### What the engine finds -/

/-- A `raw_entity`, or an end of a `raw_relation`; also an `ExtractedEntity`. -/
structure Span where
  (text label : String)

/-- A `raw_relation`. -/
structure RawRelation where
  (head tail : Span)
  relation : String

/-- An `ExtractedRelation`. -/
structure ExtractedRelation where
  (head tail label : String)
  deriving DecidableEq

/-- What the engine returns for one text. -/
abbrev RawChunk := List Span × List RawRelation

def textBefore (sep : List Char) : List Char → List Char
  | [] => []
  | c :: l => if sep.isPrefixOf (c :: l) then [] else c :: textBefore sep l

/-- `_strip_label`. -/
def stripLabel (label : String) : String :=
  String.ofList (textBefore " <> ".toList label.toList)

/-- `_REAL_ENTITY_LABELS`. -/
def realEntityLabels : List String :=
  [EntityType.person, .concept, .system, .event].map entityTypeValue

/-- `entities` of a chunk in `_infer_sync`. -/
def entities (raw : RawChunk) : List Span :=
  (raw.1.map fun s => { s with label := stripLabel s.label }).filter fun s =>
    s.label ∈ realEntityLabels

/-- Whether both ends of a relation have a real label. -/
def RawRelation.isReal (r : RawRelation) : Bool :=
  stripLabel r.head.label ∈ realEntityLabels && stripLabel r.tail.label ∈ realEntityLabels

def RawRelation.extracted (r : RawRelation) : ExtractedRelation :=
  ⟨r.head.text, r.tail.text, stripLabel r.relation⟩

/-- `relations` of a chunk in `_infer_sync`; `_dedupe_relations` keeps the first of each. -/
def relations (raw : RawChunk) : List ExtractedRelation :=
  ((raw.2.filter RawRelation.isReal).map RawRelation.extracted).eraseDups

/-- `GRAPH_NER_SUB_BATCH_SIZE`. -/
def graphNerSubBatchSize : ℕ := 8

/-- `_infer_sync`: what `self._model.inference` returns for all texts, cut to the window, if it
does not raise and returns as many lists as it was given texts. -/
def inferSync (inference : List String → Option (List (List Span) × List (List RawRelation)))
    (texts : List String) : Option (List RawChunk) := do
  let parts ← (batches graphNerSubBatchSize texts).mapM fun subBatch => do
    let (batchEntities, batchRelations) ← inference subBatch
    if batchEntities.length = batchRelations.length then
      some (batchEntities.zip batchRelations)
    else none
  if parts.flatten.length = texts.length then some parts.flatten else none

/-! ### `extract` -/

/-- `ChunkInput`. -/
structure ChunkInput where
  (chunkId text : String)
  (symbolType symbolSubtype containingFunction containingClass sourcePath : Option String)

/-- A call of `extract`: its arguments, what `_ensure_backend` returns, and what the model
returns for some texts, or raises. -/
structure Call where
  chunks : List ChunkInput
  (docId collection : String)
  loadWarning : Option String
  inference : List String → Option (List (List Span) × List (List RawRelation))

/-- A node comes without an embedding and a score. -/
abbrev Node := GraphNode Empty Empty

/-- `GraphExtractionResult`. -/
structure GraphExtractionResult where
  nodes : List Node
  edges : List GraphEdge
  mentions : List Mention
  warnings : List String
  degraded : Bool

/-- A text, unless it is missing or empty. -/
def given (text : Option String) : Option String := text.filter (· ≠ "")

/-- `Path(path).stem`. -/
def stem (path : String) : String :=
  let name := ((path.toList.splitOn '/').filter fun part =>
    part ≠ [] ∧ part ≠ ['.']).getLastD []
  let suffix := (name.reverse.takeWhile (· ≠ '.')).length
  String.ofList (if 0 < suffix ∧ suffix + 1 < name.length then
    name.take (name.length - suffix - 1) else name)

/-- `_code_symbol_name`. -/
def codeSymbolName (c : ChunkInput) : String :=
  ((given c.containingFunction).or ((given c.containingClass).or
    ((given c.sourcePath).map stem))).getD ("unknown:" ++ c.chunkId)

/-- `EntityType(label)`. -/
def entityTypeOf (label : String) : Option EntityType :=
  [EntityType.person, .concept, .system, .event, .codeSymbol].find? fun t =>
    entityTypeValue t = label

/-- `RelationshipType(label)`. -/
def relationshipTypeOf (label : String) : Option RelationshipType :=
  [RelationshipType.uses, .implements, .dependsOn, .relatedTo, .synonymOf, .calls, .imports,
    .defines, .inherits].find? fun t => relationshipTypeValue t = label

/-- `BACKEND_UNAVAILABLE_DETAIL` and its like come from `_ensure_backend`; this is
`_INFERENCE_FAILED_DETAIL`. -/
def inferenceFailedDetail : String :=
  "graph prose entity/relation extraction failed; prose entity extraction " ++
    "was skipped for this document (code-symbol extraction is unaffected)."

variable (hashing : Hashing) (call : Call)

/-- `code_chunks`. -/
def Call.codeChunks : List ChunkInput := call.chunks.filter fun c => (given c.symbolType).isSome

/-- `text_chunks`. -/
def Call.textChunks : List ChunkInput := call.chunks.filter fun c => (given c.symbolType).isNone

/-- The chunks of prose with what the engine finds in them, and the warning if prose extraction
degrades. -/
def Call.prose : List (ChunkInput × RawChunk) × Option String :=
  if call.textChunks = [] then ([], none)
  else
    match call.loadWarning with
    | some warning => ([], some warning)
    | none =>
      match inferSync call.inference (call.textChunks.map ChunkInput.text) with
      | none => ([], some inferenceFailedDetail)
      | some batch => (call.textChunks.zip batch, none)

/-- The node of a chunk of code. -/
def codeNode (c : ChunkInput) : Node where
  id := makeStableEntityId hashing (entityTypeValue .codeSymbol)
    (makeCodeSymbolQualifiedName (codeSymbolName c) c.sourcePath)
  entityName := codeSymbolName c
  entityType := .codeSymbol
  sourceDocId := call.docId
  collectionName := call.collection
  entitySubtype := c.symbolSubtype
  nameEmbedding := none
  pagerankScore := none
  sourcePath := c.sourcePath

/-- The node of an entity; a label that is none of an `EntityType` is skipped. -/
def entityNode (entity : Span) : Option Node :=
  (entityTypeOf entity.label).map fun entityType =>
    { id := makeStableEntityId hashing (entityTypeValue entityType) entity.text
      entityName := entity.text
      entityType := entityType
      sourceDocId := call.docId
      collectionName := call.collection
      entitySubtype := none
      nameEmbedding := none
      pagerankScore := none
      sourcePath := none }

/-- The loop over the entities of a chunk. -/
def proseNodes (raw : RawChunk) : List Node := (entities raw).filterMap (entityNode hashing call)

/-- `name_to_id`, where the last entity of a text counts. -/
def nameToId (raw : RawChunk) (text : String) : Option String :=
  ((proseNodes hashing call raw).reverse.find? fun n => n.entityName = text).map GraphNode.id

/-- `_build_typed_relation_edge`. -/
def buildTypedRelationEdge (srcId tgtId label docId : String) : Option GraphEdge :=
  if label = relationshipTypeValue .relatedTo then none
  else if srcId = tgtId then none
  else (relationshipTypeOf label).map fun relationshipType =>
    ⟨makeStableEdgeId hashing srcId tgtId label, srcId, tgtId, relationshipType, docId, none⟩

/-- The loop over the relations of a chunk. -/
def relationEdge (raw : RawChunk) (relation : ExtractedRelation) : Option GraphEdge := do
  let srcId ← nameToId hashing call raw relation.head
  let tgtId ← nameToId hashing call raw relation.tail
  buildTypedRelationEdge hashing srcId tgtId relation.label call.docId

/-- `itertools.combinations(l, 2)`. -/
def combinations : List String → List (String × String)
  | [] => []
  | a :: l => l.map (fun b => (a, b)) ++ combinations l

/-- The edges between the entities of a chunk. -/
def relatedEdges (ids : List String) : List GraphEdge :=
  (combinations (ids.dedup.insertionSort (· ≤ ·))).map fun pair =>
    ⟨makeStableEdgeId hashing pair.1 pair.2 (relationshipTypeValue .relatedTo), pair.1, pair.2,
      .relatedTo, call.docId, none⟩

/-- `chunk_entity_ids`. -/
def chunkEntityIds : List (List String) :=
  call.codeChunks.map (fun c => [(codeNode hashing call c).id]) ++
    call.prose.1.map fun p => (proseNodes hashing call p.2).map GraphNode.id

/-- The nodes in the order in which they come up. -/
def allNodes : List Node :=
  call.codeChunks.map (codeNode hashing call) ++
    call.prose.1.flatMap fun p => proseNodes hashing call p.2

def allRelated : List GraphEdge :=
  (chunkEntityIds hashing call).flatMap (relatedEdges hashing call)

def allTyped : List GraphEdge :=
  call.prose.1.flatMap fun p => (relations p.2).filterMap (relationEdge hashing call p.2)

/-- `edges`. -/
def coOccurrences : Keyed GraphEdge.id := .interned (allRelated hashing call)

/-- `typed_edges`. -/
def typedEdges : Keyed GraphEdge.id := .interned (allTyped hashing call)

/-- `extract`. A node or an edge is added to its dictionary, unless the id is there. -/
def extract : GraphExtractionResult where
  nodes := (Keyed.interned (allNodes hashing call) : Keyed GraphNode.id).items
  edges := ((typedEdges hashing call).items.foldl Keyed.insert (coOccurrences hashing call)).items
  mentions :=
    call.codeChunks.map (fun c => ⟨(codeNode hashing call c).id, c.chunkId, call.docId⟩) ++
    call.prose.1.flatMap fun p => (proseNodes hashing call p.2).map fun n =>
      ⟨n.id, p.1.chunkId, call.docId⟩
  warnings := call.prose.2.toList
  degraded := call.prose.2.isSome

/-! ### What is expected -/

/-- The id of the entity that a span stands for. -/
def spanId (s : Span) : String := makeStableEntityId hashing (stripLabel s.label) s.text

def Together (a b : String) : Prop := ∃ ids ∈ chunkEntityIds hashing call, a ∈ ids ∧ b ∈ ids

/-- The call with the chunks of code alone. -/
def Call.codeOnly : Call := { call with chunks := call.codeChunks }

/-- **The graph is consistent** with the chunks and with what the engine finds. -/
structure Consistent (r : GraphExtractionResult) : Prop where
  endpoints : ∀ e ∈ r.edges,
    e.sourceNodeId ∈ r.nodes.map GraphNode.id ∧ e.targetNodeId ∈ r.nodes.map GraphNode.id
  mentioned : ∀ m ∈ r.mentions, m.entityId ∈ r.nodes.map GraphNode.id
  nodup : r.edges.Nodup
  relatedOnce : ∀ a b, a < b → Together hashing call a b →
    ∃! e, e ∈ r.edges ∧ e.relationshipType = .relatedTo ∧ e.sourceNodeId = a ∧ e.targetNodeId = b
  related : ∀ e ∈ r.edges, e.relationshipType = .relatedTo →
    e.sourceNodeId < e.targetNodeId ∧ Together hashing call e.sourceNodeId e.targetNodeId
  /-- Any other edge is made from a relation of the engine. -/
  typed : ∀ e ∈ r.edges, e.relationshipType ≠ .relatedTo → ∃ p ∈ call.prose.1, ∃ q ∈ p.2.2,
    q.isReal = true ∧ relationEdge hashing call p.2 q.extracted = some e
  /-- It connects the entities of the spans that the engine has linked. -/
  attached : ∀ e ∈ r.edges, ∀ p ∈ call.prose.1, ∀ q ∈ p.2.2, q.isReal = true →
    relationEdge hashing call p.2 q.extracted = some e →
    e.sourceNodeId = spanId hashing q.head ∧ e.targetNodeId = spanId hashing q.tail
  degraded : r.degraded = true → r.nodes = (extract hashing call.codeOnly).nodes ∧
    r.edges = (extract hashing call.codeOnly).edges ∧
    r.mentions = (extract hashing call.codeOnly).mentions

/-- **What the relations rely on**: where both texts of a relation are listed, for two entities,
the last entity of either text is that of the span. -/
def LastListed : Prop :=
  ∀ p ∈ call.prose.1, ∀ q ∈ p.2.2, q.isReal = true →
    ∀ rel ∈ relationshipTypeOf (stripLabel q.relation), rel ≠ .relatedTo →
    ∀ a ∈ nameToId hashing call p.2 q.head.text, ∀ b ∈ nameToId hashing call p.2 q.tail.text,
      a ≠ b → a = spanId hashing q.head ∧ b = spanId hashing q.tail

instance : Decidable (LastListed hashing call) := by
  have (q : RawRelation) (P : Prop) [Decidable P] : Decidable (q.isReal = true → P) :=
    instDecidableForall
  unfold LastListed
  infer_instance

def hashedEdges : List String :=
  (allRelated hashing call ++ allTyped hashing call).map fun e =>
    canonicalEdge hashing e.sourceNodeId e.targetNodeId (relationshipTypeValue e.relationshipType)

/-! ### Edges -/

variable {hashing call} {e e' : GraphEdge} {a b : String} {rel : RelationshipType}

variable (hashing call) in
def edgeOf (a b : String) (rel : RelationshipType) : GraphEdge :=
  ⟨makeStableEdgeId hashing a b (relationshipTypeValue rel), a, b, rel, call.docId, none⟩

variable {raw : RawChunk}

theorem relationEdge_eq_some {relation : ExtractedRelation} :
    relationEdge hashing call raw relation = some e ↔
      ∃ rel, relationshipTypeOf relation.label = some rel ∧ rel ≠ .relatedTo ∧
      ∃ a, nameToId hashing call raw relation.head = some a ∧
      ∃ b, nameToId hashing call raw relation.tail = some b ∧ a ≠ b ∧
        e = edgeOf hashing call a b rel := by
  unfold relationEdge buildTypedRelationEdge
  cases nameToId hashing call raw relation.head with
  | none => simp
  | some a =>
    cases nameToId hashing call raw relation.tail with
    | none => simp
    | some b =>
      cases hrel : relationshipTypeOf relation.label with
      | none => simp
      | some rel =>
        have hlab : relationshipTypeValue rel = relation.label := by
          simpa using find?_some hrel
        have hrela : relation.label = relationshipTypeValue .relatedTo ↔ rel = .relatedTo := by
          rw [← hlab]
          exact relationshipTypeValue_injective.eq_iff
        by_cases h : rel = .relatedTo
        · simp [hrela, h]
        · by_cases hab : a = b
          · simp [hab]
          · simp [hrela, h, hab, edgeOf, hlab, eq_comm]

theorem mem_combinations {l : List String} (h : l.Pairwise (· < ·)) :
    (a, b) ∈ combinations l ↔ a ∈ l ∧ b ∈ l ∧ a < b := by
  induction l with
  | nil => simp [combinations]
  | cons c l ih =>
    obtain ⟨hc, hl⟩ := pairwise_cons.mp h
    simp only [combinations, mem_append, mem_map, Prod.mk.injEq, ih hl, mem_cons]
    constructor
    · rintro (⟨d, hd, rfl, rfl⟩ | ⟨ha, hb, hab⟩)
      · exact ⟨Or.inl rfl, Or.inr hd, hc d hd⟩
      · exact ⟨Or.inr ha, Or.inr hb, hab⟩
    · rintro ⟨rfl | ha, rfl | hb, hab⟩
      · exact absurd hab (lt_irrefl _)
      · exact Or.inl ⟨b, hb, rfl, rfl⟩
      · exact absurd (hab.trans (hc a ha)) (lt_irrefl _)
      · exact Or.inr ⟨ha, hb, hab⟩

variable {ids : List String}

theorem mem_relatedEdges : e ∈ relatedEdges hashing call ids ↔
    ∃ a ∈ ids, ∃ b ∈ ids, a < b ∧ e = edgeOf hashing call a b .relatedTo := by
  have hsort : (ids.dedup.insertionSort (· ≤ ·)).Pairwise (· < ·) :=
    ((pairwise_insertionSort (· ≤ ·) ids.dedup).and ((perm_insertionSort (· ≤ ·)
      ids.dedup).nodup_iff.mpr (nodup_dedup ids))).imp fun h => lt_of_le_of_ne h.1 h.2
  simp only [relatedEdges, mem_map, Prod.exists, mem_combinations hsort, mem_insertionSort,
    mem_dedup]
  constructor
  · rintro ⟨a, b, ⟨ha, hb, hab⟩, rfl⟩
    exact ⟨a, ha, b, hb, hab, rfl⟩
  · rintro ⟨a, ha, b, hb, hab, rfl⟩
    exact ⟨a, b, ⟨ha, hb, hab⟩, rfl⟩

/-! ### What the graph is made of -/

theorem mem_nameToId {text : String} (h : nameToId hashing call raw text = some a) :
    a ∈ (proseNodes hashing call raw).map GraphNode.id := by
  obtain ⟨n, hn, rfl⟩ := Option.map_eq_some_iff.mp h
  exact mem_map_of_mem (mem_reverse.mp (mem_of_find?_eq_some hn))

theorem mem_allNodes (hids : ids ∈ chunkEntityIds hashing call) (ha : a ∈ ids) :
    a ∈ (allNodes hashing call).map GraphNode.id := by
  simp only [chunkEntityIds, allNodes, mem_append, mem_map, mem_flatMap] at hids ⊢
  rcases hids with ⟨c, hc, rfl⟩ | ⟨p, hp, rfl⟩
  · exact ⟨_, Or.inl ⟨c, hc, rfl⟩, (mem_singleton.mp ha).symm⟩
  · obtain ⟨n, hn, rfl⟩ := mem_map.mp ha
    exact ⟨n, Or.inr ⟨p, hp, hn⟩, rfl⟩

theorem mem_chunkEntityIds {p : ChunkInput × RawChunk} (hp : p ∈ call.prose.1) :
    (proseNodes hashing call p.2).map GraphNode.id ∈ chunkEntityIds hashing call :=
  mem_append_right _ (mem_map_of_mem (f := fun p : ChunkInput × RawChunk =>
    (proseNodes hashing call p.2).map GraphNode.id) hp)

theorem mem_allRelated : e ∈ allRelated hashing call ↔
    ∃ a b, a < b ∧ Together hashing call a b ∧ e = edgeOf hashing call a b .relatedTo := by
  simp only [allRelated, mem_flatMap, mem_relatedEdges]
  constructor
  · rintro ⟨ids, hids, a, ha, b, hb, hab, rfl⟩
    exact ⟨a, b, hab, ⟨ids, hids, ha, hb⟩, rfl⟩
  · rintro ⟨a, b, hab, ⟨ids, hids, ha, hb⟩, rfl⟩
    exact ⟨ids, hids, a, ha, b, hb, hab, rfl⟩

theorem mem_allTyped : e ∈ allTyped hashing call ↔ ∃ p ∈ call.prose.1, ∃ q ∈ p.2.2,
    q.isReal = true ∧ relationEdge hashing call p.2 q.extracted = some e := by
  simp only [allTyped, relations, mem_flatMap, mem_filterMap, mem_eraseDups, mem_map, mem_filter]
  constructor
  · rintro ⟨p, hp, -, ⟨q, ⟨hq, hreal⟩, rfl⟩, he⟩
    exact ⟨p, hp, q, hq, hreal, he⟩
  · rintro ⟨p, hp, q, hq, hreal, he⟩
    exact ⟨p, hp, _, ⟨q, ⟨hq, hreal⟩, rfl⟩, he⟩

/-- An edge connects two entities that occur together. -/
theorem eq_edgeOf (h : e ∈ allRelated hashing call ∨ e ∈ allTyped hashing call) :
    ∃ a b, Together hashing call a b ∧ ∃ rel, e = edgeOf hashing call a b rel := by
  rcases h with h | h
  · obtain ⟨a, b, -, htog, rfl⟩ := mem_allRelated.mp h
    exact ⟨a, b, htog, _, rfl⟩
  · obtain ⟨p, hp, q, -, -, he⟩ := mem_allTyped.mp h
    obtain ⟨rel, -, -, a, ha, b, hb, -, rfl⟩ := relationEdge_eq_some.mp he
    exact ⟨a, b, ⟨_, mem_chunkEntityIds hp, mem_nameToId ha, mem_nameToId hb⟩, rel, rfl⟩

theorem exists_hexdigest (h : a ∈ (allNodes hashing call).map GraphNode.id) :
    ∃ d, a = hexdigest d := by
  obtain ⟨n, hn, rfl⟩ := mem_map.mp h
  rcases mem_append.mp hn with hn | hn
  · obtain ⟨c, -, rfl⟩ := mem_map.mp hn
    exact ⟨_, rfl⟩
  · obtain ⟨p, -, hn⟩ := mem_flatMap.mp hn
    obtain ⟨s, -, hs⟩ := mem_filterMap.mp hn
    obtain ⟨t, -, rfl⟩ := Option.map_eq_some_iff.mp hs
    exact ⟨_, rfl⟩

theorem edge_injective (hfr : CollisionFree hashing (hashedEdges hashing call))
    (he : e ∈ allRelated hashing call ∨ e ∈ allTyped hashing call)
    (he' : e' ∈ allRelated hashing call ∨ e' ∈ allTyped hashing call) (h : e.id = e'.id) :
    e = e' := by
  have hm {e : GraphEdge} (he : e ∈ allRelated hashing call ∨ e ∈ allTyped hashing call) :=
    mem_map_of_mem (f := fun e : GraphEdge => canonicalEdge hashing e.sourceNodeId
      e.targetNodeId (relationshipTypeValue e.relationshipType)) (mem_append.mpr he)
  have hdig {e : GraphEdge} (he : e ∈ allRelated hashing call ∨ e ∈ allTyped hashing call) :
      ':' ∉ e.sourceNodeId.toList := by
    obtain ⟨a, b, ⟨ids, hids, ha, -⟩, rel, rfl⟩ := eq_edgeOf he
    obtain ⟨d, hd⟩ := exists_hexdigest (mem_allNodes hids ha)
    exact hd ▸ colon_notMem_hexdigest d
  have hcan := hfr _ (hm he) _ (hm he')
  have hs := hdig he
  have hs' := hdig he'
  obtain ⟨a, b, -, rel, rfl⟩ := eq_edgeOf he
  obtain ⟨a', b', -, rel', rfl⟩ := eq_edgeOf he'
  obtain ⟨rfl, rfl, rfl⟩ := canonicalEdge_inj hs hs' (hcan (hexdigest_injective h))
  rfl

/-! ### The graph -/

theorem mem_edges (hfr : CollisionFree hashing (hashedEdges hashing call)) :
    e ∈ (extract hashing call).edges ↔ e ∈ allRelated hashing call ∨ e ∈ allTyped hashing call := by
  have hm {e : GraphEdge} : e ∈ coOccurrences hashing call ∨ e ∈ (typedEdges hashing call).items ↔
      e ∈ allRelated hashing call ∨ e ∈ allTyped hashing call :=
    or_congr
      (Keyed.mem_interned_iff fun b hb c hc => edge_injective hfr (Or.inl hb) (Or.inl hc))
      (Keyed.mem_interned_iff fun b hb c hc => edge_injective hfr (Or.inr hb) (Or.inr hc))
  exact (Keyed.mem_foldl_insert_iff fun b c hb hc =>
    edge_injective hfr (hm.mp hb) (hm.mp hc)).trans hm

theorem mem_nodes (h : a ∈ (allNodes hashing call).map GraphNode.id) :
    a ∈ (extract hashing call).nodes.map GraphNode.id := by
  obtain ⟨n, hn, rfl⟩ := mem_map.mp h
  exact mem_map.mpr (Keyed.exists_mem_interned hn)

theorem prose_eq_nil (h : call.prose.2.isSome = true) : call.prose.1 = [] := by
  unfold Call.prose at h ⊢
  grind

theorem codeChunks_codeOnly : call.codeOnly.codeChunks = call.codeChunks := by
  simp [Call.codeOnly, Call.codeChunks, filter_filter]

theorem prose_codeOnly : call.codeOnly.prose = ([], none) := by
  refine if_pos (filter_eq_nil_iff.mpr fun c hc => ?_)
  have hcode := (mem_filter.mp hc).2
  simpa using Option.isSome_iff_ne_none.mp hcode

/-- **What is expected of the graph in any case.** -/
theorem consistent_of_attached (hfr : CollisionFree hashing (hashedEdges hashing call))
    (h : ∀ e ∈ (extract hashing call).edges, ∀ p ∈ call.prose.1, ∀ q ∈ p.2.2, q.isReal = true →
      relationEdge hashing call p.2 q.extracted = some e →
      e.sourceNodeId = spanId hashing q.head ∧ e.targetNodeId = spanId hashing q.tail) :
    Consistent hashing call (extract hashing call) where
  endpoints e he := by
    obtain ⟨a, b, ⟨ids, hids, ha, hb⟩, rel, rfl⟩ := eq_edgeOf ((mem_edges hfr).mp he)
    exact ⟨mem_nodes (mem_allNodes hids ha), mem_nodes (mem_allNodes hids hb)⟩
  mentioned m hm := by
    rcases mem_append.mp hm with hm | hm
    · obtain ⟨c, hc, rfl⟩ := mem_map.mp hm
      exact mem_nodes (mem_map_of_mem (mem_append_left _ (mem_map_of_mem hc)))
    · obtain ⟨p, hp, hm⟩ := mem_flatMap.mp hm
      obtain ⟨n, hn, rfl⟩ := mem_map.mp hm
      exact mem_nodes (mem_map_of_mem (mem_append_right _ (mem_flatMap.mpr ⟨p, hp, hn⟩)))
  nodup := Nodup.of_map GraphEdge.id (Keyed.nodup _)
  relatedOnce a b hab htog := by
    refine ⟨edgeOf hashing call a b .relatedTo, ⟨(mem_edges hfr).mpr (Or.inl
      (mem_allRelated.mpr ⟨a, b, hab, htog, rfl⟩)), rfl, rfl, rfl⟩, ?_⟩
    rintro e ⟨he, hrel, rfl, rfl⟩
    obtain ⟨a, b, -, rel, rfl⟩ := eq_edgeOf ((mem_edges hfr).mp he)
    obtain rfl : rel = .relatedTo := hrel
    rfl
  related e he hrel := by
    rcases (mem_edges hfr).mp he with he | he
    · obtain ⟨a, b, hab, htog, rfl⟩ := mem_allRelated.mp he
      exact ⟨hab, htog⟩
    · obtain ⟨p, -, q, -, -, hmade⟩ := mem_allTyped.mp he
      obtain ⟨rel, -, hnot, a, -, b, -, -, rfl⟩ := relationEdge_eq_some.mp hmade
      exact absurd hrel hnot
  typed e he hrel := by
    rcases (mem_edges hfr).mp he with he | he
    · obtain ⟨a, b, -, -, rfl⟩ := mem_allRelated.mp he
      exact absurd rfl hrel
    · exact mem_allTyped.mp he
  attached := h
  degraded h := by
    simp only [extract, coOccurrences, typedEdges, allNodes, allRelated, allTyped, chunkEntityIds,
      codeChunks_codeOnly, prose_codeOnly, prose_eq_nil h]
    exact ⟨rfl, rfl, rfl⟩

theorem lastListed_of_consistent (hfr : CollisionFree hashing (hashedEdges hashing call))
    (h : Consistent hashing call (extract hashing call)) : LastListed hashing call := by
  intro p hp q hq hreal rel hrel hnot a ha b hb hab
  have hmade : relationEdge hashing call p.2 q.extracted = some (edgeOf hashing call a b rel) :=
    relationEdge_eq_some.mpr ⟨rel, hrel, hnot, a, ha, b, hb, hab, rfl⟩
  have he := mem_allTyped.mpr ⟨p, hp, q, hq, hreal, hmade⟩
  exact h.attached _ ((mem_edges hfr).mpr (Or.inr he)) p hp q hq hreal hmade

/-- **The graph is consistent exactly if the last entity of a linked text is that of the span.** -/
theorem extract_consistent_iff (hfree : CollisionFree hashing (hashedEdges hashing call)) :
    Consistent hashing call (extract hashing call) ↔ LastListed hashing call := by
  refine ⟨lastListed_of_consistent hfree, fun h => consistent_of_attached hfree ?_⟩
  intro e he p hp q hq hreal hmade
  obtain ⟨rel, hrel, hnot, a, ha, b, hb, hab, rfl⟩ := relationEdge_eq_some.mp hmade
  exact h p hp q hq hreal rel hrel hnot a ha b hb hab

/-! ### A text under two labels -/

def nasaDigest : BitVec 256 :=
  0xe1a7e07f2a3da8fcb30d5ce21e72b7f3eb4418aa3d3b8760f1a98e6ffb14fce2

/-- The digest of the system `Mercury`. -/
def systemDigest : BitVec 256 :=
  0x4c917288ed9dd182527a29f6b35c74f5d3cafded5eccf9c4a60608bb4721fb79

/-- The digest of the person `Mercury`. -/
def personDigest : BitVec 256 :=
  0x4720cea40f73b73759932935c22f3f58201671ef33712f94716061a91ea4375f

def mercuryDigests : List (String × BitVec 256) :=
  let key := fun a b label => hexdigest a ++ ":" ++ hexdigest b ++ ":" ++ label
  [("system:nasa", nasaDigest), ("system:mercury", systemDigest), ("person:mercury", personDigest),
    (key personDigest systemDigest "related_to",
      0x3173789fe3a83c006ea227c13485f7ddfbaafc8022bf996612e7af20990d74c3),
    (key personDigest nasaDigest "related_to",
      0x609ecf838e1753e8c513ea9617660fe7d4c730a832a478f9812b7fb272279ec2),
    (key systemDigest nasaDigest "related_to",
      0xb3e8240c36f4de5ac4c0d8bed8ec9440cb1c332a474e106ac840c83c9c23e5ff),
    (key nasaDigest personDigest "uses",
      0x7677a6f1becaa8fbd04833cb0b5732dabc64cf32845ba16937b40d688a108c67)]

def mercuryHashing : Hashing where
  lower s := String.ofList (s.toList.map Char.toLower)
  sha256 s := (mercuryDigests.lookup s).getD 0
  lower_ascii := sampleHashing.lower_ascii

/-- The engine lists `Mercury` as a system and as a person, and links NASA to one of them. -/
def mercuryCall (label : String) : Call where
  chunks := [⟨"chunk", "NASA flies Mercury.", none, none, none, none, none⟩]
  docId := "doc"
  collection := "docs"
  loadWarning := none
  inference _ := some
    ([[⟨"NASA", "system"⟩, ⟨"Mercury", "system"⟩, ⟨"Mercury", "person"⟩]],
      [[⟨⟨"NASA", "system"⟩, ⟨"Mercury", label⟩, "uses"⟩]])

/-- A relation to the entity that is listed last keeps the graph consistent. -/
theorem extract_consistent_iff_mercury :
    Consistent mercuryHashing (mercuryCall "person")
      (extract mercuryHashing (mercuryCall "person")) :=
  (extract_consistent_iff (by unfold CollisionFree; decide +kernel)).mpr (by decide +kernel)

/-- **A relation goes astray**: it is the person that the edge to the system is attached to. -/
theorem relation_astray :
    CollisionFree mercuryHashing (mercuryDigests.map Prod.fst) ∧
      CollisionFree mercuryHashing (hashedEdges mercuryHashing (mercuryCall "system")) ∧
      ¬Consistent mercuryHashing (mercuryCall "system")
        (extract mercuryHashing (mercuryCall "system")) := by
  have hfr : CollisionFree mercuryHashing (hashedEdges mercuryHashing (mercuryCall "system")) := by
    unfold CollisionFree
    decide +kernel
  refine ⟨by unfold CollisionFree; decide +kernel, hfr, fun h => ?_⟩
  exact absurd (lastListed_of_consistent hfr h) (by decide +kernel)

end ArchonSearch.Graph.Extract
