import ArchonSearch.Graph.Views

/-!
# Where the rows of a graph come from

Documents that mention the same entities share nodes and relations, and a shared row is stamped
with the document that wrote it last. So a document that a namespace may not see can change what
the namespace is shown, in ways that `Discreet` lists: by spelling an entity anew, by stating a
relation between entities that are mentioned together elsewhere, or by being the last one that
still mentions something.

Two things hold after any history. Every row was written by an ingest, for its own document
(`traced_collectionOf`); this tells apart the rows that only visible documents write from those
that hidden ones write. And where hidden documents are discreet, what both write stays once it is
written (`keepsShared_collectionOf`).
-/

namespace ArchonSearch.Graph.Views

open Lib Search List

variable {ids : Naming}

/-! ### Hidden documents -/

/-- The ingest that says what a document is now. -/
def lastIngest (history : List (Ingest ids)) (doc : String) : Option (Ingest ids) :=
  history.reverse.find? fun i => i.doc = doc

/-- The document is not for the namespace, as it was ingested last. -/
def isHidden (ns : String) (history : List (Ingest ids)) (doc : String) : Bool :=
  (lastIngest history doc).any fun i => !isAclAllowed i.acl ns

/-- The ingests of the documents that the namespace may see. -/
def visiblePart (ns : String) (history : List (Ingest ids)) : List (Ingest ids) :=
  history.filter fun i => !isHidden ns history i.doc

/-- The ingests of the other documents. -/
def hiddenPart (ns : String) (history : List (Ingest ids)) : List (Ingest ids) :=
  history.filter fun i => isHidden ns history i.doc

/-- The entities and symbols that a history writes. -/
def nodeIds (history : List (Ingest ids)) : List String :=
  history.flatMap fun i => (foundNodes i.found).map Node.id

/-- The relations that a history writes, by their ends and type. -/
def relationKeys (history : List (Ingest ids)) : List EdgeKey :=
  history.flatMap fun i => (relations i.found).map Edge.key

/-- Documents of both kinds write the node. -/
def IsShared (ns : String) (history : List (Ingest ids)) (id : String) : Prop :=
  id ∈ nodeIds (visiblePart ns history) ∧ id ∈ nodeIds (hiddenPart ns history)

/-- Documents of both kinds write the relation. -/
def IsSharedRelation (ns : String) (history : List (Ingest ids)) (key : EdgeKey) : Prop :=
  key ∈ relationKeys (visiblePart ns history) ∧ key ∈ relationKeys (hiddenPart ns history)

/-- A visible document mentions both ends of the edge in one chunk. -/
def VisiblyComentioned (ns : String) (history : List (Ingest ids)) (e : Edge) : Prop :=
  ∃ doc, isHidden ns history doc = false ∧ Comentions (collectionOf history).graph doc e

/-- No degraded ingest replaces an earlier one of its document that wrote a relation of `P`. -/
def Spared (P : EdgeKey → Prop) (history : List (Ingest ids)) : Prop :=
  ∀ before i after, history = before ++ i :: after → i.found.degraded = true →
    ∀ j ∈ before, j.doc = i.doc → ∀ e ∈ relations j.found, ¬P e.key

/-- **Hidden documents are discreet**: what they share with the visible ones they neither spell
otherwise nor keep alive alone, and they relate nothing that visible chunks mention together. -/
structure Discreet (ns : String) (history : List (Ingest ids)) : Prop where
  symbol : ∀ id, IsShared ns history id → ids.typeOf id ≠ .codeSymbol
  spelling : ∀ i ∈ visiblePart ns history, ∀ n ∈ foundNodes i.found,
    ∀ j ∈ hiddenPart ns history, ∀ n' ∈ foundNodes j.found, n.id = n'.id →
      n.entityName = n'.entityName
  mentioned : ∀ id, IsShared ns history id → ∃ m ∈ (collectionOf history).graph.mentions,
    m.entityId = id ∧ isHidden ns history m.docId = false
  comentioned : ∀ i ∈ visiblePart ns history, ∀ e ∈ relations i.found,
    (e.key ∈ relationKeys (hiddenPart ns history) ∨ ∃ doc, isHidden ns history doc = true ∧
      Comentions (collectionOf history).graph doc e) → VisiblyComentioned ns history e
  unsaid : ∀ j ∈ hiddenPart ns history, ∀ e ∈ relations j.found,
    e.key ∉ relationKeys (visiblePart ns history) → ¬VisiblyComentioned ns history e
  spared : Spared (IsSharedRelation ns history) history
  unlabelled : ∀ i ∈ history, ∀ e ∈ relations i.found, e.isDefref = true →
    ¬IsShared ns history e.sourceNodeId ∧ ¬IsShared ns history e.targetNodeId
  fresh : ∀ m ∈ (collectionOf history).graph.mentions, isHidden ns history m.docId = true →
    m.chunkId ∈ (collectionOf history).chunks.map ChunkRow.chunkId
  unreferenced : ∀ before i after, history = before ++ i :: after →
    isHidden ns history i.doc = false → ∀ name ∈ references i.found,
      ∀ j ∈ before, isHidden ns history j.doc = true → ∀ n ∈ foundNodes j.found,
        n.isDefinitionOf name = false

/-! ### The writes of an ingest -/

/-- The tables after the old nodes and edges of a document were deleted; its mentions stay. -/
def purged (g : Tables) (doc : String) (preserve : List String) (all : Bool) : Tables where
  nodes := g.nodes.filter fun n => !(g.doomedIds doc preserve false).contains n.id
  edges := g.edges.filter fun e => !(decide (e.sourceDocId = doc) && (all || e.isDefref) ||
    e.touches (g.doomedIds doc preserve false))
  mentions := g.mentions

theorem deleteDefref_eq (g : Tables) (doc : String) (preserve : List String) :
    g.deleteDefref doc preserve false = purged g doc preserve false := rfl

theorem deleteGraphByDoc_eq (g : Tables) (doc : String) :
    g.deleteGraphByDoc doc = purged g doc [] true := by
  unfold Tables.deleteGraphByDoc
  rw [deleteDefref_eq]
  simp only [purged, Tables.deleteEdges, Tables.mk.injEq, true_and, and_true]
  refine Keyed.ext ?_
  simp only [Keyed.filter, filter_filter]
  refine filter_congr fun e _ => ?_
  by_cases hd : e.sourceDocId = doc <;> simp [hd]

/-- **What the writes of an ingest preserve**, for two graphs that are written alike. Once what the
chunks mention is written, more may hold. -/
theorem ingestText_induction {R S : Tables → Tables → Prop} (i : Ingest ids) {g g' : Tables}
    (h : R g g')
    (hpur : ∀ g g', i.found.degraded = true → R g g' →
      R (purged g i.doc [] true) (purged g' i.doc [] true))
    (hskip : i.found.mentioned = none → R g g' → S g g')
    (hmen : ∀ g g' x, i.found.mentioned = some x → R g g' →
      S (g.writeGraph x.nodes x.edges) (g'.writeGraph x.nodes x.edges))
    (hment : ∀ g g' x, i.found.mentioned = some x → S g g' →
      S ((g.deleteMentionsByDoc i.doc).writeMentions x.mentions)
        ((g'.deleteMentionsByDoc i.doc).writeMentions x.mentions))
    (hpur' : ∀ g g' preserve, S g g' →
      S (purged g i.doc preserve false) (purged g' i.doc preserve false))
    (hfl : ∀ g g' stored stored' f, i.found.file = some f → S stored stored' → S g g' →
      S (g.writeGraph f.nodes (f.extract stored.nodes.items).edges)
        (g'.writeGraph f.nodes (f.extract stored'.nodes.items).edges)) :
    S (ingestText g i.found) (ingestText g' i.found) := by
  have hfst : S (i.found.mentioned.elim g fun x =>
        g.writeMentioned i.found.degraded x.toExtraction)
      (i.found.mentioned.elim g' fun x =>
        g'.writeMentioned i.found.degraded x.toExtraction) := by
    cases hx : i.found.mentioned with
    | none => exact hskip hx h
    | some x =>
      have hst : R (if i.found.degraded then g.deleteGraphByDoc i.doc else g)
          (if i.found.degraded then g'.deleteGraphByDoc i.doc else g') := by
        split
        next hdeg =>
          rw [deleteGraphByDoc_eq, deleteGraphByDoc_eq]
          exact hpur _ _ hdeg h
        · exact h
      exact hment _ _ x hx (hmen _ _ x hx hst)
  unfold ingestText
  cases hf : i.found.file with
  | none => exact hfst
  | some f =>
    exact hfl _ _ _ _ f hf hfst (hpur' _ _ _ hfst)

theorem ingestText_invariant {I J : Tables → Prop} (i : Ingest ids) {g : Tables} (h : I g)
    (hpur : ∀ g, i.found.degraded = true → I g → I (purged g i.doc [] true))
    (hskip : i.found.mentioned = none → I g → J g)
    (hmen : ∀ g x, i.found.mentioned = some x → I g → J (g.writeGraph x.nodes x.edges))
    (hment : ∀ g x, i.found.mentioned = some x → J g →
      J ((g.deleteMentionsByDoc i.doc).writeMentions x.mentions))
    (hpur' : ∀ g preserve, J g → J (purged g i.doc preserve false))
    (hf : ∀ g stored f, i.found.file = some f → J stored → J g →
      J (g.writeGraph f.nodes (f.extract stored.nodes.items).edges)) :
    J (ingestText g i.found) :=
  @ingestText_induction ids (fun g _ => I g) (fun g _ => J g) i g g h (fun g _ => hpur g) hskip
    (fun g _ => hmen g) (fun g _ => hment g) (fun g _ => hpur' g)
    fun g _ stored _ => hf g stored

/-! ### Where rows come from -/

/-- An edge that the file of an ingest leads to: within the file, or to a definition in another
one. -/
def IsOfFile (i : Ingest ids) (e : Edge) : Prop :=
  e.isDefref = true ∧ e.sourceNodeId ∈ (symbols i.found).map Node.id ∧
    (e.targetNodeId ∈ (symbols i.found).map Node.id ∨
      ids.typeOf e.targetNodeId = .codeSymbol ∧ ids.isModuleId e.targetNodeId = false)

/-- Whatever is in the tables was written by an ingest of the history. -/
structure Traced (history : List (Ingest ids)) (g : Tables) : Prop where
  node : ∀ n ∈ g.nodes, ∃ i ∈ history, n ∈ foundNodes i.found
  edge : ∀ e ∈ g.edges, ∃ i ∈ history, e.sourceDocId = i.doc ∧
    (e ∈ relations i.found ∨ IsOfFile i e)
  mention : ∀ m ∈ g.mentions, ∃ i ∈ history, m ∈ mentions i.found

theorem mem_foundNodes_of_mentioned {i : Ingest ids} {x : MentionGraph i.doc}
    (hx : i.found.mentioned = some x) {n : Node} (hn : n ∈ x.nodes) : n ∈ foundNodes i.found :=
  mem_append_left _ (by simpa [mentionedNodes, hx] using hn)

theorem mem_relations {i : Ingest ids} {x : MentionGraph i.doc}
    (hx : i.found.mentioned = some x) {e : Edge} : e ∈ relations i.found ↔ e ∈ x.edges := by
  simp [relations, hx]

variable {m : Mention}

theorem mem_mentions {i : Ingest ids} {x : MentionGraph i.doc}
    (hx : i.found.mentioned = some x) : m ∈ mentions i.found ↔ m ∈ x.mentions := by
  simp [mentions, hx]

theorem mem_symbols {i : Ingest ids} {f : ParsedFile i.doc} (hf : i.found.file = some f)
    {n : Node} : n ∈ symbols i.found ↔ n ∈ f.nodes := by
  simp [symbols, hf]

theorem mem_foundNodes_of_symbols {i : Ingest ids} {n : Node} (hn : n ∈ symbols i.found) :
    n ∈ foundNodes i.found :=
  mem_append_right _ hn

theorem ends_of_mem_relations {i : Ingest ids} {e : Edge} (he : e ∈ relations i.found) :
    e.sourceNodeId ∈ (foundNodes i.found).map Node.id ∧
      e.targetNodeId ∈ (foundNodes i.found).map Node.id := by
  cases hx : i.found.mentioned with
  | none => simp [relations, hx] at he
  | some x =>
    have hm (id : String) (hid : id ∈ x.nodes.map Node.id) :
        id ∈ (foundNodes i.found).map Node.id := by
      obtain ⟨n, hn, rfl⟩ := mem_map.mp hid
      exact mem_map_of_mem (mem_foundNodes_of_mentioned hx hn)
    have hes := x.edge_ends e ((mem_relations hx).mp he)
    exact ⟨hm _ hes.1, hm _ hes.2⟩

theorem doc_of_mem_relations {i : Ingest ids} {e : Edge} (he : e ∈ relations i.found) :
    e.sourceDocId = i.doc := by
  cases hx : i.found.mentioned with
  | none => simp [relations, hx] at he
  | some x => exact x.edge_doc e ((mem_relations hx).mp he)

theorem doc_of_mem_mentions {i : Ingest ids} (hm : m ∈ mentions i.found) :
    m.docId = i.doc := by
  cases hx : i.found.mentioned with
  | none => simp [mentions, hx] at hm
  | some x => exact x.mention_doc m ((mem_mentions hx).mp hm)

theorem typeOf_symbol {i : Ingest ids} {id : String} (h : id ∈ (symbols i.found).map Node.id) :
    ids.typeOf id = .codeSymbol := by
  obtain ⟨n, hn, rfl⟩ := mem_map.mp h
  rw [← i.node_type n (mem_foundNodes_of_symbols hn), i.symbol n hn]

theorem IsOfFile.typeOf_source {i : Ingest ids} {e : Edge} (h : IsOfFile i e) :
    ids.typeOf e.sourceNodeId = .codeSymbol := typeOf_symbol h.2.1

theorem IsOfFile.typeOf_target {i : Ingest ids} {e : Edge} (h : IsOfFile i e) :
    ids.typeOf e.targetNodeId = .codeSymbol := by
  rcases h.2.2 with ho | ⟨htype, -⟩
  · exact typeOf_symbol ho
  · exact htype

theorem resolveMethod_of_mem_relations {i : Ingest ids} {e : Edge} (he : e ∈ relations i.found)
    (stored : Keyed Edge.key) : resolveMethod stored e = e := by
  refine if_neg fun h => ?_
  rw [i.relation_method e he] at h
  cases h.1

theorem isDefref_resolveMethod {stored : Keyed Edge.key} {e : Edge} (h : e.isDefref = true) :
    (resolveMethod stored e).isDefref = true := by
  unfold resolveMethod
  split
  · simp [Edge.isDefref, ExtractionMethod.isGcExempt]
  · exact h

@[simp] theorem sourceNodeId_resolveMethod (stored : Keyed Edge.key) (e : Edge) :
    (resolveMethod stored e).sourceNodeId = e.sourceNodeId := by
  unfold resolveMethod
  split <;> rfl

@[simp] theorem targetNodeId_resolveMethod (stored : Keyed Edge.key) (e : Edge) :
    (resolveMethod stored e).targetNodeId = e.targetNodeId := by
  unfold resolveMethod
  split <;> rfl

/-- An edge of an extraction is one of the file, or goes to a stored definition of a name that the
file refers to. -/
theorem mem_extract {i : Ingest ids} {f : ParsedFile i.doc} (hf : i.found.file = some f)
    {stored : List Node} {e : Edge} (he : e ∈ (f.extract stored).edges) :
    e.isDefref = true ∧ e.sourceNodeId ∈ (symbols i.found).map Node.id ∧
      (e.targetNodeId ∈ (symbols i.found).map Node.id ∨
        ∃ n ∈ stored, n.id = e.targetNodeId ∧ ∃ name ∈ references i.found,
          n.isDefinitionOf name = true) := by
  have hsym : symbols i.found = f.nodes := by simp [symbols, hf]
  rw [hsym]
  rcases mem_append.mp (Keyed.mem_of_mem_ofList he) with ho | hinf
  · refine ⟨i.symbolEdge e ?_, (f.edge_ends e ho).1, Or.inl (f.edge_ends e ho).2⟩
    simpa [symbolEdges, hf] using ho
  · obtain ⟨u, hu, he⟩ := mem_flatMap.mp hinf
    obtain ⟨n, hn, rfl⟩ := mem_map.mp he
    obtain ⟨hn, hdef⟩ := mem_filter.mp hn
    refine ⟨rfl, f.unresolved_source u hu, Or.inr ⟨n, hn, rfl, u.2.2, ?_, hdef⟩⟩
    simp only [references, hf, Option.elim_some]
    exact mem_map_of_mem hu

theorem Traced.definition {history : List (Ingest ids)} {g : Tables} (h : Traced history g)
    {n : Node} (hn : n ∈ g.nodes) {name : String} (hdef : n.isDefinitionOf name = true) :
    ids.typeOf n.id = .codeSymbol ∧ ids.isModuleId n.id = false := by
  obtain ⟨i, -, hfnd⟩ := h.node n hn
  simp only [Node.isDefinitionOf, Bool.and_eq_true, Bool.not_eq_true'] at hdef
  obtain ⟨⟨⟨hcode, -⟩, hmod⟩, -⟩ := hdef
  constructor
  · rw [← i.node_type n hfnd]
    exact of_decide_eq_true hcode
  · rw [← i.node_module n hfnd, Node.isModulePseudo, hmod, Bool.and_false]

variable {history : List (Ingest ids)} {g g' : Tables} {i : Ingest ids}

theorem Traced.mono {history' : List (Ingest ids)} (h : Traced history g)
    (hsub : ∀ i ∈ history, i ∈ history') : Traced history' g := by
  refine ⟨fun n hn => ?_, fun e he => ?_, fun m hm => ?_⟩
  · obtain ⟨i, hi, hr⟩ := h.node n hn
    exact ⟨i, hsub i hi, hr⟩
  · obtain ⟨i, hi, hr⟩ := h.edge e he
    exact ⟨i, hsub i hi, hr⟩
  · obtain ⟨i, hi, hr⟩ := h.mention m hm
    exact ⟨i, hsub i hi, hr⟩

theorem Traced.purged (h : Traced history g) (doc : String) (preserve : List String)
    (all : Bool) : Traced history (purged g doc preserve all) :=
  ⟨fun n hn => h.node n (Keyed.mem_filter.mp hn).1,
    fun e he => h.edge e (Keyed.mem_filter.mp he).1, h.mention⟩

theorem Traced.writeMentioned (h : Traced history g) (hi : i ∈ history)
    {x : MentionGraph i.doc} (hx : i.found.mentioned = some x) :
    Traced history (g.writeGraph x.nodes x.edges) := by
  refine ⟨fun n hn => ?_, fun e he => ?_, h.mention⟩
  · rcases Keyed.mem_of_mem_foldl_insert hn with hold | hw
    · exact h.node n hold
    · exact ⟨i, hi, mem_foundNodes_of_mentioned hx hw⟩
  · rcases Keyed.mem_of_mem_foldl_insert he with hold | hw
    · exact h.edge e hold
    · obtain ⟨e, hm, rfl⟩ := mem_map.mp hw
      have hrel := (mem_relations hx).mpr hm
      rw [resolveMethod_of_mem_relations hrel]
      exact ⟨i, hi, doc_of_mem_relations hrel, Or.inl hrel⟩

theorem Traced.writeMentions (h : Traced history g) (hi : i ∈ history)
    {x : MentionGraph i.doc} (hx : i.found.mentioned = some x) :
    Traced history ((g.deleteMentionsByDoc i.doc).writeMentions x.mentions) := by
  refine ⟨h.node, h.edge, fun m hm => ?_⟩
  rcases mem_append.mp hm with hold | hw
  · exact h.mention m (mem_deleteMentionsByDoc.mp hold).1
  · exact ⟨i, hi, (mem_mentions hx).mpr hw⟩

theorem Traced.writeFile (h : Traced history g) (hi : i ∈ history) {f : ParsedFile i.doc}
    (hf : i.found.file = some f) {stored : Tables} (hsto : Traced history stored) :
    Traced history (g.writeGraph f.nodes (f.extract stored.nodes.items).edges) := by
  refine ⟨fun n hn => ?_, fun e he => ?_, h.mention⟩
  · rcases Keyed.mem_of_mem_foldl_insert hn with hold | hw
    · exact h.node n hold
    · exact ⟨i, hi, mem_foundNodes_of_symbols ((mem_symbols hf).mpr hw)⟩
  rcases Keyed.mem_of_mem_foldl_insert he with hold | hw
  · exact h.edge e hold
  obtain ⟨e, hm, rfl⟩ := mem_map.mp hw
  obtain ⟨hdefr, hsrc, htgt⟩ := mem_extract hf hm
  refine ⟨i, hi, ?_, Or.inr ⟨isDefref_resolveMethod hdefr, ?_, ?_⟩⟩
  · rw [sourceDocId_resolveMethod]
    exact (f.extract stored.nodes.items).edge_doc e hm
  · rwa [sourceNodeId_resolveMethod]
  · rw [targetNodeId_resolveMethod]
    rcases htgt with ho | ⟨n, hn, hid, name, -, hdef⟩
    · exact Or.inl ho
    · rw [← hid]
      exact Or.inr (hsto.definition hn hdef)

/-- **Every row was written by an ingest.** -/
theorem traced_collectionOf (history : List (Ingest ids)) :
    Traced history (collectionOf history).graph := by
  induction history using List.reverseRecOn with
  | nil =>
    exact ⟨fun _ hn => absurd hn (Keyed.notMem_empty _),
      fun _ he => absurd he (Keyed.notMem_empty _), fun _ hm => absurd hm not_mem_nil⟩
  | append_singleton history i ih =>
    rw [collectionOf, foldl_append]
    have hi : i ∈ history ++ [i] := mem_append_right _ mem_cons_self
    exact ingestText_invariant i (ih.mono fun j hj => mem_append_left _ hj)
      (fun g _ h => h.purged i.doc [] true) (fun _ h => h) (fun g x hx h => h.writeMentioned hi hx)
      (fun g x hx h => h.writeMentions hi hx) (fun g preserve h => h.purged i.doc preserve false)
      fun g stored f hf hsto h => h.writeFile hi hf hsto

/-! ### Own and shared rows -/

section Own

variable {ns : String} {total : List (Ingest ids)} {id doc : String} {e : Edge} {n : Node}
  {preserve : List String} {all : Bool}

/-- Only visible documents write the node. -/
def own (ns : String) (total : List (Ingest ids)) (id : String) : Bool :=
  (nodeIds (visiblePart ns total)).contains id && !(nodeIds (hiddenPart ns total)).contains id

/-- Only visible documents write the relation, or its first end. -/
def ownEdge (ns : String) (total : List (Ingest ids)) (key : EdgeKey) : Bool :=
  own ns total key.1 || (relationKeys (visiblePart ns total)).contains key &&
    !(relationKeys (hiddenPart ns total)).contains key

theorem own_iff : own ns total id = true ↔
    id ∈ nodeIds (visiblePart ns total) ∧ id ∉ nodeIds (hiddenPart ns total) := by
  simp [own]

variable {key : EdgeKey}

theorem ownEdge_iff : ownEdge ns total key = true ↔ own ns total key.1 = true ∨
    key ∈ relationKeys (visiblePart ns total) ∧ key ∉ relationKeys (hiddenPart ns total) := by
  simp [ownEdge]

theorem mem_visiblePart :
    i ∈ visiblePart ns total ↔ i ∈ total ∧ isHidden ns total i.doc = false := by
  simp [visiblePart]

theorem mem_hiddenPart :
    i ∈ hiddenPart ns total ↔ i ∈ total ∧ isHidden ns total i.doc = true := by
  simp [hiddenPart]

theorem mem_nodeIds : id ∈ nodeIds history ↔
    ∃ i ∈ history, id ∈ (foundNodes i.found).map Node.id := by
  simp [nodeIds]

theorem mem_relationKeys : key ∈ relationKeys history ↔
    ∃ i ∈ history, key ∈ (relations i.found).map Edge.key := by
  simp [relationKeys]

theorem mem_nodeIds_of_symbols (hi : i ∈ history) (h : id ∈ (symbols i.found).map Node.id) :
    id ∈ nodeIds history := by
  obtain ⟨n, hn, rfl⟩ := mem_map.mp h
  exact mem_nodeIds.mpr ⟨i, hi, mem_map_of_mem (mem_foundNodes_of_symbols hn)⟩

theorem ends_of_mem_relationKeys (h : key ∈ relationKeys history) :
    key.1 ∈ nodeIds history ∧ key.2.1 ∈ nodeIds history := by
  obtain ⟨i, hi, hk⟩ := mem_relationKeys.mp h
  obtain ⟨e, he, rfl⟩ := mem_map.mp hk
  have hes := ends_of_mem_relations he
  exact ⟨mem_nodeIds.mpr ⟨i, hi, hes.1⟩, mem_nodeIds.mpr ⟨i, hi, hes.2⟩⟩

theorem typeOf_of_mem_relationKeys (h : key ∈ relationKeys history) :
    ids.typeOf key.1 ≠ .codeSymbol ∧ ids.typeOf key.2.1 ≠ .codeSymbol := by
  obtain ⟨i, hi, hk⟩ := mem_relationKeys.mp h
  obtain ⟨e, he, rfl⟩ := mem_map.mp hk
  exact i.relation_type e he

theorem own_of_symbols (hd : Discreet ns total) (hi : i ∈ visiblePart ns total)
    (h : id ∈ (symbols i.found).map Node.id) : own ns total id = true := by
  have hvis : id ∈ nodeIds (visiblePart ns total) := mem_nodeIds_of_symbols hi h
  exact own_iff.mpr ⟨hvis, fun hhid => hd.symbol id ⟨hvis, hhid⟩ (typeOf_symbol h)⟩

/-- An edge of a visible document with an own end is its own. -/
theorem ownEdge_of_visible (hd : Discreet ns total) (hi : i ∈ visiblePart ns total)
    (he : e ∈ relations i.found ∨ IsOfFile i e)
    (hend : e ∈ relations i.found →
      own ns total e.sourceNodeId = true ∨ own ns total e.targetNodeId = true) :
    ownEdge ns total e.key = true := by
  rcases he with he | he
  · refine ownEdge_iff.mpr (Or.inr ⟨?_, fun hhid => ?_⟩)
    · exact mem_relationKeys.mpr ⟨i, hi, mem_map_of_mem he⟩
    · have hes := ends_of_mem_relationKeys hhid
      rcases hend he with ho | ho
      · exact (own_iff.mp ho).2 hes.1
      · exact (own_iff.mp ho).2 hes.2
  · exact ownEdge_iff.mpr (Or.inl (own_of_symbols hd hi he.2.1))

theorem not_ownEdge_of_hidden (hi : i ∈ hiddenPart ns total)
    (he : e ∈ relations i.found ∨ IsOfFile i e) : ownEdge ns total e.key = false := by
  refine Bool.eq_false_iff.mpr fun ho => ?_
  have hsrc : e.sourceNodeId ∈ nodeIds (hiddenPart ns total) := by
    rcases he with he | he
    · exact mem_nodeIds.mpr ⟨i, hi, (ends_of_mem_relations he).1⟩
    · exact mem_nodeIds_of_symbols hi he.2.1
  rcases ownEdge_iff.mp ho with ho | ⟨hvis, hhid⟩
  · exact (own_iff.mp ho).2 hsrc
  · rcases he with he | he
    · exact hhid (mem_relationKeys.mpr ⟨i, hi, mem_map_of_mem he⟩)
    · exact (typeOf_of_mem_relationKeys hvis).1 he.typeOf_source

theorem IsSharedRelation.ends (h : IsSharedRelation ns total key) :
    IsShared ns total key.1 ∧ IsShared ns total key.2.1 :=
  ⟨⟨(ends_of_mem_relationKeys h.1).1, (ends_of_mem_relationKeys h.2).1⟩,
    ⟨(ends_of_mem_relationKeys h.1).2, (ends_of_mem_relationKeys h.2).2⟩⟩

theorem mem_endpointIds : id ∈ g.endpointIds doc ↔ ∃ e ∈ g.edges, e.sourceDocId = doc ∧
    e.isDefref = true ∧ (e.sourceNodeId = id ∨ e.targetNodeId = id) := by
  simp only [Tables.endpointIds, Tables.defrefEdges, mem_flatMap, mem_filter,
    Bool.and_eq_true, decide_eq_true_eq, mem_cons, not_mem_nil, or_false, and_assoc,
    eq_comm (a := id)]
  rfl

/-- What is deleted of a document was written by it. -/
theorem Traced.mem_of_mem_doomedIds (h : Traced history g)
    (hid : id ∈ g.doomedIds doc preserve false) :
    ∃ i ∈ history, i.doc = doc ∧ id ∈ (foundNodes i.found).map Node.id := by
  obtain ⟨n, hn, rfl, hcan, -⟩ := mem_doomedIds.mp hid
  obtain ⟨i, hi, hfnd⟩ := h.node n hn
  refine ⟨i, hi, ?_, mem_map_of_mem hfnd⟩
  simp only [Tables.isCandidate, Node.isCandidate, Bool.and_eq_true, decide_eq_true_eq] at hcan
  rw [← i.node_doc n hfnd, hcan.1.1]

/-- **A shared node is not deleted**: it is no symbol, and no end of what looks like an edge
between symbols. -/
theorem notMem_doomedIds_of_shared (hd : Discreet ns total) (h : Traced history g)
    (hsub : ∀ i ∈ history, i ∈ total) (hshr : IsShared ns total id) :
    id ∉ g.doomedIds doc preserve false := by
  intro hid
  obtain ⟨n, hn, rfl, hcan, -⟩ := mem_doomedIds.mp hid
  obtain ⟨i, hi, hfnd⟩ := h.node n hn
  have hcode : n.isCodeSymbol = false := by
    refine decide_eq_false fun hcode => hd.symbol n.id hshr ?_
    rw [← i.node_type n hfnd, hcode]
  simp only [Tables.isCandidate, Node.isCandidate, Node.isModulePseudo, hcode, Bool.false_and,
    Bool.and_false, Bool.or_false, Bool.and_eq_true, decide_eq_true_eq, contains_iff_mem]
    at hcan
  obtain ⟨e, he, -, hdef, hend⟩ := mem_endpointIds.mp hcan.2.1
  obtain ⟨j, hj, -, hrel | hf⟩ := h.edge e he
  · have hes := hd.unlabelled j (hsub j hj) e hrel hdef
    rcases hend with hend | hend
    · exact hes.1 (hend ▸ hshr)
    · exact hes.2 (hend ▸ hshr)
  · rcases hend with hend | hend
    · exact hd.symbol n.id hshr (hend ▸ hf.typeOf_source)
    · exact hd.symbol n.id hshr (hend ▸ hf.typeOf_target)

/-! ### Shared rows are kept -/

/-- What documents of both kinds write has stayed, once it was written. -/
structure KeepsShared (ns : String) (total history : List (Ingest ids)) (g : Tables) : Prop where
  node : ∀ id ∈ nodeIds history, IsShared ns total id → id ∈ g.nodeIds
  edge : ∀ key ∈ relationKeys history, IsSharedRelation ns total key →
    key ∈ g.edges.items.map Edge.key

variable {P : EdgeKey → Prop}

theorem Spared.of_append {rest : List (Ingest ids)}
    (h : Spared P (history ++ rest)) : Spared P history := by
  rintro before j after rfl
  exact h before j (after ++ rest) (by simp)

theorem Spared.filter (h : Spared P history) (p : Ingest ids → Bool) :
    Spared P (history.filter p) := by
  intro before i after hsplit hdeg j hj
  obtain ⟨l, r, rfl, rfl, hr⟩ := filter_eq_append_iff.mp hsplit
  obtain ⟨m, r, rfl, -, -, -⟩ := filter_eq_cons_iff.mp hr
  exact h (l ++ m) i r (by simp) hdeg j (mem_append_left _ (mem_filter.mp hj).1)

/-- An edge between shared nodes that is stored is a relation. -/
theorem Traced.relation_of_shared (hd : Discreet ns total) (h : Traced history g)
    (he : e ∈ g.edges) (hshr : IsSharedRelation ns total e.key) :
    ∃ i ∈ history, e.sourceDocId = i.doc ∧ e ∈ relations i.found := by
  obtain ⟨i, hi, hdoc, hrel | hf⟩ := h.edge e he
  · exact ⟨i, hi, hdoc, hrel⟩
  · exact absurd hf.typeOf_source (hd.symbol _ hshr.ends.1)

theorem KeepsShared.purged (hd : Discreet ns total) (h : KeepsShared ns total history g)
    {written : List (Ingest ids)} (htrac : Traced written g)
    (hsub : ∀ i ∈ written, i ∈ total)
    (hspar : all = true → ∀ j ∈ written, j.doc = doc → ∀ e ∈ relations j.found,
      ¬IsSharedRelation ns total e.key) :
    KeepsShared ns total history (purged g doc preserve all) := by
  refine ⟨fun id hid hshr => ?_, fun key hk hshr => ?_⟩
  · obtain ⟨n, hn, rfl⟩ := mem_map.mp (h.node id hid hshr)
    refine mem_map_of_mem (mem_filter.mpr ⟨hn, ?_⟩)
    simpa using notMem_doomedIds_of_shared hd htrac hsub hshr
  obtain ⟨e, he, rfl⟩ := mem_map.mp (h.edge key hk hshr)
  obtain ⟨j, hj, hdoc, hrel⟩ := htrac.relation_of_shared hd he hshr
  have hdef : e.isDefref = false := by
    refine Bool.eq_false_iff.mpr fun hdef => ?_
    exact (hd.unlabelled j (hsub j hj) e hrel hdef).1 hshr.ends.1
  have hes : e.touches (g.doomedIds doc preserve false) = false := by
    rw [← Bool.not_eq_true, Edge.touches_iff, not_or]
    exact ⟨notMem_doomedIds_of_shared hd htrac hsub hshr.ends.1,
      notMem_doomedIds_of_shared hd htrac hsub hshr.ends.2⟩
  have hsp : (decide (e.sourceDocId = doc) && all) = false := by
    refine Bool.eq_false_iff.mpr fun hsp => ?_
    obtain ⟨hsp, hall⟩ := Bool.and_eq_true_iff.mp hsp
    exact hspar hall j hj (hdoc ▸ of_decide_eq_true hsp) e hrel hshr
  refine mem_map_of_mem (mem_filter.mpr ⟨he, ?_⟩)
  rw [hdef, Bool.or_false, hsp, hes]
  rfl

theorem KeepsShared.writeGraph (h : KeepsShared ns total history g) (nodes : List Node)
    (edges : List Edge) : KeepsShared ns total history (g.writeGraph nodes edges) :=
  ⟨fun id hid hshr => Keyed.mem_keys_foldl_insert.mpr (Or.inl (h.node id hid hshr)),
    fun key hk hshr => Keyed.mem_keys_foldl_insert.mpr (Or.inl (h.edge key hk hshr))⟩

/-- What an ingest writes that is shared is among what its chunks mention. -/
theorem KeepsShared.append (hd : Discreet ns total) (h : KeepsShared ns total history g)
    (hnd : ∀ n ∈ mentionedNodes i.found, n.id ∈ g.nodeIds)
    (hedge : ∀ e ∈ relations i.found, e.key ∈ g.edges.items.map Edge.key) :
    KeepsShared ns total (history ++ [i]) g := by
  refine ⟨fun id hid hshr => ?_, fun key hk hshr => ?_⟩
  · obtain ⟨j, hj, hm⟩ := mem_nodeIds.mp hid
    rcases mem_append.mp hj with hj | hj
    · exact h.node id (mem_nodeIds.mpr ⟨j, hj, hm⟩) hshr
    · obtain rfl := mem_singleton.mp hj
      obtain ⟨n, hn, rfl⟩ := mem_map.mp hm
      rcases mem_append.mp hn with hn | hn
      · exact hnd n hn
      · exact absurd (typeOf_symbol (mem_map_of_mem hn)) (hd.symbol n.id hshr)
  · obtain ⟨j, hj, hm⟩ := mem_relationKeys.mp hk
    rcases mem_append.mp hj with hj | hj
    · exact h.edge key (mem_relationKeys.mpr ⟨j, hj, hm⟩) hshr
    · obtain rfl := mem_singleton.mp hj
      obtain ⟨e, he, rfl⟩ := mem_map.mp hm
      exact hedge e he

/-- **Shared rows are kept.** -/
theorem keepsShared_collectionOf (hd : Discreet ns total) (history : List (Ingest ids))
    (hsub : ∀ i ∈ history, i ∈ total)
    (hspar : Spared (IsSharedRelation ns total) history) :
    KeepsShared ns total history (collectionOf history).graph := by
  induction history using List.reverseRecOn with
  | nil => exact ⟨fun _ hid => absurd hid not_mem_nil, fun _ hk => absurd hk not_mem_nil⟩
  | append_singleton history i ih =>
    rw [collectionOf, foldl_append]
    have hi : i ∈ history ++ [i] := mem_append_right _ mem_cons_self
    have hsub' : ∀ j ∈ history, j ∈ history ++ [i] := fun j hj => mem_append_left _ hj
    have hst := ih (fun j hj => hsub j (hsub' j hj)) hspar.of_append
    refine (ingestText_invariant (I := fun g => Traced history g ∧ KeepsShared ns total history g)
      (J := fun g => Traced (history ++ [i]) g ∧ KeepsShared ns total (history ++ [i]) g) i
      ⟨traced_collectionOf history, hst⟩ ?_ ?_ ?_ ?_ ?_ ?_).2
    · intro g hdeg h
      refine ⟨h.1.purged i.doc [] true, h.2.purged hd h.1 (fun j hj => hsub j (hsub' j hj)) ?_⟩
      exact fun _ => hspar history i [] rfl hdeg
    · intro hx h
      refine ⟨h.1.mono hsub', h.2.append hd (fun n hn => ?_) fun e he => ?_⟩
      · simp [mentionedNodes, hx] at hn
      · simp [relations, hx] at he
    · intro g x hx h
      refine ⟨(h.1.mono hsub').writeMentioned hi hx,
        (h.2.writeGraph x.nodes x.edges).append hd (fun n hn => ?_) fun e he => ?_⟩
      · refine Keyed.mem_keys_foldl_insert.mpr (Or.inr (mem_map_of_mem ?_))
        simpa [mentionedNodes, hx] using hn
      · refine Keyed.mem_keys_foldl_insert.mpr (Or.inr ?_)
        rw [map_key_resolveMethod]
        exact mem_map_of_mem ((mem_relations hx).mp he)
    · exact fun g x hx h => ⟨h.1.writeMentions hi hx, h.2.node, h.2.edge⟩
    · exact fun g preserve h => ⟨h.1.purged i.doc preserve false,
        h.2.purged hd h.1 hsub fun hall => absurd hall (by decide)⟩
    · exact fun g stored f hf hsto h => ⟨h.1.writeFile hi hf hsto.1, h.2.writeGraph _ _⟩

end Own

end ArchonSearch.Graph.Views
