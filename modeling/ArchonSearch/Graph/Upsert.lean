import ArchonSearch.Lib.Merge
import ArchonSearch.Graph.Store

/-!
# What an upsert of a graph keeps

Nodes and edges are upserted by their ids, and the store replaces whole rows. A node that comes
without a name embedding, a PageRank score or a source path would wipe out the stored one, and an
edge which is `extracted` in one file and `inferred` in another would lose the better of its tags.
So `writeGraph` reads, for each of the three columns the table has, the values stored for the nodes
that come without one, and for the edges their tags, and writes what it has resolved from both;
`writePagerankScores` changes that column of the stored rows alone.

How the store writes rows is not in this code, so the calls of a run each come with a writer of
rows by key (`ArchonSearch.Lib.Merge`), which may take any of several rows of one id, store them
all, or fail. In every run the stored values stay as long as each row of the id has one
(`run_keeps`). A tag stays `extracted` as long as the edge comes as `extracted` or `inferred`; any
other tag replaces it, and the next `inferred` one then stays (`tag_lost`).
-/

namespace ArchonSearch.Graph.Upsert

open Lib List

/-! ### Rows and tables -/

/-- `GraphNode`, which is also a row of the nodes table. Embeddings and scores are of any
type. -/
structure GraphNode (ε ρ : Type*) where
  (id entityName : String)
  entityType : EntityType
  (sourceDocId collectionName : String)
  entitySubtype : Option String
  nameEmbedding : Option ε
  pagerankScore : Option ρ
  sourcePath : Option String
  deriving DecidableEq

/-- `GraphEdge`, which is also a row of the edges table. -/
structure GraphEdge where
  (id sourceNodeId targetNodeId : String)
  relationshipType : RelationshipType
  sourceDocId : String
  extractionMethod : Option String
  deriving DecidableEq

variable {ε ρ τ : Type*}

structure NodesSchema where
  (nameEmbedding pagerankScore sourcePath : Bool)

structure NodesSchema.Fits (s : NodesSchema) (r : GraphNode ε ρ) : Prop where
  nameEmbedding : s.nameEmbedding = false → r.nameEmbedding = none
  pagerankScore : s.pagerankScore = false → r.pagerankScore = none
  sourcePath : s.sourcePath = false → r.sourcePath = none

structure NodesTable (ε ρ : Type*) where
  schema : NodesSchema
  rows : List (GraphNode ε ρ)
  fits : ∀ r ∈ rows, schema.Fits r

structure EdgesTable where
  /-- Whether it has the column `extraction_method`. -/
  hasExtractionMethod : Bool
  rows : List GraphEdge
  fits : hasExtractionMethod = false → ∀ r ∈ rows, r.extractionMethod = none

structure Tables (ε ρ : Type*) where
  nodes : NodesTable ε ρ
  edges : EdgesTable

/-- `merge_insert("id")` of whole rows: a matched row is replaced, any other is inserted. -/
abbrev RowMerge {α : Type*} (id : α → String) := Merge id id (fun new _ => new) some

/-- `merge_insert("id")` of rows that have an id and a score only: these two columns of a
matched row are replaced. -/
abbrev ScoreMerge (ε ρ : Type*) :=
  Merge (GraphNode.id : GraphNode ε ρ → String) (Prod.fst : String × ρ → String)
    (fun new r => { r with pagerankScore := some new.2 }) fun _ => none

structure Store (ε ρ : Type*) where
  nodes : RowMerge (GraphNode.id : GraphNode ε ρ → String)
  edges : RowMerge GraphEdge.id
  scores : ScoreMerge ε ρ

/-! ### `write_graph` -/

/-- A query for `id` and a column of the rows with one of the ids. -/
def preRead {α : Type*} (id : α → String) (column : α → Option τ) (rows : List α)
    (ids : List String) : List (String × Option τ) :=
  (rows.filter fun r => id r ∈ ids).map fun r => (id r, column r)

/-- `dict(zip(...)).get(key)`, where the last pair of a key counts. -/
def dictGet (pairs : List (String × Option τ)) (key : String) : Option τ :=
  (pairs.reverse.find? fun pair => pair.1 = key).bind Prod.snd

/-- The values that a column the table has stores for the nodes that come without one. -/
def existingValues (hasColumn : Bool) (column : GraphNode ε ρ → Option τ)
    (rows nodes : List (GraphNode ε ρ)) : List (String × Option τ) :=
  if hasColumn then
    preRead GraphNode.id column rows ((nodes.filter fun n => (column n).isNone).map GraphNode.id)
  else []

def resolved (hasColumn : Bool) (column : GraphNode ε ρ → Option τ)
    (rows nodes : List (GraphNode ε ρ)) (n : GraphNode ε ρ) : Option τ :=
  if hasColumn then
    (column n).or (dictGet (existingValues hasColumn column rows nodes) n.id)
  else none

/-- `resolved_embeddings`. -/
def resolvedEmbeddings (t : NodesTable ε ρ) (nodes : List (GraphNode ε ρ)) :
    GraphNode ε ρ → Option ε :=
  resolved t.schema.nameEmbedding GraphNode.nameEmbedding t.rows nodes

/-- `resolved_pageranks`. -/
def resolvedPageranks (t : NodesTable ε ρ) (nodes : List (GraphNode ε ρ)) :
    GraphNode ε ρ → Option ρ :=
  resolved t.schema.pagerankScore GraphNode.pagerankScore t.rows nodes

/-- `resolved_source_paths`. -/
def resolvedSourcePaths (t : NodesTable ε ρ) (nodes : List (GraphNode ε ρ)) :
    GraphNode ε ρ → Option String :=
  resolved t.schema.sourcePath GraphNode.sourcePath t.rows nodes

/-- The row of `nodes_data` for a node. -/
def nodeData (t : NodesTable ε ρ) (nodes : List (GraphNode ε ρ)) (n : GraphNode ε ρ) :
    GraphNode ε ρ :=
  { n with
    nameEmbedding := resolvedEmbeddings t nodes n
    pagerankScore := resolvedPageranks t nodes n
    sourcePath := resolvedSourcePaths t nodes n }

/-- `nodes_data`. -/
def nodesData (t : NodesTable ε ρ) (nodes : List (GraphNode ε ρ)) : List (GraphNode ε ρ) :=
  nodes.map (nodeData t nodes)

theorem resolved_eq_none {column : GraphNode ε ρ → Option τ} {hasColumn : Bool}
    (h : hasColumn = false) (rows nodes : List (GraphNode ε ρ)) (n : GraphNode ε ρ) :
    resolved hasColumn column rows nodes n = none := by
  simp [resolved, h]

theorem fits_nodesData (t : NodesTable ε ρ) (nodes : List (GraphNode ε ρ)) :
    ∀ r ∈ nodesData t nodes, t.schema.Fits r := by
  intro r hr
  obtain ⟨n, -, rfl⟩ := mem_map.mp hr
  exact ⟨fun h => resolved_eq_none h .., fun h => resolved_eq_none h ..,
    fun h => resolved_eq_none h ..⟩

/-- The part of `write_graph` that writes the nodes. -/
def writeNodes (m : RowMerge (GraphNode.id : GraphNode ε ρ → String)) (t : NodesTable ε ρ)
    (nodes : List (GraphNode ε ρ)) : Option (NodesTable ε ρ) :=
  if nodes.isEmpty then some t
  else
    match h : m.run t.rows (nodesData t nodes) with
    | none => none
    | some rows => some
        { schema := t.schema
          rows := rows
          fits := Merge.forall_mem h t.fits (fun n hn _ _ _ => fits_nodesData t nodes n hn)
            fun n hn _ hr => Option.some.inj hr ▸ fits_nodesData t nodes n hn }

/-- `resolved_extraction_methods`. -/
def resolvedExtractionMethods (rows edges : List GraphEdge) (e : GraphEdge) : Option String :=
  if edges.any fun e => e.extractionMethod = some "inferred" then
    if e.extractionMethod = some "inferred" ∧
        dictGet (preRead GraphEdge.id GraphEdge.extractionMethod rows
          (edges.map GraphEdge.id)) e.id = some "extracted" then
      some "extracted"
    else e.extractionMethod
  else e.extractionMethod

/-- `edges_data`. -/
def edgesData (rows edges : List GraphEdge) : List GraphEdge :=
  edges.map fun e => { e with extractionMethod := resolvedExtractionMethods rows edges e }

/-- The part of `write_graph` that writes the edges. The store refuses rows with a column that
the table lacks. -/
def writeEdges (m : RowMerge GraphEdge.id) (t : EdgesTable) (edges : List GraphEdge) :
    Option EdgesTable :=
  if edges.isEmpty then some t
  else if h : t.hasExtractionMethod then
    (m.run t.rows (edgesData t.rows edges)).map fun rows =>
      { hasExtractionMethod := t.hasExtractionMethod
        rows := rows
        fits := fun hnot => absurd h (by simp [hnot]) }
  else none

/-- `write_graph`, and whether it returns: the nodes are written when writing the edges
fails. -/
def writeGraph (m : Store ε ρ) (g : Tables ε ρ) (nodes : List (GraphNode ε ρ))
    (edges : List GraphEdge) : Tables ε ρ × Bool :=
  match writeNodes m.nodes g.nodes nodes with
  | none => (g, false)
  | some t =>
    match writeEdges m.edges g.edges edges with
    | none => ({ g with nodes := t }, false)
    | some u => ({ nodes := t, edges := u }, true)

/-! ### `write_pagerank_scores` -/

/-- `ensure_graph_tables`, of tables that exist: the columns that are added later, but for
`name_embedding`, are added where they lack. -/
def ensureGraphTables (g : Tables ε ρ) : Tables ε ρ where
  nodes :=
    { schema := { g.nodes.schema with pagerankScore := true, sourcePath := true }
      rows := g.nodes.rows
      fits := fun r hr => ⟨(g.nodes.fits r hr).nameEmbedding, nofun, nofun⟩ }
  edges :=
    { hasExtractionMethod := true
      rows := g.edges.rows
      fits := nofun }

abbrev Scores (ρ : Type*) := Keyed (Prod.fst : String × ρ → String)

/-- `pagerank_data`: the scores of the ids that are in the table. -/
def pagerankData (rows : List (GraphNode ε ρ)) (scores : Scores ρ) : List (String × ρ) :=
  rows.filterMap fun r => scores.get? r.id

/-- `write_pagerank_scores`, and whether it returns. -/
def writePagerankScores (m : Store ε ρ) (g : Tables ε ρ) (scores : Scores ρ) :
    Tables ε ρ × Bool :=
  if scores.items.isEmpty then (g, true)
  else
    let g := ensureGraphTables g
    if (pagerankData g.nodes.rows scores).isEmpty then (g, true)
    else
      match h : m.scores.run g.nodes.rows (pagerankData g.nodes.rows scores) with
      | none => (g, false)
      | some rows => (
        { g with
          nodes :=
            { schema := g.nodes.schema
              rows := rows
              fits := Merge.forall_mem h g.nodes.fits
                (fun _ _ _ _ hr => ⟨hr.nameEmbedding, nofun, hr.sourcePath⟩) nofun } }, true)

/-! ### Runs -/

inductive Call (ε ρ : Type*) where
  | writeGraph (nodes : List (GraphNode ε ρ)) (edges : List GraphEdge) : Call ε ρ
  | writePagerankScores (scores : Scores ρ) : Call ε ρ

def Call.nodes : Call ε ρ → List (GraphNode ε ρ)
  | .writeGraph nodes _ => nodes
  | .writePagerankScores _ => []

def Call.edges : Call ε ρ → List GraphEdge
  | .writeGraph _ edges => edges
  | .writePagerankScores _ => []

def Call.scores : Call ε ρ → Scores ρ
  | .writeGraph _ _ => Keyed.empty
  | .writePagerankScores scores => scores

def step (m : Store ε ρ) (g : Tables ε ρ) : Call ε ρ → Tables ε ρ × Bool
  | .writeGraph nodes edges => Upsert.writeGraph m g nodes edges
  | .writePagerankScores scores => Upsert.writePagerankScores m g scores

def run (calls : List (Store ε ρ × Call ε ρ)) (g : Tables ε ρ) : Tables ε ρ :=
  calls.foldl (fun g call => (step call.1 g call.2).1) g

/-! ### What is read before a write -/

section PreRead

variable {α : Type*} {id : α → String} {column : α → Option τ} {rows : List α}
  {ids : List String} {k : String}

theorem exists_of_dictGet_preRead {v : τ} (h : dictGet (preRead id column rows ids) k = some v) :
    ∃ r ∈ rows, id r = k ∧ column r = some v := by
  obtain ⟨pair, hpr, hv⟩ := Option.bind_eq_some_iff.mp h
  have hk : pair.1 = k := by simpa using find?_some hpr
  obtain ⟨r, hr, rfl⟩ := mem_map.mp (mem_reverse.mp (mem_of_find?_eq_some hpr))
  exact ⟨r, mem_of_mem_filter hr, hk, hv⟩

/-- **What all rows of an id satisfy, the value read for it does.** -/
theorem dictGet_preRead (hk : k ∈ ids) {P : Option τ → Prop}
    (h : Stores id rows k fun r => P (column r)) : P (dictGet (preRead id column rows ids) k) := by
  cases hf : (preRead id column rows ids).reverse.find? fun pair => pair.1 = k with
  | none =>
    obtain ⟨r, hr, hrk⟩ := mem_map.mp h.1
    have hm : (id r, column r) ∈ preRead id column rows ids :=
      mem_map_of_mem (mem_filter.mpr ⟨hr, decide_eq_true (hrk ▸ hk)⟩)
    have hne := find?_eq_none.mp hf _ (mem_reverse.mpr hm)
    exact absurd hrk (by simpa using hne)
  | some pair =>
    have hpk : pair.1 = k := by simpa using find?_some hf
    obtain ⟨r, hr, rfl⟩ := mem_map.mp (mem_reverse.mp (mem_of_find?_eq_some hf))
    rw [dictGet, hf, Option.bind_some]
    exact h.2 r (mem_of_mem_filter hr) hpk

end PreRead

/-! ### What is written into a column -/

section Column

variable {column : GraphNode ε ρ → Option τ} {hasColumn : Bool} {rows nodes : List (GraphNode ε ρ)}

/-- **A node that comes without a value gets a stored one**, if each row of its id has one. -/
theorem resolved_of_stores (hnull : hasColumn = false → ∀ r ∈ rows, column r = none)
    {n : GraphNode ε ρ} (hn : n ∈ nodes)
    (h : Stores GraphNode.id rows n.id fun r => column r ≠ none) :
    ∃ v, resolved hasColumn column rows nodes n = some v ∧
      (column n = some v ∨ ∃ r ∈ rows, r.id = n.id ∧ column r = some v) := by
  obtain ⟨r, hr, hrn⟩ := mem_map.mp h.1
  cases hc : hasColumn with
  | false => exact absurd (hnull hc r hr) (h.2 r hr hrn)
  | true =>
    cases hcol : column n with
    | some v => exact ⟨v, by simp [resolved, hcol], Or.inl rfl⟩
    | none =>
      have hid : n.id ∈ (nodes.filter fun n => (column n).isNone).map GraphNode.id :=
        mem_map_of_mem (mem_filter.mpr ⟨hn, by simp [hcol]⟩)
      have hne : dictGet (preRead GraphNode.id column rows _) n.id ≠ none :=
        dictGet_preRead (P := fun o => o ≠ none) hid h
      obtain ⟨v, hv⟩ := Option.ne_none_iff_exists'.mp hne
      refine ⟨v, ?_, Or.inr (exists_of_dictGet_preRead hv)⟩
      simp only [resolved, existingValues, if_true, hcol, Option.none_or]
      exact hv

end Column

/-! ### What a call writes -/

inductive NodesWritten (m : Store ε ρ) (g : Tables ε ρ) (c : Call ε ρ) (after : Tables ε ρ)
    (done : Bool) : Prop where
  | unchanged : after.nodes.rows = g.nodes.rows →
      (done = true → c.nodes = [] ∧ pagerankData g.nodes.rows c.scores = []) →
      NodesWritten m g c after done
  | rows : m.nodes.run g.nodes.rows (nodesData g.nodes c.nodes) = some after.nodes.rows →
      c.scores = Keyed.empty → NodesWritten m g c after done
  | scores : m.scores.run g.nodes.rows (pagerankData g.nodes.rows c.scores) =
      some after.nodes.rows → c.nodes = [] → NodesWritten m g c after done

inductive EdgesWritten (m : Store ε ρ) (g : Tables ε ρ) (c : Call ε ρ) (after : Tables ε ρ)
    (done : Bool) : Prop where
  | unchanged : after.edges.rows = g.edges.rows → (done = true → c.edges = []) →
      EdgesWritten m g c after done
  | rows : m.edges.run g.edges.rows (edgesData g.edges.rows c.edges) = some after.edges.rows →
      EdgesWritten m g c after done

variable {m : Store ε ρ} {g : Tables ε ρ} {c : Call ε ρ}
  {w : RowMerge (GraphNode.id : GraphNode ε ρ → String)}

theorem writeNodes_eq_some
    {t t' : NodesTable ε ρ} {nodes : List (GraphNode ε ρ)} (h : writeNodes w t nodes = some t') :
    nodes = [] ∧ t' = t ∨ w.run t.rows (nodesData t nodes) = some t'.rows := by
  unfold writeNodes at h
  split at h
  · exact Or.inl ⟨List.isEmpty_iff.mp ‹_›, (Option.some.inj h).symm⟩
  · split at h
    · cases h
    · cases h
      exact Or.inr ‹_›

variable {edges : List GraphEdge}

theorem writeEdges_eq_some {w : RowMerge GraphEdge.id} {t t' : EdgesTable}
    (h : writeEdges w t edges = some t') :
    edges = [] ∧ t' = t ∨ w.run t.rows (edgesData t.rows edges) = some t'.rows := by
  unfold writeEdges at h
  split at h
  · exact Or.inl ⟨List.isEmpty_iff.mp ‹_›, (Option.some.inj h).symm⟩
  · split at h
    · obtain ⟨rows, hrw, rfl⟩ := Option.map_eq_some_iff.mp h
      exact Or.inr hrw
    · cases h

variable {scores : Scores ρ}

theorem pagerankData_eq_nil (h : scores.items = [])
    (rows : List (GraphNode ε ρ)) : pagerankData rows scores = [] := by
  simp [pagerankData, Keyed.get?, h]

theorem nodesWritten_step (m : Store ε ρ) (g : Tables ε ρ) (c : Call ε ρ) :
    NodesWritten m g c (step m g c).1 (step m g c).2 := by
  cases c with
  | writeGraph nodes edges =>
    have hcase {t : NodesTable ε ρ} (ht : writeNodes m.nodes g.nodes nodes = some t)
        (u : EdgesTable) (done : Bool) :
        NodesWritten m g (.writeGraph nodes edges) ⟨t, u⟩ done := by
      rcases writeNodes_eq_some ht with ⟨rfl, rfl⟩ | hr
      · exact .unchanged rfl fun _ => ⟨rfl, pagerankData_eq_nil rfl _⟩
      · exact .rows hr rfl
    simp only [step, Upsert.writeGraph]
    split
    · exact .unchanged rfl nofun
    · split
      · exact hcase ‹_› g.edges false
      · exact hcase ‹_› _ true
  | writePagerankScores scores =>
    simp only [step, Upsert.writePagerankScores]
    split
    · exact .unchanged rfl fun _ => ⟨rfl, pagerankData_eq_nil (List.isEmpty_iff.mp ‹_›) _⟩
    · split
      · exact .unchanged rfl fun _ => ⟨rfl, List.isEmpty_iff.mp ‹_›⟩
      · split
        · exact .unchanged rfl nofun
        · exact .scores ‹_› rfl

theorem edgesWritten_step (m : Store ε ρ) (g : Tables ε ρ) (c : Call ε ρ) :
    EdgesWritten m g c (step m g c).1 (step m g c).2 := by
  cases c with
  | writeGraph nodes edges =>
    simp only [step, Upsert.writeGraph]
    split
    · exact .unchanged rfl nofun
    · split
      · exact .unchanged rfl nofun
      · rcases writeEdges_eq_some ‹_› with ⟨rfl, rfl⟩ | hr
        · exact .unchanged rfl fun _ => rfl
        · exact .rows hr
  | writePagerankScores scores =>
    refine .unchanged ?_ fun _ => rfl
    simp only [step, Upsert.writePagerankScores]
    split
    · rfl
    · split
      · rfl
      · split <;> rfl

/-! ### What a call keeps -/

def Given (column : GraphNode ε ρ → Option τ) (calls : List (Call ε ρ)) (k : String) (v : τ) :
    Prop :=
  ∃ c ∈ calls, ∃ n ∈ c.nodes, n.id = k ∧ column n = some v

def IsDefrefTag (tag : Option String) : Prop := tag = some "extracted" ∨ tag = some "inferred"

/-- What calls keep of a graph: the ids, the values of the columns added later, and the tag
of an edge that comes as a def/ref edge whenever it comes. -/
structure Keeps (calls : List (Call ε ρ)) (g after : Tables ε ρ) : Prop where
  nodes : ∀ k ∈ g.nodes.rows.map GraphNode.id, k ∈ after.nodes.rows.map GraphNode.id
  edges : ∀ k ∈ g.edges.rows.map GraphEdge.id, k ∈ after.edges.rows.map GraphEdge.id
  nameEmbedding : KeepsColumn GraphNode.id GraphNode.nameEmbedding
    (Given GraphNode.nameEmbedding calls) g.nodes.rows after.nodes.rows
  pagerankScore : KeepsColumn GraphNode.id GraphNode.pagerankScore
    (fun k v => Given GraphNode.pagerankScore calls k v ∨ ∃ c ∈ calls, (k, v) ∈ c.scores)
    g.nodes.rows after.nodes.rows
  sourcePath : KeepsColumn GraphNode.id GraphNode.sourcePath
    (Given GraphNode.sourcePath calls) g.nodes.rows after.nodes.rows
  extractionMethod : ∀ k,
    (∀ c ∈ calls, ∀ e ∈ c.edges, e.id = k → IsDefrefTag e.extractionMethod) →
    Stores GraphEdge.id g.edges.rows k (fun r => r.extractionMethod = some "extracted") →
    Stores GraphEdge.id after.edges.rows k fun r => r.extractionMethod = some "extracted"

theorem Given.mono {column : GraphNode ε ρ → Option τ} {calls calls' : List (Call ε ρ)}
    (hsub : calls ⊆ calls') (k : String) (v : τ) (h : Given column calls k v) :
    Given column calls' k v := by
  obtain ⟨c, hc, hn⟩ := h
  exact ⟨c, hsub hc, hn⟩

theorem Keeps.refl (calls : List (Call ε ρ)) (g : Tables ε ρ) : Keeps calls g g where
  nodes _ hk := hk
  edges _ hk := hk
  nameEmbedding := KeepsColumn.refl _ _
  pagerankScore := KeepsColumn.refl _ _
  sourcePath := KeepsColumn.refl _ _
  extractionMethod _ _ h := h

theorem Keeps.mono {calls calls' : List (Call ε ρ)} {g g' : Tables ε ρ}
    (h : Keeps calls g g') (hsub : calls ⊆ calls') : Keeps calls' g g' where
  nodes := h.nodes
  edges := h.edges
  nameEmbedding := h.nameEmbedding.mono (Given.mono hsub)
  pagerankScore := by
    refine h.pagerankScore.mono fun k v hv => ?_
    rcases hv with hv | ⟨c, hc, hkv⟩
    · exact Or.inl (hv.mono hsub)
    · exact Or.inr ⟨c, hsub hc, hkv⟩
  sourcePath := h.sourcePath.mono (Given.mono hsub)
  extractionMethod k htag := h.extractionMethod k fun c hc => htag c (hsub hc)

theorem Keeps.trans {calls : List (Call ε ρ)} {g g' g'' : Tables ε ρ}
    (h : Keeps calls g g') (h' : Keeps calls g' g'') : Keeps calls g g'' where
  nodes k hk := h'.nodes k (h.nodes k hk)
  edges k hk := h'.edges k (h.edges k hk)
  nameEmbedding := h.nameEmbedding.trans h'.nameEmbedding
  pagerankScore := h.pagerankScore.trans h'.pagerankScore
  sourcePath := h.sourcePath.trans h'.sourcePath
  extractionMethod k htag hk := h'.extractionMethod k htag (h.extractionMethod k htag hk)

/-- **Writing rows keeps a column whose values are resolved first.** -/
theorem kept_nodesData {column : GraphNode ε ρ → Option τ} {hasColumn : Bool} {t : NodesTable ε ρ}
    {nodes rows : List (GraphNode ε ρ)} (h : w.run t.rows (nodesData t nodes) = some rows)
    (hnull : hasColumn = false → ∀ r ∈ t.rows, column r = none)
    (hcol : ∀ n, column (nodeData t nodes n) = resolved hasColumn column t.rows nodes n) :
    KeepsColumn GraphNode.id column (fun k v => ∃ n ∈ nodes, n.id = k ∧ column n = some v) t.rows
      rows := by
  refine Merge.kept h fun r hr hstor _ _ _ => ?_
  obtain ⟨n, hn, rfl⟩ := mem_map.mp hr
  obtain ⟨v, hv, hfrom⟩ := resolved_of_stores hnull hn hstor
  exact ⟨v, (hcol n).trans hv, hfrom.imp_left fun ho => ⟨n, hn, rfl, ho⟩⟩

/-- Writing scores keeps a column that is not the scores'. -/
theorem kept_scores {column : GraphNode ε ρ → Option τ} {w : ScoreMerge ε ρ}
    {t rows : List (GraphNode ε ρ)} {data : List (String × ρ)} (h : w.run t data = some rows)
    (hcol : ∀ r s, column { r with pagerankScore := s } = column r)
    (given : String → τ → Prop) : KeepsColumn GraphNode.id column given t rows := by
  refine Merge.kept h fun new _ hstor r hr hrk => ?_
  obtain ⟨v, hv⟩ := Option.ne_none_iff_exists'.mp (hstor.2 r hr hrk)
  exact ⟨v, (hcol r _).trans hv, Or.inr ⟨r, hr, hrk, hv⟩⟩

/-- **A call keeps a column**, if writing scores does: every node it writes has the value
resolved for it. -/
theorem kept_step {column : GraphNode ε ρ → Option τ} {hasColumn : Bool}
    {given : String → τ → Prop} (m : Store ε ρ) {g : Tables ε ρ} {c : Call ε ρ}
    (hnull : hasColumn = false → ∀ r ∈ g.nodes.rows, column r = none)
    (hcol : ∀ n, column (nodeData g.nodes c.nodes n) =
      resolved hasColumn column g.nodes.rows c.nodes n)
    (hgiv : ∀ k v, (∃ n ∈ c.nodes, n.id = k ∧ column n = some v) → given k v)
    (hscor : ∀ rows, m.scores.run g.nodes.rows (pagerankData g.nodes.rows c.scores) =
      some rows → KeepsColumn GraphNode.id column given g.nodes.rows rows) :
    KeepsColumn GraphNode.id column given g.nodes.rows (step m g c).1.nodes.rows := by
  cases nodesWritten_step m g c with
  | unchanged hrw _ =>
    rw [hrw]
    exact KeepsColumn.refl _ _
  | rows hr _ => exact (kept_nodesData hr hnull hcol).mono hgiv
  | scores hr _ => exact hscor _ hr

variable {e : GraphEdge}

/-- The tags are only read for a batch with an `inferred` edge, which makes no difference. -/
theorem resolvedExtractionMethods_eq {rows : List GraphEdge}
    (he : e ∈ edges) : resolvedExtractionMethods rows edges e =
      if e.extractionMethod = some "inferred" ∧
          dictGet (preRead GraphEdge.id GraphEdge.extractionMethod rows
            (edges.map GraphEdge.id)) e.id = some "extracted" then some "extracted"
      else e.extractionMethod := by
  unfold resolvedExtractionMethods
  split
  · rfl
  · have hnot : e.extractionMethod ≠ some "inferred" := by
      intro htag
      exact ‹¬_› (any_eq_true.mpr ⟨e, he, decide_eq_true htag⟩)
    rw [if_neg fun h => hnot h.1]

/-- **The tag written over an extracted one**: the tag the edge comes with, but `extracted`
for `inferred`. -/
theorem resolvedExtractionMethods_of_stores {rows : List GraphEdge}
    (he : e ∈ edges)
    (h : Stores GraphEdge.id rows e.id fun r => r.extractionMethod = some "extracted") :
    resolvedExtractionMethods rows edges e =
      if e.extractionMethod = some "inferred" then some "extracted" else e.extractionMethod := by
  have hrd : dictGet (preRead GraphEdge.id GraphEdge.extractionMethod rows
      (edges.map GraphEdge.id)) e.id = some "extracted" :=
    dictGet_preRead (P := fun o => o = some "extracted") (mem_map_of_mem he) h
  simp [resolvedExtractionMethods_eq he, hrd]

/-- **What a call stores for an extracted edge**: `extracted`, or a tag that the edge comes
with in the call and that is not `inferred`. -/
theorem tag_step (m : Store ε ρ) {g : Tables ε ρ} (c : Call ε ρ) {k : String}
    (h : Stores GraphEdge.id g.edges.rows k fun r => r.extractionMethod = some "extracted") :
    Stores GraphEdge.id (step m g c).1.edges.rows k fun r =>
      r.extractionMethod = some "extracted" ∨
        r.extractionMethod ≠ some "inferred" ∧
          ∃ e ∈ c.edges, e.id = k ∧ r.extractionMethod = e.extractionMethod := by
  cases edgesWritten_step m g c with
  | unchanged hrw _ =>
    rw [hrw]
    exact h.mono fun _ _ _ htag => Or.inl htag
  | rows hrun =>
    refine Merge.stores hrun h.1 (fun _ r hr hk => Or.inl (h.2 r hr hk)) fun b hb hbk _ _ _ => ?_
    obtain ⟨e, he, rfl⟩ := mem_map.mp hb
    have htag := resolvedExtractionMethods_of_stores he (hbk ▸ h)
    by_cases hinf : e.extractionMethod = some "inferred"
    · exact Or.inl (htag.trans (if_pos hinf))
    · rw [if_neg hinf] at htag
      exact Or.inr ⟨fun hc => hinf (htag.symm.trans hc), e, he, hbk, htag⟩

theorem keeps_step (m : Store ε ρ) (g : Tables ε ρ) (c : Call ε ρ) :
    Keeps [c] g (step m g c).1 where
  nodes := by
    cases nodesWritten_step m g c with
    | unchanged hrw _ => exact fun k hk => hrw ▸ hk
    | rows hrun _ => exact m.nodes.stays hrun
    | scores hrun _ => exact m.scores.stays hrun
  edges := by
    cases edgesWritten_step m g c with
    | unchanged hrw _ => exact fun k hk => hrw ▸ hk
    | rows hrun => exact m.edges.stays hrun
  nameEmbedding :=
    kept_step m (fun hno r hr => (g.nodes.fits r hr).nameEmbedding hno) (fun _ => rfl)
      (fun _ _ hv => ⟨c, mem_singleton_self c, hv⟩)
      fun _ hrun => kept_scores hrun (fun _ _ => rfl) _
  pagerankScore := by
    refine kept_step m (fun hno r hr => (g.nodes.fits r hr).pagerankScore hno) (fun _ => rfl)
      (fun _ _ hv => Or.inl ⟨c, mem_singleton_self c, hv⟩) fun rows hrun => ?_
    refine Merge.kept hrun fun new hw _ r _ _ => ⟨new.2, rfl, Or.inl (Or.inr ?_)⟩
    obtain ⟨r, -, hg⟩ := mem_filterMap.mp hw
    exact ⟨c, mem_singleton_self c, (Keyed.get?_eq_some_iff.mp hg).1⟩
  sourcePath :=
    kept_step m (fun hno r hr => (g.nodes.fits r hr).sourcePath hno) (fun _ => rfl)
      (fun _ _ hv => ⟨c, mem_singleton_self c, hv⟩)
      fun _ hrun => kept_scores hrun (fun _ _ => rfl) _
  extractionMethod k htag h := by
    refine (tag_step m c h).mono fun r _ _ hr => ?_
    obtain hr | ⟨hinf, e, he, hek, hre⟩ := hr
    · exact hr
    · rw [hre] at hinf ⊢
      exact (htag c (mem_singleton_self c) e he hek).resolve_right hinf

/-- **What a run keeps.** -/
theorem keeps_run (calls : List (Store ε ρ × Call ε ρ)) (g : Tables ε ρ) :
    Keeps (calls.map Prod.snd) g (run calls g) := by
  induction calls generalizing g with
  | nil => exact Keeps.refl _ g
  | cons call calls ih =>
    have hfst : Keeps ((call :: calls).map Prod.snd) g (step call.1 g call.2).1 :=
      (keeps_step call.1 g call.2).mono (by simp)
    exact hfst.trans ((ih _).mono (subset_cons_self _ _))

/-! ### What a call leaves alone, and what it replaces -/

def Call.nodeIds (c : Call ε ρ) : List String :=
  c.nodes.map GraphNode.id ++ c.scores.items.map Prod.fst

def Call.edgeIds (c : Call ε ρ) : List String := c.edges.map GraphEdge.id

/-- What a call does to the rows. What it says of the rows that the call names is for a call
that returns. -/
structure CallWrites (g : Tables ε ρ) (c : Call ε ρ) (after : Tables ε ρ) (done : Bool) :
    Prop where
  otherNodes : (after.nodes.rows.filter fun r => r.id ∉ c.nodeIds).Perm
    (g.nodes.rows.filter fun r => r.id ∉ c.nodeIds)
  otherEdges : (after.edges.rows.filter fun r => r.id ∉ c.edgeIds).Perm
    (g.edges.rows.filter fun r => r.id ∉ c.edgeIds)
  nodes : done = true → ∀ k ∈ c.nodes.map GraphNode.id,
    Stores GraphNode.id after.nodes.rows k fun r => ∃ n ∈ c.nodes, n.id = k ∧
      r = { n with
            nameEmbedding := r.nameEmbedding
            pagerankScore := r.pagerankScore
            sourcePath := r.sourcePath }
  scores : done = true → ∀ r ∈ after.nodes.rows, ∀ v, (r.id, v) ∈ c.scores →
    ∃ r₀ ∈ g.nodes.rows, r = { r₀ with pagerankScore := some v }
  /-- An edge that it brings is stored as an edge that it brings, but for an `inferred` tag
  that may be `extracted`. -/
  edges : done = true → ∀ k ∈ c.edgeIds,
    Stores GraphEdge.id after.edges.rows k fun r => ∃ e ∈ c.edges, e.id = k ∧
      (r = e ∨ e.extractionMethod = some "inferred" ∧
        r = { e with extractionMethod := some "extracted" })
  /-- An `extracted` edge does not become `inferred`. -/
  extractionMethod : ∀ k,
    Stores GraphEdge.id g.edges.rows k (fun r => r.extractionMethod = some "extracted") →
    Stores GraphEdge.id after.edges.rows k fun r => r.extractionMethod ≠ some "inferred"

theorem mem_scores_of_mem_pagerankData {rows : List (GraphNode ε ρ)}
    {new : String × ρ} (h : new ∈ pagerankData rows scores) : new ∈ scores := by
  obtain ⟨r, -, hg⟩ := mem_filterMap.mp h
  exact (Keyed.get?_eq_some_iff.mp hg).1

theorem mem_pagerankData {rows : List (GraphNode ε ρ)} {r : GraphNode ε ρ}
    {v : ρ} (hr : r ∈ rows) (hv : (r.id, v) ∈ scores) : (r.id, v) ∈ pagerankData rows scores :=
  mem_filterMap.mpr ⟨r, hr, Keyed.get?_eq_some_iff.mpr ⟨hv, rfl⟩⟩

theorem map_id_nodesData (t : NodesTable ε ρ) (nodes : List (GraphNode ε ρ)) :
    (nodesData t nodes).map GraphNode.id = nodes.map GraphNode.id := by
  rw [nodesData, map_map]
  rfl

theorem map_id_edgesData (rows edges : List GraphEdge) :
    (edgesData rows edges).map GraphEdge.id = edges.map GraphEdge.id := by
  rw [edgesData, map_map]
  rfl

theorem resolvedExtractionMethods_cases {rows : List GraphEdge}
    (he : e ∈ edges) : resolvedExtractionMethods rows edges e = e.extractionMethod ∨
      e.extractionMethod = some "inferred" ∧
        resolvedExtractionMethods rows edges e = some "extracted" := by
  rw [resolvedExtractionMethods_eq he]
  split
  · exact Or.inr ⟨(‹_ ∧ _›).1, rfl⟩
  · exact Or.inl rfl

theorem callWrites_step (m : Store ε ρ) (g : Tables ε ρ) (c : Call ε ρ) :
    CallWrites g c (step m g c).1 (step m g c).2 where
  otherNodes := by
    cases nodesWritten_step m g c with
    | unchanged hrw _ => rw [hrw]
    | rows hrun _ =>
      refine Merge.unnamed_of_subset hrun fun r hr => mem_append_left _ ?_
      rw [← map_id_nodesData g.nodes]
      exact mem_map_of_mem hr
    | scores hrun _ =>
      exact Merge.unnamed_of_subset hrun fun new hw =>
        mem_append_right _ (mem_map_of_mem (mem_scores_of_mem_pagerankData hw))
  otherEdges := by
    cases edgesWritten_step m g c with
    | unchanged hrw _ => rw [hrw]
    | rows hrun =>
      refine Merge.unnamed_of_subset hrun fun r hr => ?_
      rw [Call.edgeIds, ← map_id_edgesData g.edges.rows]
      exact mem_map_of_mem hr
  nodes hd k hk := by
    cases nodesWritten_step m g c with
    | unchanged _ hnn => simp [(hnn hd).1] at hk
    | rows hrun _ =>
      rw [← map_id_nodesData g.nodes] at hk
      refine (Merge.stores_of_rows hrun hk).mono fun r _ hrk hr => ?_
      obtain ⟨n, hn, rfl⟩ := mem_map.mp hr
      exact ⟨n, hn, hrk, rfl⟩
    | scores _ hnn => simp [hnn] at hk
  scores hd r hr v hv := by
    cases nodesWritten_step m g c with
    | unchanged hrw hnn =>
      have hm := mem_pagerankData (hrw ▸ hr) hv
      simp [(hnn hd).2] at hm
    | rows _ hnn =>
      rw [hnn] at hv
      exact absurd hv (Keyed.notMem_empty _)
    | scores hrun _ =>
      have hnam : r.id ∈ (pagerankData g.nodes.rows c.scores).map Prod.fst := by
        by_contra hnot
        have hm := mem_pagerankData ((Merge.mem_iff_of_unnamed hrun hnot).mp hr) hv
        exact hnot (mem_map_of_mem hm)
      obtain ⟨new, hw, hid, ⟨r₀, hr₀, -, rfl⟩ | ⟨-, hfr⟩⟩ := m.scores.named hrun r hr hnam
      · obtain rfl : new = (r₀.id, v) :=
          Keyed.eq_of_key_eq (mem_scores_of_mem_pagerankData hw) hv hid
        exact ⟨r₀, hr₀, rfl⟩
      · cases hfr
  edges hd k hk := by
    cases edgesWritten_step m g c with
    | unchanged _ hnn => simp [Call.edgeIds, hnn hd] at hk
    | rows hrun =>
      rw [Call.edgeIds, ← map_id_edgesData g.edges.rows] at hk
      refine (Merge.stores_of_rows hrun hk).mono fun r _ hrk hr => ?_
      obtain ⟨e, he, rfl⟩ := mem_map.mp hr
      refine ⟨e, he, hrk, ?_⟩
      obtain htag | ⟨hinf, htag⟩ := resolvedExtractionMethods_cases he
      · exact Or.inl (by rw [htag])
      · exact Or.inr ⟨hinf, by rw [htag]⟩
  extractionMethod k h := by
    refine (tag_step m c h).mono fun r _ _ hr => ?_
    rcases hr with hr | ⟨hne, -⟩
    · simp [hr]
    · exact hne

/-- **Upserts keep what is stored.** In every run of calls, whatever the writers do with
several rows of one id and whichever of them fail, nodes and edges stay, a column of a node
keeps its values or takes ones that calls bring, and an edge which calls only bring as a
def/ref edge stays `extracted`; and the next call writes the rows it names and no others, and
stores no `extracted` edge as `inferred`, however often and with whatever tags it brings it. -/
theorem run_keeps (calls : List (Store ε ρ × Call ε ρ)) (g : Tables ε ρ) :
    Keeps (calls.map Prod.snd) g (run calls g) ∧
      ∀ (m : Store ε ρ) (c : Call ε ρ),
        CallWrites (run calls g) c (step m (run calls g) c).1 (step m (run calls g) c).2 :=
  ⟨keeps_run calls g, fun m c => callWrites_step m (run calls g) c⟩

/-! ### The edges of a file -/

/-- `add_edge`, which gathers the edges of a file by their ids: a later one replaces an earlier
one, with its tag. -/
def addEdge (makeStableEdgeId : String → String → RelationshipType → String) (docId : String)
    (edges : Keyed GraphEdge.id) (sourceId targetId : String) (rel : RelationshipType)
    (extractionMethod : String) : Keyed GraphEdge.id :=
  edges.insert
    { id := makeStableEdgeId sourceId targetId rel
      sourceNodeId := sourceId
      targetNodeId := targetId
      relationshipType := rel
      sourceDocId := docId
      extractionMethod := some extractionMethod }

/-! ### Where values are lost -/

/-- The store that takes the last row of a stored id and inserts every row of a new one. -/
def directStore : Store ε ρ where
  nodes := Merge.direct (fun _ _ h => h.symm) fun _ _ h => congrArg _ (Option.some.inj h).symm
  edges := Merge.direct (fun _ _ h => h.symm) fun _ _ h => congrArg _ (Option.some.inj h).symm
  scores := Merge.direct (fun _ _ _ => rfl) nofun

def tablesOf (edges : List GraphEdge) : Tables ε ρ where
  nodes := ⟨⟨true, true, true⟩, [], nofun⟩
  edges := ⟨true, edges, nofun⟩

/-- A call from `f` to `g`, with a tag. -/
def callEdge (tag : Option String) : GraphEdge :=
  ⟨"f-calls-g", "f", "g", .calls, "doc", tag⟩

def concept (name : String) (nameEmbedding : Option ℕ) : GraphNode ℕ ℕ :=
  ⟨"alpha", name, .concept, "doc", "notes", none, nameEmbedding, none, none⟩

/-- **Another tag comes between `extracted` and `inferred`.** An `extracted` edge that comes as
`manual` and then as `inferred` is stored as `inferred`. And a call that brings a new node twice
may leave two rows: one of them has not got the name that comes last, and the next call without
an embedding takes the one stored for the other away. -/
theorem tag_lost :
    (run [(directStore, .writeGraph [] [callEdge (some "manual")]),
        (directStore, .writeGraph [] [callEdge (some "inferred")])]
      (tablesOf [callEdge (some "extracted")] : Tables ℕ ℕ)).edges.rows =
        [callEdge (some "inferred")] ∧
    (run [(directStore, .writeGraph [concept "Alpha" (some 1), concept "alpha" none] [])]
      (tablesOf [])).nodes.rows = [concept "Alpha" (some 1), concept "alpha" none] ∧
    (run [(directStore, .writeGraph [concept "Alpha" (some 1), concept "alpha" none] []),
        (directStore, .writeGraph [concept "alpha" none] [])] (tablesOf [])).nodes.rows =
      [concept "alpha" none, concept "alpha" none] := by
  decide +kernel

end ArchonSearch.Graph.Upsert
