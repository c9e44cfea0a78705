import ArchonSearch.Graph.Store

/-!
# How a document leaves a collection

A document is deleted by a request or by a sync, which clean up its graph; it expires, and a
maintenance pass cleans up its def/ref rows and leaves its mentions to the garbage collection; or
its file is gone, and the sweep of a maintenance pass deletes its chunks and nothing else. As the
garbage collection spares every def/ref row, the symbols of such a file stay (`symbols_left`).

`clean_iff` says when a removal and one pass of the garbage collection leave nothing of the document
in the graph (`Collection.Cleans`).
-/

namespace ArchonSearch.Graph

open Lib

structure Chunk where
  (chunkId docId : String)

structure Collection where
  graph : Tables
  chunks : List Chunk
  mention_doc : ∀ m ∈ graph.mentions, ∀ c ∈ chunks, c.chunkId = m.chunkId → c.docId = m.docId

inductive Removal where
  /-- `SearchPipeline.delete_document` or `delete_by_source_path`: a request, or a sync. -/
  | document
  /-- `_run_orphan_cleanup`. -/
  | orphanCleanup
  /-- `_run_expired_chunk_pruning`. -/
  | expiredChunkPruning

def Removal.graph (r : Removal) (g : Tables) (doc : String) : Tables :=
  match r with
  | document => g.cleanupGraphForDoc doc
  | orphanCleanup => g
  | expiredChunkPruning => g.deleteDefref doc [] true

def Collection.liveWithout (c : Collection) (doc : String) : List String :=
  (c.chunks.filter fun chunk => chunk.docId ≠ doc).map Chunk.chunkId

def Collection.removed (c : Collection) (r : Removal) (doc : String) : Tables :=
  (r.graph c.graph doc).collectGarbage (c.liveWithout doc)

/-! ### What has to hold -/

def Tables.IsDefrefNode (g : Tables) (n : Node) : Prop :=
  n.isCodeSymbol = true ∧
    (n.isModulePseudo = true ∨ ∃ e ∈ g.edges, e.isDefref = true ∧ e.touches [n.id] = true)

def Tables.UsedByOthers (g : Tables) (doc : String) (n : Node) : Prop :=
  ∃ e ∈ g.edges, e.isDefref = true ∧ e.sourceDocId ≠ doc ∧ e.touches [n.id] = true

/-- **Nothing of the document is left** in the graph. -/
structure Clean (before after : Tables) (doc : String) : Prop where
  mentions : ∀ m ∈ after.mentions, m.docId ≠ doc
  edges : ∀ e ∈ after.edges, e.isDefref = true → e.sourceDocId ≠ doc
  nodes : ∀ n ∈ after.nodes, n.sourceDocId = doc → before.IsDefrefNode n → after.UsedByOthers doc n

def Removal.doomedIds (r : Removal) (g : Tables) (doc : String) : List String :=
  match r with
  | document => g.doomedIds doc [] false
  | orphanCleanup => []
  | expiredChunkPruning => g.doomedIds doc [] true

def Collection.IsLeft (c : Collection) (doc : String) (m : Mention) : Prop :=
  m ∈ c.graph.mentions ∧ m.chunkId ∈ c.liveWithout doc

structure Collection.Collects (c : Collection) (doc : String) (n : Node) : Prop where
  not_module : n.isModulePseudo = false
  unmentioned : ∀ m, c.IsLeft doc m → m.entityId ≠ n.id
  sweeps : (∃ m, c.IsLeft doc m) ∨ c.liveWithout doc = []

/-- The condition under which nothing of the document is left. -/
structure Collection.Cleans (c : Collection) (r : Removal) (doc : String) : Prop where
  edges : r = .orphanCleanup → ∀ e ∈ c.graph.edges, e.isDefref = true → e.sourceDocId ≠ doc
  nodes : ∀ n ∈ c.graph.nodes, n.sourceDocId = doc → c.graph.IsDefrefNode n →
    n.id ∈ r.doomedIds c.graph doc ∨
      (∃ e ∈ c.graph.edges, e.isDefref = true ∧ e.sourceDocId ≠ doc ∧
        e.touches [n.id] = true ∧ e.touches (r.doomedIds c.graph doc) = false) ∨
      c.Collects doc n

/-! ### What is left -/

variable {g : Tables} {c : Collection} {r : Removal} {doc : String} {n : Node} {e : Edge}
  {m : Mention} {live : List String}

theorem mem_graph_nodes : n ∈ (r.graph g doc).nodes ↔ n ∈ g.nodes ∧ n.id ∉ r.doomedIds g doc := by
  cases r with
  | document => exact mem_deleteDefref_nodes
  | orphanCleanup => exact (and_iff_left List.not_mem_nil).symm
  | expiredChunkPruning => exact mem_deleteDefref_nodes

theorem mem_graph_edges (hdef : e.isDefref = true) : e ∈ (r.graph g doc).edges ↔
    e ∈ g.edges ∧ (r = .orphanCleanup ∨ e.sourceDocId ≠ doc) ∧
      e.touches (r.doomedIds g doc) = false := by
  rw [← Bool.not_eq_true, Edge.touches_iff, not_or]
  cases r with
  | document =>
    have heq : e ∈ (Removal.document.graph g doc).edges ↔ e ∈ (g.deleteGraphByDoc doc).edges :=
      Iff.rfl
    rw [heq, mem_deleteGraphByDoc_edges]
    simp [Removal.doomedIds]
  | orphanCleanup => simp [Removal.graph, Removal.doomedIds]
  | expiredChunkPruning =>
    have heq : e ∈ (Removal.expiredChunkPruning.graph g doc).edges ↔
      e ∈ (g.deleteDefref doc [] true).edges := Iff.rfl
    rw [heq, mem_deleteDefref_edges]
    simp [Removal.doomedIds, hdef]

theorem mem_liveWithout {chunk : String} :
    chunk ∈ c.liveWithout doc ↔ ∃ stored ∈ c.chunks, stored.docId ≠ doc ∧
      stored.chunkId = chunk := by
  simp [Collection.liveWithout, and_assoc]

/-- A mention that is left is not one of the document. -/
theorem docId_ne_of_isLeft (h : c.IsLeft doc m) : m.docId ≠ doc := by
  obtain ⟨stored, hsto, hne, hch⟩ := mem_liveWithout.mp h.2
  rw [← c.mention_doc m h.1 stored hsto hch]
  exact hne

theorem mem_removed_mentions : m ∈ ((r.graph c.graph doc).pruneStaleMentions
    (c.liveWithout doc)).mentions ↔ c.IsLeft doc m := by
  rw [mem_pruneStaleMentions]
  constructor
  · rintro ⟨hm, hli⟩
    refine ⟨?_, hli⟩
    cases r with
    | document => exact (mem_deleteMentionsByDoc.mp hm).1
    | orphanCleanup => exact hm
    | expiredChunkPruning => exact hm
  · intro h
    refine ⟨?_, h.2⟩
    cases r with
    | document => exact mem_deleteMentionsByDoc.mpr ⟨h.1, docId_ne_of_isLeft h⟩
    | orphanCleanup => exact h.1
    | expiredChunkPruning => exact h.1

/-! ### The garbage collection -/

theorem collectGarbage_mentions :
    (g.collectGarbage live).mentions = (g.pruneStaleMentions live).mentions := by
  unfold Tables.collectGarbage Tables.deleteOrphans
  split_ifs <;> rfl

theorem mem_collectGarbage_edges (hdef : e.isDefref = true) :
    e ∈ (g.collectGarbage live).edges ↔ e ∈ g.edges := by
  unfold Tables.collectGarbage Tables.deleteOrphans
  split_ifs
  · rfl
  · have heq {g : Tables} {p : Edge → Bool} {ids : List String} :
        e ∈ ((g.deleteEdges p).deleteNodes ids).edges ↔ e ∈ (g.deleteEdges p).edges := Iff.rfl
    rw [heq, mem_deleteEdges]
    refine and_iff_left ?_
    simp [Tables.isOrphanEdge, Edge.isMentionDerived, hdef]

/-- A node is removed if it is an orphan, and the pass is not skipped. -/
theorem mem_collectGarbage_nodes : n ∈ (g.collectGarbage live).nodes ↔
    n ∈ g.nodes ∧ (((g.pruneStaleMentions live).mentions ≠ [] ∨ live = []) →
      (g.pruneStaleMentions live).isOrphan n = false) := by
  unfold Tables.collectGarbage Tables.deleteOrphans
  split_ifs with hskip
  · refine (and_iff_left ?_).symm
    rintro (hne | rfl)
    · exact absurd hskip.1 hne
    · cases hskip.2
  · have hsweep : (g.pruneStaleMentions live).mentions ≠ [] ∨ live = [] := by
      by_contra hnot
      obtain ⟨hemp, hli⟩ := not_or.mp hnot
      exact hskip ⟨not_not.mp hemp, by simpa using hli⟩
    rw [mem_deleteNodes]
    have heq {p : Edge → Bool} : n ∈ ((g.pruneStaleMentions live).deleteEdges p).nodes ↔
      n ∈ g.nodes := Iff.rfl
    refine and_congr_right fun hn => ?_
    have horph := mem_orphanIds (g := g.pruneStaleMentions live) hn
    rw [horph, Bool.not_eq_true]
    exact ⟨fun h _ => h, fun h => h hsweep⟩

theorem isOrphan_iff (hes : ∀ e ∈ (r.graph c.graph doc).edges, e.isDefref = true →
    e.sourceDocId ≠ doc) :
    ((r.graph c.graph doc).pruneStaleMentions (c.liveWithout doc)).isOrphan n = true ↔
      n.isModulePseudo = false ∧ (∀ m, c.IsLeft doc m → m.entityId ≠ n.id) ∧
        ¬(r.graph c.graph doc).UsedByOthers doc n := by
  unfold Tables.isOrphan
  rw [Bool.and_eq_true, Bool.and_eq_true, Bool.not_eq_true', Bool.not_eq_true',
    Bool.not_eq_true', ← Bool.not_eq_true, isMentioned_iff, and_comm (a := ¬_), and_assoc]
  refine and_congr_right fun _ => and_congr ?_ ?_
  · simp only [mem_removed_mentions]
    exact ⟨fun h m hm hid => h ⟨m, hm, hid⟩, fun h ⟨m, hm, hid⟩ => h m hm hid⟩
  · rw [← Bool.not_eq_true, List.any_eq_true]
    refine not_congr ⟨?_, ?_⟩
    · rintro ⟨e, he, huses⟩
      obtain ⟨hdef, htch⟩ := Bool.and_eq_true_iff.mp huses
      exact ⟨e, he, hdef, hes e he hdef, htch⟩
    · rintro ⟨e, he, hdef, -, htch⟩
      exact ⟨e, he, Bool.and_eq_true_iff.mpr ⟨hdef, htch⟩⟩

theorem usedByOthers_graph : (r.graph g doc).UsedByOthers doc n ↔
    ∃ e ∈ g.edges, e.isDefref = true ∧ e.sourceDocId ≠ doc ∧ e.touches [n.id] = true ∧
      e.touches (r.doomedIds g doc) = false := by
  constructor
  · rintro ⟨e, he, hdef, hd, huses⟩
    obtain ⟨hm, -, hes⟩ := (mem_graph_edges hdef).mp he
    exact ⟨e, hm, hdef, hd, huses, hes⟩
  · rintro ⟨e, he, hdef, hd, huses, hes⟩
    exact ⟨e, (mem_graph_edges hdef).mpr ⟨he, Or.inr hd, hes⟩, hdef, hd, huses⟩

theorem usedByOthers_removed :
    (c.removed r doc).UsedByOthers doc n ↔ (r.graph c.graph doc).UsedByOthers doc n := by
  constructor
  · rintro ⟨e, he, hdef, hrs⟩
    exact ⟨e, (mem_collectGarbage_edges hdef).mp he, hdef, hrs⟩
  · rintro ⟨e, he, hdef, hrs⟩
    exact ⟨e, (mem_collectGarbage_edges hdef).mpr he, hdef, hrs⟩

/-- The def/ref edges of the document are gone, or there were none. -/
theorem removed_edges_iff :
    (∀ e ∈ (c.removed r doc).edges, e.isDefref = true → e.sourceDocId ≠ doc) ↔
      (r = .orphanCleanup → ∀ e ∈ c.graph.edges, e.isDefref = true → e.sourceDocId ≠ doc) := by
  constructor
  · rintro h rfl e he hdef
    refine h e ((mem_collectGarbage_edges hdef).mpr ?_) hdef
    exact he
  · intro h e he hdef
    obtain ⟨hm, hd, -⟩ := (mem_graph_edges hdef).mp ((mem_collectGarbage_edges hdef).mp he)
    exact hd.elim (fun hsweep => h hsweep e hm hdef) id

/-- **Nothing of a document is left** after its removal and a garbage collection, exactly
if the removal and the collection reach all its def/ref rows. -/
theorem clean_iff (c : Collection) (r : Removal) (doc : String) :
    Clean c.graph (c.removed r doc) doc ↔ c.Cleans r doc := by
  have hmen : ∀ m, m ∈ (c.removed r doc).mentions ↔ c.IsLeft doc m := by
    intro m
    rw [Collection.removed, collectGarbage_mentions, mem_removed_mentions]
  have hsweeps : ((r.graph c.graph doc).pruneStaleMentions (c.liveWithout doc)).mentions ≠ [] ↔
      ∃ m, c.IsLeft doc m := by
    constructor
    · intro hne
      obtain ⟨m, hm⟩ := List.exists_mem_of_ne_nil _ hne
      exact ⟨m, mem_removed_mentions.mp hm⟩
    · rintro ⟨m, hm⟩
      exact List.ne_nil_of_mem (mem_removed_mentions.mpr hm)
  -- a node that is left was neither removed nor collected
  have hnd (hes : ∀ e ∈ (c.removed r doc).edges, e.isDefref = true → e.sourceDocId ≠ doc)
      {n : Node} (hn : n ∈ c.graph.nodes) : n ∈ (c.removed r doc).nodes ↔
        n.id ∉ r.doomedIds c.graph doc ∧
          ((r.graph c.graph doc).UsedByOthers doc n ∨ ¬c.Collects doc n) := by
    have horph := isOrphan_iff (n := n) fun e he hdef =>
      hes e ((mem_collectGarbage_edges hdef).mpr he) hdef
    rw [Collection.removed, mem_collectGarbage_nodes, mem_graph_nodes, hsweeps,
      ← Bool.not_eq_true, horph, and_iff_right hn]
    refine and_congr_right fun _ => ⟨fun h => ?_, fun h hsweep hall => ?_⟩
    · by_contra hnot
      obtain ⟨hunus, hcol⟩ := not_or.mp hnot
      have hcol := not_not.mp hcol
      exact h hcol.sweeps ⟨hcol.not_module, hcol.unmentioned, hunus⟩
    · exact h.elim hall.2.2 fun hnot => hnot ⟨hall.1, hall.2.1, hsweep⟩
  constructor
  · intro h
    refine ⟨removed_edges_iff.mp h.edges, fun n hn hd hdef => ?_⟩
    by_cases hdoom : n.id ∈ r.doomedIds c.graph doc
    · exact Or.inl hdoom
    · refine Or.inr ?_
      rw [← usedByOthers_graph]
      by_contra hnot
      obtain ⟨hunus, hcol⟩ := not_or.mp hnot
      have hleft := (hnd h.edges hn).mpr ⟨hdoom, Or.inr hcol⟩
      exact hunus (usedByOthers_removed.mp (h.nodes n hleft hd hdef))
  · intro h
    have hes := removed_edges_iff.mpr h.edges
    refine ⟨fun m hm => docId_ne_of_isLeft ((hmen m).mp hm), hes, fun n hleft hd hdef => ?_⟩
    have hn : n ∈ c.graph.nodes :=
      (mem_graph_nodes.mp (mem_collectGarbage_nodes.mp hleft).1).1
    obtain ⟨hdoom, hstays⟩ := (hnd hes hn).mp hleft
    rw [usedByOthers_removed]
    rcases h.nodes n hn hd hdef with hgoes | hused | hcol
    · exact absurd hgoes hdoom
    · exact usedByOthers_graph.mpr hused
    · exact hstays.resolve_right (not_not.mpr hcol)

def sampleCollection : Collection where
  graph :=
    { nodes := Keyed.ofList
        [⟨"module", "module", .codeSymbol, some "python-defref-module", "gone", none⟩,
          ⟨"f", "f", .codeSymbol, some "python-function", "gone", none⟩,
          ⟨"x", "x", .concept, none, "kept", none⟩]
      edges := Keyed.ofList [⟨"module", "f", .defines, "gone", some .extracted⟩]
      mentions := [⟨"x", "k1", "kept"⟩] }
  chunks := [⟨"g1", "gone"⟩, ⟨"k1", "kept"⟩]
  mention_doc := by decide

/-- **The sweep leaves the symbols** of a file that is gone. -/
theorem symbols_left :
    ¬Clean sampleCollection.graph (sampleCollection.removed .orphanCleanup "gone") "gone" := by
  intro h
  have hedge := h.edges ⟨"module", "f", .defines, "gone", some .extracted⟩ (by decide) (by decide)
  exact hedge rfl

end ArchonSearch.Graph
