import ArchonSearch.Graph.Store

/-!
# The documents of a graph

An ingest writes what was found in a document: first what its chunks mention, then what its
file defines and refers to. Re-ingesting replaces the mentions and the def/ref rows of the
document, while the edges between entities are kept for the documents that share them.

Deleting a document does not keep them: it deletes every edge that the document was the last to
write (`edge_lost`). `kept_iff` says what of the relations of another document survives, whatever
was ingested, deleted and collected before: exactly the edges whose last writer (`lastWriter`) is
not the deleted document, and whose ends are no def/ref nodes of it.
-/

namespace ArchonSearch.Graph

open Lib List

/-! ### Ingesting -/

/-- `GraphExtractionResult`, of a document. -/
structure Extraction (doc : String) where
  nodes : List Node
  edges : List Edge
  mentions : List Mention
  edge_doc : ∀ e ∈ edges, e.sourceDocId = doc
  mention_doc : ∀ m ∈ mentions, m.docId = doc

/-- The graph writes of `_ingest_text`: what the chunks mention, if the extraction has not
failed, and the def/ref rows of a file whose language is supported. -/
structure Found (doc : String) where
  /-- `_extraction_result`. -/
  mentioned : Option (Extraction doc)
  /-- `degraded`: only code symbols were looked for. -/
  degraded : Bool := false
  /-- `_defref_result`. -/
  defref : Option (Extraction doc)

def Tables.writeMentioned (g : Tables) {doc : String} (degraded : Bool) (x : Extraction doc) :
    Tables :=
  let g := if degraded then g.deleteGraphByDoc doc else g
  ((g.writeGraph x.nodes x.edges).deleteMentionsByDoc doc).writeMentions x.mentions

def Tables.writeDefref (g : Tables) {doc : String} (x : Extraction doc) : Tables :=
  (g.deleteDefref doc (x.nodes.map Node.id) false).writeGraph x.nodes x.edges

def Tables.ingest (g : Tables) {doc : String} (found : Found doc) : Tables :=
  let g := found.mentioned.elim g (g.writeMentioned found.degraded)
  found.defref.elim g g.writeDefref

inductive Event where
  | ingest : (doc : String) → Found doc → Event
  | delete : (doc : String) → Event
  | collectGarbage : (live : List String) → Event

def Tables.apply (g : Tables) : Event → Tables
  | .ingest _ found => g.ingest found
  | .delete doc => g.cleanupGraphForDoc doc
  | .collectGarbage live => g.collectGarbage live

def graphOf (history : List Event) : Tables := history.foldl Tables.apply Tables.empty

/-! ### Who wrote an edge -/

def Found.edges {doc : String} (found : Found doc) : List Edge :=
  found.mentioned.elim [] Extraction.edges ++ found.defref.elim [] Extraction.edges

def Event.writer (key : String × String × RelationshipType) : Event → Option String
  | .ingest doc found => if key ∈ found.edges.map Edge.key then some doc else none
  | .delete _ | .collectGarbage _ => none

def lastWriter (history : List Event) (key : String × String × RelationshipType) :
    Option String :=
  history.foldl (fun last event => (event.writer key).or last) none

def Stamped (last : String × String × RelationshipType → Option String) (g : Tables) : Prop :=
  ∀ e ∈ g.edges, last e.key = some e.sourceDocId

variable {g g' : Tables} {doc : String} {e : Edge} {m : Mention}
  {last : String × String × RelationshipType → Option String}

theorem Stamped.subset (h : Stamped last g) (hsub : ∀ e ∈ g'.edges, e ∈ g.edges) :
    Stamped last g' :=
  fun e he => h e (hsub e he)

/-- What is written is stamped with the document it is written for. -/
theorem Stamped.writeGraph (h : Stamped last g) {nodes : List Node} {batch : List Edge}
    (hbat : ∀ e ∈ batch, e.sourceDocId = doc) :
    Stamped (fun key => if key ∈ batch.map Edge.key then some doc else last key)
      (g.writeGraph nodes batch) := by
  intro e he
  dsimp only
  rcases mem_writeEdges he with ⟨hm, hk⟩ | ⟨e', he', hk, hd⟩
  · rw [if_neg hk]
    exact h e hm
  · have hwrt : e.key ∈ batch.map Edge.key := by
      rw [← hk]
      exact mem_map_of_mem he'
    rw [if_pos hwrt, ← hd, hbat e' he']

theorem mem_edges_of_mem_collectGarbage {live : List String}
    (h : e ∈ (g.collectGarbage live).edges) : e ∈ g.edges := by
  unfold Tables.collectGarbage Tables.deleteOrphans at h
  split_ifs at h
  · exact h
  · exact (mem_deleteEdges.mp h).1

theorem Stamped.writeMentioned (h : Stamped last g) (degraded : Bool) (x : Extraction doc) :
    Stamped (fun key => if key ∈ x.edges.map Edge.key then some doc else last key)
      (g.writeMentioned degraded x) := by
  have hst : Stamped last (if degraded then g.deleteGraphByDoc doc else g) := by
    split_ifs
    · exact h.subset fun e he => (mem_deleteGraphByDoc_edges.mp he).1
    · exact h
  exact hst.writeGraph x.edge_doc

theorem Stamped.writeDefref (h : Stamped last g) (x : Extraction doc) :
    Stamped (fun key => if key ∈ x.edges.map Edge.key then some doc else last key)
      (g.writeDefref x) :=
  (h.subset fun _ he => (mem_deleteDefref_edges.mp he).1).writeGraph x.edge_doc

/-- **What an event does to the stamps.** -/
theorem Stamped.apply (h : Stamped last g) (event : Event) :
    Stamped (fun key => (event.writer key).or (last key)) (g.apply event) := by
  cases event with
  | delete doc => exact h.subset fun e he => (mem_deleteGraphByDoc_edges.mp he).1
  | collectGarbage live => exact h.subset fun e he => mem_edges_of_mem_collectGarbage he
  | ingest doc found =>
    have hmen : Stamped
        (fun key => if key ∈ (found.mentioned.elim [] Extraction.edges).map Edge.key then
          some doc else last key)
        (found.mentioned.elim g (g.writeMentioned found.degraded)) := by
      cases found.mentioned with
      | none => exact fun e he => (if_neg not_mem_nil).trans (h e he)
      | some x => exact h.writeMentioned found.degraded x
    have hdef : Stamped
        (fun key => if key ∈ (found.defref.elim [] Extraction.edges).map Edge.key then some doc
          else if key ∈ (found.mentioned.elim [] Extraction.edges).map Edge.key then some doc
          else last key) (g.ingest found) := by
      unfold Tables.ingest
      cases found.defref with
      | none => exact fun e he => (if_neg not_mem_nil).trans (hmen e he)
      | some x => exact hmen.writeDefref x
    intro e he
    rw [← hdef e he]
    simp only [Event.writer, Found.edges, map_append, mem_append]
    split_ifs <;> simp_all

/-- **Every edge is stamped with the last document that wrote it.** -/
theorem stamped_graphOf (history : List Event) :
    Stamped (lastWriter history) (graphOf history) := by
  have hfold : ∀ (history : List Event) (g : Tables)
      (last : String × String × RelationshipType → Option String), Stamped last g →
      Stamped (fun key => history.foldl (fun last event => (event.writer key).or last) (last key))
        (history.foldl Tables.apply g) := by
    intro history
    induction history with
    | nil => exact fun g last h => h
    | cons event history ih => exact fun g last h => ih _ _ (h.apply event)
  exact hfold history Tables.empty (fun _ => none) fun e he => absurd he (Keyed.notMem_empty e)

/-! ### What is kept of another document -/

/-- A chunk of the document mentions both ends. -/
def Comentions (g : Tables) (doc : String) (e : Edge) : Prop :=
  ∃ chunk, ⟨e.sourceNodeId, chunk, doc⟩ ∈ g.mentions ∧ ⟨e.targetNodeId, chunk, doc⟩ ∈ g.mentions

/-- The mention-derived edges between entities that a document still mentions together
survive. -/
def Kept (before after : Tables) (doc : String) : Prop :=
  ∀ e ∈ before.edges, e.isMentionDerived = true → Comentions after doc e → e ∈ after.edges

theorem comentions_cleanup {deleted : String} :
    Comentions (g.cleanupGraphForDoc deleted) doc e ↔ doc ≠ deleted ∧ Comentions g doc e := by
  have hm (m : Mention) : m ∈ (g.cleanupGraphForDoc deleted).mentions ↔
      m ∈ g.mentions ∧ m.docId ≠ deleted := mem_deleteMentionsByDoc
  simp only [Comentions, hm]
  constructor
  · rintro ⟨chunk, ⟨hsrc, hne⟩, htgt, -⟩
    exact ⟨hne, chunk, hsrc, htgt⟩
  · rintro ⟨hne, chunk, hsrc, htgt⟩
    exact ⟨chunk, ⟨hsrc, hne⟩, htgt, hne⟩

/-- **What another document says is kept** when a document is deleted, exactly if the deleted
one was not the last to write it, and takes no end of it along. -/
theorem kept_iff (history : List Event) (a b : String) :
    Kept (graphOf history) ((graphOf history).cleanupGraphForDoc b) a ↔
      ∀ e ∈ (graphOf history).edges, e.isMentionDerived = true → a ≠ b →
        Comentions (graphOf history) a e →
        lastWriter history e.key ≠ some b ∧
          e.touches ((graphOf history).doomedIds b [] false) = false := by
  have hk {e : Edge} (he : e ∈ (graphOf history).edges) :
      e ∈ ((graphOf history).cleanupGraphForDoc b).edges ↔
        lastWriter history e.key ≠ some b ∧
          e.touches ((graphOf history).doomedIds b [] false) = false := by
    have heq : e ∈ ((graphOf history).cleanupGraphForDoc b).edges ↔
        e ∈ ((graphOf history).deleteGraphByDoc b).edges := Iff.rfl
    rw [heq, mem_deleteGraphByDoc_edges, stamped_graphOf history e he, ← Bool.not_eq_true,
      Edge.touches_iff, not_or]
    simp [he]
  constructor
  · intro h e he hder hne hcom
    exact (hk he).mp (h e he hder (comentions_cleanup.mpr ⟨hne, hcom⟩))
  · intro h e he hder hcom
    obtain ⟨hne, hcom⟩ := comentions_cleanup.mp hcom
    exact (hk he).mpr (h e he hder hne hcom)

/-- What the chunk of a document says that mentions `x` and `y`. -/
def sampleFound (doc chunk : String) : Found doc where
  mentioned := some
    { nodes := [⟨"x", "x", .concept, none, doc, none⟩, ⟨"y", "y", .concept, none, doc, none⟩]
      edges := [⟨"x", "y", .relatedTo, doc, none⟩]
      mentions := [⟨"x", chunk, doc⟩, ⟨"y", chunk, doc⟩]
      edge_doc := by simp
      mention_doc := by simp }
  defref := none

def sampleHistory : List Event :=
  [.ingest "a" (sampleFound "a" "a1"), .ingest "b" (sampleFound "b" "b1")]

/-- **Deleting a document deletes an edge that another one still supports.** -/
theorem edge_lost :
    ¬Kept (graphOf sampleHistory) ((graphOf sampleHistory).cleanupGraphForDoc "b") "a" := by
  intro h
  have hk := h ⟨"x", "y", .relatedTo, "b", none⟩ (by decide) (by decide)
    ⟨"a1", by decide, by decide⟩
  revert hk
  decide

end ArchonSearch.Graph
