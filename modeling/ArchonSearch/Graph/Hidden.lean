import ArchonSearch.Graph.Agree

/-!
# Hidden documents and the views of a graph

A history and its visible part are shown alike: what is shown of the graph after the history is
what visible documents write (`mem_nodes_view`, `mem_edges_view`), and of the graph after the
visible part everything is shown. So two histories with the same ingests of visible documents have
the same views, and `compute_impact` returns the same, wherever hidden documents were ingested in
between (`view_eq`).

That takes hidden documents that are discreet (`Discreet`). Without it a relation that only a
hidden document states is shown, as soon as a visible chunk mentions both ends of it
(`not_sameView_sampleHidden`).
-/

namespace ArchonSearch.Graph.Views

open Lib Search List

variable {ids : Naming} {history : List (Ingest ids)} {g g' : Tables} {i : Ingest ids}

/-! ### Who is visible -/

section Visible

variable {ns : String} {doc : String}

theorem lastIngest_append (history : List (Ingest ids)) (i : Ingest ids) (doc : String) :
    lastIngest (history ++ [i]) doc = if i.doc = doc then some i else lastIngest history doc := by
  simp only [lastIngest, reverse_append, reverse_singleton, singleton_append, find?_cons]
  by_cases hd : i.doc = doc <;> simp [hd]

theorem lastIngest_filter (p : String → Bool) (history : List (Ingest ids)) (doc : String) :
    lastIngest (history.filter fun i => p i.doc) doc =
      if p doc then lastIngest history doc else none := by
  induction history using List.reverseRecOn with
  | nil => exact (ite_self none).symm
  | append_singleton history i ih =>
    rw [filter_append, filter_singleton, lastIngest_append]
    by_cases hd : i.doc = doc
    · cases hp : p doc with
      | true => simp [hd, hp, lastIngest_append]
      | false => simp [hd, hp, ih]
    · cases hp : p i.doc with
      | true => simp [hd, lastIngest_append, ih]
      | false => simp [hd, ih]

theorem isHidden_visiblePart (ns : String) (history : List (Ingest ids)) (doc : String) :
    isHidden ns (visiblePart ns history) doc = false := by
  have hl := lastIngest_filter (fun doc => !isHidden ns history doc) history doc
  rw [isHidden, visiblePart, hl]
  cases hd : isHidden ns history doc with
  | true => rfl
  | false => exact hd

theorem mem_chunks {r : ChunkRow} : r ∈ (collectionOf history).chunks ↔
    ∃ i, lastIngest history r.docId = some i ∧ r.chunkId ∈ i.chunks ∧ r.acl = i.acl := by
  induction history using List.reverseRecOn with
  | nil =>
    refine iff_of_false not_mem_nil ?_
    rintro ⟨i, hi, -⟩
    cases hi
  | append_singleton history i ih =>
    have hchs : (collectionOf (history ++ [i])).chunks =
        ((collectionOf history).chunks.filter fun r => r.docId ≠ i.doc) ++
          i.chunks.map fun chunk => ⟨i.doc, chunk, i.acl⟩ := by
      rw [collectionOf, foldl_append]
      rfl
    rw [hchs, mem_append, mem_filter, mem_map, lastIngest_append, ih]
    by_cases hd : i.doc = r.docId
    · rw [if_pos hd]
      constructor
      · rintro (⟨-, hne⟩ | ⟨chunk, hch, rfl⟩)
        · exact absurd hd.symm (of_decide_eq_true hne)
        · exact ⟨i, rfl, hch, rfl⟩
      · rintro ⟨j, hj, hch, hacl⟩
        cases hj
        refine Or.inr ⟨r.chunkId, hch, ?_⟩
        rw [hd, ← hacl]
    · rw [if_neg hd]
      constructor
      · rintro (⟨hold, -⟩ | ⟨chunk, -, rfl⟩)
        · exact hold
        · exact absurd rfl hd
      · exact fun hold => Or.inl ⟨hold, decide_eq_true fun hne => hd hne.symm⟩

theorem doc_of_lastIngest {doc : String} (h : lastIngest history doc = some i) : i.doc = doc := by
  simpa using find?_some h

theorem docVisible_collectionOf (ns : String) (history : List (Ingest ids)) (doc : String) :
    ((collectionOf history).visibility ns).docVisible doc = !isHidden ns history doc := by
  have hrw (r : ChunkRow) (hr : r ∈ (collectionOf history).chunks) :
      isAclAllowed r.acl ns = !isHidden ns history r.docId := by
    obtain ⟨i, hi, -, hacl⟩ := mem_chunks.mp hr
    rw [hacl, isHidden, hi, Option.any_some, Bool.not_not]
  have hiff : doc ∈ ((collectionOf history).visibility ns).hiddenDocIds ↔
      isHidden ns history doc = true := by
    simp only [Collection.visibility, ChunkVisibility.fromChunkAcls, mem_filter,
      mem_map, Bool.not_eq_true', contains_eq_mem, decide_eq_false_iff_not]
    constructor
    · rintro ⟨⟨r, ⟨hr, hden⟩, rfl⟩, -⟩
      rw [hrw r hr] at hden
      simpa using hden
    intro hhid
    obtain ⟨i, hi, -⟩ := (Option.any_eq_true _ _).mp hhid
    obtain ⟨chunk, hch⟩ := exists_mem_of_ne_nil i.chunks i.chunks_ne
    have hm : (⟨doc, chunk, i.acl⟩ : ChunkRow) ∈ (collectionOf history).chunks :=
      mem_chunks.mpr ⟨i, hi, hch, rfl⟩
    refine ⟨⟨_, ⟨hm, ?_⟩, rfl⟩, ?_⟩
    · rw [hrw _ hm, hhid]
      rfl
    · rintro ⟨r, ⟨hr, hall⟩, rfl⟩
      rw [hrw r hr, hhid] at hall
      cases hall
  simp [ChunkVisibility.docVisible, contains_eq_mem, hiff]

/-- A chunk is hidden if it is stored, and of a hidden document. -/
theorem chunkVisible_collectionOf (ns : String) (history : List (Ingest ids)) (chunk : String) :
    ((collectionOf history).visibility ns).chunkVisible chunk = false ↔
      chunk ∈ (collectionOf history).chunks.map ChunkRow.chunkId ∧
        isHidden ns history (ids.docOf chunk) = true := by
  simp only [ChunkVisibility.chunkVisible, Collection.visibility, ChunkVisibility.fromChunkAcls,
    Bool.not_eq_false', contains_eq_mem, decide_eq_true_eq, mem_map, mem_filter]
  have hrw (r : ChunkRow) (hr : r ∈ (collectionOf history).chunks) :
      (!isAclAllowed r.acl ns) = isHidden ns history (ids.docOf r.chunkId) := by
    obtain ⟨i, hi, hch, hacl⟩ := mem_chunks.mp hr
    rw [i.chunk_doc r.chunkId hch, doc_of_lastIngest hi, hacl, isHidden, hi, Option.any_some]
  constructor
  · rintro ⟨r, ⟨hr, hden⟩, rfl⟩
    exact ⟨⟨r, hr, rfl⟩, hrw r hr ▸ hden⟩
  · rintro ⟨⟨r, hr, rfl⟩, hhid⟩
    exact ⟨r, ⟨hr, (hrw r hr).trans hhid⟩, rfl⟩

theorem Traced.docOf_mention (h : Traced history g) {m : Mention} (hm : m ∈ g.mentions) :
    ids.docOf m.chunkId = m.docId := by
  obtain ⟨i, -, hfnd⟩ := h.mention m hm
  rw [i.chunk_doc _ (i.mention_chunk m hfnd), doc_of_mem_mentions hfnd]

end Visible

/-! ### The same view -/

def face (n : Node) : String × String × EntityType := (n.id, n.entityName, n.entityType)

/-- The views show the same nodes, edges and chunks of entities. -/
structure SameView (v w : VisibleGraph) : Prop where
  nodes : ∀ a, a ∈ v.nodes.map face ↔ a ∈ w.nodes.map face
  edges : ∀ key, key ∈ v.edges.map Edge.key ↔ key ∈ w.edges.map Edge.key
  chunks : ∀ id chunk, chunk ∈ v.entityChunks id ↔ chunk ∈ w.entityChunks id

theorem SameView.symm {v w : VisibleGraph} (h : SameView v w) : SameView w v :=
  ⟨fun a => (h.nodes a).symm, fun key => (h.edges key).symm,
    fun id chunk => (h.chunks id chunk).symm⟩

theorem SameView.trans {u v w : VisibleGraph} (h : SameView u v) (h' : SameView v w) :
    SameView u w :=
  ⟨fun a => (h.nodes a).trans (h'.nodes a), fun key => (h.edges key).trans (h'.edges key),
    fun id chunk => (h.chunks id chunk).trans (h'.chunks id chunk)⟩

/-! ### What is shown -/

section Shown

variable {ns : String} {total : List (Ingest ids)} {all : List Mention}

theorem mem_chunksOf {id chunk : String} :
    chunk ∈ chunksOf all id ↔ ∃ m ∈ all, m.entityId = id ∧ m.chunkId = chunk := by
  simp [chunksOf, and_assoc]

variable {e : Edge}

theorem cooccur_iff : cooccur all e = true ↔
    ∃ m ∈ all, ∃ m' ∈ all, m.entityId = e.sourceNodeId ∧ m'.entityId = e.targetNodeId ∧
      m.chunkId = m'.chunkId := by
  simp only [cooccur, any_eq_true, contains_iff_mem, mem_chunksOf]
  constructor
  · rintro ⟨chunk, ⟨m, hm, hsrc, rfl⟩, m', hm', htgt, hch⟩
    exact ⟨m, hm, m', hm', hsrc, htgt, hch.symm⟩
  · rintro ⟨m, hm, m', hm', hsrc, htgt, hch⟩
    exact ⟨m.chunkId, ⟨m, hm, hsrc, rfl⟩, m', hm', htgt, hch.symm⟩

variable {v : ChunkVisibility} {n : Node}

theorem mem_nodes_loadAclVisibleGraph
    (hcap : g.mentions.length ≤ mentionsScanCeiling) :
    n ∈ (loadAclVisibleGraph g v).nodes ↔ n ∈ g.nodes ∧
      ((∃ m ∈ g.mentions, m.entityId = n.id ∧ v.chunkVisible m.chunkId = true) ∨
        (∀ m ∈ g.mentions, m.entityId ≠ n.id) ∧ v.docVisible n.sourceDocId = true) := by
  simp only [loadAclVisibleGraph, take_of_length_le hcap, mem_filter, Bool.or_eq_true,
    Bool.and_eq_true]
  refine and_congr_right fun _ => or_congr ?_ (and_congr_left fun _ => ?_)
  · simp only [chunksOf, Bool.not_eq_true', isEmpty_eq_false_iff, ne_eq, map_eq_nil_iff,
      filter_eq_nil_iff, mem_filter, decide_eq_true_eq, not_forall, not_not]
    constructor
    · rintro ⟨m, ⟨hm, hvis⟩, hid⟩
      exact ⟨m, hm, hid, hvis⟩
    · rintro ⟨m, hm, hid, hvis⟩
      exact ⟨m, ⟨hm, hvis⟩, hid⟩
  · simp [chunksOf]

theorem mem_edges_loadAclVisibleGraph
    (hcap : g.mentions.length ≤ mentionsScanCeiling) :
    e ∈ (loadAclVisibleGraph g v).edges ↔ e ∈ g.edges ∧
      (∀ n ∈ g.nodes, n.id = e.sourceNodeId ∨ n.id = e.targetNodeId →
        n ∈ (loadAclVisibleGraph g v).nodes) ∧
      (if cooccur g.mentions e then
        cooccur (g.mentions.filter fun m => v.chunkVisible m.chunkId) e
      else v.docVisible e.sourceDocId) = true := by
  have hhid (id : String) : id ∈ g.nodeIds.filter (fun id =>
        !((loadAclVisibleGraph g v).nodes.map Node.id).contains id) ↔
      ∃ n ∈ g.nodes, n.id = id ∧ n ∉ (loadAclVisibleGraph g v).nodes := by
    simp only [mem_filter, Tables.nodeIds, mem_map, Bool.not_eq_true',
      contains_eq_mem, decide_eq_false_iff_not]
    constructor
    · rintro ⟨⟨n, hn, rfl⟩, hnn⟩
      exact ⟨n, hn, rfl, fun hsh => hnn ⟨n, hsh, rfl⟩⟩
    · rintro ⟨n, hn, rfl, hnot⟩
      refine ⟨⟨n, hn, rfl⟩, ?_⟩
      rintro ⟨n', hsh, hid⟩
      have heq : n' = n := Keyed.eq_of_key_eq (mem_filter.mp hsh).1 hn hid
      exact hnot (heq ▸ hsh)
  have htch : e.touches (g.nodeIds.filter fun id =>
        !((loadAclVisibleGraph g v).nodes.map Node.id).contains id) = false ↔
      ∀ n ∈ g.nodes, n.id = e.sourceNodeId ∨ n.id = e.targetNodeId →
        n ∈ (loadAclVisibleGraph g v).nodes := by
    rw [← Bool.not_eq_true, Edge.touches_iff, hhid, hhid]
    constructor
    · intro h n hn he
      by_contra hnot
      rcases he with he | he
      · exact h (Or.inl ⟨n, hn, he, hnot⟩)
      · exact h (Or.inr ⟨n, hn, he, hnot⟩)
    · rintro h (⟨n, hn, he, hnot⟩ | ⟨n, hn, he, hnot⟩)
      · exact hnot (h n hn (Or.inl he))
      · exact hnot (h n hn (Or.inr he))
  rw [← htch]
  simp only [loadAclVisibleGraph, take_of_length_le hcap, mem_filter,
    Bool.and_eq_true, Bool.not_eq_true']
  rfl

variable {m : Mention}

theorem chunkVisible_mention (hd : Discreet ns total)
    (hm : m ∈ (collectionOf total).graph.mentions) :
    ((collectionOf total).visibility ns).chunkVisible m.chunkId = !isHidden ns total m.docId := by
  have hdoc := (traced_collectionOf total).docOf_mention hm
  have hiff := chunkVisible_collectionOf ns total m.chunkId
  rw [hdoc] at hiff
  cases hhid : isHidden ns total m.docId with
  | true => exact hiff.mpr ⟨hd.fresh m hm hhid, hhid⟩
  | false =>
    refine (Bool.eq_false_or_eq_true _).resolve_right fun hnot => ?_
    rw [(hiff.mp hnot).2] at hhid
    cases hhid

theorem mentions_visiblePart (hd : Discreet ns total) :
    (collectionOf (visiblePart ns total)).graph.mentions =
      (collectionOf total).graph.mentions.filter fun m => !isHidden ns total m.docId := by
  have h := paired_visiblePart hd
  rw [h.agree.mentions]
  refine (filter_eq_self.mpr fun m hm => ?_).symm
  obtain ⟨i, hi, hfnd⟩ := h.traced'.mention m hm
  rw [doc_of_mem_mentions hfnd, (mem_visiblePart.mp hi).2]
  rfl

variable (ns) in
/-- What is mentioned was written by a document of the same kind. -/
theorem mem_nodeIds_of_mention (hm : m ∈ (collectionOf total).graph.mentions) :
    m.entityId ∈ nodeIds (if isHidden ns total m.docId then hiddenPart ns total
      else visiblePart ns total) := by
  obtain ⟨i, hi, hfnd⟩ := (traced_collectionOf total).mention m hm
  obtain ⟨n, hn, hid⟩ := mem_map.mp (i.mention_node m hfnd)
  refine mem_nodeIds.mpr ⟨i, ?_, ?_⟩
  · rw [doc_of_mem_mentions hfnd]
    split
    next hd => exact mem_hiddenPart.mpr ⟨hi, hd⟩
    next hd => exact mem_visiblePart.mpr ⟨hi, Bool.eq_false_iff.mpr hd⟩
  · rw [← hid]
    exact mem_map_of_mem (mem_append_left _ hn)

/-- **The nodes that are shown** are those that visible documents write. -/
theorem mem_nodes_view (hd : Discreet ns total)
    (hcap : (collectionOf total).graph.mentions.length ≤ mentionsScanCeiling) :
    n ∈ ((collectionOf total).view ns).nodes ↔
      n ∈ (collectionOf total).graph.nodes ∧ n.id ∈ nodeIds (visiblePart ns total) := by
  rw [Collection.view, mem_nodes_loadAclVisibleGraph hcap]
  refine and_congr_right fun hn => ?_
  obtain ⟨i, hi, hfnd⟩ := (traced_collectionOf total).node n hn
  rw [docVisible_collectionOf, i.node_doc n hfnd]
  constructor
  · rintro (⟨m, hm, hid, hvis⟩ | ⟨-, hvis⟩)
    · rw [chunkVisible_mention hd hm, Bool.not_eq_true'] at hvis
      have hmem := mem_nodeIds_of_mention ns hm
      rwa [hvis, if_neg Bool.false_ne_true, hid] at hmem
    · exact mem_nodeIds.mpr ⟨i, mem_visiblePart.mpr ⟨hi, by simpa using hvis⟩, mem_map_of_mem hfnd⟩
  · intro hid
    by_cases hshr : n.id ∈ nodeIds (hiddenPart ns total)
    · obtain ⟨m, hm, hent, hdoc⟩ := hd.mentioned n.id ⟨hid, hshr⟩
      refine Or.inl ⟨m, hm, hent, ?_⟩
      rw [chunkVisible_mention hd hm, hdoc]
      rfl
    · by_cases hmen : ∃ m ∈ (collectionOf total).graph.mentions, m.entityId = n.id
      · obtain ⟨m, hm, hent⟩ := hmen
        refine Or.inl ⟨m, hm, hent, ?_⟩
        rw [chunkVisible_mention hd hm, Bool.not_eq_true']
        refine Bool.eq_false_iff.mpr fun hdoc => hshr ?_
        have hmem := mem_nodeIds_of_mention ns hm
        rwa [if_pos hdoc, hent] at hmem
      · refine Or.inr ⟨fun m hm hent => hmen ⟨m, hm, hent⟩, ?_⟩
        rw [Bool.not_eq_true']
        refine Bool.eq_false_iff.mpr fun hdoc => hshr ?_
        exact mem_nodeIds.mpr ⟨i, mem_hiddenPart.mpr ⟨hi, hdoc⟩, mem_map_of_mem hfnd⟩

/-- Ends of an edge that one chunk mentions are mentioned together by its document. -/
theorem Traced.cooccur_iff (h : Traced history g) (P : String → Bool) :
    cooccur (g.mentions.filter fun m => P m.docId) e = true ↔
      ∃ doc, P doc = true ∧ Comentions g doc e := by
  rw [Views.cooccur_iff]
  constructor
  · rintro ⟨m, hm, m', hm', hsrc, htgt, hch⟩
    obtain ⟨hm, hd⟩ := mem_filter.mp hm
    have hm' := (mem_filter.mp hm').1
    refine ⟨m.docId, hd, m.chunkId, ?_, ?_⟩
    · rw [← hsrc]
      exact hm
    · rw [← htgt, ← h.docOf_mention hm, hch, h.docOf_mention hm']
      exact hm'
  · rintro ⟨doc, hd, chunk, hsrc, htgt⟩
    exact ⟨_, mem_filter.mpr ⟨hsrc, hd⟩, _, mem_filter.mpr ⟨htgt, hd⟩, rfl,
      rfl, rfl⟩

theorem evidence_iff (hd : Discreet ns total) :
    (if cooccur (collectionOf total).graph.mentions e then
      cooccur ((collectionOf total).graph.mentions.filter fun m =>
        ((collectionOf total).visibility ns).chunkVisible m.chunkId) e
    else ((collectionOf total).visibility ns).docVisible e.sourceDocId) = true ↔
      VisiblyComentioned ns total e ∨ (∀ doc, ¬Comentions (collectionOf total).graph doc e) ∧
        isHidden ns total e.sourceDocId = false := by
  have htrac := traced_collectionOf total
  have hvis : ((collectionOf total).graph.mentions.filter fun m =>
        ((collectionOf total).visibility ns).chunkVisible m.chunkId) =
      (collectionOf total).graph.mentions.filter fun m => !isHidden ns total m.docId :=
    filter_congr fun m hm => chunkVisible_mention hd hm
  have hall : ((collectionOf total).graph.mentions.filter fun _ => true) =
      (collectionOf total).graph.mentions := filter_eq_self.mpr fun _ _ => rfl
  have hany := htrac.cooccur_iff (fun _ => true) (e := e)
  have hs := htrac.cooccur_iff (fun doc => !isHidden ns total doc) (e := e)
  rw [hall] at hany
  simp only [true_and, Bool.not_eq_true'] at hany hs
  rw [hvis, docVisible_collectionOf]
  split
  next hcooc =>
    obtain ⟨doc, hcom⟩ := hany.mp hcooc
    refine hs.trans ⟨Or.inl, fun h => h.resolve_right fun hn => ?_⟩
    exact hn.1 doc hcom
  next hcooc =>
    have hn : ∀ doc, ¬Comentions (collectionOf total).graph doc e :=
      fun doc hcom => hcooc (hany.mpr ⟨doc, hcom⟩)
    rw [Bool.not_eq_true']
    refine ⟨fun hsp => Or.inr ⟨hn, hsp⟩, ?_⟩
    rintro (⟨doc, -, hcom⟩ | ⟨-, hsp⟩)
    · exact absurd hcom (hn doc)
    · exact hsp

variable (ns) in
/-- A document that mentions both ends of an edge writes them. -/
theorem ends_of_comentions {doc : String}
    (h : Comentions (collectionOf total).graph doc e) :
    e.sourceNodeId ∈ nodeIds (if isHidden ns total doc then hiddenPart ns total
      else visiblePart ns total) := by
  obtain ⟨chunk, hsrc, -⟩ := h
  exact mem_nodeIds_of_mention ns hsrc

/-- **The edges that are shown** are the own ones and the shared relations. -/
theorem mem_edges_view (hd : Discreet ns total)
    (hcap : (collectionOf total).graph.mentions.length ≤ mentionsScanCeiling) :
    e ∈ ((collectionOf total).view ns).edges ↔ e ∈ (collectionOf total).graph.edges ∧
      (ownEdge ns total e.key = true ∨ IsSharedRelation ns total e.key) := by
  have hpr := paired_visiblePart hd
  rw [Collection.view, mem_edges_loadAclVisibleGraph hcap, evidence_iff hd]
  refine and_congr_right fun he => ?_
  obtain ⟨i, hi, hsp, hr⟩ := (traced_collectionOf total).edge e he
  constructor
  · rintro ⟨-, hevid⟩
    by_cases hdoc : isHidden ns total i.doc = true
    · -- of a hidden document: a relation, that visible documents write as well
      have hhid : i ∈ hiddenPart ns total := mem_hiddenPart.mpr ⟨hi, hdoc⟩
      have hcome : VisiblyComentioned ns total e := by
        refine hevid.resolve_right fun hnn => ?_
        rw [hsp, hdoc] at hnn
        cases hnn.2
      rcases hr with hrel | hf
      · have hk : e.key ∈ relationKeys (hiddenPart ns total) :=
          mem_relationKeys.mpr ⟨i, hhid, mem_map_of_mem hrel⟩
        by_cases hvis : e.key ∈ relationKeys (visiblePart ns total)
        · exact Or.inr ⟨hvis, hk⟩
        · exact absurd hcome (hd.unsaid i hhid e hrel hvis)
      · obtain ⟨doc, hsh, hcom⟩ := hcome
        have hsrc := ends_of_comentions ns hcom
        rw [hsh, if_neg Bool.false_ne_true] at hsrc
        exact absurd hf.typeOf_source (hd.symbol e.sourceNodeId
          ⟨hsrc, mem_nodeIds_of_symbols hhid hf.2.1⟩)
    · have hvis : i ∈ visiblePart ns total :=
        mem_visiblePart.mpr ⟨hi, Bool.eq_false_iff.mpr hdoc⟩
      rcases hr with hrel | hf
      · have hk : e.key ∈ relationKeys (visiblePart ns total) :=
          mem_relationKeys.mpr ⟨i, hvis, mem_map_of_mem hrel⟩
        by_cases hhid : e.key ∈ relationKeys (hiddenPart ns total)
        · exact Or.inr ⟨hk, hhid⟩
        · exact Or.inl (ownEdge_iff.mpr (Or.inr ⟨hk, hhid⟩))
      · exact Or.inl (ownEdge_iff.mpr (Or.inl (own_of_symbols hd hvis hf.2.1)))
  · intro hkd
    have hes : e.sourceNodeId ∈ nodeIds (visiblePart ns total) ∧
        e.targetNodeId ∈ nodeIds (visiblePart ns total) := by
      rcases hkd with ho | hshr
      · exact hpr.closed.ends he ho
      · exact ends_of_mem_relationKeys hshr.1
    refine ⟨fun n hn hend => (mem_nodes_view hd hcap).mpr ⟨hn, ?_⟩, ?_⟩
    · rcases hend with hend | hend
      · exact hend ▸ hes.1
      · exact hend ▸ hes.2
    -- a relation that hidden documents write or support is mentioned in a visible chunk
    have hsup (hk : e.key ∈ relationKeys (visiblePart ns total))
        (hhid : e.key ∈ relationKeys (hiddenPart ns total) ∨
          ∃ doc, isHidden ns total doc = true ∧ Comentions (collectionOf total).graph doc e) :
        VisiblyComentioned ns total e := by
      obtain ⟨j, hj, hm⟩ := mem_relationKeys.mp hk
      obtain ⟨e', he', heq⟩ := mem_map.mp hm
      have hsa (doc : String) : Comentions (collectionOf total).graph doc e' ↔
          Comentions (collectionOf total).graph doc e := by
        simp only [Edge.key, Prod.mk.injEq] at heq
        simp only [Comentions, heq.1, heq.2.1]
      have h := hd.comentioned j hj e' he'
      simp only [VisiblyComentioned, hsa, heq] at h
      exact h hhid
    rcases hkd with ho | hshr
    · by_cases hcom : ∃ doc, Comentions (collectionOf total).graph doc e
      · obtain ⟨doc, hcom⟩ := hcom
        cases hdoc : isHidden ns total doc with
        | false => exact Or.inl ⟨doc, hdoc, hcom⟩
        | true =>
          have hsrc := ends_of_comentions ns hcom
          rw [if_pos hdoc] at hsrc
          rcases ownEdge_iff.mp ho with ho | ⟨hk, -⟩
          · exact absurd hsrc (own_iff.mp ho).2
          · exact Or.inl (hsup hk (Or.inr ⟨doc, hdoc, hcom⟩))
      · refine Or.inr ⟨fun doc h => hcom ⟨doc, h⟩, ?_⟩
        refine Bool.eq_false_iff.mpr fun hdoc => ?_
        rw [hsp] at hdoc
        rw [not_ownEdge_of_hidden (mem_hiddenPart.mpr ⟨hi, hdoc⟩) hr] at ho
        cases ho
    · exact Or.inl (hsup hshr.1 (Or.inl hshr.2))

theorem face_eq (hd : Discreet ns total) {n' : Node} (hn : n ∈ (collectionOf total).graph.nodes)
    (hn' : n' ∈ (collectionOf (visiblePart ns total)).graph.nodes) (hid : n.id = n'.id)
    (hshr : IsShared ns total n.id) : face n = face n' := by
  obtain ⟨i, hi, hfnd⟩ := (traced_collectionOf total).node n hn
  obtain ⟨j, hj, hfnd'⟩ := (traced_collectionOf (visiblePart ns total)).node n' hn'
  have htype : n.entityType = n'.entityType := by
    rw [i.node_type n hfnd, j.node_type n' hfnd', hid]
  have hnm : n.entityName = n'.entityName := by
    cases hdoc : isHidden ns total i.doc with
    | true =>
      exact (hd.spelling j hj n' hfnd' i (mem_hiddenPart.mpr ⟨hi, hdoc⟩) n hfnd hid.symm).symm
    | false =>
      obtain ⟨k, hk, hm⟩ := mem_nodeIds.mp hshr.2
      obtain ⟨n'', hfnd'', hid''⟩ := mem_map.mp hm
      have hleft := hd.spelling i (mem_visiblePart.mpr ⟨hi, hdoc⟩) n hfnd k hk n'' hfnd'' hid''.symm
      have hrig := hd.spelling j hj n' hfnd' k hk n'' hfnd'' (hid.symm.trans hid''.symm)
      exact hleft.trans hrig.symm
  simp only [face, hid, hnm, htype]

theorem view_visiblePart (hd : Discreet ns total)
    (hcap : (collectionOf total).graph.mentions.length ≤ mentionsScanCeiling) :
    ((collectionOf (visiblePart ns total)).view ns).nodes =
        (collectionOf (visiblePart ns total)).graph.nodes.items ∧
      ((collectionOf (visiblePart ns total)).view ns).edges =
        (collectionOf (visiblePart ns total)).graph.edges.items ∧
      ((collectionOf (visiblePart ns total)).view ns).entityChunks =
        chunksOf (collectionOf (visiblePart ns total)).graph.mentions := by
  have hdoc (doc : String) :
      ((collectionOf (visiblePart ns total)).visibility ns).docVisible doc = true := by
    rw [docVisible_collectionOf, isHidden_visiblePart]
    rfl
  have hch (chunk : String) :
      ((collectionOf (visiblePart ns total)).visibility ns).chunkVisible chunk = true := by
    refine (Bool.eq_false_or_eq_true _).resolve_right fun hnot => ?_
    have hhid := ((chunkVisible_collectionOf ns _ chunk).mp hnot).2
    rw [isHidden_visiblePart] at hhid
    cases hhid
  have hcap' : (collectionOf (visiblePart ns total)).graph.mentions.length ≤
      mentionsScanCeiling := by
    rw [mentions_visiblePart hd]
    exact (length_filter_le _ _).trans hcap
  have hvis (mentions : List Mention) : (mentions.filter fun m =>
      ((collectionOf (visiblePart ns total)).visibility ns).chunkVisible m.chunkId) = mentions :=
    filter_eq_self.mpr fun m _ => hch m.chunkId
  have hnds : ∀ n ∈ (collectionOf (visiblePart ns total)).graph.nodes,
      n ∈ ((collectionOf (visiblePart ns total)).view ns).nodes := by
    intro n hn
    refine (mem_nodes_loadAclVisibleGraph hcap').mpr ⟨hn, ?_⟩
    by_cases hmen : ∃ m ∈ (collectionOf (visiblePart ns total)).graph.mentions, m.entityId = n.id
    · obtain ⟨m, hm, hid⟩ := hmen
      exact Or.inl ⟨m, hm, hid, hch m.chunkId⟩
    · exact Or.inr ⟨fun m hm hid => hmen ⟨m, hm, hid⟩, hdoc n.sourceDocId⟩
  have hes : ∀ e ∈ (collectionOf (visiblePart ns total)).graph.edges,
      e ∈ ((collectionOf (visiblePart ns total)).view ns).edges := by
    intro e he
    refine (mem_edges_loadAclVisibleGraph hcap').mpr ⟨he, fun n hn _ => hnds n hn, ?_⟩
    rw [hvis, hdoc]
    split
    next hcooc => exact hcooc
    · rfl
  refine ⟨filter_eq_self.mpr fun n hn => (mem_filter.mp (hnds n hn)).2,
    filter_eq_self.mpr fun e he => (mem_filter.mp (hes e he)).2, ?_⟩
  simp only [Collection.view, loadAclVisibleGraph, take_of_length_le hcap', hvis]

/-- **Hidden documents do not show** in the view of a graph. -/
theorem sameView_visiblePart (hd : Discreet ns total)
    (hcap : (collectionOf total).graph.mentions.length ≤ mentionsScanCeiling) :
    SameView ((collectionOf total).view ns) ((collectionOf (visiblePart ns total)).view ns) := by
  have hpr := paired_visiblePart hd
  have hkp := keepsShared_collectionOf hd total (fun _ hi => hi) hd.spared
  have hk' := keepsShared_collectionOf hd (visiblePart ns total)
    (fun i hi => (mem_visiblePart.mp hi).1) (hd.spared.filter fun i => !isHidden ns total i.doc)
  obtain ⟨hnds, hes, hchs⟩ := view_visiblePart hd hcap
  refine ⟨fun a => ?_, fun key => ?_, fun id chunk => ?_⟩
  · rw [hnds]
    constructor
    · intro ha
      obtain ⟨n, hn, rfl⟩ := mem_map.mp ha
      obtain ⟨hn, hid⟩ := (mem_nodes_view hd hcap).mp hn
      by_cases hhid : n.id ∈ nodeIds (hiddenPart ns total)
      · obtain ⟨n', hn', heq⟩ := mem_map.mp (hk'.node n.id hid ⟨hid, hhid⟩)
        rw [face_eq hd hn hn' heq.symm ⟨hid, hhid⟩]
        exact mem_map_of_mem hn'
      · exact mem_map_of_mem (hpr.agree.mem_nodes (own_iff.mpr ⟨hid, hhid⟩) hn)
    · intro ha
      obtain ⟨n', hn', rfl⟩ := mem_map.mp ha
      obtain ⟨i, hi, hfnd⟩ := hpr.traced'.node n' hn'
      have hid : n'.id ∈ nodeIds (visiblePart ns total) :=
        mem_nodeIds.mpr ⟨i, hi, mem_map_of_mem hfnd⟩
      by_cases hhid : n'.id ∈ nodeIds (hiddenPart ns total)
      · have htot : n'.id ∈ nodeIds total :=
          mem_nodeIds.mpr ⟨i, (mem_visiblePart.mp hi).1, mem_map_of_mem hfnd⟩
        obtain ⟨n, hn, heq⟩ := mem_map.mp (hkp.node n'.id htot ⟨hid, hhid⟩)
        rw [← face_eq hd hn hn' heq (heq ▸ ⟨hid, hhid⟩)]
        exact mem_map_of_mem ((mem_nodes_view hd hcap).mpr ⟨hn, heq ▸ hid⟩)
      · have hn := hpr.agree.symm.mem_nodes (own_iff.mpr ⟨hid, hhid⟩) hn'
        exact mem_map_of_mem ((mem_nodes_view hd hcap).mpr ⟨hn, hid⟩)
  · rw [hes]
    constructor
    · intro hk
      obtain ⟨e, he, rfl⟩ := mem_map.mp hk
      obtain ⟨he, ho | hshr⟩ := (mem_edges_view hd hcap).mp he
      · exact mem_map_of_mem (hpr.agree.mem_edges ho he)
      · exact hk'.edge e.key hshr.1 hshr
    · intro hk
      obtain ⟨e', he', rfl⟩ := mem_map.mp hk
      obtain ⟨i, hi, -, hr⟩ := hpr.traced'.edge e' he'
      by_cases ho : ownEdge ns total e'.key = true
      · have he := hpr.agree.symm.mem_edges ho he'
        exact mem_map_of_mem ((mem_edges_view hd hcap).mpr ⟨he, Or.inl ho⟩)
      have hrel : e' ∈ relations i.found := hr.resolve_right fun hf =>
        ho (ownEdge_iff.mpr (Or.inl (own_of_symbols hd hi hf.2.1)))
      have hvis : e'.key ∈ relationKeys (visiblePart ns total) :=
        mem_relationKeys.mpr ⟨i, hi, mem_map_of_mem hrel⟩
      have hshr : IsSharedRelation ns total e'.key := by
        refine ⟨hvis, by_contra fun hhid => ho ?_⟩
        exact ownEdge_iff.mpr (Or.inr ⟨hvis, hhid⟩)
      have htot : e'.key ∈ relationKeys total :=
        mem_relationKeys.mpr ⟨i, (mem_visiblePart.mp hi).1, mem_map_of_mem hrel⟩
      obtain ⟨e, he, heq⟩ := mem_map.mp (hkp.edge e'.key htot hshr)
      rw [← heq]
      exact mem_map_of_mem ((mem_edges_view hd hcap).mpr ⟨he, Or.inr (heq ▸ hshr)⟩)
  · rw [hchs, mentions_visiblePart hd]
    have hvis : ((collectionOf total).graph.mentions.filter fun m =>
          ((collectionOf total).visibility ns).chunkVisible m.chunkId) =
        (collectionOf total).graph.mentions.filter fun m => !isHidden ns total m.docId :=
      filter_congr fun m hm => chunkVisible_mention hd hm
    simp only [Collection.view, loadAclVisibleGraph, take_of_length_le hcap, hvis]

end Shown

/-! ### What is told of a symbol -/

section Impact

variable {ns : String} {total history' : List (Ingest ids)} {look : Lookup}
  {v v' : ChunkVisibility} {n : Node} {frontier : List String} {q : ImpactQuery}

def IsOwnSymbol (ns : String) (total : List (Ingest ids)) (id : String) : Prop :=
  own ns total id = true ∧ ids.typeOf id = .codeSymbol

theorem own_symbol_eq (hd : Discreet ns total) (hi : i ∈ total) (hfnd : n ∈ foundNodes i.found)
    (htype : ids.typeOf n.id = .codeSymbol) : own ns total n.id = !isHidden ns total i.doc := by
  cases hdoc : isHidden ns total i.doc with
  | true =>
    refine Bool.eq_false_iff.mpr fun ho => (own_iff.mp ho).2 ?_
    exact mem_nodeIds.mpr ⟨i, mem_hiddenPart.mpr ⟨hi, hdoc⟩, mem_map_of_mem hfnd⟩
  | false =>
    have hvis : n.id ∈ nodeIds (visiblePart ns total) :=
      mem_nodeIds.mpr ⟨i, mem_visiblePart.mpr ⟨hi, hdoc⟩, mem_map_of_mem hfnd⟩
    exact own_iff.mpr ⟨hvis, fun hhid => hd.symbol n.id ⟨hvis, hhid⟩ htype⟩

theorem Traced.typeOf_of_isCodeSymbol (h : Traced history g) (hn : n ∈ g.nodes)
    (hcode : n.isCodeSymbol = true) : ids.typeOf n.id = .codeSymbol := by
  obtain ⟨i, -, hfnd⟩ := h.node n hn
  rw [← i.node_type n hfnd]
  exact of_decide_eq_true hcode

theorem impactCandidates_eq (hd : Discreet ns total) (h : Traced history g)
    (hsub : ∀ i ∈ history, i ∈ total)
    (hv : ∀ i ∈ history, v.docVisible i.doc = !isHidden ns total i.doc) (symbol : String) :
    impactCandidates look g v symbol =
      (g.nodes.items.filter fun n => own ns total n.id).filter fun n =>
        look.sqlLower n.entityName = look.lower symbol && n.isCodeSymbol := by
  rw [impactCandidates, filter_filter]
  refine filter_congr fun n hn => ?_
  obtain ⟨i, hi, hfnd⟩ := h.node n hn
  rw [i.node_doc n hfnd, hv i hi]
  cases hcode : n.isCodeSymbol with
  | false => simp
  | true =>
    rw [own_symbol_eq hd (hsub i hi) hfnd (h.typeOf_of_isCodeSymbol hn hcode)]

/-- An edge at an own symbol is own as the document that wrote it last is visible. -/
theorem ownEdge_of_touches (hd : Discreet ns total) (h : Traced history g)
    (hsub : ∀ i ∈ history, i ∈ total) (hfron : ∀ id ∈ frontier, IsOwnSymbol ns total id)
    {e : Edge} (he : e ∈ g.edges) (htch : e.touches frontier = true) :
    ownEdge ns total e.key = !isHidden ns total e.sourceDocId := by
  cases hdoc : isHidden ns total e.sourceDocId with
  | true =>
    obtain ⟨i, hi, hsp, hr⟩ := h.edge e he
    exact not_ownEdge_of_hidden (mem_hiddenPart.mpr ⟨hsub i hi, hsp ▸ hdoc⟩) hr
  | false =>
    refine h.ownEdge_of_end hd hsub he hdoc ?_
    exact (Edge.touches_iff.mp htch).imp (fun hend => (hfron _ hend).1) fun hend => (hfron _ hend).1

/-- The edges that are followed from own symbols are own. -/
theorem impactEdges_eq (hd : Discreet ns total) (h : Traced history g)
    (hsub : ∀ i ∈ history, i ∈ total)
    (hv : ∀ i ∈ history, v.docVisible i.doc = !isHidden ns total i.doc)
    (hfron : ∀ id ∈ frontier, IsOwnSymbol ns total id) :
    impactEdges g v q frontier =
      (g.edges.items.filter fun e => ownEdge ns total e.key).filter fun e =>
        e.touches frontier && q.follows e := by
  rw [impactEdges, filter_filter]
  refine filter_congr fun e he => ?_
  obtain ⟨i, hi, hsp, -⟩ := h.edge e he
  cases htch : e.touches frontier with
  | false => simp
  | true =>
    rw [ownEdge_of_touches hd h hsub hfron he htch, hsp, hv i hi]

theorem Paired.isOwnSymbol_ends (hd : Discreet ns total)
    (h : Paired ns total history history' g g')
    (hv : ∀ i ∈ history, v.docVisible i.doc = !isHidden ns total i.doc)
    (hfron : ∀ id ∈ frontier, IsOwnSymbol ns total id) {e : Edge}
    (he : e ∈ impactEdges g v q frontier) :
    IsOwnSymbol ns total e.sourceNodeId ∧ IsOwnSymbol ns total e.targetNodeId := by
  rw [impactEdges_eq hd h.traced h.sub hv hfron] at he
  obtain ⟨he, hfol⟩ := mem_filter.mp he
  obtain ⟨he, ho⟩ := mem_filter.mp he
  have htch := Edge.touches_iff.mp (Bool.and_eq_true_iff.mp hfol).1
  have hes := h.closed.ends he ho
  have hsym {id : String} (hvis : id ∈ nodeIds (visiblePart ns total))
      (htype : ids.typeOf id = .codeSymbol) : IsOwnSymbol ns total id :=
    ⟨own_iff.mpr ⟨hvis, fun hhid => hd.symbol id ⟨hvis, hhid⟩ htype⟩, htype⟩
  obtain ⟨i, -, -, hrel | hf⟩ := h.traced.edge e he
  · have htyp := i.relation_type e hrel
    rcases htch with hend | hend
    · exact absurd (hfron _ hend).2 htyp.1
    · exact absurd (hfron _ hend).2 htyp.2
  · exact ⟨hsym hes.1 hf.typeOf_source, hsym hes.2 hf.typeOf_target⟩

/-- **What is told of a symbol** is the same of two graphs that agree. -/
theorem Paired.computeImpact_eq (hd : Discreet ns total)
    (h : Paired ns total history history' g g')
    (hv : ∀ i ∈ history, v.docVisible i.doc = !isHidden ns total i.doc)
    (hv' : ∀ i ∈ history', v'.docVisible i.doc = !isHidden ns total i.doc) :
    computeImpact look g v q = computeImpact look g' v' q := by
  have hnds : (g.nodes.items.filter fun n => own ns total n.id) =
      g'.nodes.items.filter fun n => own ns total n.id := congrArg Keyed.items h.agree.nodes
  have hes : (g.edges.items.filter fun e => ownEdge ns total e.key) =
      g'.edges.items.filter fun e => ownEdge ns total e.key := congrArg Keyed.items h.agree.edges
  have hcan : impactCandidates look g v q.symbol = impactCandidates look g' v' q.symbol := by
    rw [impactCandidates_eq hd h.traced h.sub hv, impactCandidates_eq hd h.traced' h.sub' hv', hnds]
  rw [computeImpact, computeImpact, ← hcan]
  cases hroot : resolveImpactRoot look (impactCandidates look g v q.symbol) q.filePath with
  | none => rfl
  | some root =>
    have ho : IsOwnSymbol ns total root.id := by
      have hm := mem_of_resolveImpactRoot hroot
      rw [impactCandidates_eq hd h.traced h.sub hv] at hm
      obtain ⟨hm, hcode⟩ := mem_filter.mp hm
      obtain ⟨hm, ho⟩ := mem_filter.mp hm
      exact ⟨ho, h.traced.typeOf_of_isCodeSymbol hm (Bool.and_eq_true_iff.mp hcode).2⟩
    have hside (side : Side) (depth : ℤ) :
        traverseImpact look (impactEdges g v q) g.nodes.get? root.id depth side =
          traverseImpact look (impactEdges g' v' q) g'.nodes.get? root.id depth side := by
      refine traverseImpact_congr (S := IsOwnSymbol ns total) (fun frontier hfron => ?_)
        (fun frontier hfron e he => h.isOwnSymbol_ends hd hv hfron he) (fun id hid => ?_)
        ho
      · rw [impactEdges_eq hd h.traced h.sub hv hfron,
          impactEdges_eq hd h.traced' h.sub' hv' hfron, hes]
      · exact Keyed.get?_eq_of_filter_eq h.agree.nodes hid.1
    simp only [impactFrom, hside]

/-- **Hidden documents do not show** in what is told of a symbol. -/
theorem impact_visiblePart (hd : Discreet ns total) :
    (collectionOf total).impact look ns q =
      (collectionOf (visiblePart ns total)).impact look ns q := by
  refine (paired_visiblePart hd).computeImpact_eq hd
    (fun i _ => docVisible_collectionOf ns total i.doc) fun i hi => ?_
  rw [docVisible_collectionOf, isHidden_visiblePart, (mem_visiblePart.mp hi).2]

end Impact

/-- A history without hidden documents is discreet. -/
theorem discreet_visiblePart (ns : String) (history : List (Ingest ids)) :
    Discreet ns (visiblePart ns history) := by
  have hn : hiddenPart ns (visiblePart ns history) = [] :=
    filter_eq_nil_iff.mpr fun i _ => by simp [isHidden_visiblePart]
  have hshr (id : String) : ¬IsShared ns (visiblePart ns history) id := by
    rintro ⟨-, hhid⟩
    rw [hn] at hhid
    cases hhid
  have hrel (key : EdgeKey) : ¬IsSharedRelation ns (visiblePart ns history) key := by
    rintro ⟨-, hhid⟩
    rw [hn] at hhid
    cases hhid
  constructor
  case symbol => exact fun id h => absurd h (hshr id)
  case spelling =>
    intro i _ n _ j hj
    rw [hn] at hj
    cases hj
  case mentioned => exact fun id h => absurd h (hshr id)
  case comentioned =>
    rintro i _ e _ (hk | ⟨doc, hd, -⟩)
    · rw [hn] at hk
      cases hk
    · rw [isHidden_visiblePart] at hd
      cases hd
  case unsaid =>
    intro j hj
    rw [hn] at hj
    cases hj
  case spared => exact fun _ _ _ _ _ _ _ _ e _ => hrel e.key
  case unlabelled => exact fun _ _ e _ _ => ⟨hshr e.sourceNodeId, hshr e.targetNodeId⟩
  case fresh =>
    intro m _ hd
    rw [isHidden_visiblePart] at hd
    cases hd
  case unreferenced =>
    intro before i after _ _ name _ j _ hd
    rw [isHidden_visiblePart] at hd
    cases hd

/-! ### Two documents about the same -/

def sampleNaming : Naming where
  typeOf _ := .concept
  isModuleId _ := false
  docOf chunk := if chunk = "v-000000" then "v" else "h"

def sampleEntity (name doc : String) : Node := ⟨name, name, .concept, none, doc, none⟩

/-- A document that all may see says that `x` and `y` are related. -/
def sampleVisible : Ingest sampleNaming where
  doc := "v"
  acl := none
  chunks := ["v-000000"]
  found :=
    { mentioned := some
        { nodes := [sampleEntity "x" "v", sampleEntity "y" "v"]
          edges := [⟨"x", "y", .relatedTo, "v", none⟩]
          mentions := [⟨"x", "v-000000", "v"⟩, ⟨"y", "v-000000", "v"⟩]
          edge_doc := by decide
          mention_doc := by decide
          edge_ends := by decide }
      degraded := false
      file := none }
  chunks_ne := by decide
  chunk_doc := by decide
  node_doc := by decide
  node_type := by decide
  node_module := by decide
  symbol := by decide
  symbolEdge := by decide
  relation_method := by decide
  relation_type := by decide
  mention_node := by decide
  mention_chunk := by decide

def sampleHidden (more : List RelationshipType) : Ingest sampleNaming where
  doc := "h"
  acl := some []
  chunks := ["h-000000"]
  found :=
    { mentioned := some
        { nodes := [sampleEntity "x" "h", sampleEntity "y" "h"]
          edges := (.relatedTo :: more).map fun kind => ⟨"x", "y", kind, "h", none⟩
          mentions := [⟨"x", "h-000000", "h"⟩, ⟨"y", "h-000000", "h"⟩]
          edge_doc := by simp
          mention_doc := by simp
          edge_ends := by simp [sampleEntity] }
      degraded := false
      file := none }
  chunks_ne := by decide
  chunk_doc := by decide
  node_doc := by simp [foundNodes, mentionedNodes, symbols, sampleEntity]
  node_type := by simp [foundNodes, mentionedNodes, symbols, sampleEntity, sampleNaming]
  node_module := by
    simp [foundNodes, mentionedNodes, symbols, sampleEntity, sampleNaming, Node.isModulePseudo,
      Node.isCodeSymbol]
  symbol := by simp [symbols]
  symbolEdge := by simp [symbolEdges]
  relation_method := by simp [relations]
  relation_type := by simp [relations, sampleNaming]
  mention_node := by simp [mentions, mentionedNodes, sampleEntity]
  mention_chunk := by simp [mentions]

/-- The hidden document is ingested before the visible one and again after it, so that it is the
last to write what they share. -/
theorem discreet_sampleHidden :
    Discreet "ns" [sampleHidden [], sampleVisible, sampleHidden []] := by
  have hrel : ∀ i ∈ [sampleHidden [], sampleVisible, sampleHidden []],
      ∀ e ∈ relations i.found, e.key = ("x", "y", .relatedTo) ∧ e.isDefref = false := by
    decide
  have hvis (e : Edge) (he : e.key = ("x", "y", .relatedTo)) :
      VisiblyComentioned "ns" [sampleHidden [], sampleVisible, sampleHidden []] e := by
    simp only [Edge.key, Prod.mk.injEq] at he
    refine ⟨"v", by decide, "v-000000", ?_, ?_⟩
    · rw [he.1]
      decide
    · rw [he.2.1]
      decide
  have hpl : ∀ i ∈ [sampleHidden [], sampleVisible, sampleHidden []],
      i.found.degraded = false ∧ references i.found = [] := by decide
  constructor
  case symbol =>
    simp [sampleNaming]
  case spelling => decide
  case mentioned =>
    have hmen : ∀ id ∈ ["x", "y"], ∃ m ∈ (collectionOf
        [sampleHidden [], sampleVisible, sampleHidden []]).graph.mentions, m.entityId = id ∧
          isHidden "ns" [sampleHidden [], sampleVisible, sampleHidden []] m.docId = false := by
      decide
    exact fun id h => hmen id h.1
  case comentioned =>
    exact fun i hi e he _ => hvis e (hrel i (mem_visiblePart.mp hi).1 e he).1
  case unsaid =>
    intro j hj e he hk
    rw [(hrel j (mem_hiddenPart.mp hj).1 e he).1] at hk
    exact absurd (by decide) hk
  case spared =>
    intro before i after hsplit hdeg
    have hi : i ∈ [sampleHidden [], sampleVisible, sampleHidden []] := by simp [hsplit]
    rw [(hpl i hi).1] at hdeg
    cases hdeg
  case unlabelled =>
    intro i hi e he hdef
    rw [(hrel i hi e he).2] at hdef
    cases hdef
  case fresh => decide
  case unreferenced =>
    intro before i after hsplit _ name hnm
    have hi : i ∈ [sampleHidden [], sampleVisible, sampleHidden []] := by simp [hsplit]
    rw [(hpl i hi).2] at hnm
    cases hnm

/-! ### Views do not depend on hidden documents -/

/-- **Views do not depend on hidden documents** that are discreet: two histories with the same
ingests of visible documents are shown alike. -/
theorem view_eq (ns : String) (first second : List (Ingest ids))
    (hsame : visiblePart ns first = visiblePart ns second) (hfirst : Discreet ns first)
    (hsecond : Discreet ns second)
    (hcap : (collectionOf first).graph.mentions.length ≤ mentionsScanCeiling)
    (hcap' : (collectionOf second).graph.mentions.length ≤ mentionsScanCeiling) :
    SameView ((collectionOf first).view ns) ((collectionOf second).view ns) ∧
      ∀ look q, (collectionOf first).impact look ns q = (collectionOf second).impact look ns q := by
  refine ⟨(sameView_visiblePart hfirst hcap).trans ?_, fun look q => ?_⟩
  · rw [hsame]
    exact (sameView_visiblePart hsecond hcap').symm
  · rw [impact_visiblePart hfirst, impact_visiblePart hsecond, hsame]

/-- What the hidden document says twice is not seen. -/
theorem view_eq_sampleHidden :
    SameView ((collectionOf [sampleVisible]).view "ns")
        ((collectionOf [sampleHidden [], sampleVisible, sampleHidden []]).view "ns") ∧
      ∀ look q, (collectionOf [sampleVisible]).impact look "ns" q =
        (collectionOf [sampleHidden [], sampleVisible, sampleHidden []]).impact look "ns" q :=
  view_eq "ns" [sampleVisible] [sampleHidden [], sampleVisible, sampleHidden []] rfl
    (discreet_visiblePart "ns" [sampleVisible]) discreet_sampleHidden (by decide) (by decide)

/-- **A relation that only a hidden document states is shown**, if a visible chunk mentions both
ends of it. -/
theorem not_sameView_sampleHidden :
    visiblePart "ns" [sampleVisible] = visiblePart "ns" [sampleVisible, sampleHidden [.uses]] ∧
      (collectionOf [sampleVisible]).graph.mentions.length ≤ mentionsScanCeiling ∧
      (collectionOf [sampleVisible, sampleHidden [.uses]]).graph.mentions.length ≤
        mentionsScanCeiling ∧
      ¬SameView ((collectionOf [sampleVisible]).view "ns")
        ((collectionOf [sampleVisible, sampleHidden [.uses]]).view "ns") := by
  refine ⟨rfl, by decide, by decide, fun h => ?_⟩
  have huses := (h.edges ("x", "y", .uses)).mpr (by decide)
  revert huses
  decide

end ArchonSearch.Graph.Views
