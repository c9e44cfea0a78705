import Mathlib.Data.Fintype.Defs
import ArchonSearch.Graph.Step
import ArchonSearch.Lib.Run

/-!
# No edge without its ends

An edge is written after the nodes at its ends, and a node is deleted after the edges at it. That
keeps the edges of a graph whole as long as nothing comes in between: while an operation still has
edges to write it needs their ends (`needs`), and once it has looked for the edges at the nodes that
it deletes it misses those that are written later (`Call.misses`).

The write of what chunks mention and the garbage collection are kept apart by the lock of the
collection. Document deletions and the def/ref writes of ingests do not hold it, and the def/ref
write of a document can even delete what it needs itself: a function that the file called and no
longer defines is found among the stored nodes of the file, and then deleted with its old rows
(`not_intact_reingest`).

`isIntact_of_apart` says that this is all that can go wrong, in any interleaving, and that a
deletion spares what it was told to preserve.
-/

namespace ArchonSearch.Graph

open Lib List Option

/-! ### What an operation relies on -/

/-- Every edge has both its ends. -/
def Tables.IsIntact (g : Tables) : Prop :=
  ∀ e ∈ g.edges, e.sourceNodeId ∈ g.nodeIds ∧ e.targetNodeId ∈ g.nodeIds

def endsOf (edges : List Edge) : List String :=
  edges.flatMap fun e => [e.sourceNodeId, e.targetNodeId]

/-- The nodes that have to stay: ends of the edges that are still to be written, but for
those that are written before them. -/
def needs : List Call → List String
  | [] => []
  | .writeNodes nodes :: calls => (needs calls).filter fun id => !(nodes.map Node.id).contains id
  | .writeEdges edges :: calls | .mergeEdges edges :: calls => endsOf edges ++ needs calls
  | _ :: calls => needs calls

/-- A node at the edge is going to be deleted, and the edge is not: whoever deletes has
already looked for the edges at the node. -/
def Call.misses (e : Edge) : Call → Bool
  | readIncident _ doomed found queries =>
    e.touches doomed && !queries.any (fun query => query.finds e) && !found.contains e.key
  | purge _ edges nodes => e.touches nodes.flatten && !edges.flatten.contains e.key
  | _ => false

def Call.written : Call → List Edge
  | mergeEdges edges => edges
  | _ => []

def Call.removed : Call → List String
  | purge _ [] (batch :: _) => batch
  | _ => []

inductive CallKind where
  | extraction
  | deletion
  | write

def Call.kind : Call → CallKind
  | extract _ _ => .extraction
  | deleteMentions _ | writeMentions _ | writeNodes _ | writeEdges _ | mergeEdges _ => .write
  | _ => .deletion

def Phased (calls : List Call) : Prop :=
  ∃ deletions writes, calls = deletions ++ writes ∧
    (∀ call ∈ deletions, call.kind = .deletion) ∧ (∀ call ∈ writes, call.kind = .write) ∧
    (deletions = [] ∨ needs writes = [])

variable {g : Tables} {b : Batching} {live : List String} {call call' : Call}
  {calls : List Call} {e : Edge} {id : String}

theorem mem_nodeIds : id ∈ g.nodeIds ↔ ∃ n ∈ g.nodes, n.id = id := List.mem_map

theorem mem_endsOf {edges : List Edge} : id ∈ endsOf edges ↔
    ∃ e ∈ edges, id = e.sourceNodeId ∨ id = e.targetNodeId := by
  simp [endsOf]

theorem kind_of_misses (h : call.misses e = true) : call.kind = .deletion := by
  cases call <;> first | rfl | cases h

theorem kind_of_mem_removed (h : id ∈ call.removed) : call.kind = .deletion := by
  cases call <;> first | rfl | cases h

theorem kind_of_mem_written (h : e ∈ call.written) : call.kind = .write := by
  cases call <;> first | rfl | cases h

/-- The edges at a node that is being deleted are missed. -/
theorem misses_of_mem_removed (h : id ∈ call.removed)
    (he : id = e.sourceNodeId ∨ id = e.targetNodeId) : call.misses e = true := by
  cases call with
  | purge preserve edges nodes =>
    cases edges with
    | cons batch edges => cases h
    | nil =>
      cases nodes with
      | nil => cases h
      | cons batch nodes =>
        have hm : id ∈ (batch :: nodes).flatten := mem_append_left _ h
        refine Bool.and_eq_true_iff.mpr ⟨Edge.touches_iff.mpr ?_, rfl⟩
        rcases he with rfl | rfl
        · exact Or.inl hm
        · exact Or.inr hm
  | _ => cases h

theorem mem_needs_cons (h : id ∈ needs calls) (hc : ∀ nodes, call ≠ .writeNodes nodes) :
    id ∈ needs (call :: calls) := by
  cases call with
  | writeNodes nodes => exact absurd rfl (hc nodes)
  | writeEdges edges => exact mem_append_right _ h
  | mergeEdges edges => exact mem_append_right _ h
  | _ => exact h

/-! ### What a call does -/

/-- A call keeps the nodes that it does not delete. -/
theorem mem_nodeIds_run (h : id ∈ g.nodeIds) (hrem : id ∉ call.removed) :
    id ∈ (call.run b live g).1.nodeIds := by
  cases call with
  | writeNodes nodes => exact Keyed.mem_keys_foldl_insert.mpr (Or.inl h)
  | purge preserve edges nodes =>
    cases edges with
    | cons batch edges => exact h
    | nil =>
      cases nodes with
      | nil => exact h
      | cons batch nodes =>
        obtain ⟨n, hn, rfl⟩ := mem_nodeIds.mp h
        exact mem_nodeIds.mpr ⟨n, mem_deleteNodes.mpr ⟨hn, hrem⟩, rfl⟩
  | readShared doc preserve defref candidates shared queries => cases queries <;> exact h
  | readIncident preserve doomed found queries => cases queries <;> exact h
  | pruneMentions stale => cases stale <;> exact h
  | _ => exact h

/-- An edge after a call was there before, or is written by it. -/
theorem mem_edges_of_mem_run (h : e ∈ (call.run b live g).1.edges) :
    e ∈ g.edges ∨ e ∈ call.written := by
  cases call with
  | mergeEdges edges => exact Keyed.mem_of_mem_foldl_insert h
  | purge preserve edges nodes =>
    cases edges with
    | cons batch edges => exact Or.inl (mem_deleteEdges.mp h).1
    | nil => cases nodes <;> exact Or.inl h
  | deleteDocEdges doc => exact Or.inl (mem_deleteEdges.mp h).1
  | readShared doc preserve defref candidates shared queries => cases queries <;> exact Or.inl h
  | readIncident preserve doomed found queries => cases queries <;> exact Or.inl h
  | pruneMentions stale => cases stale <;> exact Or.inl h
  | _ => exact Or.inl h

theorem endsOf_map_resolveMethod (stored : Keyed Edge.key) (edges : List Edge) :
    endsOf (edges.map (resolveMethod stored)) = endsOf edges := by
  have hes (e : Edge) : (resolveMethod stored e).sourceNodeId = e.sourceNodeId ∧
      (resolveMethod stored e).targetNodeId = e.targetNodeId := by
    unfold resolveMethod
    split <;> exact ⟨rfl, rfl⟩
  unfold endsOf
  rw [flatMap_map]
  refine flatMap_congr fun e _ => ?_
  rw [(hes e).1, (hes e).2]

theorem needs_append_of_deletion {deletions : List Call}
    (h : ∀ call ∈ deletions, call.kind = .deletion) :
    needs (deletions ++ calls) = needs calls := by
  induction deletions with
  | nil => rfl
  | cons call deletions ih =>
    have hk := h call mem_cons_self
    rw [← ih fun call hm => h call (mem_cons_of_mem _ hm)]
    cases call <;> first | rfl | cases hk

theorem kind_run_deletion (h : call.kind = .deletion) :
    ∀ call' ∈ (call.run b live g).2, call'.kind = .deletion := by
  intro call' hm
  cases call with
  | readShared doc preserve defref candidates shared queries
  | readIncident preserve doomed found queries =>
    cases queries <;> (obtain rfl := mem_singleton.mp hm; rfl)
  | purge preserve edges nodes =>
    cases edges with
    | cons batch edges => obtain rfl := mem_singleton.mp hm; rfl
    | nil =>
      cases nodes with
      | nil => cases hm
      | cons batch nodes => obtain rfl := mem_singleton.mp hm; rfl
  | pruneMentions stale =>
    cases stale with
    | nil => cases hm
    | cons batch stale => obtain rfl := mem_singleton.mp hm; rfl
  | readMentions noLiveChunks =>
    unfold Call.run at hm
    dsimp only at hm
    split_ifs at hm
    · cases hm
    · obtain rfl := mem_singleton.mp hm
      rfl
  | listLive => rcases mem_pair.mp hm with rfl | rfl <;> rfl
  | deleteDocEdges doc => cases hm
  | deleteDefref doc preserve owned => obtain rfl := mem_singleton.mp hm; rfl
  | readNodes doc preserve owned defref => obtain rfl := mem_singleton.mp hm; rfl
  | readStale live => obtain rfl := mem_singleton.mp hm; rfl
  | scanNodes mentions => obtain rfl := mem_singleton.mp hm; rfl
  | scanEdges mentions nodes => obtain rfl := mem_singleton.mp hm; rfl
  | _ => cases h

theorem kind_run_write (h : call.kind = .write) :
    ∀ call' ∈ (call.run b live g).2, call'.kind = .write := by
  intro call' hm
  cases call with
  | writeEdges edges => obtain rfl := mem_singleton.mp hm; rfl
  | deleteMentions doc => cases hm
  | writeMentions mentions => cases hm
  | writeNodes nodes => cases hm
  | mergeEdges edges => cases hm
  | _ => cases h

/-- What is needed after a call was needed before, or is stored. -/
theorem mem_needs_run (h : id ∈ needs ((call.run b live g).2 ++ calls)) :
    id ∈ needs (call :: calls) ∨ id ∈ (call.run b live g).1.nodeIds := by
  cases hk : call.kind with
  | deletion =>
    rw [needs_append_of_deletion (kind_run_deletion hk)] at h
    refine Or.inl (mem_needs_cons h ?_)
    rintro nodes rfl
    cases hk
  | extraction =>
    cases call with
    | extract doc f =>
      have hend := (mem_filter.mp h).1
      have ho : (!(f.nodes.map Node.id).contains id) = true := (mem_filter.mp h).2
      rcases mem_append.mp hend with hedge | hrs
      · refine Or.inr ?_
        obtain ⟨e, he, hid⟩ := mem_endsOf.mp hedge
        have hnot : id ∉ f.nodes.map Node.id := by simpa using ho
        obtain ⟨hsrc, htgt⟩ := ParsedFile.mem_extract he
        rcases hid with rfl | rfl
        · exact absurd hsrc hnot
        · exact htgt.resolve_left hnot
      · exact Or.inl hrs
    | _ => cases hk
  | write =>
    cases call with
    | writeNodes nodes =>
      by_cases hwrt : id ∈ nodes.map Node.id
      · exact Or.inr (Keyed.mem_keys_foldl_insert.mpr (Or.inr hwrt))
      · exact Or.inl (mem_filter.mpr ⟨h, by simpa using hwrt⟩)
    | writeEdges edges =>
      refine Or.inl ?_
      have heq : needs ((Call.run b live g (.writeEdges edges)).2 ++ calls) =
          endsOf (edges.map (resolveMethod g.edges)) ++ needs calls := rfl
      rw [heq, endsOf_map_resolveMethod] at h
      exact h
    | mergeEdges edges => exact Or.inl (mem_append_right _ h)
    | deleteMentions doc => exact Or.inl h
    | writeMentions mentions => exact Or.inl h
    | _ => cases hk

theorem finds_of_touches {ids : List String} (h : e.touches ids = true) :
    (b.queries ids).any (fun query => query.finds e) = true := by
  have hbat {id : String} (hid : id ∈ ids) : ∃ batch ∈ b.split ids, id ∈ batch := by
    rw [← b.flatten_split ids] at hid
    exact mem_flatten.mp hid
  rw [List.any_eq_true]
  rcases Edge.touches_iff.mp h with hsrc | htgt
  · obtain ⟨batch, hm, hid⟩ := hbat hsrc
    exact ⟨⟨.source, batch⟩, mem_flatMap.mpr ⟨batch, hm, mem_cons_self⟩, contains_iff_mem.mpr hid⟩
  · obtain ⟨batch, hm, hid⟩ := hbat htgt
    exact ⟨⟨.target, batch⟩,
      mem_flatMap.mpr ⟨batch, hm, mem_cons_of_mem _ mem_cons_self⟩,
      contains_iff_mem.mpr hid⟩

theorem isOrphanEdge_of_touches (he : e ∈ g.edges) (h : e.touches g.orphanIds = true) :
    g.isOrphanEdge e = true := by
  have horph {id : String} (hid : id ∈ g.orphanIds) (hend : e.touches [id] = true) :
      e.isDefref = false := by
    obtain ⟨n, hn, rfl⟩ := List.mem_map.mp hid
    have hnot := (mem_filter.mp hn).2
    unfold Tables.isOrphan at hnot
    rw [Bool.and_eq_true, Bool.not_eq_true', List.any_eq_false] at hnot
    have huses := hnot.2 e he
    rw [hend, Bool.and_true] at huses
    exact Bool.not_eq_true _ ▸ huses
  have hdef : e.isDefref = false := by
    rcases Edge.touches_iff.mp h with hsrc | htgt
    · exact horph hsrc (Edge.touches_iff.mpr (Or.inl mem_cons_self))
    · exact horph htgt (Edge.touches_iff.mpr (Or.inr mem_cons_self))
  simp [Tables.isOrphanEdge, hdef, h]

/-- What a call goes on with misses no edge, if the call does not. -/
theorem misses_run (h : ∀ e ∈ g.edges, call.misses e = false)
    (hc : call' ∈ (call.run b live g).2) (he : e ∈ (call.run b live g).1.edges) :
    call'.misses e = false := by
  cases call with
  | readShared doc preserve defref candidates shared queries =>
    cases queries with
    | cons query queries => obtain rfl := mem_singleton.mp hc; rfl
    | nil =>
      obtain rfl := mem_singleton.mp hc
      simp only [Call.misses, Bool.and_eq_false_iff, Bool.not_eq_false']
      exact Or.inl ((Bool.eq_false_or_eq_true _).symm.imp_right finds_of_touches)
  | readIncident preserve doomed found queries =>
    have hold := h e (by cases queries <;> exact he)
    cases queries with
    | cons query queries =>
      obtain rfl := mem_singleton.mp hc
      simp only [Call.misses, any_cons, Bool.and_eq_false_iff, Bool.not_eq_false'] at hold ⊢
      rcases hold with (htch | hfin) | hfnd
      · exact Or.inl (Or.inl htch)
      · rcases Bool.or_eq_true_iff.mp hfin with hquery | hquer
        · refine Or.inr (contains_iff_mem.mpr (mem_append_right _ ?_))
          exact List.mem_map_of_mem (mem_filter.mpr ⟨he, hquery⟩)
        · exact Or.inl (Or.inr hquer)
      · refine Or.inr (contains_iff_mem.mpr (mem_append_left _ ?_))
        exact contains_iff_mem.mp hfnd
    | nil =>
      obtain rfl := mem_singleton.mp hc
      simp only [Call.misses, any_nil, Bool.not_false, Bool.and_true,
        Bool.and_eq_false_iff, Bool.not_eq_false'] at hold ⊢
      rw [b.flatten_split, b.flatten_split]
      refine hold.imp_right fun hfnd => contains_iff_mem.mpr ?_
      exact mem_eraseDups.mpr (contains_iff_mem.mp hfnd)
  | purge preserve edges nodes =>
    cases edges with
    | cons batch edges =>
      obtain rfl := mem_singleton.mp hc
      obtain ⟨hm, hk⟩ := mem_deleteEdges.mp he
      have hold := h e hm
      simp only [Call.misses, Bool.and_eq_false_iff, Bool.not_eq_false'] at hold ⊢
      refine hold.imp_right fun hfnd => contains_iff_mem.mpr ?_
      have hnot : e.key ∉ batch := by simpa using hk
      rw [contains_iff_mem, flatten_cons, mem_append] at hfnd
      exact hfnd.resolve_left hnot
    | nil =>
      cases nodes with
      | nil => cases hc
      | cons batch nodes =>
        obtain rfl := mem_singleton.mp hc
        have hold := h e he
        simp only [Call.misses, flatten_nil, contains_nil, Bool.not_false, Bool.and_true] at hold ⊢
        rw [← Bool.not_eq_true, Edge.touches_iff, not_or] at hold ⊢
        exact hold.imp (mt (mem_append_right _)) (mt (mem_append_right _))
  | scanEdges mentions nodes =>
    obtain rfl := mem_singleton.mp hc
    have hseen : e ∈ (Tables.mk nodes g.edges mentions).edges := he
    simp only [Call.misses, Bool.and_eq_false_iff, Bool.not_eq_false']
    rw [b.flatten_split, b.flatten_split]
    refine (Bool.eq_false_or_eq_true _).symm.imp_right fun htch => ?_
    have horph := isOrphanEdge_of_touches hseen htch
    exact contains_iff_mem.mpr (List.mem_map_of_mem (mem_filter.mpr ⟨hseen, horph⟩))
  | readMentions noLiveChunks =>
    unfold Call.run at hc
    dsimp only at hc
    split_ifs at hc
    · cases hc
    · obtain rfl := mem_singleton.mp hc
      rfl
  | pruneMentions stale =>
    cases stale with
    | nil => cases hc
    | cons batch stale => obtain rfl := mem_singleton.mp hc; rfl
  | listLive => rcases mem_pair.mp hc with rfl | rfl <;> rfl
  | extract doc f =>
    rcases mem_cons.mp hc with rfl | hw
    · rfl
    · rcases mem_pair.mp hw with rfl | rfl <;> rfl
  | writeEdges edges => obtain rfl := mem_singleton.mp hc; rfl
  | deleteDefref doc preserve owned => obtain rfl := mem_singleton.mp hc; rfl
  | readNodes doc preserve owned defref => obtain rfl := mem_singleton.mp hc; rfl
  | readStale live => obtain rfl := mem_singleton.mp hc; rfl
  | scanNodes mentions => obtain rfl := mem_singleton.mp hc; rfl
  | deleteMentions doc => cases hc
  | writeMentions mentions => cases hc
  | writeNodes nodes => cases hc
  | mergeEdges edges => cases hc
  | deleteDocEdges doc => cases hc

/-! ### Any interleaving -/

structure BlockOk (block : Block) : Prop where
  needs_eq : needs block.calls = []
  misses : ∀ call ∈ block.calls, ∀ e, call.misses e = false
  phased : block.locked = true → Phased block.calls

theorem blockOk_deleteGraph (doc : String) : BlockOk ⟨false, deleteGraphCalls doc⟩ where
  needs_eq := rfl
  misses := by
    intro call hc e
    rcases mem_pair.mp hc with rfl | rfl <;> rfl
  phased := by rintro ⟨⟩

variable {doc : String}

theorem needs_writes (x : MentionGraph doc) : needs [.writeNodes x.nodes,
    .writeEdges x.edges, .deleteMentions doc, .writeMentions x.mentions] = [] := by
  refine filter_eq_nil_iff.mpr fun id hid => ?_
  obtain ⟨e, he, hend⟩ := mem_endsOf.mp ((mem_append.mp hid).resolve_right not_mem_nil)
  have ho : id ∈ x.nodes.map Node.id := by
    rcases hend with rfl | rfl
    · exact (x.edge_ends e he).1
    · exact (x.edge_ends e he).2
  rw [contains_iff_mem.mpr ho]
  decide

theorem blockOk_mentionBlock (degraded : Bool) (x : MentionGraph doc) :
    BlockOk (mentionBlock degraded x) := by
  have hdel : ∀ call ∈ (if degraded then deleteGraphCalls doc else []),
      call.kind = .deletion ∧ ∀ e, call.misses e = false := by
    intro call hc
    cases degraded with
    | false => cases hc
    | true => rcases mem_pair.mp hc with rfl | rfl <;> exact ⟨rfl, fun _ => rfl⟩
  have hwrs : ∀ call ∈ [Call.writeNodes x.nodes, .writeEdges x.edges, .deleteMentions doc,
      .writeMentions x.mentions], call.kind = .write ∧ ∀ e, call.misses e = false := by
    intro call hc
    simp only [mem_cons, not_mem_nil, or_false] at hc
    rcases hc with rfl | rfl | rfl | rfl <;> exact ⟨rfl, fun _ => rfl⟩
  refine ⟨?_, ?_, fun _ => ?_⟩
  · exact (needs_append_of_deletion fun call hc => (hdel call hc).1).trans (needs_writes x)
  · intro call hc
    rcases mem_append.mp hc with hdele | hw
    · exact (hdel call hdele).2
    · exact (hwrs call hw).2
  · exact ⟨_, _, rfl, fun call hc => (hdel call hc).1,
      fun call hc => (hwrs call hc).1, Or.inr (needs_writes x)⟩

/-- No operation relies on anything before it begins. -/
theorem blockOk_blocks (operation : Operation) : ∀ block ∈ operation.blocks, BlockOk block := by
  intro block hblock
  have hsin {call : Call} (hneeds : needs [call] = []) (hmis : ∀ e, call.misses e = false) :
      BlockOk ⟨false, [call]⟩ :=
    ⟨hneeds, fun _ hm => mem_singleton.mp hm ▸ hmis, by rintro ⟨⟩⟩
  cases operation with
  | ingest doc found =>
    rcases mem_append.mp hblock with hmen | hf
    · obtain ⟨x, -, rfl⟩ := map_eq_some_iff.mp (mem_toList.mp hmen)
      exact blockOk_mentionBlock _ x
    · obtain ⟨f, -, rfl⟩ := map_eq_some_iff.mp (mem_toList.mp hf)
      exact hsin rfl fun _ => rfl
  | cleanup doc =>
    rcases mem_pair.mp hblock with rfl | rfl
    · exact hsin rfl fun _ => rfl
    · exact blockOk_deleteGraph doc
  | deleteGraph doc =>
    obtain rfl := mem_singleton.mp hblock
    exact blockOk_deleteGraph doc
  | deleteDefref doc preserve owned =>
    obtain rfl := mem_singleton.mp hblock
    exact hsin rfl fun _ => rfl
  | collectGarbage =>
    obtain rfl := mem_singleton.mp hblock
    refine ⟨rfl, fun call hc e => ?_, fun _ => ⟨[.listLive], [], rfl, ?_, ?_, Or.inr rfl⟩⟩
    · obtain rfl := mem_singleton.mp hc
      rfl
    · intro call hc
      obtain rfl := mem_singleton.mp hc
      rfl
    · exact fun call hc => absurd hc not_mem_nil

theorem phased_nil : Phased [] :=
  ⟨[], [], rfl, fun _ h => absurd h not_mem_nil, fun _ h => absurd h not_mem_nil, Or.inl rfl⟩

/-- What a locked block does next, it does in its phase. -/
theorem Phased.run (h : Phased (call :: calls)) : Phased ((call.run b live g).2 ++ calls) := by
  obtain ⟨deletions, writes, hcs, hdel, hwrs, hneeds⟩ := h
  cases deletions with
  | nil =>
    obtain rfl : call :: calls = writes := hcs
    refine ⟨[], _, rfl, fun _ h => absurd h not_mem_nil, fun call' hm => ?_, Or.inl rfl⟩
    rcases mem_append.mp hm with hx | hrs
    · exact kind_run_write (hwrs call mem_cons_self) call' hx
    · exact hwrs call' (mem_cons_of_mem _ hrs)
  | cons first deletions =>
    cases hcs
    refine ⟨(call.run b live g).2 ++ deletions, writes, (append_assoc ..).symm,
      fun call' hm => ?_, hwrs, hneeds.imp_left fun h => by cases h⟩
    rcases mem_append.mp hm with hx | hrs
    · exact kind_run_deletion (hdel call mem_cons_self) call' hx
    · exact hdel call' (mem_cons_of_mem _ hrs)

/-- While a locked block deletes, it needs nothing. -/
theorem Phased.needs_eq (h : Phased (call :: calls)) (hk : call.kind = .deletion) :
    needs (call :: calls) = [] := by
  obtain ⟨deletions, writes, hcs, hdel, hwrs, hneeds⟩ := h
  rw [hcs, needs_append_of_deletion hdel]
  refine hneeds.resolve_left ?_
  rintro rfl
  obtain rfl : call :: calls = writes := hcs
  have hw := hwrs call mem_cons_self
  rw [hk] at hw
  cases hw

/-- While a locked block writes, it misses no edge. -/
theorem Phased.misses_eq (h : Phased (call :: calls)) (hk : call.kind = .write) :
    ∀ call' ∈ call :: calls, call'.misses e = false := by
  intro call' hm
  obtain ⟨deletions, writes, hcs, hdele, hwrs, hneeds⟩ := h
  cases deletions with
  | nil =>
    obtain rfl : call :: calls = writes := hcs
    rw [← Bool.not_eq_true]
    intro hmis
    have hw := hwrs call' hm
    rw [kind_of_misses hmis] at hw
    cases hw
  | cons first deletions =>
    cases hcs
    have hdel := hdele call mem_cons_self
    rw [hk] at hdel
    cases hdel

section World

variable {ι : Type} {s s' : World ι} {i : ι}

/-- **The calls of different operations do not get into each other's way**, nor those of one
operation without the lock: no edge is written that a deletion misses, and no node is deleted
that is needed. Two operations under the lock are never in their blocks together. -/
def World.Apart (s : World ι) : Step ι → Prop
  | .call i _ => ∀ call ∈ (s.tasks i).calls.head?, ∀ k,
      ¬(s.holder = some i ∧ s.holder = some k) →
        (∀ e ∈ call.written, ∀ call' ∈ (s.tasks k).calls, call'.misses e = false) ∧
        ∀ id ∈ call.removed, id ∉ needs (s.tasks k).calls
  | _ => True

/-- No edge lacks an end, now or after what the tasks still write. -/
structure World.Sound (s : World ι) : Prop where
  intact : s.tables.IsIntact
  needed : ∀ k, ∀ id ∈ needs (s.tasks k).calls, id ∈ s.tables.nodeIds
  caught : ∀ k, ∀ call ∈ (s.tasks k).calls, ∀ e ∈ s.tables.edges, call.misses e = false
  phased : ∀ k, s.holder = some k → Phased (s.tasks k).calls
  blocks : ∀ k, ∀ block ∈ (s.tasks k).blocks, BlockOk block

theorem World.Sound.setHolder (h : s.Sound) {holder : Option ι}
    (hphd : ∀ k, holder = some k → Phased (s.tasks k).calls) :
    ({ s with holder := holder } : World ι).Sound :=
  ⟨h.intact, h.needed, h.caught, hphd, h.blocks⟩

variable [DecidableEq ι]

theorem World.Sound.setTask (h : s.Sound) {task : Task}
    (hneed : ∀ id ∈ needs task.calls, id ∈ s.tables.nodeIds)
    (hcaug : ∀ call ∈ task.calls, ∀ e ∈ s.tables.edges, call.misses e = false)
    (hphd : s.holder = some i → Phased task.calls)
    (hblks : ∀ block ∈ task.blocks, BlockOk block) : (s.setTask i task).Sound := by
  have htask (k : ι) : k = i ∧ (s.setTask i task).tasks k = task ∨
      (s.setTask i task).tasks k = s.tasks k := by
    rcases eq_or_ne k i with rfl | hne
    · exact Or.inl ⟨rfl, s.setTask_self k task⟩
    · exact Or.inr (s.setTask_of_ne hne task)
  refine ⟨h.intact, fun k => ?_, fun k => ?_, fun k hk => ?_, fun k => ?_⟩
  · rcases htask k with ⟨-, hk⟩ | hk <;> rw [hk]
    exacts [hneed, h.needed k]
  · rcases htask k with ⟨-, hk⟩ | hk <;> rw [hk]
    exacts [hcaug, h.caught k]
  · rcases htask k with ⟨rfl, hself⟩ | hoth
    · rw [hself]
      exact hphd hk
    · rw [hoth]
      exact h.phased k hk
  · rcases htask k with ⟨-, hk⟩ | hk <;> rw [hk]
    exacts [hblks, h.blocks k]

variable {blocks : List Block}

theorem World.Sound.setTask_nil (h : s.Sound)
    (hblks : ∀ block ∈ blocks, BlockOk block) : (s.setTask i ⟨[], blocks⟩).Sound :=
  h.setTask (fun _ h => absurd h not_mem_nil) (fun _ h => absurd h not_mem_nil)
    (fun _ => phased_nil) hblks

theorem World.Sound.setTask_block (h : s.Sound) {block : Block}
    (hblock : BlockOk block) (hphd : s.holder = some i → block.locked = true)
    (hblks : ∀ block ∈ blocks, BlockOk block) : (s.setTask i ⟨block.calls, blocks⟩).Sound := by
  refine h.setTask (fun id hid => ?_) (fun call hc e _ => hblock.misses call hc e)
    (fun hho => hblock.phased (hphd hho)) hblks
  rw [hblock.needs_eq] at hid
  cases hid

/-- **What a call preserves.** -/
theorem World.Sound.step_call (h : s.Sound)
    (htask : s.tasks i = ⟨call :: calls, blocks⟩) (hapart : s.Apart (.call i live)) :
    ({ s.setTask i ⟨(call.run b live s.tables).2 ++ calls, blocks⟩ with
      tables := (call.run b live s.tables).1 } : World ι).Sound := by
  have hcs : (s.tasks i).calls = call :: calls := by rw [htask]
  have hblks : ∀ block ∈ blocks, BlockOk block := by
    have := h.blocks i
    rwa [htask] at this
  have hcon := hapart call (by rw [hcs]; rfl)
  -- under the lock no condition is needed
  have hwrt (k : ι) : ∀ e ∈ call.written, ∀ call' ∈ (s.tasks k).calls,
      call'.misses e = false := by
    by_cases hl : s.holder = some i ∧ s.holder = some k
    · obtain rfl : i = k := some.inj (hl.1.symm.trans hl.2)
      intro e he
      have hphd := h.phased i hl.1
      rw [hcs] at hphd ⊢
      exact hphd.misses_eq (kind_of_mem_written he)
    · exact (hcon k hl).1
  have hrem (k : ι) : ∀ id ∈ call.removed, id ∉ needs (s.tasks k).calls := by
    by_cases hl : s.holder = some i ∧ s.holder = some k
    · obtain rfl : i = k := some.inj (hl.1.symm.trans hl.2)
      intro id hid
      have hphd := h.phased i hl.1
      rw [hcs] at hphd ⊢
      rw [hphd.needs_eq (kind_of_mem_removed hid)]
      exact not_mem_nil
    · exact (hcon k hl).2
  have hcaughtCall : ∀ e ∈ s.tables.edges, call.misses e = false :=
    h.caught i call (by rw [hcs]; exact mem_cons_self)
  have hneed (k : ι) : ∀ id ∈ needs (s.tasks k).calls,
      id ∈ (call.run b live s.tables).1.nodeIds := fun id hid =>
    mem_nodeIds_run (h.needed k id hid) fun hm => hrem k id hm hid
  have hcaug (k : ι) : ∀ call' ∈ (s.tasks k).calls,
      ∀ e ∈ (call.run b live s.tables).1.edges, call'.misses e = false := by
    intro call' hc' e he
    rcases mem_edges_of_mem_run he with hold | hw
    · exact h.caught k call' hc' e hold
    · exact hwrt k e hw call' hc'
  have hint : (call.run b live s.tables).1.IsIntact := by
    intro e he
    rcases mem_edges_of_mem_run he with hold | hw
    · have hk {id : String} (hid : id ∈ s.tables.nodeIds)
          (hend : id = e.sourceNodeId ∨ id = e.targetNodeId) :
          id ∈ (call.run b live s.tables).1.nodeIds := by
        refine mem_nodeIds_run hid fun hm => ?_
        have hmis := misses_of_mem_removed hm hend
        rw [hcaughtCall e hold] at hmis
        cases hmis
      obtain ⟨hsrc, htgt⟩ := h.intact e hold
      exact ⟨hk hsrc (Or.inl rfl), hk htgt (Or.inr rfl)⟩
    · have hend {id : String} (hid : id = e.sourceNodeId ∨ id = e.targetNodeId) :
          id ∈ (call.run b live s.tables).1.nodeIds := by
        refine hneed i id ?_
        rw [hcs]
        cases call with
        | mergeEdges edges =>
          exact mem_append_left _ (mem_endsOf.mpr ⟨e, hw, hid⟩)
        | _ => cases hw
      exact ⟨hend (Or.inl rfl), hend (Or.inr rfl)⟩
  have hmov : ({ s with tables := (call.run b live s.tables).1 } : World ι).Sound :=
    ⟨hint, hneed, hcaug, h.phased, h.blocks⟩
  refine hmov.setTask (fun id hid => ?_) (fun call' hm e he => ?_) (fun hho => ?_) hblks
  · rcases mem_needs_run hid with hold | hsto
    · exact hneed i id (by rw [hcs]; exact hold)
    · exact hsto
  · rcases mem_append.mp hm with hx | hrs
    · exact misses_run hcaughtCall hx he
    · exact hcaug i call' (by rw [hcs]; exact mem_cons_of_mem _ hrs) e he
  · have hphd := h.phased i hho
    rw [hcs] at hphd
    exact hphd.run

/-- **What a step preserves**, if its call gets into nobody's way. -/
theorem World.Sound.step (h : s.Sound) {event : Step ι} (hapart : s.Apart event)
    (hs : Graph.step b s event = some s') : s'.Sound := by
  cases event with
  | start i operation =>
    simp only [Graph.step] at hs
    split at hs <;> cases hs
    exact h.setTask_nil (blockOk_blocks operation)
  | enter i =>
    simp only [Graph.step] at hs
    split at hs
    next block blocks htask =>
      have hblks := h.blocks i
      rw [htask] at hblks
      have hblock := hblks block mem_cons_self
      have hrs := fun block hm => hblks block (mem_cons_of_mem _ hm)
      split_ifs at hs with hloc hfr hh
      · cases hs
        have htak : ({ s with holder := some i } : World ι).Sound := by
          refine h.setHolder fun k hk => ?_
          cases hk
          rw [htask]
          exact phased_nil
        exact htak.setTask_block hblock (fun _ => hloc) hrs
      · cases hs
        exact h.setTask_block hblock (fun hho => absurd hho hh) hrs
    · cases hs
  | call i live =>
    simp only [Graph.step] at hs
    split at hs <;> cases hs
    next call calls blocks htask =>
      exact h.step_call htask hapart
  | fail i =>
    cases hs
    exact h.setTask_nil (h.blocks i)
  | skip i =>
    simp only [Graph.step] at hs
    split at hs <;> cases hs
    next block blocks htask =>
      have hblks := h.blocks i
      rw [htask] at hblks
      exact h.setTask_nil fun block hm => hblks block (mem_cons_of_mem _ hm)
  | release i =>
    obtain ⟨-, rfl⟩ := of_guard hs
    exact h.setHolder (by rintro k ⟨⟩)

omit [DecidableEq ι] in
theorem World.IsIdle.sound (h : s.IsIdle) (hint : s.tables.IsIntact) : s.Sound where
  intact := hint
  needed k id hid := by
    rw [(h.2 k).1] at hid
    cases hid
  caught k call hc := by
    rw [(h.2 k).1] at hc
    cases hc
  phased k hk := by
    rw [h.1] at hk
    cases hk
  blocks k block hblock := by
    rw [(h.2 k).2] at hblock
    cases hblock

end World

/-! ### What a deletion preserves -/

def Call.Spares : Call → Prop
  | readShared _ preserve _ candidates _ _ => ∀ id ∈ candidates.map Node.id, id ∉ preserve
  | readIncident preserve doomed _ _ => ∀ id ∈ doomed, id ∉ preserve
  | purge preserve _ nodes => ∀ id ∈ nodes.flatten, id ∉ preserve
  | _ => True

theorem spares_run (h : call.Spares) : ∀ call' ∈ (call.run b live g).2, call'.Spares := by
  intro call' hm
  cases call with
  | readNodes doc preserve owned defref =>
    obtain rfl := mem_singleton.mp hm
    intro id hid
    obtain ⟨n, hn, rfl⟩ := List.mem_map.mp hid
    have hcan := (mem_filter.mp hn).2
    unfold Node.isCandidate at hcan
    rw [Bool.and_eq_true, Bool.and_eq_true, Bool.not_eq_true'] at hcan
    intro hpres
    rw [contains_iff_mem.mpr hpres] at hcan
    cases hcan.1.2
  | readShared doc preserve defref candidates shared queries =>
    cases queries with
    | cons query queries => obtain rfl := mem_singleton.mp hm; exact h
    | nil =>
      obtain rfl := mem_singleton.mp hm
      exact fun id hid => h id (mem_filter.mp hid).1
  | readIncident preserve doomed found queries =>
    cases queries with
    | cons query queries => obtain rfl := mem_singleton.mp hm; exact h
    | nil =>
      obtain rfl := mem_singleton.mp hm
      intro id hid
      have hdoom : id ∈ (b.split doomed).flatten := hid
      rw [b.flatten_split] at hdoom
      exact h id hdoom
  | purge preserve edges nodes =>
    cases edges with
    | cons batch edges => obtain rfl := mem_singleton.mp hm; exact h
    | nil =>
      cases nodes with
      | nil => cases hm
      | cons batch nodes =>
        obtain rfl := mem_singleton.mp hm
        exact fun id hid => h id (mem_append_right _ hid)
  | scanEdges mentions nodes =>
    obtain rfl := mem_singleton.mp hm
    exact fun _ _ => not_mem_nil
  | pruneMentions stale =>
    cases stale with
    | nil => cases hm
    | cons batch stale => obtain rfl := mem_singleton.mp hm; trivial
  | readMentions noLiveChunks =>
    unfold Call.run at hm
    dsimp only at hm
    split_ifs at hm
    · cases hm
    · obtain rfl := mem_singleton.mp hm
      trivial
  | listLive => rcases mem_pair.mp hm with rfl | rfl <;> trivial
  | extract doc f =>
    rcases mem_cons.mp hm with rfl | hw
    · trivial
    · rcases mem_pair.mp hw with rfl | rfl <;> trivial
  | writeEdges edges => obtain rfl := mem_singleton.mp hm; trivial
  | deleteDefref doc preserve owned => obtain rfl := mem_singleton.mp hm; trivial
  | readStale live => obtain rfl := mem_singleton.mp hm; trivial
  | scanNodes mentions => obtain rfl := mem_singleton.mp hm; trivial
  | deleteMentions doc => cases hm
  | writeMentions mentions => cases hm
  | writeNodes nodes => cases hm
  | mergeEdges edges => cases hm
  | deleteDocEdges doc => cases hm

/-- What a call deletes, it was not told to preserve. -/
theorem notMem_preserved (h : call.Spares) (hid : id ∈ call.removed) : id ∉ call.preserved := by
  cases call with
  | purge preserve edges nodes =>
    cases edges with
    | cons batch edges => cases hid
    | nil =>
      cases nodes with
      | nil => cases hid
      | cons batch nodes => exact h id (mem_append_left _ hid)
  | _ => cases hid

/-- No operation has decided on anything before it begins. -/
theorem spares_blocks (operation : Operation) :
    ∀ block ∈ operation.blocks, ∀ call ∈ block.calls, call.Spares := by
  intro block hblock call hc
  have hg {doc : String} (hm : call ∈ deleteGraphCalls doc) : call.Spares := by
    rcases mem_pair.mp hm with rfl | rfl <;> trivial
  cases operation with
  | ingest doc found =>
    rcases mem_append.mp hblock with hmen | hf
    · obtain ⟨x, -, rfl⟩ := map_eq_some_iff.mp (mem_toList.mp hmen)
      rcases mem_append.mp hc with hdel | hw
      · cases hdeg : found.degraded with
        | false =>
          rw [hdeg] at hdel
          cases hdel
        | true =>
          rw [hdeg] at hdel
          exact hg hdel
      · simp only [mem_cons, not_mem_nil, or_false] at hw
        rcases hw with rfl | rfl | rfl | rfl <;> trivial
    · obtain ⟨f, -, rfl⟩ := map_eq_some_iff.mp (mem_toList.mp hf)
      obtain rfl := mem_singleton.mp hc
      trivial
  | cleanup doc =>
    rcases mem_pair.mp hblock with rfl | rfl
    · obtain rfl := mem_singleton.mp hc
      trivial
    · exact hg hc
  | deleteGraph doc =>
    obtain rfl := mem_singleton.mp hblock
    exact hg hc
  | deleteDefref doc preserve owned | collectGarbage =>
    obtain rfl := mem_singleton.mp hblock
    obtain rfl := mem_singleton.mp hc
    trivial

section Runs

variable {ι : Type} {s s' : World ι} {i : ι}

def World.Spares (s : World ι) : Prop :=
  ∀ k, (∀ call ∈ (s.tasks k).calls, call.Spares) ∧
    ∀ block ∈ (s.tasks k).blocks, ∀ call ∈ block.calls, call.Spares

variable [DecidableEq ι]

theorem World.Spares.setTask (h : s.Spares) {task : Task}
    (hcs : ∀ call ∈ task.calls, call.Spares)
    (hblks : ∀ block ∈ task.blocks, ∀ call ∈ block.calls, call.Spares) :
    (s.setTask i task).Spares := by
  intro k
  rcases eq_or_ne k i with rfl | hne
  · rw [World.setTask_self]
    exact ⟨hcs, hblks⟩
  · rw [World.setTask_of_ne s hne]
    exact h k

theorem World.Spares.step (h : s.Spares) {event : Step ι}
    (hs : Graph.step b s event = some s') : s'.Spares := by
  cases event with
  | start i operation =>
    simp only [Graph.step] at hs
    split at hs <;> cases hs
    exact h.setTask (fun _ h => absurd h not_mem_nil) (spares_blocks operation)
  | enter i =>
    simp only [Graph.step] at hs
    split at hs
    next block blocks htask =>
      have hblks := (h i).2
      rw [htask] at hblks
      have hent : (s.setTask i ⟨block.calls, blocks⟩).Spares :=
        h.setTask (hblks block mem_cons_self) fun block hm => hblks block (mem_cons_of_mem _ hm)
      split_ifs at hs
      · cases hs
        exact hent
      · cases hs
        exact hent
    · cases hs
  | call i live =>
    simp only [Graph.step] at hs
    split at hs <;> cases hs
    next call calls blocks htask =>
      have htaskSpares := h i
      rw [htask] at htaskSpares
      refine h.setTask (fun call' hm => ?_) htaskSpares.2
      rcases mem_append.mp hm with hx | hrs
      · exact spares_run (htaskSpares.1 call mem_cons_self) call' hx
      · exact htaskSpares.1 call' (mem_cons_of_mem _ hrs)
  | fail i =>
    cases hs
    exact h.setTask (fun _ h => absurd h not_mem_nil) (h i).2
  | skip i =>
    simp only [Graph.step] at hs
    split at hs <;> cases hs
    next block blocks htask =>
      have hblks := (h i).2
      rw [htask] at hblks
      exact h.setTask (fun _ h => absurd h not_mem_nil)
        fun block hm => hblks block (mem_cons_of_mem _ hm)
  | release i =>
    obtain ⟨-, rfl⟩ := of_guard hs
    exact h

omit [DecidableEq ι] in
theorem World.IsIdle.spares (h : s.IsIdle) : s.Spares := by
  intro k
  rw [(h.2 k).1, (h.2 k).2]
  exact ⟨fun _ h => absurd h not_mem_nil, fun _ h => absurd h not_mem_nil⟩

/-- **No edge loses its ends**, in any interleaving in which the calls do not get into each
other's way; and in any interleaving at all, no deletion removes a node that it was told to
preserve. -/
theorem isIntact_of_apart (b : Batching) {s t : World ι} {steps : List (Step ι)}
    (hidle : s.IsIdle) (hintact : s.tables.IsIntact) (hrun : run (step b) s steps = some t) :
    (Along (step b) World.Apart s steps → t.tables.IsIntact) ∧
      ∀ i live t', step b t (.call i live) = some t' → ∀ call ∈ (t.tasks i).calls.head?,
        ∀ id ∈ call.preserved, id ∈ t.tables.nodeIds → id ∈ t'.tables.nodeIds := by
  constructor
  · intro hapart
    have hsd : t.Sound := run_invariant_along
      (fun _ _ _ hC hI hs => World.Sound.step hI hC hs) hapart (hidle.sound hintact) hrun
    exact hsd.intact
  intro i live t' hs call hc id hid hsto
  have hspar : t.Spares := run_invariant
    (fun _ _ _ hI hs => World.Spares.step hI hs) hidle.spares hrun
  simp only [Graph.step] at hs
  split at hs
  next first calls blocks htask =>
    rw [htask] at hc
    obtain rfl : first = call := some.inj hc
    cases hs
    refine mem_nodeIds_run hsto fun hrem => ?_
    have hcs := (hspar i).1
    rw [htask] at hcs
    exact notMem_preserved (hcs first mem_cons_self) hrem hid
  · cases hs

/-! ### A file that is ingested again -/

instance [Fintype ι] (s : World ι) (event : Step ι) : Decidable (s.Apart event) := by
  unfold World.Apart
  split <;> infer_instance

instance [Fintype ι] (s : World ι) : Decidable s.IsIdle :=
  decidable_of_iff (s.holder = none ∧ ∀ i, (s.tasks i).calls.isEmpty = true ∧
    (s.tasks i).blocks.isEmpty = true) (by simp [World.IsIdle])

instance (g : Tables) : Decidable g.IsIntact :=
  inferInstanceAs (Decidable (∀ e ∈ g.edges.items, _))

end Runs

/-- A node of `main.py`. -/
def sampleNode (name subtype : String) : Node :=
  ⟨name, name, .codeSymbol, some subtype, "main.py", none⟩

/-- `main` calls `helper`, and both are defined in the file. -/
def sampleFile : ParsedFile "main.py" where
  nodes := [sampleNode "module" "python-defref-module", sampleNode "main" "python-function",
    sampleNode "helper" "python-function"]
  edges := [⟨"module", "main", .defines, "main.py", some .extracted⟩,
    ⟨"module", "helper", .defines, "main.py", some .extracted⟩,
    ⟨"main", "helper", .calls, "main.py", some .extracted⟩]
  unresolved := []
  edge_doc := by decide
  edge_ends := by decide
  unresolved_source := by decide

/-- The definition of `helper` has moved to another file. -/
def sampleEdit : ParsedFile "main.py" where
  nodes := [sampleNode "module" "python-defref-module", sampleNode "main" "python-function"]
  edges := [⟨"module", "main", .defines, "main.py", some .extracted⟩]
  unresolved := [("main", .calls, "helper")]
  edge_doc := by decide
  edge_ends := by decide
  unresolved_source := by decide

def ingestAlone (f : ParsedFile "main.py") (calls : ℕ) : List (Step Bool) :=
  [.start false (.ingest "main.py" ⟨none, false, some f⟩), .enter false] ++
    List.replicate calls (.call false [])

def ingestAndCollect : List (Step Bool) :=
  ingestAlone sampleFile 5 ++ [.start true .collectGarbage, .enter true] ++
    List.replicate 7 (.call true []) ++ [.release true] ++ List.replicate 4 (.call false [])

/-- A garbage collection that comes before the nodes are written leaves the graph whole. -/
theorem isIntact_ingestAndCollect :
    ∃ t, run (step gcDeleteBatches) (World.init Bool) ingestAndCollect = some t ∧
      t.IsIdle ∧ t.tables.IsIntact := by
  obtain ⟨t, ht, hidle⟩ : ∃ t ∈ run (step gcDeleteBatches) (World.init Bool) ingestAndCollect,
      t.IsIdle := by
    decide +kernel
  have hapart : Along (step gcDeleteBatches) World.Apart (World.init Bool) ingestAndCollect := by
    decide +kernel
  exact ⟨t, ht, hidle,
    (isIntact_of_apart gcDeleteBatches (by decide) (by decide) ht).1 hapart⟩

/-- **The edge to a function that was deleted** dangles: the ingests run one after the other. -/
theorem not_intact_reingest :
    ∃ steps t, run (step gcDeleteBatches) (World.init Bool) steps = some t ∧
    t.IsIdle ∧ ¬t.tables.IsIntact := by
  have hbad : ∃ t ∈ run (step gcDeleteBatches) (World.init Bool)
      (ingestAlone sampleFile 9 ++ ingestAlone sampleEdit 15),
        t.IsIdle ∧ ¬t.tables.IsIntact := by
    decide +kernel
  exact ⟨_, hbad⟩

end ArchonSearch.Graph
