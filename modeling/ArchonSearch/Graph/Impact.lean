import Mathlib.Data.List.Perm.Subperm
import ArchonSearch.Graph.Views
import ArchonSearch.Lib.Distance

/-!
# What a change of a symbol reaches, exactly

`_traverse_impact` goes from hop to hop: it asks for the edges at the nodes of the last hop, in
whichever direction they lead, takes those that lead away from these nodes in the direction that was
asked for, and of the nodes behind them those that it has not visited. The layers that it finds are
those of the distance from the root along the edges that are followed (`Layered.run`), as long as no
layer is cut.

So it answers with the nodes at the distances that were asked for, the nearest ones first, and a
count of those that the limit of the group left out (`traverseImpact_exact`).
-/

namespace ArchonSearch.Graph.Impact

open Lib Views List ImpactEdge

/-! ### The edges that are followed -/

def isFollowed (methodFilter : Option String) (visibility : Option ChunkVisibility) (e : Edge) :
    Bool :=
  (methodFilter.all fun method => e.extractionMethod.map methodValue = some method) &&
    visibility.all fun v => v.docVisible e.sourceDocId

/-- `get_edges_for_nodes`, and what the two filters leave of it. -/
def edgesAt (edges : List Edge) (methodFilter : Option String)
    (visibility : Option ChunkVisibility) (frontier : List String) : List Edge :=
  edges.filter fun e => e.touches frontier && isFollowed methodFilter visibility e

/-- A followed edge leads from one node to the other, in the direction that was asked for. -/
def Leads (edges : List Edge) (methodFilter : Option String) (visibility : Option ChunkVisibility)
    (side : Side) (a b : String) : Prop :=
  ∃ e ∈ edges, isFollowed methodFilter visibility e = true ∧ side.frontierId e = a ∧
    side.neighbourId e = b

variable {look : Lookup} {edges : List Edge} {methodFilter : Option String}
  {visibility : Option ChunkVisibility} {side : Side} {nodeAt : String → Option Node}
  {root : String} {w : Walk} {n : ℕ}

/-! ### A hop -/

variable {k : String}

theorem mem_keys_insert {d : Dict String Edge} {id : String} {e : Edge} :
    k ∈ (d.insert (id, e)).items.map Prod.fst ↔ k ∈ d.items.map Prod.fst ∨ k = id := by
  have h := Keyed.mem_keys_foldl_insert (d := d) (l := [(id, e)]) (k := k)
  simpa using h

/-- An edge of a hop adds the node behind it, if it leads away and the node is new. -/
theorem mem_keys_reach {next : Dict String Edge} {e : Edge} :
    k ∈ (w.reach look side next e).items.map Prod.fst ↔ k ∈ next.items.map Prod.fst ∨
      side.frontierId e ∈ w.frontier ∧ side.neighbourId e ∉ w.visited ∧ k = side.neighbourId e := by
  unfold Walk.reach
  by_cases hleads : side.frontierId e ∈ w.frontier ∧ side.neighbourId e ∉ w.visited
  · have hcond : (w.frontier.contains (side.frontierId e) &&
        !w.visited.contains (side.neighbourId e)) = true := by simpa using hleads
    rw [if_pos hcond]
    cases hg : Dict.get next (side.neighbourId e) with
    | none =>
      rw [mem_keys_insert]
      tauto
    | some existing =>
      have hm : side.neighbourId e ∈ next.items.map Prod.fst :=
        mem_map.mpr ⟨_, Dict.get_eq_some_iff.mp hg, rfl⟩
      dsimp only
      split
      · rw [mem_keys_insert]
        tauto
      · constructor
        · exact Or.inl
        · rintro (hk | ⟨-, -, rfl⟩)
          · exact hk
          · exact hm
  · have hcond : ¬ (w.frontier.contains (side.frontierId e) &&
        !w.visited.contains (side.neighbourId e)) = true := by simpa using hleads
    rw [if_neg hcond]
    tauto

/-- **A hop finds the new nodes behind the frontier.** -/
theorem mem_keys_nextHop {found : List Edge} :
    k ∈ (w.nextHop look side found).items.map Prod.fst ↔ k ∉ w.visited ∧
      ∃ e ∈ found, side.frontierId e ∈ w.frontier ∧ side.neighbourId e = k := by
  have hfold (found : List Edge) (next : Dict String Edge) :
      k ∈ (found.foldl (w.reach look side) next).items.map Prod.fst ↔
        k ∈ next.items.map Prod.fst ∨ k ∉ w.visited ∧
          ∃ e ∈ found, side.frontierId e ∈ w.frontier ∧ side.neighbourId e = k := by
    induction found generalizing next with
    | nil => simp
    | cons e found ih =>
      rw [foldl_cons, ih, mem_keys_reach]
      constructor
      · rintro ((hk | ⟨hfrom, hw, rfl⟩) | ⟨hw, e', he', h⟩)
        · exact Or.inl hk
        · exact Or.inr ⟨hw, e, mem_cons_self, hfrom, rfl⟩
        · exact Or.inr ⟨hw, e', mem_cons_of_mem e he', h⟩
      · rintro (hk | ⟨hw, e', he', hfrom, rfl⟩)
        · exact Or.inl (Or.inl hk)
        · rcases mem_cons.mp he' with rfl | he'
          · exact Or.inl (Or.inr ⟨hfrom, hw, rfl⟩)
          · exact Or.inr ⟨hw, e', he', hfrom, rfl⟩
  refine (hfold found Keyed.empty).trans ?_
  simp [Keyed.empty]

/-! ### The layers -/

section Layers

variable (r : String → String → Prop)

/-- The entry says at which distance it was found, which is up to `n`. -/
def IsFound (root : String) (n : ℕ) (entry : ImpactEdge) : Prop :=
  1 ≤ entry.depth ∧ entry.depth ≤ n ∧ Distance r root entry.entityId entry.depth

/-- A traversal that has made `n` hops: what it has visited are the nodes up to this distance, and
its frontier those at this distance. -/
structure Layered (root : String) (n : ℕ) (w : Walk) : Prop where
  mem_visited : ∀ id, id ∈ w.visited ↔ ∃ m ≤ n, Distance r root id m
  mem_frontier : ∀ id, id ∈ w.frontier ↔ Distance r root id n
  frontier_ne_nil : w.frontier ≠ []
  direct : ∀ entry ∈ w.direct, IsFound r root n entry ∧ entry.depth = 1
  indirect : ∀ entry ∈ w.indirect, IsFound r root n entry ∧ 2 ≤ entry.depth
  complete : ∀ id m, 1 ≤ m → m ≤ n → Distance r root id m →
    id ∈ (w.direct ++ w.indirect).map entityId
  nodup : ((w.direct ++ w.indirect).map entityId).Nodup
  depthUsed : w.depthUsed = n

variable {r}

theorem layered_start (root : String) : Layered r root 0 ⟨[root], [root], [], [], 0⟩ where
  mem_visited id := by
    rw [mem_singleton]
    constructor
    · rintro rfl
      exact ⟨0, le_rfl, distance_zero_iff.mpr rfl⟩
    · rintro ⟨m, hm, h⟩
      obtain rfl := Nat.le_zero.mp hm
      exact (distance_zero_iff.mp h).symm
  mem_frontier id := by
    rw [mem_singleton, distance_zero_iff]
    exact eq_comm
  frontier_ne_nil := cons_ne_nil _ _
  direct _ h := absurd h not_mem_nil
  indirect _ h := absurd h not_mem_nil
  complete _ m h h' := absurd h (by omega)
  nodup := nodup_nil
  depthUsed := rfl

def hopEntries (nodeAt : String → Option Node) (depth : ℕ) (next : Dict String Edge) :
    List ImpactEdge :=
  next.items.map fun entry =>
    { entityId := entry.1
      entityName := (nodeAt entry.1).elim entry.1 Node.entityName
      relationshipType := entry.2.relationshipType
      extractionMethod := entry.2.extractionMethod
      depth := depth }

theorem map_entityId_hopEntries (depth : ℕ) (next : Dict String Edge) :
    (hopEntries nodeAt depth next).map entityId = next.items.map Prod.fst := by
  rw [hopEntries, map_map]
  rfl

variable {next : Dict String Edge}

theorem depth_of_mem_hopEntries {depth : ℕ} {entry : ImpactEdge}
    (h : entry ∈ hopEntries nodeAt depth next) : entry.depth = depth := by
  obtain ⟨_, -, rfl⟩ := mem_map.mp h
  rfl

theorem perm_hop (depth : ℕ) (next : Dict String Edge) :
    ((w.hop look nodeAt depth next).direct ++ (w.hop look nodeAt depth next).indirect).Perm
      (w.direct ++ w.indirect ++ hopEntries nodeAt depth next) := by
  unfold Walk.hop
  split
  · rw [append_assoc, append_assoc]
    exact List.Perm.append_left _ perm_append_comm
  · rw [← append_assoc]
    rfl

variable (look nodeAt) in
/-- **A hop finds the next layer.** -/
theorem Layered.hop (h : Layered r root n w) (hx : next.items ≠ [])
    (hks : ∀ id, id ∈ next.items.map Prod.fst ↔ Distance r root id (n + 1))
    (hsmall : (next.items.map Prod.fst).length ≤ maxImpactGroupSize) :
    Layered r root (n + 1) (w.hop look nodeAt (n + 1) next) := by
  have hfnd : ∀ entry ∈ hopEntries nodeAt (n + 1) next, IsFound r root (n + 1) entry := by
    intro entry hent
    have hid : entry.entityId ∈ next.items.map Prod.fst := by
      rw [← map_entityId_hopEntries (n + 1)]
      exact mem_map_of_mem hent
    rw [IsFound, depth_of_mem_hopEntries hent]
    exact ⟨by omega, le_rfl, (hks _).mp hid⟩
  have hold {entry : ImpactEdge} (hent : IsFound r root n entry) :
      IsFound r root (n + 1) entry := ⟨hent.1, hent.2.1.trans (Nat.le_succ n), hent.2.2⟩
  have hdis : ∀ entry ∈ w.direct ++ w.indirect, IsFound r root n entry := by
    intro entry hent
    rcases mem_append.mp hent with hent | hent
    · exact (h.direct entry hent).1
    · exact (h.indirect entry hent).1
  refine ⟨fun id => ?_, fun id => ?_, ?_, fun entry hent => ?_, fun entry hent => ?_,
    fun id m hm hmn hid => ?_, ?_, rfl⟩
  · change id ∈ w.visited ++ next.items.map Prod.fst ↔ _
    rw [mem_append, h.mem_visited, hks]
    constructor
    · rintro (⟨m, hm, hid⟩ | hid)
      · exact ⟨m, hm.trans (Nat.le_succ n), hid⟩
      · exact ⟨n + 1, le_rfl, hid⟩
    · rintro ⟨m, hm, hid⟩
      rcases Nat.le_or_eq_of_le_succ hm with hle | rfl
      · exact Or.inl ⟨m, hle, hid⟩
      · exact Or.inr hid
  · simp only [Walk.hop]
    rw [if_neg (not_lt.mpr hsmall)]
    exact hks id
  · simp only [Walk.hop]
    rw [if_neg (not_lt.mpr hsmall)]
    simpa using hx
  · simp only [Walk.hop] at hent
    split at hent
    · rename_i hfst
      rcases mem_append.mp hent with hent | hent
      · exact ⟨hold (h.direct entry hent).1, (h.direct entry hent).2⟩
      · exact ⟨hfnd entry hent, (depth_of_mem_hopEntries hent).trans hfst⟩
    · exact ⟨hold (h.direct entry hent).1, (h.direct entry hent).2⟩
  · simp only [Walk.hop] at hent
    split at hent
    · exact ⟨hold (h.indirect entry hent).1, (h.indirect entry hent).2⟩
    · rename_i hfst
      rcases mem_append.mp hent with hent | hent
      · exact ⟨hold (h.indirect entry hent).1, (h.indirect entry hent).2⟩
      · refine ⟨hfnd entry hent, ?_⟩
        have hdepth : entry.depth = n + 1 := depth_of_mem_hopEntries hent
        omega
  · rw [((perm_hop (n + 1) next).map entityId).mem_iff, map_append,
      map_entityId_hopEntries, mem_append]
    rcases Nat.le_or_eq_of_le_succ hmn with hle | rfl
    · exact Or.inl (h.complete id m hm hle hid)
    · exact Or.inr ((hks id).mpr hid)
  · rw [((perm_hop (n + 1) next).map entityId).nodup_iff, map_append, map_entityId_hopEntries]
    refine nodup_append.mpr ⟨h.nodup, next.nodup, fun id hid id' hid' heq => ?_⟩
    -- what was found before is at a smaller distance
    obtain ⟨entry, hent, rfl⟩ := mem_map.mp hid
    obtain ⟨-, hle, hd⟩ := hdis entry hent
    have hsa := hd.unique (heq ▸ (hks id').mp hid')
    omega

variable (r) in
/-- No more symbols have this distance than a group may hold. -/
def IsSmall (root : String) (m : ℕ) : Prop :=
  ∀ ids : List String, ids.Nodup → (∀ id ∈ ids, Distance r root id m) →
    ids.length ≤ maxImpactGroupSize

variable (look) in
theorem keys_nextHop (h : Layered (Leads edges methodFilter visibility side) root n w)
    (id : String) : id ∈ (w.nextHop look side (edgesAt edges methodFilter visibility
        w.frontier)).items.map Prod.fst ↔
      Distance (Leads edges methodFilter visibility side) root id (n + 1) := by
  rw [mem_keys_nextHop, h.mem_visited, distance_succ_iff]
  constructor
  · rintro ⟨hw, e, he, hfrom, hto⟩
    obtain ⟨he, hfol⟩ := mem_filter.mp he
    exact ⟨⟨_, (h.mem_frontier _).mp hfrom, e, he, (Bool.and_eq_true_iff.mp hfol).2, rfl, hto⟩,
      fun m hm hid => hw ⟨m, hm, hid⟩⟩
  · rintro ⟨⟨b, hb, e, he, hfol, hfrom, hto⟩, hw⟩
    have hmem : side.frontierId e ∈ w.frontier := hfrom ▸ (h.mem_frontier b).mpr hb
    have htch : e.touches w.frontier = true := by
      rw [Edge.touches_iff]
      cases side
      · exact Or.inr hmem
      · exact Or.inl hmem
    exact ⟨fun ⟨m, hm, hid⟩ => hw m hm hid, e,
      mem_filter.mpr ⟨he, Bool.and_eq_true_iff.mpr ⟨htch, hfol⟩⟩, hmem, hto⟩

variable (look nodeAt) in
/-- **The loop goes on to the last layer that there is**, or that was asked for. -/
theorem Layered.run (hops : ℕ)
    (h : Layered (Leads edges methodFilter visibility side) root n w)
    (hsmall : ∀ m, n < m → m ≤ n + hops →
      IsSmall (Leads edges methodFilter visibility side) root m) :
    ∃ n' ≤ n + hops, Layered (Leads edges methodFilter visibility side) root n'
        (Walk.run look (edgesAt edges methodFilter visibility) nodeAt side hops (n + 1) w) ∧
      ∀ m, n' < m → m ≤ n + hops → ∀ id,
        ¬ Distance (Leads edges methodFilter visibility side) root id m := by
  induction hops generalizing n w with
  | zero => exact ⟨n, le_rfl, h, fun m hm hle => absurd hle (by omega)⟩
  | succ hops ih =>
    have hks := keys_nextHop look h
    have hfron : ¬ w.frontier.isEmpty = true := by
      rw [List.isEmpty_iff]
      exact h.frontier_ne_nil
    rw [Walk.run, if_neg hfron]
    by_cases hx :
        (w.nextHop look side (edgesAt edges methodFilter visibility w.frontier)).items = []
    · rw [if_pos (List.isEmpty_iff.mpr hx)]
      refine ⟨n, by omega, h, fun m hm _ id hid => ?_⟩
      -- behind an empty layer there is none
      obtain ⟨c, hc⟩ := hid.exists_of_le (Nat.succ_le_of_lt hm)
      have hmem := (hks c).mpr hc
      rw [hx] at hmem
      cases hmem
    · rw [if_neg fun hemp => hx (List.isEmpty_iff.mp hemp)]
      have hcnt := hsmall (n + 1) (by omega) (by omega) _ (Keyed.nodup _) fun id => (hks id).mp
      obtain ⟨n', hn', hlayer, hfar⟩ := ih (h.hop look nodeAt hx hks hcnt)
        fun m hm hle => hsmall m (by omega) (by omega)
      exact ⟨n', by omega, hlayer, fun m hm hle => hfar m hm (by omega)⟩

end Layers

/-! ### The group -/

theorem sortRanked_perm {α : Type} (look : Lookup) (nodeAt : String → Option Node)
    (id : α → String) (l : List α) : (sortRanked look nodeAt id l).Perm l := by
  have h := (mergeSort_perm (l.map fun a => (sortKey look nodeAt (id a), a))
    fun a b => !rankedBefore b.1 a.1).map Prod.snd
  rw [map_map] at h
  exact h.trans (List.Perm.of_eq (map_id l))

variable {direct indirect : List ImpactEdge}

/-- A group is a part of what was found, the direct entries first, and counts the rest. -/
theorem cappedGroup_spec (direct indirect : List ImpactEdge) :
    ((cappedGroup direct indirect).direct ++ (cappedGroup direct indirect).indirect).Sublist
        (direct ++ indirect) ∧
      (cappedGroup direct indirect).direct = direct.take maxImpactGroupSize ∧
      (cappedGroup direct indirect).direct.length + (cappedGroup direct indirect).indirect.length +
        (cappedGroup direct indirect).omittedCount = direct.length + indirect.length ∧
      (cappedGroup direct indirect).direct.length + (cappedGroup direct indirect).indirect.length ≤
        maxImpactGroupSize ∧
      ((cappedGroup direct indirect).truncated = true ↔
        0 < (cappedGroup direct indirect).omittedCount) := by
  unfold cappedGroup
  dsimp only
  split
  · rename_i hmany
    have hdir : (direct.take maxImpactGroupSize).length =
        min maxImpactGroupSize direct.length := length_take
    refine ⟨List.Sublist.append (take_sublist _ _) (take_sublist _ _), rfl, ?_, ?_, ?_⟩
    · dsimp only
      rw [length_take, length_take]
      omega
    · dsimp only
      rw [length_take, length_take]
      omega
    · dsimp only
      rw [length_take, length_take]
      simp only [true_iff]
      omega
  · rename_i hfew
    refine ⟨List.Sublist.refl _, (take_of_length_le ?_).symm, rfl, ?_, ?_⟩
    · dsimp only
      omega
    · dsimp only
      omega
    · simp

/-- What a traversal answers, for the nodes at the distances from 1 to `d` along `r`. -/
structure IsAnswer (r : String → String → Prop) (root : String) (d : ℤ) (group : ImpactGroup)
    (depthUsed : ℕ) : Prop where
  entries : ∀ entry ∈ group.direct ++ group.indirect,
    1 ≤ entry.depth ∧ entry.depth ≤ d ∧ Distance r root entry.entityId entry.depth
  nodup : ((group.direct ++ group.indirect).map entityId).Nodup
  direct : ∀ id, id ∈ group.direct.map entityId ↔ 1 ≤ d ∧ Distance r root id 1
  omitted : ∃ ids : List String, ids.Nodup ∧
    (∀ id, id ∈ ids ↔ ∃ m : ℕ, 1 ≤ m ∧ m ≤ d ∧ Distance r root id m) ∧
      group.direct.length + group.indirect.length + group.omittedCount = ids.length
  depthUsed : (∀ m : ℕ, 1 ≤ m → m ≤ d → ∀ id, Distance r root id m → m ≤ depthUsed) ∧
    (depthUsed = 0 ∨ 1 ≤ depthUsed ∧ depthUsed ≤ d ∧ ∃ id, Distance r root id depthUsed)
  capped : group.direct.length + group.indirect.length ≤ maxImpactGroupSize
  truncated : group.truncated = true ↔ 0 < group.omittedCount

variable {r : String → String → Prop}

/-- What is made of a traversal that has seen all layers up to a depth. -/
theorem Layered.isAnswer {hops : ℕ} {d : ℤ} (h : Layered r root n w) (hhops : hops = d.toNat)
    (hn : n ≤ hops) (hfar : ∀ m, n < m → m ≤ hops → ∀ id, ¬ Distance r root id m)
    (hsmall : 1 ≤ d → IsSmall r root 1) :
    IsAnswer r root d (cappedGroup (sortRanked look nodeAt entityId w.direct)
      (sortRanked look nodeAt entityId w.indirect)) w.depthUsed := by
  obtain ⟨hsub, hdir, hcnt, hcap, htrun⟩ := cappedGroup_spec
    (sortRanked look nodeAt entityId w.direct)
    (sortRanked look nodeAt entityId w.indirect)
  have hd (m : ℕ) : 1 ≤ m → ((m : ℤ) ≤ d ↔ m ≤ hops) := by omega
  have hpermDirect := sortRanked_perm look nodeAt entityId w.direct
  have hp := hpermDirect.append (sortRanked_perm look nodeAt entityId w.indirect)
  have hids : ((w.direct ++ w.indirect).map entityId).Nodup := h.nodup
  have hfnd : ∀ entry ∈ w.direct ++ w.indirect, IsFound r root n entry := by
    intro entry hent
    rcases mem_append.mp hent with hent | hent
    · exact (h.direct entry hent).1
    · exact (h.indirect entry hent).1
  refine ⟨fun entry hent => ?_, ?_, fun id => ?_, ?_, ⟨fun m hm hmd id hid => ?_, ?_⟩, hcap, htrun⟩
  · obtain ⟨hpos, hle, hdis⟩ := hfnd entry (hp.subset (hsub.subset hent))
    exact ⟨hpos, (hd _ hpos).mpr (hle.trans hn), hdis⟩
  · exact ((hp.map entityId).nodup_iff.mpr hids).sublist (hsub.map entityId)
  · -- there are not too many neighbours, so that all of them are kept
    have hlen : w.direct.length ≤ maxImpactGroupSize := by
      rcases Nat.lt_or_ge 0 n with hpos | hz
      · refine (length_map entityId).symm.trans_le (hsmall (by omega) _
          (hids.sublist ((sublist_append_left _ _).map _)) fun id hid => ?_)
        obtain ⟨entry, hent, rfl⟩ := mem_map.mp hid
        obtain ⟨⟨-, -, hdis⟩, hdepth⟩ := h.direct entry hent
        exact hdepth ▸ hdis
      · have hnil : w.direct = [] := by
          refine eq_nil_iff_forall_not_mem.mpr fun entry hent => ?_
          obtain ⟨⟨hpos, hle, -⟩, -⟩ := h.direct entry hent
          omega
        rw [hnil]
        exact Nat.zero_le _
    rw [hdir, take_of_length_le (hpermDirect.length_eq.trans_le hlen),
      (hpermDirect.map entityId).mem_iff]
    constructor
    · intro hid
      obtain ⟨entry, hent, rfl⟩ := mem_map.mp hid
      obtain ⟨⟨hpos, hle, hdis⟩, hdepth⟩ := h.direct entry hent
      exact ⟨by omega, hdepth ▸ hdis⟩
    · rintro ⟨hone, hid⟩
      have hmem : 1 ≤ n := by
        by_contra hlt
        exact hfar 1 (by omega) (by omega) id hid
      obtain ⟨entry, hent, rfl⟩ := mem_map.mp (h.complete id 1 le_rfl hmem hid)
      rcases mem_append.mp hent with hent | hent
      · exact mem_map_of_mem hent
      · obtain ⟨⟨-, -, hdis⟩, hdepth⟩ := h.indirect entry hent
        have heq := hdis.unique hid
        omega
  · refine ⟨(w.direct ++ w.indirect).map entityId, hids, fun id => ?_, ?_⟩
    · constructor
      · intro hid
        obtain ⟨entry, hent, rfl⟩ := mem_map.mp hid
        obtain ⟨hpos, hle, hdis⟩ := hfnd entry hent
        exact ⟨_, hpos, (hd _ hpos).mpr (hle.trans hn), hdis⟩
      · rintro ⟨m, hm, hmd, hid⟩
        refine h.complete id m hm ?_ hid
        by_contra hlt
        exact hfar m (by omega) ((hd m hm).mp hmd) id hid
    · rw [hcnt, length_map, ← hp.length_eq, length_append]
  · rw [h.depthUsed]
    by_contra hlt
    exact hfar m (by omega) ((hd m hm).mp hmd) id hid
  · rw [h.depthUsed]
    rcases Nat.eq_zero_or_pos n with hz | hpos
    · exact Or.inl hz
    · obtain ⟨id, hid⟩ := exists_mem_of_ne_nil w.frontier h.frontier_ne_nil
      exact Or.inr ⟨hpos, (hd n hpos).mpr hn, id, (h.mem_frontier id).mp hid⟩

/-- **A traversal finds what is within reach, and at which distance**: its entries, with those
that it counts as omitted, are the nodes at a distance from 1 to the depth that was asked for, up
to the limit, along the edges that are followed – where no hop is cut, because none finds more
nodes than a group may have. -/
theorem traverseImpact_exact (look : Lookup) (edges : List Edge) (nodeAt : String → Option Node)
    (methodFilter : Option String) (visibility : Option ChunkVisibility) (root : String) (depth : ℤ)
    (side : Side) (hsmall : ∀ m : ℕ, 1 ≤ m → m ≤ min depth maxImpactDepth →
      IsSmall (Leads edges methodFilter visibility side) root m) :
    ∃ group depthUsed, traverseImpact look (edgesAt edges methodFilter visibility) nodeAt root
        (min depth maxImpactDepth) side = (group, depthUsed) ∧
      IsAnswer (Leads edges methodFilter visibility side) root (min depth maxImpactDepth) group
        depthUsed := by
  obtain ⟨n, hn, hlayer, hfar⟩ := (layered_start root).run look nodeAt
    (min depth maxImpactDepth).toNat fun m hm hle => hsmall m (by omega) (by omega)
  rw [Nat.zero_add] at hn hfar
  exact ⟨_, _, rfl, hlayer.isAnswer rfl hn hfar fun hone => hsmall 1 le_rfl hone⟩

theorem isSmall_of_length_le (hes : edges.length ≤ maxImpactGroupSize) (hn : 1 ≤ n) :
    IsSmall (Leads edges methodFilter visibility side) root n := by
  intro ids hids hdis
  have hsub : ids ⊆ edges.map side.neighbourId := by
    intro id hid
    obtain ⟨n, rfl⟩ := Nat.exists_eq_succ_of_ne_zero (Nat.one_le_iff_ne_zero.mp hn)
    obtain ⟨_, -, e, he, -, -, hto⟩ := (hdis id hid).exists_pred
    exact hto ▸ mem_map_of_mem he
  have hlen := (List.Nodup.subperm hids hsub).length_le
  rw [length_map] at hlen
  exact hlen.trans hes

def plainLookup : Lookup where
  lower := id
  sqlLower := id
  casefold := id
  edgeId key := key.1 ++ key.2.1
  pagerankScore _ := none

def callCircle : List Edge :=
  [⟨"a", "a", .calls, "doc", none⟩, ⟨"a", "b", .calls, "doc", none⟩,
    ⟨"b", "c", .calls, "doc", none⟩, ⟨"c", "a", .calls, "doc", none⟩]

/-- The first one calls the second directly and the third indirectly. -/
theorem traverseImpact_callCircle : ∃ group, traverseImpact plainLookup
      (edgesAt callCircle none none) (fun _ => none) "a" (min 4 maxImpactDepth) .callees =
        (group, 2) ∧ group.direct.map entityId = ["b"] ∧
      group.indirect.map entityId = ["c"] ∧
      IsAnswer (Leads callCircle none none .callees) "a" (min 4 maxImpactDepth) group 2 := by
  have hval : (traverseImpact plainLookup (edgesAt callCircle none none) (fun _ => none) "a"
        (min 4 maxImpactDepth) .callees).2 = 2 ∧
      (traverseImpact plainLookup (edgesAt callCircle none none) (fun _ => none) "a"
        (min 4 maxImpactDepth) .callees).1.direct.map entityId = ["b"] ∧
      (traverseImpact plainLookup (edgesAt callCircle none none) (fun _ => none) "a"
        (min 4 maxImpactDepth) .callees).1.indirect.map entityId = ["c"] := by
    decide +kernel
  obtain ⟨group, depthUsed, heq, hans⟩ :=
    traverseImpact_exact plainLookup callCircle (fun _ => none) none none "a" 4 .callees
      fun m hm _ => isSmall_of_length_le (by decide) hm
  rw [heq] at hval
  obtain ⟨rfl, hdir, hind⟩ := hval
  exact ⟨group, heq, hdir, hind, hans⟩

end ArchonSearch.Graph.Impact
