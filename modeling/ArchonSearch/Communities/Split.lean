import Mathlib.Data.Rat.Defs
import Mathlib.Data.Finset.Dedup
import Mathlib.Data.List.FinRange
import ArchonSearch.Graph.Store

/-!
# Communities of entities

The entities of a collection are clustered by the Leiden algorithm, which is a parameter here: it
may return any partition of the vertices that it is given, and another one in each call. A
community that is too large is clustered again, as a graph of its own and with a doubled
resolution, and its parts likewise, down to `_MAX_SPLIT_DEPTH`. What is too large there, or what
the algorithm leaves in one piece, is accepted as it is.

Whatever the algorithm returns, the communities are a partition of the entities, and the recursion
goes no deeper than the limit (`Clustering.partitions`).
-/

namespace ArchonSearch.Communities

open ArchonSearch.Graph List

/-! ### Graphs and partitions -/

/-- The undirected graph that is clustered: a number of vertices, and edges between different
ones. -/
structure VertexGraph where
  n : ℕ
  edges : Finset (ℕ × ℕ)
  edges_lt : ∀ pair ∈ edges, pair.1 < pair.2 ∧ pair.2 < n

structure VertexPartition (n : ℕ) where
  communities : List (List (Fin n))
  perm : communities.flatten.Perm (List.finRange n)
  ne_nil : ∀ community ∈ communities, community ≠ []

/-- `id_to_idx`. -/
def idToIdx (nodeIds : List String) (id : String) : Option ℕ := nodeIds.zipIdx.reverse.lookup id

variable {nodeIds : List String}

theorem lt_of_idToIdx {id : String} {i : ℕ}
    (h : idToIdx nodeIds id = some i) : i < nodeIds.length := by
  obtain ⟨before, after, hsplit, -⟩ := lookup_eq_some_iff.mp h
  have hm : (id, i) ∈ nodeIds.zipIdx := by
    rw [← mem_reverse, hsplit]
    simp
  simpa using snd_lt_of_mem_zipIdx hm

def edgePair (nodeIds : List String) (e : Edge) : Option (ℕ × ℕ) :=
  match idToIdx nodeIds e.sourceNodeId, idToIdx nodeIds e.targetNodeId with
  | some source, some target =>
    if source = target then none else some (min source target, max source target)
  | _, _ => none

/-- `edge_pairs`. -/
def edgePairs (nodeIds : List String) (edges : List Edge) : Finset (ℕ × ℕ) :=
  (edges.filterMap (edgePair nodeIds)).toFinset

theorem edgePairs_lt {edges : List Edge} :
    ∀ pair ∈ edgePairs nodeIds edges, pair.1 < pair.2 ∧ pair.2 < nodeIds.length := by
  intro pair hpr
  obtain ⟨e, -, he⟩ := mem_filterMap.mp (mem_toFinset.mp hpr)
  unfold edgePair at he
  split at he
  · next source target hsrc htgt =>
    have hs := lt_of_idToIdx hsrc
    have ht := lt_of_idToIdx htgt
    split_ifs at he with hne
    cases he
    exact ⟨by simp only; omega, by simp only; omega⟩
  · cases he

/-- The graph that is built of nodes and edges. -/
abbrev graphOf (nodeIds : List String) (edges : List Edge) : VertexGraph :=
  ⟨nodeIds.length, edgePairs nodeIds edges, edgePairs_lt⟩

/-! ### Clustering -/

/-- `find_partition` of the library. Without a seed it may return another partition in each call,
so it may depend on the level of the recursion and on the ids. -/
abbrev FindPartition (ρ : Type) : Type :=
  (level : ℕ) → (nodeIds : List String) → (g : VertexGraph) → (resolution : ρ) →
    (seed : Option ℤ) → VertexPartition g.n

/-- `_run_leiden_partition_sync`. -/
def runLeidenPartitionSync {ρ : Type} (findPartition : FindPartition ρ) (level : ℕ)
    (nodes : List Node) (edges : List Edge) (resolution : ρ) (seed : Option ℤ) :
    List (List String) :=
  if nodes = [] then []
  else
    let nodeIds := nodes.map Node.id
    let partition := findPartition level nodeIds (graphOf nodeIds edges) resolution seed
    (partition.communities.map fun community => community.map nodeIds.get).filter (· ≠ [])

section Leiden

variable {ρ : Type} {findPartition : FindPartition ρ} {level : ℕ} {nodes : List Node}
  {edges : List Edge} {resolution : ρ} {seed : Option ℤ}

/-- A community has a vertex, so none is dropped. -/
theorem runLeiden_eq (h : nodes ≠ []) :
    runLeidenPartitionSync findPartition level nodes edges resolution seed =
      (findPartition level (nodes.map Node.id) (graphOf (nodes.map Node.id) edges) resolution
        seed).communities.map fun community => community.map (nodes.map Node.id).get := by
  rw [runLeidenPartitionSync, if_neg h]
  refine filter_eq_self.mpr fun group hgroup => ?_
  obtain ⟨community, hcom, rfl⟩ := mem_map.mp hgroup
  simpa using VertexPartition.ne_nil _ community hcom

/-- **The algorithm groups the nodes.** -/
theorem flatten_runLeiden :
    (runLeidenPartitionSync findPartition level nodes edges resolution seed).flatten.Perm
      (nodes.map Node.id) := by
  by_cases hnil : nodes = []
  · rw [runLeidenPartitionSync, if_pos hnil, hnil, map_nil, flatten_nil]
  · rw [runLeiden_eq hnil, ← map_flatten]
    calc List.Perm _ ((List.finRange (nodes.map Node.id).length).map (nodes.map Node.id).get) :=
          (VertexPartition.perm _).map _
      _ = nodes.map Node.id := map_get_finRange _

theorem ne_nil_of_mem_runLeiden {group : List String}
    (h : group ∈ runLeidenPartitionSync findPartition level nodes edges resolution seed) :
    group ≠ [] := by
  unfold runLeidenPartitionSync at h
  split_ifs at h
  · exact absurd h not_mem_nil
  · simpa using (mem_filter.mp h).2

end Leiden

/-- `_MAX_SPLIT_DEPTH`. -/
def maxSplitDepth : ℕ := 5

/-- `_RESOLUTION_GROWTH_FACTOR`. -/
def resolutionGrowthFactor : ℕ := 2

structure Clustering (ρ : Type) where
  findPartition : FindPartition ρ
  nodes : List Node
  edges : List Edge
  resolution : ρ
  maxSize : ℤ
  seed : Option ℤ

namespace Clustering

variable {ρ : Type} (c : Clustering ρ)

def firstGroups : List (List String) :=
  runLeidenPartitionSync c.findPartition 0 c.nodes c.edges c.resolution c.seed

/-- `nodes_by_id.get(nid)`. -/
def nodesById (nid : String) : Option Node := c.nodes.reverse.find? (·.id = nid)

variable {c} in
theorem exists_nodesById {nid : String} (h : nid ∈ c.nodes.map Node.id) :
    ∃ node, c.nodesById nid = some node ∧ node.id = nid := by
  obtain ⟨node, hn, hid⟩ := mem_map.mp h
  rcases hfind : c.nodesById nid with - | found
  · exact absurd hid (by simpa using find?_eq_none.mp hfind node (mem_reverse.mpr hn))
  · exact ⟨found, rfl, by simpa using find?_some hfind⟩

variable {group : List String}

variable {c} in
theorem map_id_filterMap_nodesById (h : group ⊆ c.nodes.map Node.id) :
    (group.filterMap c.nodesById).map Node.id = group := by
  induction group with
  | nil => rfl
  | cons nid group ih =>
    obtain ⟨hnid, hgroup⟩ := cons_subset.mp h
    obtain ⟨node, hfind, hid⟩ := exists_nodesById hnid
    rw [filterMap_cons_some hfind, map_cons, ih hgroup, hid]

variable [Mul ρ] [NatCast ρ]

/-- `new_resolution`. -/
def newResolution (resolution : ρ) : ρ := resolution * (resolutionGrowthFactor : ρ)

/-- `sub_edges`. -/
def subEdges (group : List String) : List Edge :=
  c.edges.filter fun e => group.contains e.sourceNodeId && group.contains e.targetNodeId

/-- `sub_groups`, of a group at a depth. -/
def subGroups (group : List String) (resolution : ρ) (depth : ℕ) : List (List String) :=
  runLeidenPartitionSync c.findPartition (depth + 1) (group.filterMap c.nodesById)
    (c.subEdges group) (newResolution resolution) c.seed

/-- The loop of `_split_oversized_communities`: what comes of a group. -/
def splitGroup (recurse : List (List String) → ρ → ℕ → Option (List (List String)))
    (resolution : ρ) (depth : ℕ) (group : List String) : Option (List (List String)) :=
  if (group.length : ℤ) ≤ c.maxSize then some [group]
  -- the limit: the community is accepted although it is too large
  else if maxSplitDepth ≤ depth then some [group]
  -- it cannot be split further
  else if (c.subGroups group resolution depth).length ≤ 1 then some [group]
  else recurse (c.subGroups group resolution depth) (newResolution resolution) (depth + 1)

/-- `_split_oversized_communities`, which may call itself to a depth of `fuel`. -/
def splitOversizedCommunities :
    ℕ → List (List String) → ρ → ℕ → Option (List (List String))
  | 0, _, _, _ => none
  | fuel + 1, entityIdGroups, resolution, depth => do
    let result ← entityIdGroups.mapM
      (c.splitGroup (splitOversizedCommunities fuel) resolution depth)
    return result.flatten

/-- `_cluster_with_size_limit`, with calls of `_split_oversized_communities` within each other to
a depth of `fuel`. -/
def clusterWithSizeLimit (fuel : ℕ) : Option (List (List String)) :=
  if c.firstGroups.any fun g => decide (c.maxSize < g.length) then
    c.splitOversizedCommunities fuel c.firstGroups c.resolution 0
  else some c.firstGroups

/-! ### What the recursion comes to -/

/-- A group that the recursion comes to, at a depth and with the resolution it was made with. -/
inductive Reached : ℕ → ρ → List String → Prop
  | first {group : List String} (h : group ∈ c.firstGroups) : Reached 0 c.resolution group
  | split {depth : ℕ} {resolution : ρ} {group part : List String}
      (h : Reached depth resolution group) (hlarge : c.maxSize < group.length)
      (hdepth : depth < maxSplitDepth) (hsplit : 1 < (c.subGroups group resolution depth).length)
      (hpart : part ∈ c.subGroups group resolution depth) :
      Reached (depth + 1) (newResolution resolution) part

variable {c} {depth : ℕ} {resolution : ρ}

/-- **The recursion goes no deeper than the limit.** -/
theorem Reached.depth_le
    (h : c.Reached depth resolution group) : depth ≤ maxSplitDepth := by
  induction h with
  | first h => exact Nat.zero_le _
  | split h hlarge hdepth hsplit hpart ih => exact hdepth

theorem flatten_subGroups
    (h : group ⊆ c.nodes.map Node.id) :
    (c.subGroups group resolution depth).flatten.Perm group :=
  flatten_runLeiden.trans (by rw [map_id_filterMap_nodesById h])

theorem Reached.subset
    (h : c.Reached depth resolution group) : group ⊆ c.nodes.map Node.id := by
  induction h with
  | first h => exact fun id hid => flatten_runLeiden.subset (mem_flatten.mpr ⟨_, h, hid⟩)
  | split h hlarge hdepth hsplit hpart ih =>
    exact fun id hid => ih ((flatten_subGroups ih).subset (mem_flatten.mpr ⟨_, hpart, hid⟩))

theorem Reached.ne_nil
    (h : c.Reached depth resolution group) : group ≠ [] := by
  induction h with
  | first h => exact ne_nil_of_mem_runLeiden h
  | split h hlarge hdepth hsplit hpart ih => exact ne_nil_of_mem_runLeiden hpart

/-- **An accepted group**: it is small enough, or it was reached at the limit, or the algorithm did
not split it. -/
def Accepted (c : Clustering ρ) (group : List String) : Prop :=
  ∃ depth resolution, c.Reached depth resolution group ∧
    ((group.length : ℤ) ≤ c.maxSize ∨ depth = maxSplitDepth ∨
      (c.subGroups group resolution depth).length ≤ 1)

theorem Accepted.ne_nil (h : c.Accepted group) : group ≠ [] := by
  obtain ⟨depth, resolution, hrch, -⟩ := h
  exact hrch.ne_nil

def Splits (c : Clustering ρ) (groups result : List (List String)) : Prop :=
  result.flatten.Perm groups.flatten ∧ ∀ group ∈ result, c.Accepted group

theorem splits_singleton (h : c.Accepted group) :
    c.Splits [group] [group] :=
  ⟨List.Perm.refl _, fun _ hg => mem_singleton.mp hg ▸ h⟩

variable {groups : List (List String)}

/-- What comes of each of some groups, comes of all of them. -/
theorem exists_splits_mapM {f : List String → Option (List (List String))}
    (h : ∀ group ∈ groups, ∃ result, f group = some result ∧ c.Splits [group] result) :
    ∃ results, groups.mapM f = some results ∧ c.Splits groups results.flatten := by
  induction groups with
  | nil => exact ⟨[], rfl, List.Perm.refl _, fun g hg => absurd hg not_mem_nil⟩
  | cons group groups ih =>
    obtain ⟨⟨result, hf, hp, hacc⟩, h⟩ := forall_mem_cons.mp h
    obtain ⟨results, hmap, hp', hacc'⟩ := ih h
    refine ⟨result :: results, by rw [mapM_cons, hf, hmap]; rfl, ?_, fun g hg => ?_⟩
    · rw [flatten_singleton] at hp
      rw [flatten_cons, flatten_append, flatten_cons]
      exact hp.append hp'
    · rw [flatten_cons] at hg
      exact (mem_append.mp hg).elim (hacc g) (hacc' g)

/-- **A group is kept or split**, and nothing is lost if that holds of what its parts are split
into. -/
theorem exists_splits_splitGroup
    {recurse : List (List String) → ρ → ℕ → Option (List (List String))}
    (hdepth : depth ≤ maxSplitDepth)
    (hgroup : c.Reached depth resolution group)
    (hrec : depth < maxSplitDepth →
      (∀ part ∈ c.subGroups group resolution depth,
        c.Reached (depth + 1) (newResolution resolution) part) →
      ∃ result, recurse (c.subGroups group resolution depth) (newResolution resolution)
        (depth + 1) = some result ∧ c.Splits (c.subGroups group resolution depth) result) :
    ∃ result, c.splitGroup recurse resolution depth group = some result ∧
      c.Splits [group] result := by
  unfold splitGroup
  split_ifs with hsmall hlim hone
  · exact ⟨_, rfl, splits_singleton ⟨_, _, hgroup, Or.inl hsmall⟩⟩
  · have hdepth : depth = maxSplitDepth := le_antisymm hdepth hlim
    exact ⟨_, rfl, splits_singleton ⟨_, _, hgroup, Or.inr (Or.inl hdepth)⟩⟩
  · exact ⟨_, rfl, splits_singleton ⟨_, _, hgroup, Or.inr (Or.inr hone)⟩⟩
  · obtain ⟨result, hres, hp, hacc⟩ := hrec (not_le.mp hlim) fun part hpart =>
      hgroup.split (not_le.mp hsmall) (not_le.mp hlim) (not_le.mp hone) hpart
    refine ⟨result, hres, hp.trans ?_, hacc⟩
    rw [flatten_singleton]
    exact flatten_subGroups hgroup.subset

/-- **Splitting ends and loses nothing**, if it may go down to the limit. -/
theorem exists_splits {fuel : ℕ}
    (hdepth : depth ≤ maxSplitDepth) (hfuel : maxSplitDepth < depth + fuel)
    (hrch : ∀ group ∈ groups, c.Reached depth resolution group) :
    ∃ result, c.splitOversizedCommunities fuel groups resolution depth = some result ∧
      c.Splits groups result := by
  induction fuel generalizing depth resolution groups with
  | zero => omega
  | succ fuel ih =>
    obtain ⟨results, hmap, hsplits⟩ := exists_splits_mapM fun group hgroup =>
      exists_splits_splitGroup hdepth (hrch group hgroup) fun hlt hpar =>
        ih (Nat.succ_le_of_lt hlt) (by omega) hpar
    refine ⟨results.flatten, ?_, hsplits⟩
    rw [splitOversizedCommunities, hmap]
    rfl

/-- **`find_partition` leaves a group in one piece**, as a graph of its own. -/
def StaysWhole (c : Clustering ρ) (depth : ℕ) (resolution : ρ) (group : List String) : Prop :=
  (c.findPartition (depth + 1) group (graphOf group (c.subEdges group)) (newResolution resolution)
    c.seed).communities.length ≤ 1

theorem Reached.staysWhole_iff (h : c.Reached depth resolution group) :
    c.StaysWhole depth resolution group ↔ (c.subGroups group resolution depth).length ≤ 1 := by
  have hids := map_id_filterMap_nodesById h.subset
  have hne : group.filterMap c.nodesById ≠ [] := by
    intro hnil
    rw [hnil] at hids
    exact h.ne_nil hids.symm
  rw [subGroups, runLeiden_eq hne, length_map, hids, StaysWhole]

/-- **A partition of the entities into communities.** One that is too large was come to at the
limit, or could not be split. -/
structure Partitions (c : Clustering ρ) (groups : List (List String)) : Prop where
  perm : groups.flatten.Perm (c.nodes.map Node.id)
  nodup : groups.flatten.Nodup
  ne_nil : ∀ group ∈ groups, group ≠ []
  large : ∀ group ∈ groups, c.maxSize < group.length →
    ∃ depth resolution, c.Reached depth resolution group ∧
      (depth = maxSplitDepth ∨ c.StaysWhole depth resolution group)

/-- What clustering comes to, if splitting may go down to the limit. -/
theorem exists_splits_cluster (c : Clustering ρ) :
    ∃ groups, c.clusterWithSizeLimit (maxSplitDepth + 1) = some groups ∧
      c.Splits c.firstGroups groups := by
  unfold clusterWithSizeLimit
  split_ifs with hlarge
  · exact exists_splits (Nat.zero_le _) (by omega) fun group => Reached.first
  · refine ⟨_, rfl, List.Perm.refl _, fun group hgroup => ?_⟩
    refine ⟨0, c.resolution, .first hgroup, Or.inl ?_⟩
    simpa using mt (fun h => any_eq_true.mpr ⟨group, hgroup, h⟩) hlarge

/-- **`_cluster_with_size_limit` partitions the entities**, whatever partitions the algorithm
returns: it calls itself to the limit at the deepest. -/
theorem partitions (c : Clustering ρ) (hnodup : (c.nodes.map Node.id).Nodup) :
    (∃ groups, c.clusterWithSizeLimit (maxSplitDepth + 1) = some groups ∧ c.Partitions groups) ∧
      ∀ depth resolution group, c.Reached depth resolution group → depth ≤ maxSplitDepth := by
  refine ⟨?_, fun depth resolution group h => h.depth_le⟩
  obtain ⟨groups, hgroups, hp, hacc⟩ := exists_splits_cluster c
  have hp := hp.trans flatten_runLeiden
  refine ⟨groups, hgroups, hp, hp.nodup_iff.mpr hnodup,
    fun group hgroup => (hacc group hgroup).ne_nil, fun group hgroup hlarge => ?_⟩
  obtain ⟨depth, resolution, hrch, hwhy⟩ := hacc group hgroup
  rw [← hrch.staysWhole_iff] at hwhy
  exact ⟨depth, resolution, hrch, hwhy.resolve_left (not_le.mpr hlarge)⟩

/-- All vertices in one community. -/
def onePart (n : ℕ) : VertexPartition n where
  communities := if n = 0 then [] else [List.finRange n]
  perm := by
    split_ifs with hzero
    · subst hzero
      exact List.Perm.refl _
    · rw [flatten_singleton]
  ne_nil community hcommunity := by
    split_ifs at hcommunity with hzero
    · exact absurd hcommunity not_mem_nil
    · rw [mem_singleton.mp hcommunity]
      simpa using hzero

/-- A triangle, which `find_partition` does not split at so low a resolution, nor at its double. -/
def oneCommunity : Clustering ℚ where
  findPartition _ _ g _ _ := onePart g.n
  nodes := ["a", "b", "c"].map fun id => ⟨id, id, .concept, none, "d", none⟩
  edges := [("a", "b"), ("b", "c"), ("c", "a")].map fun (source, target) =>
    { sourceNodeId := source, targetNodeId := target, relationshipType := .relatedTo,
      sourceDocId := "d" }
  resolution := 1 / 2
  maxSize := 2
  seed := some 42

theorem partitions_oneCommunity :
    oneCommunity.clusterWithSizeLimit (maxSplitDepth + 1) = some [["a", "b", "c"]] ∧
      oneCommunity.Partitions [["a", "b", "c"]] ∧
      ∀ depth resolution group, oneCommunity.Reached depth resolution group →
        depth ≤ maxSplitDepth := by
  obtain ⟨⟨groups, hgroups, hpart⟩, hdepth⟩ := partitions oneCommunity (by decide)
  have hone : oneCommunity.clusterWithSizeLimit (maxSplitDepth + 1) = some [["a", "b", "c"]] := by
    decide +kernel
  cases hgroups.symm.trans hone
  exact ⟨hone, hpart, hdepth⟩

end Clustering

end ArchonSearch.Communities
