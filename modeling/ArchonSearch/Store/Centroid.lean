import Mathlib.Algebra.Order.Ring.Rat
import Mathlib.Algebra.Order.Monoid.Unbundled.WithTop
import Mathlib.Data.Fintype.Pi
import ArchonSearch.Lib.Run

/-!
# The centroid of a collection

The metadata row of a collection keeps the number of its chunks and documents, the
sum of its vectors and their mean. `ingest_chunks` and `delete_document` maintain
them incrementally, in the same critical section as the rows; where they cannot,
they set `needs_recompute`, and `recompute_collection_meta` computes everything
from the rows again. The expiry of chunks, `prune_expired_chunks`, deletes rows and
does neither.

Vectors have rational coordinates here, with one more value for a float that is not finite. A
recompute reads the metadata, the vectors and the documents without the lock, and writes under it
only if neither the mutation counter nor the flag has moved meanwhile; these are four steps of the
machine (`step`), between which anything may happen.

Along every run in which no row is pruned from under a row that claims to be exact, and no
recompute writes totals of other rows than the stored ones, the metadata is exact wherever it does
not ask for a recompute (`exact_of_good`). One expired chunk is enough to break it
(`skewed_by_prune`).
-/

namespace ArchonSearch.Store.Centroid

open Lib List Option

/-! ### Vectors -/

/-- A coordinate: a rational number, or `⊤` for a float that is not finite. -/
abbrev Coord := WithTop ℚ

abbrev Vec (n : ℕ) := Fin n → Coord

variable {n : ℕ}

/-- `all(math.isfinite(v) for v in vector)`. -/
def Vec.isFinite (v : Vec n) : Bool := decide (∀ i, v i ≠ ⊤)

/-- `_batch_vectors_valid`. -/
def batchVectorsValid (vectors : List (Vec n)) : Bool := vectors.all Vec.isFinite

/-- `elementwise_sum`. -/
def elementwiseSum (vectors : List (Vec n)) : Vec n := fun i => (vectors.map (· i)).sum

/-- `[a - b for a, b in zip(u, v)]`. -/
def Vec.sub (u v : Vec n) : Vec n := fun i => WithTop.map₂ (· - ·) (u i) (v i)

/-- `[v / k for v in u]`. -/
def Vec.div (u : Vec n) (k : ℕ) : Vec n := fun i => (u i).map (· / k)

/-! ### Rows and metadata -/

structure Chunk (n : ℕ) where
  docId : String
  vector : Vec n
  /-- `expires_at`, normalised. -/
  expiresAt : Option String

open Chunk

/-- The number of distinct `doc_id`s. -/
def countDocuments (rows : List (Chunk n)) : ℕ := (rows.map docId).toFinset.card

/-- The fields of `CollectionMeta` that the bookkeeping reads or writes. -/
structure CollectionMeta (n : ℕ) where
  centroid : Option (Vec n) := none
  centroidSum : Option (Vec n) := none
  mutationsSinceRecompute : ℕ := 0
  needsRecompute : Bool := false
  docCount : ℕ := 0
  chunkCount : ℕ := 0
  activeEmbeddingModel : String
  deriving DecidableEq

/-- `_row_to_meta` of what `_do_write_meta_unlocked` wrote: a sum that is not finite
is read back as none. -/
def CollectionMeta.stored (m : CollectionMeta n) : CollectionMeta n :=
  { m with centroidSum := m.centroidSum.filter Vec.isFinite }

/-- `_centroid_sum_valid`, for vectors of the size of the table. -/
def centroidSumValid (centroidSum : Option (Vec n)) (storedModel writerModel : String) : Bool :=
  match centroidSum with
  | none => false
  | some s => 0 < n && storedModel = writerModel && s.isFinite

/-- `_do_update_meta_on_add`: the row after a batch has been added. `existing` is
the row found, `none` for a collection that this batch has claimed. What is left out
is the answer whether a recompute is due: a run may recompute at any time. -/
def updateMetaOnAdd (existing : Option (CollectionMeta n)) (batch : List (Vec n))
    (distinctDocCount : ℕ) (embeddingModel : String) : CollectionMeta n :=
  match existing with
  | some m =>
    if !batchVectorsValid batch then { m with needsRecompute := true }
    else if !centroidSumValid m.centroidSum m.activeEmbeddingModel embeddingModel then
      { m with centroid := none, centroidSum := none, needsRecompute := true }
    else
      let newSum := m.centroidSum.getD 0 + elementwiseSum batch
      let newChunkCount := m.chunkCount + batch.length
      { m with
        centroid := some (newSum.div newChunkCount)
        centroidSum := some newSum
        docCount := m.docCount + distinctDocCount
        chunkCount := newChunkCount
        mutationsSinceRecompute := m.mutationsSinceRecompute + batch.length }
  | none =>
    if !batchVectorsValid batch then
      { activeEmbeddingModel := embeddingModel, needsRecompute := true }
    else
      { centroid := some ((elementwiseSum batch).div batch.length)
        centroidSum := some (elementwiseSum batch)
        docCount := distinctDocCount
        chunkCount := batch.length
        activeEmbeddingModel := embeddingModel
        mutationsSinceRecompute := batch.length }

/-- `_do_subtract_meta_on_delete`: the row after the rows with these vectors, the
rows of one document, have been deleted. -/
def subtractMetaOnDelete (m : CollectionMeta n) (deleted : List (Vec n)) : CollectionMeta n :=
  let newMutations := m.mutationsSinceRecompute + deleted.length
  if !centroidSumValid m.centroidSum m.activeEmbeddingModel m.activeEmbeddingModel then
    { m with
      centroid := none
      centroidSum := none
      mutationsSinceRecompute := newMutations
      needsRecompute := true }
  else
    let newSum := (m.centroidSum.getD 0).sub (elementwiseSum deleted)
    let newChunkCount := m.chunkCount - deleted.length
    if newChunkCount = 0 then
      { m with
        centroid := none
        centroidSum := none
        docCount := 0
        chunkCount := 0
        mutationsSinceRecompute := newMutations }
    else
      { m with
        centroid := some (newSum.div newChunkCount)
        centroidSum := some newSum
        docCount := m.docCount - 1
        chunkCount := newChunkCount
        mutationsSinceRecompute := newMutations }

/-! ### The machine -/

inductive Stage where
  /-- Nothing has been ingested since the last `delete_document`. -/
  | deleted
  | ingested
  deriving DecidableEq

/-- Where a call of `recompute_collection_meta` stands. -/
inductive RecomputePc (n : ℕ) where
  | idle
  | readMeta : (force : Bool) → (existing : Option (CollectionMeta n)) → RecomputePc n
  | readVectors : (existing : Option (CollectionMeta n)) → (vectors : List (Vec n)) → RecomputePc n
  | scanned : (existing : Option (CollectionMeta n)) → (vectors : List (Vec n)) →
      (docCount : ℕ) → RecomputePc n

/-- What happens to a collection. The calls that hold the collection lock from the
first read to the last write are one event each. -/
inductive Event (ι : Type*) (n : ℕ) where
  /-- `ingest_chunks` of the first batch of a document. -/
  | firstBatch : (embeddingModel docId : String) → List (Chunk n) → Event ι n
  /-- `ingest_chunks` of another batch of it, with `_is_continuation`. -/
  | continuation : (embeddingModel docId : String) → List (Chunk n) → Event ι n
  /-- `ingest_chunks` whose rows do not land; whether it gets rid of its claim. -/
  | failedBatch : (embeddingModel : String) → (released : Bool) → Event ι n
  | deleteDocument : (docId : String) → Event ι n
  /-- One delete of the loop of `prune_expired_chunks`. -/
  | prune : (nowUtcIso : String) → (batchDocIds : List String) → Event ι n
  /-- `recompute_collection_meta` is called and reads the row. -/
  | recomputeMeta : ι → (force : Bool) → Event ι n
  | recomputeVectors : ι → Event ι n
  | recomputeDocs : ι → Event ι n
  | recomputeWrite : ι → (globalModel : String) → Event ι n

structure State (ι : Type*) (n : ℕ) where
  rows : List (Chunk n)
  metadata : Option (CollectionMeta n)
  stage : String → Stage
  /-- The calls of `recompute_collection_meta`. -/
  recomputes : ι → RecomputePc n

variable {ι : Type*}

def init : State ι n := ⟨[], none, fun _ => .deleted, fun _ => .idle⟩

/-- `expires_at IS NOT NULL AND expires_at < now`. -/
def Chunk.expired (now : String) (c : Chunk n) : Bool :=
  match c.expiresAt with
  | none => false
  | some t => t < now

/-- The rows one delete of `prune_expired_chunks` deletes. -/
def Chunk.pruned (now : String) (docs : List String) (c : Chunk n) : Bool :=
  c.expired now && docs.contains c.docId

def State.add (s : State ι n) (model docId : String) (distinctDocCount : ℕ)
    (chunks : List (Chunk n)) : State ι n :=
  { s with
    rows := s.rows ++ chunks
    metadata := some (updateMetaOnAdd s.metadata (chunks.map vector) distinctDocCount model).stored
    stage := Function.update s.stage docId .ingested }

/-- The totals as `recompute_collection_meta` writes them. -/
def recomputed (base : CollectionMeta n) (vectors : List (Vec n)) (docCount : ℕ) :
    CollectionMeta n :=
  { base with
    centroid := if vectors = [] then none else some ((elementwiseSum vectors).div vectors.length)
    centroidSum := if vectors = [] then none else some (elementwiseSum vectors)
    docCount := docCount
    chunkCount := vectors.length
    mutationsSinceRecompute := 0
    needsRecompute := false }

def State.base (s : State ι n) (globalModel : String) : CollectionMeta n :=
  s.metadata.getD { activeEmbeddingModel := globalModel }

def scannedAt (existing : Option (CollectionMeta n)) : ℕ × Bool :=
  match existing with
  | some m => (m.mutationsSinceRecompute, m.needsRecompute)
  | none => (0, false)

/-- Whether a recompute writes its totals: the collection has not been dropped, and
neither the counter nor the flag has moved. -/
def State.writesTotals (s : State ι n) (existing : Option (CollectionMeta n))
    (globalModel : String) : Bool :=
  !(s.metadata.isNone && existing.isSome) &&
    ((s.base globalModel).mutationsSinceRecompute, (s.base globalModel).needsRecompute)
      = scannedAt existing

section Step

variable [DecidableEq ι]

def State.setRecompute (s : State ι n) (i : ι) (pc : RecomputePc n) : State ι n :=
  { s with recomputes := Function.update s.recomputes i pc }

/-- The state an event leads to. A first batch follows the deletion of the old
version of its document, a continuation follows the first batch, and a batch is not
empty and of one document. -/
def step (s : State ι n) : Event ι n → Option (State ι n)
  | .firstBatch model docId chunks =>
    if s.stage docId = .deleted ∧ chunks ≠ [] ∧ ∀ c ∈ chunks, c.docId = docId then
      some (s.add model docId (countDocuments chunks) chunks)
    else none
  | .continuation model docId chunks =>
    if s.stage docId = .ingested ∧ chunks ≠ [] ∧ ∀ c ∈ chunks, c.docId = docId then
      some (s.add model docId 0 chunks)
    else none
  | .failedBatch model released =>
    match s.metadata with
    | some _ => some s
    | none =>
      if released then some s
      else
        some { s with
          metadata := some { activeEmbeddingModel := model, needsRecompute := true } }
  | .deleteDocument docId =>
    let deleted := s.rows.filter fun c => c.docId = docId
    some { s with
      rows := s.rows.filter fun c => c.docId ≠ docId
      metadata :=
        if deleted = [] then s.metadata
        else s.metadata.map fun m => (subtractMetaOnDelete m (deleted.map vector)).stored
      stage := Function.update s.stage docId .deleted }
  | .prune now docs => some { s with rows := s.rows.filter fun c => !c.pruned now docs }
  | .recomputeMeta i force =>
    match s.recomputes i with
    | .idle =>
      if !force && s.metadata.any (fun m => !m.needsRecompute && m.mutationsSinceRecompute = 0)
      then some s
      else some (s.setRecompute i (.readMeta force s.metadata))
    | _ => none
  | .recomputeVectors i =>
    match s.recomputes i with
    | .readMeta force existing =>
      if s.rows = [] ∧ !(force || existing.isSome) then some (s.setRecompute i .idle)
      else some (s.setRecompute i (.readVectors existing (s.rows.map vector)))
    | _ => none
  | .recomputeDocs i =>
    match s.recomputes i with
    | .readVectors existing vectors =>
      some (s.setRecompute i (.scanned existing vectors (countDocuments s.rows)))
    | _ => none
  | .recomputeWrite i globalModel =>
    match s.recomputes i with
    | .scanned existing vectors docCount =>
      let s' := s.setRecompute i .idle
      some (if s.writesTotals existing globalModel then
        { s' with metadata := some (recomputed (s.base globalModel) vectors docCount).stored }
      else s')
    | _ => none

end Step

/-! ### Exactness -/

/-- A metadata row that has a sum and does not ask for a recompute counts and sums up
these rows. -/
def CollectionMeta.ExactFor (m : CollectionMeta n) (rows : List (Chunk n)) : Prop :=
  m.needsRecompute = false → ∀ total, m.centroidSum = some total →
    m.chunkCount = rows.length ∧ m.docCount = countDocuments rows ∧
      total = elementwiseSum (rows.map vector) ∧
      m.centroid = some (total.div m.chunkCount)

/-- **The metadata is exact wherever it claims to be.** -/
def Exact (s : State ι n) : Prop := ∀ m, s.metadata = some m → m.ExactFor s.rows

/-- **The steps that keep the books.** A prune deletes rows only where a recompute is
asked for anyway; a continuation finds rows of its document; a recompute that writes
writes the totals of the stored rows. -/
def Good (s : State ι n) : Event ι n → Prop
  | .continuation _ docId _ => ∃ c ∈ s.rows, c.docId = docId
  | .prune now docs =>
    (∀ c ∈ s.rows, c.pruned now docs = false) ∨ s.metadata.any CollectionMeta.needsRecompute
  | .recomputeWrite i globalModel =>
    match s.recomputes i with
    | .scanned existing vectors docCount =>
      s.writesTotals existing globalModel →
        vectors.Perm (s.rows.map vector) ∧ docCount = countDocuments s.rows
    | _ => True
  | _ => True

structure Inv (s : State ι n) : Prop where
  exact : Exact s
  empty : s.metadata = none → s.rows = []
  deleted : ∀ d, s.stage d = .deleted → ∀ c ∈ s.rows, c.docId ≠ d
  finite : ∀ m, s.metadata = some m → ∀ total, m.centroidSum = some total → total.isFinite

theorem inv_init : Inv (init : State ι n) where
  exact m hm := by cases hm
  empty _ := rfl
  deleted d _ c hc := by cases hc
  finite m hm := by cases hm

/-! ### Sums -/

@[simp] theorem elementwiseSum_append (us vs : List (Vec n)) :
    elementwiseSum (us ++ vs) = elementwiseSum us + elementwiseSum vs := by
  funext i
  simp [elementwiseSum]

theorem elementwiseSum_perm {us vs : List (Vec n)} (h : us.Perm vs) :
    elementwiseSum us = elementwiseSum vs := by
  funext i
  exact (h.map (· i)).sum_eq

/-- Subtraction undoes addition, as long as the sum is finite. -/
theorem Coord.sub_of_add {a b c : Coord} (h : c = a + b) (hc : c ≠ ⊤) :
    WithTop.map₂ (· - ·) c b = a := by
  subst h
  rw [WithTop.add_ne_top] at hc
  lift a to ℚ using hc.1
  lift b to ℚ using hc.2
  rw [← WithTop.coe_add, WithTop.map₂_coe_coe]
  simp

/-- **Deleting rows subtracts their vectors.** -/
theorem sub_elementwiseSum {total u v : Vec n} (h : total = u + v) (hfin : total.isFinite) :
    total.sub v = u := by
  have hne : ∀ i, total i ≠ ⊤ := by simpa [Vec.isFinite] using hfin
  funext i
  exact Coord.sub_of_add (congrFun h i) (hne i)

/-- The rows of one document and the others make up all rows. -/
theorem elementwiseSum_filter (rows : List (Chunk n)) (d : String) :
    elementwiseSum (rows.map vector)
      = elementwiseSum ((rows.filter fun c => c.docId ≠ d).map vector)
        + elementwiseSum ((rows.filter fun c => c.docId = d).map vector) := by
  rw [← elementwiseSum_append, ← map_append]
  refine elementwiseSum_perm (List.Perm.map _ ?_)
  have hp := (filter_append_perm (fun c : Chunk n => decide (c.docId ≠ d)) rows).symm
  simpa using hp

/-! ### Counts -/

variable {d : String}

theorem countDocuments_append_new {rows chunks : List (Chunk n)}
    (hrw : ∀ c ∈ rows, c.docId ≠ d) (hchs : ∀ c ∈ chunks, c.docId = d) :
    countDocuments (rows ++ chunks) = countDocuments rows + countDocuments chunks := by
  unfold countDocuments
  rw [map_append, toFinset_append, Finset.card_union_of_disjoint]
  rw [Finset.disjoint_left]
  intro x hx hx'
  obtain ⟨c, hc, rfl⟩ := List.mem_map.mp (List.mem_toFinset.mp hx)
  obtain ⟨c', hc', heq⟩ := List.mem_map.mp (List.mem_toFinset.mp hx')
  exact hrw c hc (heq.symm.trans (hchs c' hc'))

theorem countDocuments_append_old {rows chunks : List (Chunk n)}
    (hrw : ∃ c ∈ rows, c.docId = d) (hchs : ∀ c ∈ chunks, c.docId = d) :
    countDocuments (rows ++ chunks) = countDocuments rows := by
  unfold countDocuments
  rw [map_append, toFinset_append, Finset.union_eq_left.mpr]
  intro x hx
  obtain ⟨c, hc, rfl⟩ := List.mem_map.mp (List.mem_toFinset.mp hx)
  obtain ⟨c', hc', heq⟩ := hrw
  rw [List.mem_toFinset, hchs c hc, ← heq]
  exact List.mem_map_of_mem hc'

/-- Without the rows of a document that has rows there is one document less. -/
theorem countDocuments_filter {rows : List (Chunk n)}
    (hrw : ∃ c ∈ rows, c.docId = d) :
    countDocuments (rows.filter fun c => c.docId ≠ d) = countDocuments rows - 1 := by
  have herase : ((rows.filter fun c => c.docId ≠ d).map docId).toFinset
      = (rows.map docId).toFinset.erase d := by
    ext x
    simp only [List.mem_toFinset, List.mem_map, mem_filter, decide_eq_true_eq, Finset.mem_erase]
    constructor
    · rintro ⟨c, ⟨hc, hne⟩, rfl⟩
      exact ⟨hne, c, hc, rfl⟩
    · rintro ⟨hne, c, hc, rfl⟩
      exact ⟨c, ⟨hc, hne⟩, rfl⟩
  obtain ⟨c, hc, rfl⟩ := hrw
  rw [countDocuments, herase, Finset.card_erase_of_mem, countDocuments]
  exact List.mem_toFinset.mpr (List.mem_map_of_mem hc)

/-! ### The rows the operations write -/

section Writes

variable {m : CollectionMeta n} {rows chunks : List (Chunk n)}

theorem CollectionMeta.ExactFor.stored (h : m.ExactFor rows) : m.stored.ExactFor rows := by
  intro hflag total htot
  exact h hflag total (filter_eq_some_iff.mp htot).1

theorem isFinite_of_stored {total : Vec n} (h : m.stored.centroidSum = some total) :
    total.isFinite :=
  (filter_eq_some_iff.mp h).2

/-- A sum that passes `_centroid_sum_valid` is there. -/
theorem centroidSum_of_valid {centroidSum : Option (Vec n)} {stored writer : String}
    (h : centroidSumValid centroidSum stored writer = true) :
    ∃ total, centroidSum = some total := by
  cases centroidSum with
  | none => cases h
  | some total => exact ⟨total, rfl⟩

/-- **The first batch of a new collection** is the whole collection. -/
theorem updateMetaOnAdd_none_exact (chunks : List (Chunk n)) (model : String) :
    (updateMetaOnAdd none (chunks.map vector) (countDocuments chunks) model).ExactFor chunks := by
  unfold updateMetaOnAdd
  dsimp only
  split
  next => exact fun hflag => by cases hflag
  next =>
    intro _ total htot
    cases htot
    simp

/-- **A batch** is added to the totals, or the row asks for a recompute. -/
theorem updateMetaOnAdd_some_exact (h : m.ExactFor rows) {k : ℕ}
    (hk : countDocuments (rows ++ chunks) = countDocuments rows + k) (model : String) :
    (updateMetaOnAdd (some m) (chunks.map vector) k model).ExactFor (rows ++ chunks) := by
  unfold updateMetaOnAdd
  dsimp only
  split
  next => exact fun hflag => by cases hflag
  next =>
    split
    next => exact fun hflag => by cases hflag
    next hval =>
      intro hflag total htot
      obtain ⟨old, hold⟩ := centroidSum_of_valid (by simpa using hval)
      obtain ⟨hchs, hdocs, rfl, -⟩ := h hflag old hold
      cases htot
      refine ⟨?_, ?_, ?_, rfl⟩
      · simp [hchs]
      · rw [hk, ← hdocs]
      · simp [hold]

/-- **The rows of a document** are taken off the totals, or the row asks for a
recompute. -/
theorem subtractMetaOnDelete_exact (h : m.ExactFor rows)
    (hfin : ∀ total, m.centroidSum = some total → total.isFinite) {d : String}
    (hd : ∃ c ∈ rows, c.docId = d) :
    (subtractMetaOnDelete m ((rows.filter fun c => c.docId = d).map vector)).ExactFor
      (rows.filter fun c => c.docId ≠ d) := by
  unfold subtractMetaOnDelete
  dsimp only
  split
  next => exact fun hflag => by cases hflag
  next hval =>
    split
    next => exact fun _ _ htot => by cases htot
    next =>
      intro hflag total htot
      obtain ⟨old, hold⟩ := centroidSum_of_valid (by simpa using hval)
      obtain ⟨hchs, hdocs, hsum, -⟩ := h hflag old hold
      have hlen : rows.length = (rows.filter fun c => c.docId ≠ d).length
          + (rows.filter fun c => c.docId = d).length := by
        have hp := (filter_append_perm (fun c : Chunk n => decide (c.docId ≠ d)) rows)
        simpa using hp.length_eq.symm
      cases htot
      refine ⟨?_, ?_, ?_, rfl⟩
      · simp only [length_map]
        omega
      · rw [countDocuments_filter hd, ← hdocs]
      · rw [hold, getD_some]
        exact sub_elementwiseSum (hsum.trans (elementwiseSum_filter rows d)) (hfin old hold)

/-- **A recompute** writes the totals of the rows it has scanned. -/
theorem recomputed_exact (base : CollectionMeta n) {vectors : List (Vec n)} {docCount : ℕ}
    (hvec : vectors.Perm (rows.map vector)) (hdocs : docCount = countDocuments rows) :
    (recomputed base vectors docCount).ExactFor rows := by
  intro _ total htot
  simp only [recomputed] at htot ⊢
  split at htot
  next => cases htot
  next hne =>
    cases htot
    refine ⟨?_, hdocs, elementwiseSum_perm hvec, if_neg hne⟩
    simpa using hvec.length_eq

end Writes

/-! ### The steps -/

section Steps

variable {s s' : State ι n} {docId : String}

/-- **A batch keeps the books**, if it is counted as a new document exactly when its
document has no rows yet. -/
theorem Inv.add (h : Inv s) {k : ℕ} {chunks : List (Chunk n)}
    (hchs : ∀ c ∈ chunks, c.docId = docId)
    (hn : s.rows = [] → k = countDocuments chunks)
    (hk : countDocuments (s.rows ++ chunks) = countDocuments s.rows + k) (model : String) :
    Inv (s.add model docId k chunks) := by
  refine ⟨?_, ?_, ?_, ?_⟩
  · intro m hm
    cases hm
    refine CollectionMeta.ExactFor.stored ?_
    cases hmeta : s.metadata with
    | none =>
      have hemp := h.empty hmeta
      simp only [State.add, hemp, nil_append, hn hemp]
      exact updateMetaOnAdd_none_exact chunks model
    | some m => exact updateMetaOnAdd_some_exact (h.exact m hmeta) hk model
  · intro hm
    cases hm
  · intro d hd c hc
    have hne : d ≠ docId := by
      rintro rfl
      simp [State.add] at hd
    have hd' : s.stage d = .deleted := by simpa [State.add, hne] using hd
    rcases mem_append.mp hc with hc | hc
    · exact h.deleted d hd' c hc
    · rw [hchs c hc]
      exact hne.symm
  · intro m hm total htot
    cases hm
    exact isFinite_of_stored htot

/-- A step that changes neither the rows, nor the metadata, nor a stage. -/
theorem Inv.congr (h : Inv s) (hrw : s'.rows = s.rows) (hmeta : s'.metadata = s.metadata)
    (hsg : s'.stage = s.stage) : Inv s' := by
  refine ⟨?_, ?_, ?_, ?_⟩
  · intro m hm
    rw [hrw]
    exact h.exact m (hmeta ▸ hm)
  · intro hm
    rw [hrw]
    exact h.empty (hmeta ▸ hm)
  · rw [hrw, hsg]
    exact h.deleted
  · rw [hmeta]
    exact h.finite

variable [DecidableEq ι]

/-- **`delete_document` keeps the books.** -/
theorem Inv.deleteDocument (h : Inv s)
    (hs : step s (.deleteDocument docId) = some s') : Inv s' := by
  cases hs
  refine ⟨?_, ?_, ?_, ?_⟩
  · intro m hm
    split at hm
    next hn =>
      have hall : s.rows.filter (fun c => c.docId ≠ docId) = s.rows := by
        rw [filter_eq_self]
        intro c hc
        simpa using filter_eq_nil_iff.mp hn c hc
      rw [hall]
      exact h.exact m hm
    next hsm =>
      obtain ⟨m₀, hm₀, rfl⟩ := map_eq_some_iff.mp hm
      refine (subtractMetaOnDelete_exact (h.exact m₀ hm₀) (h.finite m₀ hm₀) ?_).stored
      obtain ⟨c, hc⟩ := exists_mem_of_ne_nil _ hsm
      obtain ⟨hc, hd⟩ := mem_filter.mp hc
      exact ⟨c, hc, by simpa using hd⟩
  · intro hm
    have hn : s.metadata = none := by
      split at hm
      · exact hm
      · exact map_eq_none_iff.mp hm
    rw [h.empty hn]
    rfl
  · intro d hd c hc
    obtain ⟨hc, hne⟩ := mem_filter.mp hc
    by_cases hdd : d = docId
    · subst hdd
      simpa using hne
    · exact h.deleted d (by simpa [hdd] using hd) c hc
  · intro m hm total htot
    split at hm
    · exact h.finite m hm total htot
    · obtain ⟨m₀, -, rfl⟩ := map_eq_some_iff.mp hm
      exact isFinite_of_stored htot

/-- **Every good step keeps the books.** -/
theorem Inv.step (h : Inv s) {e : Event ι n} (hg : Good s e) (hs : step s e = some s') :
    Inv s' := by
  cases e with
  | firstBatch model docId chunks =>
    obtain ⟨⟨hsg, -, hchs⟩, hs'⟩ := ite_none_right_eq_some.mp hs
    cases hs'
    have hw : ∀ c ∈ s.rows, c.docId ≠ docId := h.deleted docId hsg
    exact h.add hchs (fun _ => rfl) (countDocuments_append_new hw hchs) model
  | continuation model docId chunks =>
    obtain ⟨⟨-, -, hchs⟩, hs'⟩ := ite_none_right_eq_some.mp hs
    cases hs'
    refine h.add hchs ?_ (countDocuments_append_old hg hchs) model
    intro hemp
    obtain ⟨c, hc, -⟩ := hg
    rw [hemp] at hc
    cases hc
  | failedBatch model released =>
    simp only [Centroid.step] at hs
    split at hs
    next =>
      cases hs
      exact h
    next hn =>
      split at hs
      · cases hs
        exact h
      -- the claim that stays asks for a recompute
      cases hs
      refine ⟨?_, ?_, h.deleted, ?_⟩
      · intro m hm hflag
        cases hm
        cases hflag
      · intro hm
        cases hm
      · intro m hm total htot
        cases hm
        cases htot
  | deleteDocument docId => exact h.deleteDocument hs
  | prune now docs =>
    cases hs
    refine ⟨?_, ?_, ?_, h.finite⟩
    · intro m hm
      rcases hg with hn | hflag
      · have hall : s.rows.filter (fun c => !c.pruned now docs) = s.rows := by
          rw [filter_eq_self]
          intro c hc
          simp [hn c hc]
        rw [hall]
        exact h.exact m hm
      · intro hflag'
        simp [show s.metadata = some m from hm, hflag'] at hflag
    · intro hm
      simp [h.empty hm]
    · intro d hd c hc
      exact h.deleted d hd c (mem_filter.mp hc).1
  | recomputeMeta i force =>
    simp only [Centroid.step] at hs
    split at hs
    next =>
      split at hs <;> cases hs
      · exact h
      · exact h.congr rfl rfl rfl
    next => cases hs
  | recomputeVectors i =>
    simp only [Centroid.step] at hs
    split at hs
    next =>
      split at hs <;> cases hs <;> exact h.congr rfl rfl rfl
    next => cases hs
  | recomputeDocs i =>
    simp only [Centroid.step] at hs
    split at hs
    next =>
      cases hs
      exact h.congr rfl rfl rfl
    next => cases hs
  | recomputeWrite i globalModel =>
    simp only [Centroid.step] at hs
    split at hs
    next existing vectors docCount hpc =>
      simp only [Good, hpc] at hg
      cases hs
      split
      next hwrs =>
        obtain ⟨hvec, hdocs⟩ := hg hwrs
        refine ⟨?_, ?_, h.deleted, ?_⟩
        · intro m hm
          cases hm
          exact (recomputed_exact _ hvec hdocs).stored
        · intro hm
          cases hm
        · intro m hm total htot
          cases hm
          exact isFinite_of_stored htot
      next => exact h.congr rfl rfl rfl
    next => cases hs

end Steps

/-! ### Runs -/

section Runs

variable [DecidableEq ι]

/-- **The bookkeeping is exact** in every state reached by good steps: the counts,
the sum and the mean of a row that has a sum and does not ask for a recompute are
those of the stored rows. -/
theorem exact_of_good {es : List (Event ι n)} {s : State ι n}
    (hgood : Along step Good init es) (hrun : run step init es = some s) : Exact s :=
  (run_invariant_along (fun _ _ _ hg hi hs => Inv.step hi hg hs) hgood inv_init hrun).exact

instance Good.decidable (s : State ι n) (e : Event ι n) : Decidable (Good s e) := by
  unfold Good
  split <;> try split
  all_goals infer_instance

/-- Two documents, one of them in two batches; the other one is deleted, and the
totals are recomputed. -/
def twoDocuments : List (Event Unit 1) :=
  [.deleteDocument "a", .firstBatch "m" "a" [⟨"a", fun _ => (1 : ℚ), none⟩],
    .firstBatch "m" "b" [⟨"b", fun _ => (5 : ℚ), none⟩],
    .continuation "m" "a" [⟨"a", fun _ => (2 : ℚ), some "2026-01-01"⟩],
    .prune "2025-06-01" ["a"], .deleteDocument "b", .recomputeMeta () true, .recomputeVectors (),
    .recomputeDocs (), .recomputeWrite () "m"]

theorem exact_of_good_twoDocuments :
    Along step Good init twoDocuments ∧
      ∃ s, run step init twoDocuments = some s ∧ s.rows.length = 2 ∧ Exact s := by
  have hg : Along step Good init twoDocuments := by decide
  exact ⟨hg, _, rfl, rfl, exact_of_good hg rfl⟩

def expiring : List (Event Unit 1) :=
  [.firstBatch "m" "a" [⟨"a", fun _ => (1 : ℚ), some "2025-01-01"⟩], .prune "2025-06-01" ["a"]]

/-- **The prune of one expired chunk skews the books**: the row still counts it and
does not ask for a recompute. -/
theorem skewed_by_prune :
    ∃ s : State Unit 1, run step init expiring = some s ∧ s.rows = [] ∧ ¬ Exact s := by
  refine ⟨_, rfl, rfl, fun h => ?_⟩
  have hcnt := (h _ rfl rfl _ rfl).1
  exact absurd hcnt (by decide)

end Runs

end ArchonSearch.Store.Centroid
