import ArchonSearch.Store.Centroid

/-!
# Which totals a recompute publishes

`recompute_collection_meta` reads the metadata row, all vectors and the number of documents without
the lock of the collection, and then takes the lock to write the totals. It publishes them only if
`mutations_since_recompute` and `needs_recompute` are what they were when it read the row. This
module asks when that comparison is good enough, with every await of the ingests, deletes, prunes
and recomputes a step of its own.

The comparison sees a change of the rows only if the counter or the flag moves. A prune moves
neither; a batch that finds a row without a usable sum only sets the flag, which may be set already;
and another recompute sets both back. `Noticed` says of each step that it leaves no counter and flag
behind that a recompute in flight has read before the rows changed, and in every run of such steps
the published totals are those of the stored rows (`publishesTotals_of_noticed`). A batch that
arrives while a collection waits for its recompute is enough to break it (`publishes_stale`).
-/

namespace ArchonSearch.Store.Recompute

open Lib Centroid List Option

variable {ι : Type*} {n : ℕ}

/-! ### The machine -/

inductive Turn (n : ℕ) where
  /-- `ingest_chunks` is to add its rows; whether it has recorded its claim. -/
  | land : (model : Option String) → (isContinuation claimed : Bool) → List (Chunk n) → Turn n
  /-- `ingest_chunks` is to count them: `_do_update_meta_on_add`. -/
  | count : (model : Option String) → (isContinuation claimed : Bool) → List (Chunk n) → Turn n
  /-- `delete_document` has read the vectors, and is to delete the rows. -/
  | remove : (docId : String) → List (Vec n) → Turn n
  /-- `delete_document` is to subtract them: `_do_subtract_meta_on_delete`. -/
  | subtract : List (Vec n) → Turn n
  /-- `recompute_collection_meta` is to write its totals on the row it has read. -/
  | publish : (base : CollectionMeta n) → List (Vec n) → (docCount : ℕ) → Turn n

structure State (ι : Type*) (n : ℕ) where
  rows : List (Chunk n)
  metadata : Option (CollectionMeta n)
  turn : Option (Turn n)
  /-- The calls of `recompute_collection_meta`. -/
  recomputes : ι → RecomputePc n

inductive Event (ι : Type*) (n : ℕ) where
  /-- `ingest_chunks` takes the lock, and claims a collection that has no owner. -/
  | ingest : (model : Option String) → (isContinuation : Bool) → List (Chunk n) → Event ι n
  | land
  | fail : (released : Bool) → Event ι n
  | count
  /-- `delete_document` takes the lock and reads the vectors. -/
  | delete : (docId : String) → Event ι n
  | remove
  | subtract
  /-- One delete of the loop of `prune_expired_chunks`. -/
  | prune : (nowUtcIso : String) → (batchDocIds : List String) → Event ι n
  /-- `recompute_collection_meta` is called and reads the row. -/
  | recomputeMeta : ι → (force : Bool) → Event ι n
  | recomputeVectors : ι → Event ι n
  | recomputeDocs : ι → Event ι n
  | recomputeLock : ι → (globalModel : String) → Event ι n
  | publish

/-- The row after a batch: `_do_update_meta_on_add`. -/
def State.counted (s : State ι n) (model : Option String) (isContinuation claimed : Bool)
    (chunks : List (Chunk n)) : Option (CollectionMeta n) :=
  match model with
  | none => s.metadata
  | some name =>
    some (updateMetaOnAdd (if claimed then none else s.metadata) (chunks.map Chunk.vector)
      (if isContinuation then 0 else countDocuments chunks) name).stored

/-- The row after a delete: `_do_subtract_meta_on_delete`. -/
def State.subtracted (s : State ι n) (vectors : List (Vec n)) : Option (CollectionMeta n) :=
  if vectors = [] then s.metadata
  else s.metadata.map fun m => (subtractMetaOnDelete m vectors).stored

/-- Whether a recompute may publish: the collection has not been dropped, and neither the
counter nor the flag has moved. -/
def State.unmoved (s : State ι n) (existing : Option (CollectionMeta n)) : Bool :=
  !(s.metadata.isNone && existing.isSome) && scannedAt s.metadata = scannedAt existing

section Step

variable [DecidableEq ι]

def State.setRecompute (s : State ι n) (i : ι) (pc : RecomputePc n) : State ι n :=
  { s with recomputes := Function.update s.recomputes i pc }

/-- `ingest_chunks` takes the lock. -/
def State.beginIngest (s : State ι n) (model : Option String) (isContinuation : Bool)
    (chunks : List (Chunk n)) : State ι n :=
  match s.metadata, model with
  -- `_do_claim_collection`
  | none, some name =>
    { s with
      metadata := some { activeEmbeddingModel := name, needsRecompute := true }
      turn := some (.land model isContinuation true chunks) }
  | _, _ => { s with turn := some (.land model isContinuation false chunks) }

def step (s : State ι n) : Event ι n → Option (State ι n)
  | .ingest model isContinuation chunks =>
    if s.turn = none ∧ chunks ≠ [] then some (s.beginIngest model isContinuation chunks) else none
  | .land =>
    match s.turn with
    | some (.land model isContinuation claimed chunks) =>
      some { s with
        rows := s.rows ++ chunks
        turn := some (.count model isContinuation claimed chunks) }
    | _ => none
  | .fail released =>
    match s.turn with
    | some (.land _ _ claimed _) =>
      some { s with
        metadata := if claimed && released then none else s.metadata
        turn := none }
    | _ => none
  | .count =>
    match s.turn with
    | some (.count model isContinuation claimed chunks) =>
      some { s with metadata := s.counted model isContinuation claimed chunks, turn := none }
    | _ => none
  | .delete docId =>
    if s.turn = none then
      some { s with
        turn := some (.remove docId ((s.rows.filter fun c => c.docId = docId).map Chunk.vector)) }
    else none
  | .remove =>
    match s.turn with
    | some (.remove docId vectors) =>
      if ∀ c ∈ s.rows, c.docId ≠ docId then some { s with turn := none }
      else some { s with
        rows := s.rows.filter fun c => c.docId ≠ docId
        turn := some (.subtract vectors) }
    | _ => none
  | .subtract =>
    match s.turn with
    | some (.subtract vectors) => some { s with metadata := s.subtracted vectors, turn := none }
    | _ => none
  | .prune now docs => some { s with rows := s.rows.filter fun c => !c.pruned now docs }
  | .recomputeMeta i force =>
    match s.recomputes i with
    | .idle =>
      if !force && s.metadata.any (fun m => !m.needsRecompute && m.mutationsSinceRecompute = 0)
      then some s
      else some (s.setRecompute i (.readMeta force s.metadata))
    | _ => none
  | .recomputeVectors i =>
    match s.recomputes i with
    | .readMeta force existing =>
      if s.rows = [] ∧ !(force || existing.isSome) then some (s.setRecompute i .idle)
      else some (s.setRecompute i (.readVectors existing (s.rows.map Chunk.vector)))
    | _ => none
  | .recomputeDocs i =>
    match s.recomputes i with
    | .readVectors existing vectors =>
      some (s.setRecompute i (.scanned existing vectors (countDocuments s.rows)))
    | _ => none
  | .recomputeLock i globalModel =>
    match s.turn, s.recomputes i with
    | none, .scanned existing vectors docCount =>
      let s' := s.setRecompute i .idle
      if s.unmoved existing then
        let base := s.metadata.getD { activeEmbeddingModel := globalModel }
        some { s' with turn := some (.publish base vectors docCount) }
      else some s'
    | _, _ => none
  | .publish =>
    match s.turn with
    | some (.publish base vectors docCount) =>
      some { s with
        metadata := some (recomputed base vectors docCount).stored
        turn := none }
    | _ => none

end Step

/-- No call has begun. -/
def State.IsStart (s : State ι n) : Prop := s.turn = none ∧ ∀ i, s.recomputes i = .idle

/-! ### What is published -/

structure IsTotalOf (m : CollectionMeta n) (rows : List (Chunk n)) : Prop where
  chunkCount : m.chunkCount = rows.length
  docCount : m.docCount = countDocuments rows
  centroidSum : m.centroidSum =
    if rows = [] then none else some (elementwiseSum (rows.map Chunk.vector))
  centroid : m.centroid =
    if rows = [] then none else some ((elementwiseSum (rows.map Chunk.vector)).div rows.length)

def State.publishing (s : State ι n) : Option (CollectionMeta n) :=
  match s.turn with
  | some (.publish base vectors docCount) => some (recomputed base vectors docCount)
  | _ => none

/-- **What a recompute writes are the totals of the stored rows**, all along the run. -/
def PublishesTotals [DecidableEq ι] (start : State ι n) (events : List (Event ι n)) : Prop :=
  ∀ before after s m, events = before ++ .publish :: after → run step start before = some s →
    s.publishing = some m → IsTotalOf m s.rows

/-! ### What a recompute notices -/

/-- The counter and the flag that a recompute has read, once it has read the vectors. -/
def awaits : RecomputePc n → Option (ℕ × Bool)
  | .idle | .readMeta _ _ => none
  | .readVectors existing _ | .scanned existing _ _ => some (scannedAt existing)

/-- A recompute that has read the vectors would publish if it found this counter and flag. -/
def State.IsAwaited (s : State ι n) (p : ℕ × Bool) : Prop := ∃ i, awaits (s.recomputes i) = some p

/-- What the counter and the flag may be once the lock is free, if no more rows change. -/
def State.coming (s : State ι n) : List (ℕ × Bool) :=
  match s.turn with
  | none | some (.land _ _ false _) | some (.remove _ _) => [scannedAt s.metadata]
  -- the claim may be released
  | some (.land _ _ true _) => [scannedAt s.metadata, scannedAt (none : Option (CollectionMeta n))]
  | some (.count model isContinuation claimed chunks) =>
    [scannedAt (s.counted model isContinuation claimed chunks)]
  | some (.subtract vectors) => [scannedAt (s.subtracted vectors)]
  | some (.publish base vectors docCount) =>
    [scannedAt (some (recomputed base vectors docCount).stored)]

def State.landing (s : State ι n) : Option (ℕ × Bool) :=
  match s.turn with
  | some (.land model isContinuation claimed chunks) =>
    some (scannedAt (s.counted model isContinuation claimed chunks))
  | _ => none

/-- The document that is about to be deleted, and the counter and the flag that this leaves. -/
def State.removing (s : State ι n) : Option (String × ℕ × Bool) :=
  match s.turn with
  | some (.remove docId vectors) => some (docId, scannedAt (s.subtracted vectors))
  | _ => none

/-- **The steps that a recompute in flight notices.** A batch or a delete does not leave the
counter and the flag as a recompute that has read the vectors awaits them, and neither does a new
claim; rows are pruned only while nothing is awaited that may come, and not from under a recompute
that writes; and a recompute sets the counter and the flag to what another one awaits only if
they have not moved. -/
def Noticed (s : State ι n) : Event ι n → Prop
  | .ingest model _ _ =>
    s.metadata = none → model.isSome = true → ¬ s.IsAwaited (0, true)
  | .land => ∀ p ∈ s.landing, ¬ s.IsAwaited p
  | .remove => ∀ q ∈ s.removing, (∀ c ∈ s.rows, c.docId ≠ q.1) ∨ ¬ s.IsAwaited q.2
  | .prune now docs =>
    (∀ c ∈ s.rows, c.pruned now docs = false) ∨
      s.publishing = none ∧ ∀ p ∈ s.coming, ¬ s.IsAwaited p
  | .recomputeLock i _ =>
    ∀ j, j ≠ i → awaits (s.recomputes j) = some (0, false) → scannedAt s.metadata = (0, false) ∨
      awaits (s.recomputes i) ≠ some (scannedAt s.metadata)
  | _ => True

/-! ### The invariant -/

def Current (rows : List (Chunk n)) : RecomputePc n → Prop
  | .idle | .readMeta _ _ => True
  | .readVectors _ vectors => vectors = rows.map Chunk.vector
  | .scanned _ vectors docCount =>
    vectors = rows.map Chunk.vector ∧ docCount = countDocuments rows

/-- **A recompute whose scan is out of date will find a counter or a flag that has moved.** -/
structure Inv (s : State ι n) : Prop where
  current : ∀ i p, awaits (s.recomputes i) = some p → p ∈ s.coming → Current s.rows (s.recomputes i)
  publishing : ∀ m, s.publishing = some m → IsTotalOf m s.rows

variable {s s' : State ι n} {rows : List (Chunk n)}

theorem inv_of_isStart (h : s.IsStart) : Inv s where
  current i p hp := by
    rw [h.2 i] at hp
    cases hp
  publishing m hm := by
    rw [State.publishing, h.1] at hm
    cases hm

/-- **A scan of the stored rows has their totals.** -/
theorem isTotalOf_recomputed (base : CollectionMeta n) {vectors : List (Vec n)} {docCount : ℕ}
    (hvec : vectors = rows.map Chunk.vector) (hdocs : docCount = countDocuments rows) :
    IsTotalOf (recomputed base vectors docCount) rows := by
  subst hvec hdocs
  constructor
  · exact length_map _
  · rfl
  · simp [recomputed]
  · simp [recomputed]

/-- The rows stay, the lock is not held for a recompute, and nothing new may come. -/
theorem Inv.of_coming (h : Inv s) (hrw : s'.rows = s.rows)
    (hrec : s'.recomputes = s.recomputes) (hpub : s'.publishing = none)
    (hcom : ∀ p ∈ s'.coming, p ∈ s.coming ∨ ¬ s.IsAwaited p) : Inv s' where
  current i p hp hmem := by
    rw [hrec] at hp ⊢
    rw [hrw]
    exact h.current i p hp ((hcom p hmem).resolve_right fun hnot => hnot ⟨i, hp⟩)
  publishing m hm := by
    rw [hpub] at hm
    cases hm

/-- The rows change, and nothing that is awaited may come. -/
theorem inv_of_notAwaited (hrec : s'.recomputes = s.recomputes)
    (hpub : s'.publishing = none) (hcom : ∀ p ∈ s'.coming, ¬ s.IsAwaited p) :
    Inv s' where
  current i p hp hmem := by
    rw [hrec] at hp
    exact absurd ⟨i, hp⟩ (hcom p hmem)
  publishing m hm := by
    rw [hpub] at hm
    cases hm

section Steps

variable [DecidableEq ι] {i j : ι} {pc : RecomputePc n}

@[simp] theorem setRecompute_self : (s.setRecompute i pc).recomputes i = pc := by
  simp [State.setRecompute]

theorem setRecompute_of_ne (h : j ≠ i) : (s.setRecompute i pc).recomputes j = s.recomputes j := by
  simp only [State.setRecompute, Function.update_of_ne h]

/-- A recompute moves on, with a scan of the stored rows if it has one. -/
theorem Inv.setRecompute (h : Inv s)
    (hpc : ∀ p, awaits pc = some p → p ∈ s.coming → Current s.rows pc) :
    Inv (s.setRecompute i pc) where
  current j p hp hm := by
    by_cases hji : j = i
    · subst hji
      rw [setRecompute_self] at hp ⊢
      exact hpc p hp hm
    · rw [setRecompute_of_ne hji] at hp ⊢
      exact h.current j p hp hm
  publishing := h.publishing

omit [DecidableEq ι] in
/-- `ingest_chunks` takes the lock. -/
theorem Inv.beginIngest (h : Inv s) (ht : s.turn = none) {model : Option String}
    (hclaim : s.metadata = none → model.isSome = true → ¬ s.IsAwaited (0, true))
    (isContinuation : Bool) (chunks : List (Chunk n)) :
    Inv (s.beginIngest model isContinuation chunks) := by
  have hcom : s.coming = [scannedAt s.metadata] := by rw [State.coming, ht]
  unfold State.beginIngest
  split
  next name hmeta =>
    refine h.of_coming rfl rfl rfl fun p hp => ?_
    rcases mem_pair.mp hp with rfl | rfl
    · exact Or.inr (hclaim hmeta rfl)
    · rw [hcom, hmeta]
      exact Or.inl (mem_singleton.mpr rfl)
  next =>
    refine h.of_coming rfl rfl rfl fun p hp => Or.inl ?_
    rw [hcom]
    exact hp

/-- **A recompute compares.** -/
theorem Inv.recomputeLock (h : Inv s) (ht : s.turn = none)
    {existing : Option (CollectionMeta n)} {vectors : List (Vec n)} {docCount : ℕ}
    (hpc : s.recomputes i = .scanned existing vectors docCount) (base : CollectionMeta n)
    (hoth : ∀ j, j ≠ i → awaits (s.recomputes j) = some (0, false) →
      scannedAt s.metadata = (0, false))
    (hmov : scannedAt s.metadata = scannedAt existing) :
    Inv { s.setRecompute i .idle with turn := some (.publish base vectors docCount) } := by
  have hcom : scannedAt s.metadata ∈ s.coming := by
    rw [State.coming, ht]
    exact mem_singleton.mpr rfl
  constructor
  · intro j p hp hmem
    obtain rfl := mem_singleton.mp hmem
    by_cases hji : j = i
    · subst hji
      have hidle : awaits ((s.setRecompute j .idle).recomputes j) = none := by
        rw [setRecompute_self]
        rfl
      exact absurd (hidle.symm.trans hp) nofun
    · have hp' : awaits (s.recomputes j) = some (0, false) := by
        rw [← setRecompute_of_ne hji]
        exact hp
      have hcur := h.current j (0, false) hp' (hoth j hji hp' ▸ hcom)
      rw [← setRecompute_of_ne hji] at hcur
      exact hcur
  · intro m hm
    cases hm
    have hcur := h.current i (scannedAt s.metadata) (by rw [hpc, hmov]; rfl) hcom
    rw [hpc] at hcur
    exact isTotalOf_recomputed base hcur.1 hcur.2

/-- **Every noticed step keeps the invariant.** -/
theorem inv_step {e : Event ι n} (h : Inv s) (hnoti : Noticed s e) (hs : step s e = some s') :
    Inv s' := by
  cases e with
  | ingest model isContinuation chunks =>
    obtain ⟨hif, rfl⟩ := of_guard hs
    exact h.beginIngest hif.1 hnoti isContinuation chunks
  | land =>
    simp only [step] at hs
    split at hs
    next model isContinuation claimed chunks ht =>
      cases hs
      refine inv_of_notAwaited rfl rfl fun p hp => ?_
      rw [mem_singleton.mp hp]
      exact hnoti _ (by rw [State.landing, ht]; rfl)
    next => cases hs
  | fail released =>
    simp only [step] at hs
    split at hs
    next model isContinuation claimed chunks ht =>
      cases hs
      refine h.of_coming rfl rfl rfl fun p hp => Or.inl ?_
      rw [mem_singleton.mp hp, State.coming, ht]
      cases claimed <;> cases released <;> simp
    next => cases hs
  | count =>
    simp only [step] at hs
    split at hs
    next ht =>
      cases hs
      refine h.of_coming rfl rfl rfl fun p hp => Or.inl ?_
      rw [State.coming, ht]
      exact hp
    next => cases hs
  | delete docId =>
    obtain ⟨ht, rfl⟩ := of_guard hs
    refine h.of_coming rfl rfl rfl fun p hp => Or.inl ?_
    rw [State.coming, ht]
    exact hp
  | remove =>
    simp only [step] at hs
    split at hs
    next docId vectors ht =>
      have hnoti := hnoti _ (by rw [State.removing, ht]; rfl)
      split_ifs at hs with hn
      · cases hs
        refine h.of_coming rfl rfl rfl fun p hp => Or.inl ?_
        rw [State.coming, ht]
        exact hp
      · cases hs
        refine inv_of_notAwaited rfl rfl fun p hp => ?_
        rw [mem_singleton.mp hp]
        exact hnoti.resolve_left hn
    next => cases hs
  | subtract =>
    simp only [step] at hs
    split at hs
    next ht =>
      cases hs
      refine h.of_coming rfl rfl rfl fun p hp => Or.inl ?_
      rw [State.coming, ht]
      exact hp
    next => cases hs
  | prune now docs =>
    cases hs
    rcases hnoti with hn | ⟨hpub, hcom⟩
    · have hall : s.rows.filter (fun c => !c.pruned now docs) = s.rows := by
        rw [filter_eq_self]
        intro c hc
        simp [hn c hc]
      rw [hall]
      exact ⟨h.current, h.publishing⟩
    · exact inv_of_notAwaited rfl hpub hcom
  | recomputeMeta i force =>
    simp only [step] at hs
    split at hs
    next =>
      split_ifs at hs <;> cases hs
      · exact h
      · exact h.setRecompute fun _ hp => nomatch hp
    next => cases hs
  | recomputeVectors i =>
    simp only [step] at hs
    split at hs
    next =>
      split_ifs at hs <;> cases hs
      · exact h.setRecompute fun _ hp => nomatch hp
      · exact h.setRecompute fun _ _ _ => rfl
    next => cases hs
  | recomputeDocs i =>
    simp only [step] at hs
    split at hs
    next existing vectors hpc =>
      cases hs
      refine h.setRecompute fun p hp hm => ⟨?_, rfl⟩
      have hcur := h.current i p (by rw [hpc]; exact hp) hm
      rw [hpc] at hcur
      exact hcur
    next => cases hs
  | recomputeLock i globalModel =>
    simp only [step] at hs
    split at hs
    next existing vectors docCount ht hpc =>
      split_ifs at hs with hunm <;> cases hs
      · obtain ⟨-, hmov⟩ := (Bool.and_eq_true _ _).mp hunm
        have hmov := of_decide_eq_true hmov
        refine h.recomputeLock ht hpc _ (fun j hji hj => ?_) hmov
        refine (hnoti j hji hj).resolve_right fun hne => hne ?_
        rw [hpc, hmov]
        rfl
      · exact h.setRecompute fun _ hp => nomatch hp
    next => cases hs
  | publish =>
    simp only [step] at hs
    split at hs
    next ht =>
      cases hs
      refine h.of_coming rfl rfl rfl fun p hp => Or.inl ?_
      rw [State.coming, ht]
      exact hp
    next => cases hs

/-- **A recompute publishes the totals of the stored rows**, in every run whose steps are noticed
by the recomputes in flight. -/
theorem publishesTotals_of_noticed {start : State ι n} {events : List (Event ι n)}
    (hstart : start.IsStart) (hnoticed : Along step Noticed start events) :
    PublishesTotals start events := by
  intro before after s m heven hr hm
  have hbef : Along step Noticed start before := (heven ▸ hnoticed).of_append
  have hinv := run_invariant_along (fun _ _ _ hC hI hs => inv_step hI hC hs) hbef
    (inv_of_isStart hstart) hr
  exact hinv.publishing m hm

end Steps

/-! ### A batch that is not noticed -/

def State.empty : State Unit 1 := ⟨[], none, none, fun _ => .idle⟩

theorem isStart_empty : State.empty.IsStart := ⟨rfl, fun _ => rfl⟩

def sampleChunk (docId : String) (x : ℚ) : Chunk 1 := ⟨docId, fun _ => (x : Coord), none⟩

def sampleIngest (docId : String) (x : ℚ) : List (Event Unit 1) :=
  [.ingest (some "m") false [sampleChunk docId x], .land, .count]

def sampleScan : List (Event Unit 1) :=
  [.recomputeMeta () false, .recomputeVectors (), .recomputeDocs ()]

/-- The only document of a collection is ingested again, and another one is ingested while the
totals are recomputed. -/
def crowded : List (Event Unit 1) :=
  sampleIngest "a" 1 ++ [.delete "a", .remove, .subtract] ++ sampleIngest "a" 2 ++ sampleScan ++
    sampleIngest "b" 5 ++ [.recomputeLock () "m", .publish]

def orderly : List (Event Unit 1) :=
  sampleIngest "a" 1 ++ [.delete "a", .remove, .subtract] ++ sampleIngest "a" 2 ++
    sampleIngest "b" 5 ++ sampleScan ++ [.recomputeLock () "m", .publish]

instance [Fintype ι] (s : State ι n) (p : ℕ × Bool) : Decidable (s.IsAwaited p) :=
  inferInstanceAs (Decidable (∃ i, awaits (s.recomputes i) = some p))

instance Noticed.decidable [DecidableEq ι] [Fintype ι] (s : State ι n) (e : Event ι n) :
    Decidable (Noticed s e) := by
  unfold Noticed
  split <;> infer_instance

/-- The other document is counted when the recompute comes after it. -/
theorem publishesTotals_of_noticed_orderly :
    Along step Noticed State.empty orderly ∧ PublishesTotals State.empty orderly := by
  have hnoti : Along step Noticed State.empty orderly := by decide +kernel
  exact ⟨hnoti, publishesTotals_of_noticed isStart_empty hnoti⟩

def State.isStale (s : State Unit 1) : Bool :=
  s.publishing.any fun m => decide (m.chunkCount ≠ s.rows.length)

/-- **A recompute publishes stale totals**: the batch that landed while it scanned found a row
that asked for a recompute already, and left the counter and the flag as they were. -/
theorem publishes_stale :
    ¬ ∀ start : State Unit 1, start.IsStart → ∀ events, PublishesTotals start events := by
  intro h
  obtain ⟨s, hs, hstale⟩ : ∃ s ∈ run step State.empty crowded.dropLast, s.isStale = true := by
    decide +kernel
  obtain ⟨m, hm, hcnt⟩ := (Option.any_eq_true _ _).mp hstale
  exact of_decide_eq_true hcnt (h State.empty isStart_empty crowded _ [] s m rfl hs hm).chunkCount

end ArchonSearch.Store.Recompute
