import ArchonSearch.Import.Task

/-!
# An import is imported exactly once

A run of an import stores batches of documents and writes a checkpoint after each: how many
documents are stored, and how many lines of the archive they were found in. A run that is cut off
leaves batches behind that its checkpoint does not know of. The next run reads them again, and drops
the documents it finds stored until it finds a batch without any.

So the collection may be ahead of the checkpoint, but it is always an initial part of the valid
documents of the archive, in their order: `JobOk`. While the run looks for overlaps it may be ahead
of the run, and after that it is exactly where the run is: `LoopOk`. The counts of the reader and of
the importer together always make up a position in the archive (`ArchonSearch.Lib.Position`).

The interval of the checkpoints may change with every restart, and the collection may have held
anything before: a first run goes on once it has found it absent or dropped it. The result is
`imported_exactly_once`.
-/

namespace ArchonSearch.Import

open Lib Jobs List Option

variable {J δ β : Type*} {S : Setup J δ β} {j : J}

/-! ### The invariant -/

def Setup.lines (S : Setup J δ β) (j : J) : List (Except CorruptReason δ) :=
  nonEmpty (S.archive j).lines

def Setup.valid (S : Setup J δ β) (j : J) : List (Chunk β) :=
  validChunks S.decoder (S.archive j).lines

def Setup.At (S : Setup J δ β) (j : J) (p l : ℕ) : Prop :=
  Position (validChunk? S.decoder) (S.lines j) p l

def State.chunks (s : State J δ β) : List (Chunk β) := s.rows.map Stored.chunk

structure JobOk (S : Setup J δ β) (j : J) (chunks : List (Chunk β)) (job : ImportJob) : Prop where
  unclaimed : job.collectionClaimed = false →
    job.processed = 0 ∧ job.linesConsumed = 0 ∧ job.status ≠ .done
  claimed : job.collectionClaimed = true →
    S.At j job.processed job.linesConsumed ∧ chunks <+: S.valid j ∧ job.processed ≤ chunks.length
  done : job.status = .done → chunks = S.valid j ∧
    ∃ r, job.result = some r ∧ (r.imported : ℤ) + r.skipped = (S.lines j).length

variable {job : ImportJob}

theorem JobOk.mono {chunks chunks' : List (Chunk β)} (h : JobOk S j chunks job)
    (hmore : chunks <+: chunks') (hval : chunks' <+: S.valid j) : JobOk S j chunks' job := by
  refine ⟨h.unclaimed, fun hclm => ?_, fun hd => ?_⟩
  · obtain ⟨hat, -, hle⟩ := h.claimed hclm
    exact ⟨hat, hval, hle.trans hmore.length_le⟩
  · obtain ⟨hchs, hres⟩ := h.done hd
    rw [hchs] at hmore
    exact ⟨hval.eq_of_length_le hmore.length_le, hres⟩

variable {chunks : List (Chunk β)}

/-- A job without a claim says nothing about the collection. -/
theorem JobOk.of_unclaimed (h : JobOk S j chunks job)
    (hclm : job.collectionClaimed = false) (chunks' : List (Chunk β)) :
    JobOk S j chunks' job := by
  refine ⟨h.unclaimed, fun hc => ?_, fun hd => absurd hd (h.unclaimed hclm).2.2⟩
  rw [hclm] at hc
  cases hc

variable {p : Progress}

theorem JobOk.checkpoint (h : JobOk S j chunks job) {n : ℕ} (hat : S.At j p.processed n)
    (hval : chunks <+: S.valid j)
    (hle : p.processed ≤ chunks.length) (hclm : job.collectionClaimed = true) :
    JobOk S j chunks (job.checkpointed p n) := by
  refine ⟨fun hc => ?_, fun _ => ⟨hat, hval, hle⟩, h.done⟩
  rw [show job.collectionClaimed = false from hc] at hclm
  cases hclm

/-- A status other than `DONE` is written. -/
theorem JobOk.setStatus (h : JobOk S j chunks job)
    {status : JobStatus} (hstat : status ≠ .done) (error : Option String) :
    JobOk S j chunks { job with status := status, error := error } := by
  refine ⟨fun hc => ?_, h.claimed, fun hd => absurd hd hstat⟩
  exact ⟨(h.unclaimed hc).1, (h.unclaimed hc).2.1, hstat⟩

theorem JobOk.report (h : JobOk S j chunks job) (hp : p.processed = job.processed) :
    JobOk S j chunks (job.reported p) := by
  have hproc : (job.reported p).processed = job.processed := hp
  refine ⟨fun hc => ?_, fun hc => ?_, h.done⟩
  · rw [hproc]
    exact h.unclaimed hc
  · rw [hproc]
    exact h.claimed hc

theorem JobOk.recovered (h : JobOk S j chunks job) :
    JobOk S j chunks job.recovered := by
  unfold ImportJob.recovered
  split_ifs
  · exact h.setStatus (by decide) _
  · exact h

structure StoreOk (S : Setup J δ β) (j : J) (s : State J δ β) : Prop where
  mem : JobOk S j s.chunks (s.mem j)
  file : JobOk S j s.chunks (s.file j)
  claimed : (s.file j).collectionClaimed = true → (s.mem j).collectionClaimed = true

theorem JobOk.publish (mem file : J → ImportJob)
    (hm : JobOk S j chunks (mem j)) (hf : JobOk S j chunks (file j))
    (hclm : (file j).collectionClaimed = true → (mem j).collectionClaimed = true)
    (outcome : WriteOutcome) : JobOk S j chunks (outcome.publish file mem j) ∧
      ((outcome.publish file mem j).collectionClaimed = true →
        (mem j).collectionClaimed = true) := by
  rcases outcome.publish_eq_or file mem with hp | hp
  · rw [hp]
    exact ⟨hf, hclm⟩
  · rw [hp]
    exact ⟨hm, fun hc => hc⟩

/-- A run may go on from a resume point: the collection has the documents up to it, and no
more if the run does not look for them. -/
structure Ready (S : Setup J δ β) (j : J) (chunks : List (Chunk β)) (r : ResumePoint) : Prop where
  at_position : S.At j r.processed r.skip
  isPrefix : chunks <+: S.valid j
  le : r.processed ≤ chunks.length
  eq : r.isResume = false → chunks.length = r.processed

structure LoopOk (S : Setup J δ β) (j : J) (chunks : List (Chunk β)) (l : Loop δ β) : Prop where
  at_position : S.At j (l.counters.processed + l.batch.length) (l.linesConsumed + l.batch.length)
  batch : ((S.valid j).drop l.counters.processed).take l.batch.length = l.batch
  isPrefix : chunks <+: S.valid j
  le : l.counters.processed ≤ chunks.length
  eq : l.mayOverlap = false → chunks.length = l.counters.processed

def StreamOk (S : Setup J δ β) (j : J) (l : Loop δ β) (last : Bool) : Prop :=
  if last then l.linesConsumed + l.batch.length = (S.lines j).length
  else Remaining (S.onError j) l.docs l.skippedLines
    ((S.lines j).drop (l.linesConsumed + l.batch.length))

def TaskOk (S : Setup J δ β) (j : J) (chunks : List (Chunk β)) (job : ImportJob) :
    Task J δ β → Prop
  | .starting | .failing _ => True
  | .validating r =>
    r.processed = job.processed ∧
      if r.isResume then Ready S j chunks r else job.collectionClaimed = false
  | .checkingAccess g | .locking g | .readingMeta g | .counting g =>
    g = .fresh → job.collectionClaimed = false
  | .dropping _ => job.collectionClaimed = false
  | .deletingMeta => job.collectionClaimed = false ∧ chunks = []
  | .checkingOwner r _ | .claiming r _ _ => Ready S j chunks r
  | .ensuring r _ => job.collectionClaimed = true ∧ Ready S j chunks r
  | .reading l => job.collectionClaimed = true ∧ LoopOk S j chunks l ∧ StreamOk S j l false
  | .probing l last =>
    job.collectionClaimed = true ∧ LoopOk S j chunks l ∧ StreamOk S j l last ∧ l.batch ≠ []
  | .storing l fresh mayOverlap last =>
    job.collectionClaimed = true ∧ chunks <+: S.valid j ∧ StreamOk S j l last ∧
      LoopOk S j (chunks ++ fresh) (l.flushed mayOverlap)
  | .checkpointing l | .checkingCancel l =>
    job.collectionClaimed = true ∧ LoopOk S j chunks l ∧ StreamOk S j l false ∧ l.batch = []
  | .recording l | .indexing l | .finishing l =>
    job.collectionClaimed = true ∧ LoopOk S j chunks l ∧ StreamOk S j l true ∧ l.batch = []

structure Inv (S : Setup J δ β) (j : J) (s : State J δ β) : Prop where
  store : StoreOk S j s
  task : ∀ t, s.tasks j = some t → TaskOk S j s.chunks (s.mem j) t

/-- A server where the job waits for its first run. The collection may be in any state. -/
structure Fresh (j : J) (s : State J δ β) : Prop where
  mem : s.mem j = {}
  file : s.file j = {}
  tasks : s.tasks j = none

theorem inv_fresh {s : State J δ β} (h : Fresh j s) : Inv S j s := by
  have hj : JobOk S j s.chunks {} :=
    ⟨fun _ => ⟨rfl, rfl, by decide⟩, by rintro ⟨⟩, by rintro ⟨⟩⟩
  refine ⟨⟨?_, ?_, ?_⟩, fun t ht => ?_⟩
  · rw [h.mem]
    exact hj
  · rw [h.file]
    exact hj
  · rw [h.file]
    rintro ⟨⟩
  · rw [h.tasks] at ht
    cases ht

/-! ### Resume points -/

theorem processed_resumePoint (job : ImportJob) : (resumePoint job).processed = job.processed := by
  unfold resumePoint
  split_ifs with h
  · rfl
  · obtain ⟨-, h⟩ := not_or.mp h
    exact (Nat.eq_zero_of_not_pos h).symm

theorem taskOk_resumePoint (h : JobOk S j chunks job) :
    if (resumePoint job).isResume then Ready S j chunks (resumePoint job)
    else job.collectionClaimed = false := by
  cases hclm : job.collectionClaimed with
  | false =>
    have hfr : resumePoint job = freshStart := by
      simp [resumePoint, hclm, (h.unclaimed hclm).1]
    rw [hfr, if_neg (show ¬freshStart.isResume = true from Bool.false_ne_true)]
  | true =>
    obtain ⟨hat, hval, hle⟩ := h.claimed hclm
    have hskip : (resumePoint job).skip = job.linesConsumed := by
      simp only [resumePoint, hclm, true_or, if_true]
      exact max_eq_left hat.le
    have hres : (resumePoint job).isResume = true := by simp [resumePoint, hclm]
    rw [if_pos hres]
    refine ⟨?_, hval, ?_, fun hfr => ?_⟩
    · rw [processed_resumePoint, hskip]
      exact hat
    · rw [processed_resumePoint]
      exact hle
    · rw [hres] at hfr
      cases hfr

theorem ready_freshStart (h : chunks = []) :
    Ready S j chunks freshStart := by
  subst h
  exact ⟨Position.zero _ _, nil_prefix, le_rfl, fun _ => rfl⟩

/-! ### Batches -/

@[simp] theorem Loop.processed_flushed (l : Loop δ β) (mayOverlap : Bool) :
    (l.flushed mayOverlap).counters.processed = l.counters.processed + l.batch.length :=
  (Nat.add_assoc _ _ _).symm

@[simp] theorem Loop.batch_flushed (l : Loop δ β) (mayOverlap : Bool) :
    (l.flushed mayOverlap).batch = [] := rfl

@[simp] theorem Loop.linesConsumed_flushed (l : Loop δ β) (mayOverlap : Bool) :
    (l.flushed mayOverlap).linesConsumed = l.linesConsumed + l.batch.length := by
  simp only [Loop.linesConsumed, Loop.flushed, ImportCounters.linesConsumed]
  omega

theorem linesConsumed_rejected (l : Loop δ β) :
    l.rejected.linesConsumed = l.linesConsumed + 1 := by
  simp only [Loop.linesConsumed, Loop.rejected, ImportCounters.linesConsumed]
  omega

variable {l : Loop δ β} {mayOverlap : Bool}

/-- The loop after a batch, once the collection has the documents of the batch. -/
theorem LoopOk.flushed (h : LoopOk S j chunks l)
    {chunks' : List (Chunk β)} {n : ℕ} (hchs : chunks' = (S.valid j).take n)
    (hle : l.counters.processed + l.batch.length ≤ n)
    (heq : mayOverlap = false → n = l.counters.processed + l.batch.length) :
    LoopOk S j chunks' (l.flushed mayOverlap) := by
  have hlen := h.at_position.le_length
  rw [show (S.lines j).filterMap (validChunk? S.decoder) = S.valid j from rfl] at hlen
  subst hchs
  refine ⟨?_, rfl, take_prefix _ _, ?_, fun hover => ?_⟩
  · simpa using h.at_position
  · simp only [Loop.processed_flushed, length_take]
    omega
  · simp only [Loop.processed_flushed, length_take, heq hover]
    omega

/-- A run that looks for overlaps stores the chunks it does not find, and has not to look
any further once it finds none. -/
theorem LoopOk.overlap (h : LoopOk S j chunks l)
    (hks : ((S.valid j).map Chunk.chunkId).Nodup) (hbat : l.batch ≠ [])
    (hover : mayOverlap = false → ∀ c ∈ l.batch, c.chunkId ∉ chunks.map Chunk.chunkId) :
    LoopOk S j (chunks ++ l.batch.filter fun c => c.chunkId ∉ chunks.map Chunk.chunkId)
      (l.flushed mayOverlap) := by
  obtain ⟨k, hk, hchs⟩ : ∃ k, k = chunks.length ∧ chunks = (S.valid j).take k :=
    ⟨_, rfl, prefix_iff_eq_take.mp h.isPrefix⟩
  have hpk : l.counters.processed ≤ k := hk ▸ h.le
  have hclose := take_append_filter (n := l.batch.length) hks hpk
  rw [h.batch, ← hchs] at hclose
  refine h.flushed hclose (le_max_right _ _) fun hn => ?_
  -- the first chunk of the batch would be found if more than those processed were stored
  obtain ⟨c, rest, hc⟩ := exists_cons_of_ne_nil hbat
  have hkp : ¬l.counters.processed < k := by
    intro hlt
    refine hover hn c (hc ▸ mem_cons_self) ?_
    rw [hchs]
    exact key_mem_take hlt (h.batch.trans hc)
  omega

/-- A run that does not look for overlaps stores the whole batch. -/
theorem LoopOk.noOverlap (h : LoopOk S j chunks l)
    (hover : l.mayOverlap = false) : LoopOk S j (chunks ++ l.batch) (l.flushed false) := by
  have hchs : chunks = (S.valid j).take l.counters.processed := by
    rw [← h.eq hover]
    exact prefix_iff_eq_take.mp h.isPrefix
  refine h.flushed (n := l.counters.processed + l.batch.length) ?_ le_rfl fun _ => rfl
  rw [take_add, h.batch, ← hchs]

/-- What `_store_batch_reporting_overlap` stores of a batch, and what it returns. -/
theorem LoopOk.probed {rows : List (Stored J β)}
    (h : LoopOk S j (rows.map Stored.chunk) l) (hks : ((S.valid j).map Chunk.chunkId).Nodup)
    (hbat : l.batch ≠ []) :
    let stored := (l.batch.map Chunk.chunkId).filter fun id =>
      id ∈ rows.map fun row => row.chunk.chunkId
    LoopOk S j (rows.map Stored.chunk ++ l.batch.filter fun c => c.chunkId ∉ stored)
      (l.flushed !stored.isEmpty) := by
  intro stored
  have hids : (rows.map fun row => row.chunk.chunkId) =
      (rows.map Stored.chunk).map Chunk.chunkId := by
    rw [List.map_map]
    rfl
  have hsto : ∀ c ∈ l.batch,
      (c.chunkId ∈ stored ↔ c.chunkId ∈ (rows.map Stored.chunk).map Chunk.chunkId) := by
    intro c hc
    rw [mem_filter, decide_eq_true_iff, hids]
    exact and_iff_right (List.mem_map_of_mem hc)
  have hfil : (l.batch.filter fun c => c.chunkId ∉ stored) =
      l.batch.filter fun c => c.chunkId ∉ (rows.map Stored.chunk).map Chunk.chunkId :=
    filter_congr fun c hc => decide_eq_decide.mpr (not_congr (hsto c hc))
  rw [hfil]
  refine h.overlap hks hbat fun hn c hc hm => ?_
  have hemp : stored = [] := by simpa using hn
  have hc' := (hsto c hc).mpr hm
  rw [hemp] at hc'
  cases hc'

/-- Lines without a valid document are passed over. -/
theorem LoopOk.skip (h : LoopOk S j chunks l)
    (l' : Loop δ β) {skipped rest : List (Except CorruptReason δ)}
    (hrs : (S.lines j).drop (l.linesConsumed + l.batch.length) = skipped ++ rest)
    (hskip : skipped.filterMap (validChunk? S.decoder) = [])
    (hproc : l'.counters.processed = l.counters.processed) (hbat : l'.batch = l.batch)
    (hover : l'.mayOverlap = l.mayOverlap)
    (hcon : l'.linesConsumed = l.linesConsumed + skipped.length) :
    LoopOk S j chunks l' ∧ (S.lines j).drop (l'.linesConsumed + l'.batch.length) = rest := by
  obtain ⟨hat, hd⟩ := h.at_position.skip hrs hskip
  have hlns : l'.linesConsumed + l'.batch.length =
      l.linesConsumed + l.batch.length + skipped.length := by
    rw [hcon, hbat]
    omega
  rw [← hlns] at hat hd
  refine ⟨⟨?_, ?_, h.isPrefix, ?_, ?_⟩, hd⟩
  · rw [hproc]
    rw [hbat] at hat ⊢
    exact hat
  · rw [hproc, hbat]
    exact h.batch
  · rw [hproc]
    exact h.le
  · rw [hproc, hover]
    exact h.eq

theorem LoopOk.pushed (h : LoopOk S j chunks l) {d : δ}
    {chunk : Chunk β} {rest : List (Except CorruptReason δ)}
    (hrs : (S.lines j).drop (l.linesConsumed + l.batch.length) = .ok d :: rest)
    (hd : validChunk? S.decoder (.ok d) = some chunk) :
    LoopOk S j chunks (l.pushed chunk) ∧
      (S.lines j).drop ((l.pushed chunk).linesConsumed + (l.pushed chunk).batch.length) = rest := by
  obtain ⟨hat, hdr, htake⟩ := h.at_position.found hrs hd
  have hlen : (l.pushed chunk).batch.length = l.batch.length + 1 := length_append
  refine ⟨⟨?_, ?_, h.isPrefix, h.le, h.eq⟩, ?_⟩
  · rw [hlen]
    exact hat
  · have hcan : (S.valid j).take l.counters.processed ++
        ((S.valid j).drop l.counters.processed).take (l.batch.length + 1) =
        (S.valid j).take l.counters.processed ++ (l.batch ++ [chunk]) := by
      rw [← take_add, ← append_assoc, ← Nat.add_assoc]
      conv_rhs => rw [← h.batch, ← take_add]
      exact htake
    rw [hlen]
    exact append_cancel_left hcan
  · rw [hlen]
    exact hdr

/-- Everything is stored at the end of the archive. -/
theorem LoopOk.complete (h : LoopOk S j chunks l)
    (hbat : l.batch = []) (he : StreamOk S j l true) :
    chunks = S.valid j ∧ l.linesConsumed = (S.lines j).length := by
  have hlns : l.linesConsumed = (S.lines j).length := by
    have he' : l.linesConsumed + l.batch.length = (S.lines j).length := he
    rwa [hbat, length_nil, Nat.add_zero] at he'
  have hproc := h.at_position.eq_length (by rw [hbat, hlns]; rfl)
  rw [hbat, length_nil, Nat.add_zero] at hproc
  exact ⟨h.isPrefix.eq_of_length_le (hproc ▸ h.le), hlns⟩

/-! ### The parts of a step -/

variable [DecidableEq J] {s : State J δ β}

@[simp] theorem State.mem_update_self (s : State J δ β) (k : J) (outcome : WriteOutcome)
    (fields : ImportJob → ImportJob) : (s.update k outcome fields).mem k = fields (s.mem k) :=
  Function.update_self k _ s.mem

variable {fields : ImportJob → ImportJob}

theorem StoreOk.update (h : StoreOk S j s) {k : J} (outcome : WriteOutcome)
    (hflds : k = j → JobOk S j s.chunks (fields (s.mem j)) ∧
      ((s.mem j).collectionClaimed = true → (fields (s.mem j)).collectionClaimed = true)) :
    StoreOk S j (s.update k outcome fields) := by
  have hm : JobOk S j s.chunks (Function.update s.mem k (fields (s.mem k)) j) ∧
      ((s.mem j).collectionClaimed = true →
        (Function.update s.mem k (fields (s.mem k)) j).collectionClaimed = true) := by
    by_cases hk : k = j
    · subst hk
      rw [Function.update_self]
      exact hflds rfl
    · rw [Function.update_of_ne (Ne.symm hk)]
      exact ⟨h.mem, fun hc => hc⟩
  have hf := hm.1.publish _ _ h.file (fun hc => hm.2 (h.claimed hc)) outcome
  exact ⟨hm.1, hf.1, hf.2⟩

theorem StoreOk.disturb (h : StoreOk S j s) : StoreOk S j (s.disturb j) :=
  ⟨h.mem, h.file, h.claimed⟩

variable {t : Task J δ β}

theorem inv_goto (h : StoreOk S j s) (ht : TaskOk S j s.chunks (s.mem j) t) :
    Inv S j (s.goto j t) := by
  refine ⟨⟨h.mem, h.file, h.claimed⟩, fun t' ht' => ?_⟩
  obtain rfl : t = t' := by simpa [State.goto] using ht'
  exact ht

theorem inv_fail (h : StoreOk S j s) (error : String) : Inv S j (s.fail j error) :=
  inv_goto (s := s.release j) ⟨h.mem, h.file, h.claimed⟩ trivial

variable {outcome : WriteOutcome}

theorem inv_updateThen {k : J}
    {next : Task J δ β} (h : StoreOk S j (s.update k outcome fields))
    (hx : TaskOk S j s.chunks ((s.update k outcome fields).mem j) next) :
    Inv S j (s.updateThen j k outcome fields next) := by
  unfold State.updateThen
  split_ifs
  · exact inv_fail h _
  · exact inv_goto h hx

theorem inv_updateLast
    (h : StoreOk S j (s.update j outcome fields)) : Inv S j (s.updateLast j outcome fields) := by
  unfold State.updateLast
  split_ifs
  · exact inv_fail h _
  · refine ⟨⟨h.mem, h.file, h.claimed⟩, fun t ht => ?_⟩
    simp at ht

/-! ### Validating -/

theorem inv_passed (h : StoreOk S j s) (hchs : s.chunks = []) : Inv S j (S.passed s j) := by
  unfold Setup.passed
  split
  · exact inv_fail h _
  · exact inv_goto (s := s.release j) ⟨h.mem, h.file, h.claimed⟩ (ready_freshStart hchs)

theorem inv_exists {g : Guard} (h : StoreOk S j s)
    (hg : g = .fresh → (s.mem j).collectionClaimed = false) (hasMeta : Bool) :
    Inv S j (S.exists? s j g hasMeta) := by
  unfold Setup.exists?
  split_ifs with hd
  · split
    · exact inv_fail h _
    · refine inv_goto h (hg ?_)
      -- only a fresh run may drop
      cases g with
      | fresh => rfl
      | restart => cases hd
  · exact inv_fail h _

/-- The chunk table is dropped by a run that has no claim. -/
theorem StoreOk.drop (h : StoreOk S j s) (hclm : (s.mem j).collectionClaimed = false) :
    StoreOk S j ({ s with table := none }.disturb j) := by
  have hf : (s.file j).collectionClaimed = false := by
    by_contra hc
    rw [h.claimed (Bool.of_not_eq_false hc)] at hclm
    cases hclm
  exact ⟨h.mem.of_unclaimed hclm _, h.file.of_unclaimed hf _, h.claimed⟩

/-! ### Ingesting -/

variable {r : ResumePoint}

theorem inv_ingest (h : StoreOk S j s)
    (hclm : (s.mem j).collectionClaimed = true) (hr : Ready S j s.chunks r)
    (embeddingDim : Option ℕ) : Inv S j (S.ingest s j r embeddingDim) := by
  refine inv_goto h ⟨hclm, ⟨hr.at_position, ?_, hr.isPrefix, hr.le, hr.eq⟩, ?_⟩
  · exact take_zero
  · exact remaining_iterDocs (S.archive j).lines r.skip (S.onError j)

variable {last : Bool}

theorem inv_store (h : StoreOk S j s)
    (hclm : (s.mem j).collectionClaimed = true) (hlp : LoopOk S j s.chunks l)
    (hstream : StreamOk S j l last) (hbat : l.batch ≠ []) : Inv S j (s.store j l last) := by
  unfold State.store
  split_ifs with hover
  · exact inv_goto h ⟨hclm, hlp, hstream, hbat⟩
  · refine inv_goto h ⟨hclm, hlp.isPrefix, hstream, hlp.noOverlap ?_⟩
    exact Bool.of_not_eq_true hover

theorem inv_read (h : StoreOk S j s)
    (hclm : (s.mem j).collectionClaimed = true) (hlp : LoopOk S j s.chunks l)
    (hstream : StreamOk S j l false) : Inv S j (S.read s j l) := by
  have hrem : Remaining (S.onError j) l.docs l.skippedLines
      ((S.lines j).drop (l.linesConsumed + l.batch.length)) := hstream
  unfold Setup.read
  split
  · exact inv_fail h _
  · -- the end of the archive: the lines that were left are all corrupt
    rename_i n hdocs
    rw [hdocs] at hrem
    obtain ⟨hn, hnn⟩ := hrem.of_done S.decoder
    obtain ⟨hlp', hd⟩ := hlp.skip (l.advanced (.done n) n) (append_nil _).symm
      hnn rfl rfl rfl (by
        rw [hn]
        exact (Nat.add_assoc _ _ _).symm)
    have he : StreamOk S j (l.advanced (.done n) n) true :=
      le_antisymm hlp'.at_position.1 (drop_eq_nil_iff.mp hd)
    split_ifs with hbat
    · exact inv_goto h ⟨hclm, hlp', he, hbat⟩
    · exact inv_store h hclm hlp' he hbat
  · -- a document, after corrupt lines
    rename_i d lineNumber n docs hdocs
    rw [hdocs] at hrem
    obtain ⟨corrupt, rest, hrs, hcor, hn, hdocs'⟩ := hrem.of_yielded S.decoder
    obtain ⟨hlp', hd⟩ := hlp.skip (l.advanced docs n) hrs hcor rfl rfl rfl (by
      rw [hn]
      exact (Nat.add_assoc _ _ _).symm)
    dsimp only
    split
    · rename_i chunk hdec
      obtain ⟨hpus, hd'⟩ := hlp'.pushed hd (validChunk?_of_ok hdec)
      have hstream' : StreamOk S j ((l.advanced docs n).pushed chunk) false := by
        show Remaining (S.onError j) docs n _
        rw [hd']
        exact hdocs'
      split_ifs
      · exact inv_store h hclm hpus hstream' (by simp [Loop.pushed])
      · exact inv_goto h ⟨hclm, hpus, hstream'⟩
    · exact inv_fail h _
    · rename_i r hr hdec _
      have hnn : [Except.ok d].filterMap (validChunk? S.decoder) = [] := by
        rw [filterMap_cons_none (validChunk?_of_error hdec hr), filterMap_nil]
      obtain ⟨hrej, hd'⟩ := hlp'.skip (l.advanced docs n).rejected hd hnn
        rfl rfl rfl (linesConsumed_rejected _)
      have hstream' : StreamOk S j (l.advanced docs n).rejected false := by
        show Remaining (S.onError j) docs n _
        rw [hd']
        exact hdocs'
      exact inv_goto h ⟨hclm, hrej, hstream'⟩
    · exact inv_fail h _

theorem chunks_append (s : State J δ β) (j : J) (ns : String) (chunks : List (Chunk β)) :
    (s.append j ns chunks).chunks = s.chunks ++ chunks := by
  simp [State.chunks, State.rows, State.append, map_append, List.map_map, Function.comp_def]

theorem StoreOk.append (h : StoreOk S j s) (ns : String)
    (hval : s.chunks ++ chunks <+: S.valid j) : StoreOk S j (s.append j ns chunks) := by
  have hmore : s.chunks <+: s.chunks ++ chunks := prefix_append _ _
  refine ⟨?_, ?_, h.claimed⟩
  · rw [chunks_append]
    exact h.mem.mono hmore hval
  · rw [chunks_append]
    exact h.file.mono hmore hval

theorem inv_stored (h : StoreOk S j s)
    (hclm : (s.mem j).collectionClaimed = true) (hstream : StreamOk S j l last)
    (hlp : LoopOk S j s.chunks (l.flushed mayOverlap)) :
    Inv S j (s.stored j l mayOverlap last) := by
  have hstream' : StreamOk S j (l.flushed mayOverlap) last := by
    unfold StreamOk at hstream ⊢
    rw [Loop.linesConsumed_flushed, Loop.batch_flushed]
    exact hstream
  cases last with
  | true => exact inv_goto h ⟨hclm, hlp, hstream', rfl⟩
  | false => exact inv_goto h ⟨hclm, hlp, hstream', rfl⟩

theorem StoreOk.checkpoint (h : StoreOk S j s)
    (hclm : (s.mem j).collectionClaimed = true) (hlp : LoopOk S j s.chunks l)
    (hbat : l.batch = []) (outcome : WriteOutcome) (phase : Phase) :
    StoreOk S j (s.update j outcome fun job => job.checkpointed
      ⟨l.counters.processed, (S.archive j).docCount, phase⟩ l.linesConsumed) := by
  have hat := hlp.at_position
  rw [hbat] at hat
  exact h.update outcome fun _ =>
    ⟨h.mem.checkpoint hat hlp.isPrefix hlp.le hclm, fun hc => hc⟩

theorem inv_claim {embeddingDim : Option ℕ} {others : List J} (h : StoreOk S j s)
    (hr : Ready S j s.chunks r) (o : WriteOutcome) :
    Inv S j (S.claim s j r embeddingDim others o) := by
  unfold Setup.claim
  split
  · -- the claim of another job is revoked; nothing the invariant speaks of changes
    refine inv_updateThen (h.update o fun _ => ⟨?_, fun hc => hc⟩) hr
    exact ⟨h.mem.unclaimed, h.mem.claimed, h.mem.done⟩
  have hj : JobOk S j s.chunks
      ((s.mem j).claimed ⟨r.processed, (S.archive j).docCount, .validating⟩ r.skip) :=
    ⟨by rintro ⟨⟩, fun _ => ⟨hr.at_position, hr.isPrefix, hr.le⟩, h.mem.done⟩
  have hupd : StoreOk S j (s.update j o fun job =>
      job.claimed ⟨r.processed, (S.archive j).docCount, .validating⟩ r.skip) :=
    h.update o fun _ => ⟨hj, fun _ => rfl⟩
  have hclm : ((s.update j o fun job =>
      job.claimed ⟨r.processed, (S.archive j).docCount, .validating⟩ r.skip).mem
        j).collectionClaimed = true := by
    rw [State.mem_update_self]
    rfl
  have hdis := hupd.disturb
  split_ifs
  · exact inv_fail hdis _
  · split
    · exact inv_goto hdis ⟨hclm, hr⟩
    · exact inv_ingest hdis hclm hr none

/-! ### One step of a run -/

variable {s' : State J δ β}

theorem inv_writes {o : WriteOutcome} (h : StoreOk S j s)
    (ht : TaskOk S j s.chunks (s.mem j) t) (hs : S.taskStep s j t (.writes o) = some s') :
    Inv S j s' := by
  cases t with
  | starting =>
    cases hs
    refine inv_updateThen (h.update o fun _ => ⟨?_, fun hc => hc⟩) ?_
    · exact h.mem.report (processed_resumePoint (s.mem j))
    · rw [State.mem_update_self]
      exact ⟨rfl, taskOk_resumePoint h.mem⟩
  | validating r =>
    cases hs
    obtain ⟨hproc, hrd⟩ := ht
    have hupd : StoreOk S j (s.update j o fun job =>
        job.reported ⟨r.processed, (S.archive j).docCount, .validating⟩) :=
      h.update o fun _ => ⟨h.mem.report hproc, fun hc => hc⟩
    dsimp only [Setup.validated]
    split_ifs with hrais hres
    · exact inv_fail hupd _
    · rw [if_pos hres] at hrd
      split
      · exact inv_fail hupd _
      · exact inv_goto hupd (by rintro ⟨⟩)
      · exact inv_goto hupd hrd
    · rw [if_neg hres] at hrd
      refine inv_goto hupd fun _ => ?_
      rw [State.mem_update_self]
      exact hrd
  | claiming r dim others =>
    cases hs
    exact inv_claim h ht o
  | checkpointing l =>
    cases hs
    obtain ⟨hclm, hlp, hstream, hbat⟩ := ht
    refine inv_updateThen (h.checkpoint hclm hlp hbat o .ingesting) ?_
    rw [State.mem_update_self]
    exact ⟨hclm, hlp, hstream, hbat⟩
  | checkingCancel l =>
    obtain ⟨-, rfl⟩ := of_guard hs
    exact inv_updateLast (h.update o fun _ => ⟨h.mem.setStatus (by decide) _, fun hc => hc⟩)
  | recording l =>
    cases hs
    obtain ⟨hclm, hlp, hstream, hbat⟩ := ht
    refine inv_updateThen (h.checkpoint hclm hlp hbat o .indexing) ?_
    rw [State.mem_update_self]
    exact ⟨hclm, hlp, hstream, hbat⟩
  | finishing l =>
    simp only [Setup.taskStep] at hs
    split_ifs at hs
    · cases hs
      exact inv_updateLast (h.update o fun _ => ⟨h.mem.setStatus (by decide) _, fun hc => hc⟩)
    cases hs
    obtain ⟨hclm, hlp, hstream, hbat⟩ := ht
    obtain ⟨hcom, hlns⟩ := hlp.complete hbat hstream
    refine inv_updateLast (h.update o fun _ => ⟨⟨fun hc => ?_, h.mem.claimed, fun _ => ?_⟩,
      fun hc => hc⟩)
    · rw [show (s.mem j).collectionClaimed = false from hc] at hclm
      cases hclm
    · refine ⟨hcom, _, rfl, ?_⟩
      show (l.counters.processed : ℤ) + (l.linesConsumed - l.counters.processed) = _
      omega
  | failing e =>
    cases hs
    have hupd : StoreOk S j (s.update j o fun job =>
        { job with status := .failed, error := some e }) :=
      h.update o fun _ => ⟨h.mem.setStatus (by decide) _, fun hc => hc⟩
    refine ⟨⟨hupd.mem, hupd.file, hupd.claimed⟩, fun t ht => ?_⟩
    simp at ht
  | _ => cases hs

theorem inv_returns (hks : ((S.valid j).map Chunk.chunkId).Nodup) (h : StoreOk S j s)
    (ht : TaskOk S j s.chunks (s.mem j) t)
    (hs : S.Returns s j t s') : Inv S j s' := by
  cases hs with
  | refused e => exact inv_fail h e
  | available g =>
    split_ifs
    · exact inv_goto h ht
    · exact inv_goto h ht
  | locked g hl => exact inv_goto (s := { s with lock := some j }) ⟨h.mem, h.file, h.claimed⟩ ht
  | hasMeta g => exact inv_exists h ht true
  | noMeta g => exact inv_goto h ht
  | absent g hrw =>
    have hchs : s.chunks = [] := by
      rw [State.chunks, hrw]
      rfl
    exact inv_passed h hchs
  | present g => exact inv_exists h ht false
  | droppedTable => exact inv_goto (h.drop ht) ⟨ht, rfl⟩
  | dropped => exact inv_passed (h.drop ht) rfl
  | deletedMeta =>
    exact inv_passed (s := { s with owners := s.owners.erase (S.ns j) })
      ⟨h.mem, h.file, h.claimed⟩ ht.2
  | owner r c hrev hr => exact inv_goto h ht
  | notOwner r c => exact inv_goto h (by rintro ⟨⟩)
  | ensured r dim =>
    exact inv_ingest (s := { s with table := some s.rows }) ⟨h.mem, h.file, h.claimed⟩ ht.1 ht.2 _
  | read l => exact inv_read h ht.1 ht.2.1 ht.2.2
  | probed l last stored hsto =>
    subst hsto
    obtain ⟨hclm, hlp, hstream, hbat⟩ := ht
    exact inv_goto h ⟨hclm, hlp.isPrefix, hstream, hlp.probed hks hbat⟩
  | nothing l mayOverlap last =>
    obtain ⟨hclm, hval, hstream, hlp⟩ := ht
    rw [append_nil] at hlp
    exact inv_stored h hclm hstream hlp
  | appended l fresh mayOverlap last =>
    obtain ⟨hclm, hval, hstream, hlp⟩ := ht
    refine inv_stored (h.append (S.ns j) hlp.isPrefix) hclm hstream ?_
    rw [chunks_append]
    exact hlp
  | continued l => exact inv_goto h ⟨ht.1, ht.2.1, ht.2.2.1⟩
  | indexed l owners =>
    exact inv_goto (s := { s with owners := owners }) ⟨h.mem, h.file, h.claimed⟩ ht

theorem inv_taskStep (hks : ((S.valid j).map Chunk.chunkId).Nodup)
    {choice : Choice} (h : StoreOk S j s)
    (ht : TaskOk S j s.chunks (s.mem j) t) (hs : S.taskStep s j t choice = some s') :
    Inv S j s' := by
  cases choice with
  | returns => exact inv_returns hks h ht (Setup.returns_of_taskStep hs)
  | writes o => exact inv_writes h ht hs
  | raises e residue =>
    obtain ⟨owners, rfl⟩ := Setup.taskStep_raises hs
    exact inv_fail (s := { s with owners := owners }) ⟨h.mem, h.file, h.claimed⟩ e
  | raisesAfter e =>
    rcases Setup.taskStep_raisesAfter hs with ⟨hasMeta, rfl, rfl⟩ | ⟨rfl, rfl⟩ |
      ⟨r, dim, rfl, rfl⟩ | ⟨l, fresh, mayOverlap, last, rfl, rfl⟩
    · exact inv_fail (h.drop ht) e
    · exact inv_fail (s := { s with owners := s.owners.erase (S.ns j) })
        ⟨h.mem, h.file, h.claimed⟩ e
    · exact inv_fail (s := { s with table := some s.rows }) ⟨h.mem, h.file, h.claimed⟩ e
    · exact inv_fail (h.append (S.ns j) ht.2.2.2.isPrefix) e

/-! ### Runs -/

/-- The event is one of this import, or a restart. -/
def Event.concerns (j : J) : Event J → Prop
  | .dispatch k _ _ | .resume k _ _ | .cancel k _ _ | .task k _ => k = j
  | .restart _ _ => True

/-- A change of the status by a request or by the scheduler. -/
theorem inv_transition (h : Inv S j s) (status : JobStatus) (hstat : status ≠ .done)
    (outcome rewrite : WriteOutcome) : Inv S j (s.transition j status outcome rewrite).1 := by
  have hj : JobOk S j s.chunks { s.mem j with status := status } :=
    h.store.mem.setStatus hstat _
  have hupd : StoreOk S j (s.update j outcome fun job => { job with status := status }) :=
    h.store.update outcome fun _ => ⟨hj, fun hc => hc⟩
  unfold State.transition
  split_ifs
  · -- the write raised: memory is as before, and the file is rewritten or not
    have hclm := hupd.claimed
    rw [State.mem_update_self] at hclm
    have hf := h.store.mem.publish _ _ hupd.file hclm rewrite
    exact ⟨⟨h.store.mem, hf.1, hf.2⟩, h.task⟩
  · refine ⟨hupd, fun t ht => ?_⟩
    have htask := h.task t ht
    rw [State.mem_update_self]
    cases t <;> exact htask

theorem inv_step (hks : ((S.valid j).map Chunk.chunkId).Nodup) {e : Event J} (he : e.concerns j)
    (h : Inv S j s) (hs : S.step s e = some s') :
    Inv S j s' := by
  cases e with
  | dispatch k outcome rewrite =>
    obtain rfl : k = j := he
    simp only [Setup.step] at hs
    split_ifs at hs
    have htran := inv_transition h .running (by decide) outcome rewrite
    split at hs
    · rename_i s₁ heq
      rw [heq] at htran
      cases hs
      exact inv_goto htran.store trivial
    · rename_i s₁ heq
      rw [heq] at htran
      cases hs
      exact htran
  | resume k outcome rewrite | cancel k outcome rewrite =>
    obtain rfl : k = j := he
    obtain ⟨-, rfl⟩ := of_guard hs
    exact inv_transition h _ (by decide) outcome rewrite
  | task k choice =>
    obtain rfl : k = j := he
    simp only [Setup.step] at hs
    split at hs
    · rename_i t ht
      exact inv_taskStep hks h.store (h.task t ht) hs
    · cases hs
  | restart outcome checkpointInterval =>
    cases hs
    have hclm : (s.file j).collectionClaimed = true →
        (s.file j).recovered.collectionClaimed = true := by
      unfold ImportJob.recovered
      split_ifs <;> exact fun hc => hc
    have hf := JobOk.publish (fun k => (s.file k).recovered) s.file h.store.file.recovered
      h.store.file hclm outcome
    exact ⟨⟨h.store.file.recovered, hf.1, hf.2⟩, by rintro t ⟨⟩⟩

/-- **An import is imported exactly once.** Let the documents of an archive that decode have
distinct `chunk_id`s, and let only runs of its import write the collection: each of them cut
off wherever it pleases – by the death of the process, by a call that raises with or without
its effect, by a write of the job store that fails, by a cancel – and followed by the next
one. When one of them reaches `DONE`, the collection has exactly the valid documents, each
once and in their order, and the imported and skipped counts add up to the non-empty lines. -/
theorem imported_exactly_once (S : Setup J δ β) (j : J) (s₀ s : State J δ β)
    (events : List (Event J)) (hkeys : ((S.valid j).map Chunk.chunkId).Nodup)
    (hfresh : Fresh j s₀) (hevents : ∀ e ∈ events, e.concerns j)
    (hrun : run S.step s₀ events = some s) (hdone : (s.mem j).status = .done) :
    s.chunks = S.valid j ∧
      ∃ r, (s.mem j).result = some r ∧ (r.imported : ℤ) + r.skipped = (S.lines j).length := by
  have hinv : Inv S j s := run_invariant_along (C := fun _ e => e.concerns j) (I := Inv S j)
    (fun _ _ _ he h hs => inv_step hkeys he h hs) (along_of_forall hevents)
    (inv_fresh hfresh) hrun
  exact hinv.store.mem.done hdone

/-! ### An import that is cut off after its first batch -/

/-- Documents that are their own `chunk_id`, with a vector of one component. -/
def sampleDecoder : Decoder String Unit where
  words _ := some [0#32]
  fields d := .ok (d, "2026-01-01T00:00:00+00:00", ())

/-- Two imports of one collection: two documents with a corrupt line between them, and one
document. -/
def sampleSetup : Setup Bool String Unit where
  decoder := sampleDecoder
  collection := "docs"
  ids := [false, true]
  mem_ids := by decide
  jobId j := if j then "b" else "a"
  ns _ := "default"
  archive j :=
    if j then ⟨1, false, [.text (.ok "b1")]⟩
    else ⟨2, false, [.text (.ok "a1"), .text (.error .notJson), .text (.ok "a2")]⟩
  forceOverwrite _ := false
  onError _ := .skip

def sampleState : State Bool String Unit where
  mem _ := {}
  file _ := {}
  tasks _ := none
  owners := []
  table := none
  lock := none
  checkpointInterval := 1
  disturbed _ := false

/-- The first import stores a batch, and the process dies before its checkpoint. The next
process, with a larger interval, resumes it and finds the batch. -/
def sampleEvents : List (Event Bool) :=
  let returns : Event Bool := .task false .returns
  let writes : Event Bool := .task false (.writes .written)
  [.dispatch false .written .written, writes, writes, returns, returns, returns, writes, writes,
    returns, returns, returns, .restart .written 2,
    .resume false .written .written, .dispatch false .written .written, writes, writes, returns,
    writes, returns, returns, returns, returns, returns, writes, returns, returns, writes, returns,
    writes]

/-- It ends with both documents stored once, and one line skipped. -/
theorem imported_exactly_once_resumed :
    ∃ s, run sampleSetup.step sampleState sampleEvents = some s ∧
      (s.mem false).status = .done ∧ (s.mem false).result = some ⟨2, 1, 2⟩ ∧
      s.chunks.map Chunk.chunkId = ["a1", "a2"] ∧ s.chunks = sampleSetup.valid false ∧
      ∃ r, (s.mem false).result = some r ∧
        (r.imported : ℤ) + r.skipped = (sampleSetup.lines false).length := by
  refine ⟨_, rfl, rfl, rfl, rfl, ?_⟩
  refine imported_exactly_once sampleSetup false sampleState _ sampleEvents ?_ ⟨rfl, rfl, rfl⟩ ?_
    rfl rfl
  · decide
  · simp [sampleEvents, Event.concerns]

end ArchonSearch.Import
