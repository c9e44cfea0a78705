import ArchonSearch.Import.ExactlyOnce

/-!
# Where rows come from

Whatever the runs of the imports do to each other, a row that an import wrote is a valid document
of its archive: `inv_step`. The batch of a run has nothing else in it, because the documents its
reader has still to yield are those of the archive.
-/

namespace ArchonSearch.Import.Provenance

open Lib Jobs List Option

variable {J δ β : Type*} {S : Setup J δ β}

/-- The documents a running `iter_docs` has still to yield. -/
def yields : Docs δ → List δ
  | .done _ | .raised _ => []
  | .yielded d _ _ docs => d :: yields docs

theorem mem_of_mem_yields {onError : OnError} {lineno skip skippedLines : ℕ}
    {lines : List (Line δ)} {d : δ}
    (hd : d ∈ yields (iterLines onError lineno skip skippedLines lines)) :
    .ok d ∈ nonEmpty lines := by
  induction lines generalizing lineno skip skippedLines with
  | nil => cases hd
  | cons line lines ih =>
    cases line with
    | empty => exact ih hd
    | text parsed =>
      cases skip with
      | succ skip => exact mem_cons_of_mem _ (ih hd)
      | zero =>
        cases parsed with
        | ok d' =>
          rcases mem_cons.mp hd with rfl | hd
          · exact mem_cons_self
          · exact mem_cons_of_mem _ (ih hd)
        | error reason =>
          cases onError with
          | fail => cases hd
          | skip => exact mem_cons_of_mem _ (ih hd)

/-- What a run has read and collected is of its own archive. -/
structure LoopFrom (S : Setup J δ β) (i : J) (l : Loop δ β) : Prop where
  docs : ∀ d ∈ yields l.docs, .ok d ∈ S.lines i
  batch : ∀ c ∈ l.batch, c ∈ S.valid i

/-- So is whatever it carries through its calls. -/
def TaskFrom (S : Setup J δ β) (i : J) : Task J δ β → Prop
  | .reading l | .probing l _ | .checkpointing l | .checkingCancel l => LoopFrom S i l
  | .storing l fresh _ _ => LoopFrom S i l ∧ ∀ c ∈ fresh, c ∈ S.valid i
  | _ => True

/-- Every row that a run has written is a valid line of its archive. -/
structure Inv (S : Setup J δ β) (s : State J δ β) : Prop where
  rows : ∀ row ∈ s.rows, ∀ i, row.writer = some i → row.chunk ∈ S.valid i
  tasks : ∀ i t, s.tasks i = some t → TaskFrom S i t

variable {l : Loop δ β}

theorem LoopFrom.flushed {i : J} (h : LoopFrom S i l) (mayOverlap : Bool) :
    LoopFrom S i (l.flushed mayOverlap) := ⟨h.docs, fun _ hc => nomatch hc⟩

/-! ### One step -/

variable [DecidableEq J] {s : State J δ β} {j : J} {t : Task J δ β}

section
variable (h : Inv S s)
include h

theorem inv_goto (ht : TaskFrom S j t) : Inv S (s.goto j t) := by
  refine ⟨h.rows, fun i t' ht' => ?_⟩
  by_cases hij : i = j
  · subst hij
    obtain rfl : t = t' := by simpa [State.goto] using ht'
    exact ht
  · exact h.tasks i t' (by simpa [State.goto, Function.update_of_ne hij] using ht')

theorem inv_fail (error : String) : Inv S (s.fail j error) :=
  inv_goto (s := s.release j) ⟨h.rows, h.tasks⟩ trivial

theorem inv_end : Inv S { s with tasks := Function.update s.tasks j none } := by
  refine ⟨h.rows, fun i t ht => ?_⟩
  by_cases hij : i = j
  · subst hij
    simp at ht
  · exact h.tasks i t (by simpa [Function.update_of_ne hij] using ht)

theorem inv_update (k : J) (outcome : WriteOutcome)
    (fields : ImportJob → ImportJob) : Inv S (s.update k outcome fields) := ⟨h.rows, h.tasks⟩

theorem inv_updateThen (k : J) (outcome : WriteOutcome)
    (fields : ImportJob → ImportJob) {next : Task J δ β} (hx : TaskFrom S j next) :
    Inv S (s.updateThen j k outcome fields next) := by
  unfold State.updateThen
  split_ifs
  · exact inv_fail (inv_update h k outcome fields) _
  · exact inv_goto (inv_update h k outcome fields) hx

theorem inv_updateLast (outcome : WriteOutcome) (fields : ImportJob → ImportJob) :
    Inv S (s.updateLast j outcome fields) := by
  unfold State.updateLast
  split_ifs
  · exact inv_fail (inv_update h j outcome fields) _
  · exact inv_end (inv_update h j outcome fields)

theorem inv_drop : Inv S ({ s with table := none }.disturb j) :=
  ⟨(fun _ hr => nomatch hr), h.tasks⟩

theorem inv_append (ns : String) {chunks : List (Chunk β)}
    (hchs : ∀ c ∈ chunks, c ∈ S.valid j) : Inv S (s.append j ns chunks) := by
  refine ⟨fun row hr i hi => ?_, h.tasks⟩
  rcases mem_append.mp hr with hr | hr
  · exact h.rows row hr i hi
  · obtain ⟨c, hc, rfl⟩ := List.mem_map.mp hr
    cases hi
    exact hchs c hc

theorem inv_passed : Inv S (S.passed s j) := by
  unfold Setup.passed
  split
  · exact inv_fail h _
  · exact inv_goto (s := s.release j) ⟨h.rows, h.tasks⟩ trivial

theorem inv_validated (r : ResumePoint) : Inv S (S.validated s j r) := by
  unfold Setup.validated
  split_ifs
  · split
    · exact inv_fail h _
    · exact inv_goto h trivial
    · exact inv_goto h trivial
  · exact inv_goto h trivial

theorem inv_exists (g : Guard) (hasMeta : Bool) :
    Inv S (S.exists? s j g hasMeta) := by
  unfold Setup.exists?
  split_ifs
  · split
    · exact inv_fail h _
    · exact inv_goto h trivial
  · exact inv_fail h _

theorem inv_ingest (r : ResumePoint) (embeddingDim : Option ℕ) :
    Inv S (S.ingest s j r embeddingDim) :=
  inv_goto h ⟨fun _ hd => mem_of_mem_yields hd, fun _ hc => nomatch hc⟩

theorem inv_claim (r : ResumePoint) (embeddingDim : Option ℕ) (others : List J)
    (o : WriteOutcome) : Inv S (S.claim s j r embeddingDim others o) := by
  unfold Setup.claim
  split
  · exact inv_updateThen h _ o _ trivial
  · dsimp only
    have hclaim : Inv S ((s.update j o fun job =>
        job.claimed ⟨r.processed, (S.archive j).docCount, .validating⟩ r.skip).disturb j) :=
      ⟨h.rows, h.tasks⟩
    split_ifs
    · exact inv_fail hclaim _
    · split
      · exact inv_goto hclaim trivial
      · exact inv_ingest hclaim r none

theorem inv_store (hl : LoopFrom S j l) (last : Bool) :
    Inv S (s.store j l last) := by
  unfold State.store
  split_ifs
  · exact inv_goto h hl
  · exact inv_goto h ⟨hl, hl.batch⟩

theorem inv_read (hl : LoopFrom S j l) : Inv S (S.read s j l) := by
  unfold Setup.read
  split
  · exact inv_fail h _
  · rename_i n hdocs
    have hd : LoopFrom S j (l.advanced (.done n) n) := ⟨by rintro d ⟨⟩, hl.batch⟩
    split_ifs
    · exact inv_goto h trivial
    · exact inv_store h hd true
  · rename_i d lineNumber n docs hdocs
    have hyiel : ∀ d' ∈ d :: yields docs, .ok d' ∈ S.lines j := by
      have hall := hl.docs
      rw [hdocs] at hall
      exact hall
    have hrs : ∀ d' ∈ yields docs, .ok d' ∈ S.lines j :=
      fun d' hd' => hyiel d' (mem_cons_of_mem d hd')
    dsimp only
    split
    · rename_i chunk hdec
      have hpus : LoopFrom S j ((l.advanced docs n).pushed chunk) := by
        refine ⟨hrs, fun c hc => ?_⟩
        rcases mem_append.mp hc with hc | hc
        · exact hl.batch c hc
        · rw [mem_singleton.mp hc]
          exact mem_filterMap.mpr ⟨.ok d, hyiel d mem_cons_self, validChunk?_of_ok hdec⟩
      split_ifs
      · exact inv_store h hpus false
      · exact inv_goto h hpus
    · exact inv_fail h _
    · exact inv_goto h ⟨hrs, hl.batch⟩
    · exact inv_fail h _

theorem inv_stored (hl : LoopFrom S j l) (mayOverlap last : Bool) :
    Inv S (s.stored j l mayOverlap last) := by
  unfold State.stored
  split_ifs
  · exact inv_goto h trivial
  · exact inv_goto h (hl.flushed mayOverlap)

end

variable {s' : State J δ β}

theorem inv_returns (h : Inv S s) (ht : TaskFrom S j t)
    (hs : S.Returns s j t s') : Inv S s' := by
  cases hs with
  | refused e => exact inv_fail h e
  | available g =>
    split_ifs
    · exact inv_goto h trivial
    · exact inv_goto h trivial
  | locked g hl => exact inv_goto (s := { s with lock := some j }) ⟨h.rows, h.tasks⟩ trivial
  | hasMeta g => exact inv_exists h g true
  | noMeta g => exact inv_goto h trivial
  | absent g hrw => exact inv_passed h
  | present g => exact inv_exists h g false
  | droppedTable => exact inv_goto (inv_drop h) trivial
  | dropped => exact inv_passed (inv_drop h)
  | deletedMeta =>
    exact inv_passed (s := { s with owners := s.owners.erase (S.ns j) }) ⟨h.rows, h.tasks⟩
  | owner r c hrev hr => exact inv_goto h trivial
  | notOwner r c => exact inv_goto h trivial
  | ensured r dim =>
    exact inv_ingest (s := { s with table := some s.rows }) ⟨h.rows, h.tasks⟩ r (some dim)
  | read l => exact inv_read h ht
  | probed l last stored hsto =>
    exact inv_goto h ⟨ht, fun c hc => ht.batch c (mem_of_mem_filter hc)⟩
  | nothing l mayOverlap last => exact inv_stored h ht.1 mayOverlap last
  | appended l fresh mayOverlap last =>
    exact inv_stored (inv_append h (S.ns j) ht.2) ht.1 mayOverlap last
  | continued l => exact inv_goto h ht
  | indexed l owners => exact inv_goto (s := { s with owners := owners }) ⟨h.rows, h.tasks⟩ trivial

theorem inv_writes {o : WriteOutcome} (h : Inv S s)
    (ht : TaskFrom S j t) (hs : S.taskStep s j t (.writes o) = some s') : Inv S s' := by
  cases t with
  | starting =>
    cases hs
    exact inv_updateThen h j o _ trivial
  | validating r =>
    cases hs
    have hupd := inv_update h j o
      fun job => job.reported ⟨r.processed, (S.archive j).docCount, .validating⟩
    split_ifs
    · exact inv_fail hupd _
    · exact inv_validated hupd r
  | claiming r dim others =>
    cases hs
    exact inv_claim h r dim others o
  | checkpointing l =>
    cases hs
    exact inv_updateThen h j o _ ht
  | checkingCancel l =>
    obtain ⟨-, rfl⟩ := of_guard hs
    exact inv_updateLast h o _
  | recording l =>
    cases hs
    exact inv_updateThen h j o _ trivial
  | finishing l =>
    simp only [Setup.taskStep] at hs
    split_ifs at hs <;> cases hs
    · exact inv_updateLast h o _
    · exact inv_updateLast h o _
  | failing e =>
    cases hs
    exact inv_end (inv_update h j o _)
  | _ => cases hs

theorem inv_taskStep {choice : Choice} (h : Inv S s)
    (ht : TaskFrom S j t) (hs : S.taskStep s j t choice = some s') : Inv S s' := by
  cases choice with
  | returns => exact inv_returns h ht (Setup.returns_of_taskStep hs)
  | writes o => exact inv_writes h ht hs
  | raises e residue =>
    obtain ⟨owners, rfl⟩ := Setup.taskStep_raises hs
    exact inv_fail (s := { s with owners := owners }) ⟨h.rows, h.tasks⟩ e
  | raisesAfter e =>
    obtain ⟨hasMeta, rfl, rfl⟩ | ⟨rfl, rfl⟩ | ⟨r, dim, rfl, rfl⟩ |
      ⟨l, fresh, mayOverlap, last, rfl, rfl⟩ := Setup.taskStep_raisesAfter hs
    · exact inv_fail (inv_drop h) e
    · exact inv_fail (s := { s with owners := s.owners.erase (S.ns j) }) ⟨h.rows, h.tasks⟩ e
    · exact inv_fail (s := { s with table := some s.rows }) ⟨h.rows, h.tasks⟩ e
    · exact inv_fail (inv_append h (S.ns j) ht.2) e

theorem inv_transition (h : Inv S s) (k : J) (toStatus : JobStatus)
    (outcome rewrite : WriteOutcome) :
    Inv S (s.transition k toStatus outcome rewrite).1 := by
  unfold State.transition
  split_ifs
  · exact ⟨h.rows, h.tasks⟩
  · exact ⟨h.rows, h.tasks⟩

/-- **A row is from the archive of the job that wrote it**: every event keeps it so. -/
theorem inv_step {event : Event J} (h : Inv S s)
    (hs : S.step s event = some s') : Inv S s' := by
  cases event with
  | dispatch j outcome rewrite =>
    simp only [Setup.step] at hs
    split_ifs at hs
    have ht := inv_transition h j .running outcome rewrite
    split at hs <;> rename_i heq <;> rw [heq] at ht <;> cases hs
    · exact inv_goto ht trivial
    · exact ht
  | resume j outcome rewrite =>
    obtain ⟨-, rfl⟩ := of_guard hs
    exact inv_transition h j .queued outcome rewrite
  | cancel j outcome rewrite =>
    obtain ⟨-, rfl⟩ := of_guard hs
    exact inv_transition h j .cancelling outcome rewrite
  | task j choice =>
    simp only [Setup.step] at hs
    split at hs
    · rename_i t ht
      exact inv_taskStep h (h.tasks j t ht) hs
    · cases hs
  | restart outcome checkpointInterval =>
    cases hs
    exact ⟨h.rows, by rintro i t ⟨⟩⟩

end ArchonSearch.Import.Provenance
