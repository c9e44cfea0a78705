import ArchonSearch.Jobs.Store

/-!
# Loading what was written

A file that `_write_atomic` wrote is never taken for a corrupt one: loading it gives back the table
it was written from, with the jobs that were left unfinished rewritten and those that have expired
since evicted (`load_of_writeAtomic`).

Two things could go wrong besides the rows themselves. The decoder decides the rewrite by the tag of
the row and not by the class of the job; on a written row these agree (`rewriteOf_jobType`). And the
eviction after the load raises at a terminal job whose age cannot be told; a terminal job of a
written table was dated when it was written, and a rewritten one carries the clock of the load
(`timed_of_rewritten`).
-/

namespace ArchonSearch.Jobs

open Py Lib List Option

/-- What a restart makes of a job: a cancel that landed before the job started is
completed; a job that ran is failed, arming the crash-loop guard for the ingest family; a
job that nothing would ever run is failed as never started; every other job is kept. -/
def Job.rewriteOnLoad (j : Job) : Rewrite :=
  match j.status, j.payload with
  | .cancelling, p =>
    if j.cancelledBeforeStart then .cancelled
    else .processRestart (p.jobType = "ingest" ∨ p.jobType = "sync")
  | .running, p => .processRestart (p.jobType = "ingest" ∨ p.jobType = "sync")
  | .pending, .ingest | .pending, .reindex _ => .notStarted
  | .queued, .communityRebuild | .queued, .metadataReindex _ _ | .queued, .sync _
  | .queued, .description => .notStarted
  | _, _ => .keep

/-- On the tag of its class, the code rewrites a job as documented. -/
theorem rewriteOf_jobType (j : Job) :
    rewriteOf (.str j.payload.jobType) j = some j.rewriteOnLoad := by
  unfold rewriteOf Job.rewriteOnLoad
  cases hs : j.status <;> cases hp : j.payload <;> cases j.cancelledBeforeStart <;> rfl

section Written

variable {fromisoformat : String → Option ℤ}

/-- The loop of `_load` on the rows of a written file. -/
theorem loadRows_encodeJob (readings : ℕ → Reading fromisoformat) (l : List Job) :
    loadRows readings (l.map encodeJob) =
      some (l.mapIdx fun i j => (j.rewriteOnLoad.apply (readings i) j, j.rewriteOnLoad)) := by
  induction l generalizing readings with
  | nil => rfl
  | cons j l ih =>
    have hr : loadRow (readings 0) (encodeJob j) =
        some (j.rewriteOnLoad.apply (readings 0) j, j.rewriteOnLoad) := by
      simp [loadRow, decodeJob_encodeJob, jobTypeOf_encodeJob, rewriteOf_jobType]
    simp [loadRows, hr, ih]

/-- A rewritten job is dated by the clock of the load, a kept one as before. -/
theorem updatedInstant?_apply (r : Reading fromisoformat) (w : Rewrite) (j : Job) :
    (w.apply r j).updatedInstant? fromisoformat = some r.instant ∨ w.apply r j = j := by
  cases w with
  | keep => exact Or.inr rfl
  | cancelled | processRestart | notStarted => exact Or.inl r.parses

variable {now : ℤ}

theorem evictOld_eq_some_iff {t t' : Table} :
    evictOld fromisoformat now t = some t' ↔
      Timed fromisoformat t ∧ t.filter (fun j => !j.expired fromisoformat now) = t' := by
  unfold evictOld
  split_ifs with h <;> simp [h]

theorem Timed.evictOld {t t' : Table} (h : evictOld fromisoformat now t = some t') :
    Timed fromisoformat t' := by
  obtain ⟨ht, rfl⟩ := evictOld_eq_some_iff.mp h
  exact fun j hj => ht j (mem_of_mem_filter hj)

/-- A write that returned has written the evicted table. -/
theorem writeAtomic_returned {outcome : WriteOutcome} {s s' : Store}
    (h : writeAtomic fromisoformat now outcome s = (s', false)) :
    evictOld fromisoformat now s.jobs = some s'.jobs ∧ s'.file = .json (encodeTable s'.jobs) := by
  cases hevict : evictOld fromisoformat now s.jobs with
  | none => simp [writeAtomic, hevict] at h
  | some jobs =>
    simp only [writeAtomic, hevict, Prod.mk.injEq] at h
    obtain ⟨rfl, hrais⟩ := h
    exact ⟨rfl, WriteOutcome.publish_of_not_raises hrais _ _⟩

/-- When every job is one of a table whose ages can be told, rewritten or kept, its age can
be told. -/
theorem timed_of_rewritten {t t' : Table} (ht : Timed fromisoformat t)
    (h : ∀ j' ∈ t', ∃ j ∈ t, ∃ (r : Reading fromisoformat) (w : Rewrite), j' = w.apply r j) :
    Timed fromisoformat t' := by
  intro j' hj' hter
  obtain ⟨j, hj, r, w, rfl⟩ := h j' hj'
  rcases updatedInstant?_apply r w j with hr | hj
  · rw [hr]
    rfl
  · rw [hj] at hter ⊢
    exact ht j ‹_› hter

/-- Loading the rows of a table whose ages can be told. -/
theorem load_encodeTable (readings : ℕ → Reading fromisoformat) (now : ℤ) {t : Table}
    (ht : Timed fromisoformat t) :
    ∃ loaded, load readings now (encodeTable t) = some loaded ∧
      loaded.jobs.items =
        (t.items.mapIdx fun i j => j.rewriteOnLoad.apply (readings i) j).filter
          (fun j => !j.expired fromisoformat now) ∧
      loaded.crashed = t.items.any fun j => j.rewriteOnLoad.latches := by
  let l := t.items.mapIdx fun i j => (j.rewriteOnLoad.apply (readings i) j, j.rewriteOnLoad)
  have hl : loadRows readings (t.items.map encodeJob) = some l :=
    loadRows_encodeJob readings t.items
  have hjs : l.map Prod.fst =
      t.items.mapIdx fun i j => j.rewriteOnLoad.apply (readings i) j :=
    ext_getElem (by simp [l]) (by simp [l])
  have hks : (l.map Prod.fst).map Job.key = t.items.map Job.key :=
    ext_getElem (by simp [l]) (by simp [l])
  have hrew : l.map Prod.snd = t.items.map Job.rewriteOnLoad :=
    ext_getElem (by simp [l]) (by simp [l])
  have his : (Keyed.ofList (l.map Prod.fst) : Table).items = l.map Prod.fst :=
    Keyed.items_ofList (hks ▸ t.nodup)
  have htim : Timed fromisoformat (Keyed.ofList (l.map Prod.fst)) := by
    refine timed_of_rewritten ht fun j' hj' => ?_
    rw [Keyed.mem_def, his, hjs] at hj'
    obtain ⟨i, hi, rfl⟩ := mem_mapIdx.mp hj'
    exact ⟨t.items[i], getElem_mem hi, readings i, _, rfl⟩
  have hk : evictOld fromisoformat now (Keyed.ofList (l.map Prod.fst)) =
      some ((Keyed.ofList (l.map Prod.fst)).filter fun j => !j.expired fromisoformat now) :=
    evictOld_eq_some_iff.mpr ⟨htim, rfl⟩
  simp only [load, rows?_encodeTable, hl, hk, bind_eq_bind, bind_some]
  refine ⟨_, rfl, congrArg (List.filter _) (his.trans hjs), ?_⟩
  calc l.any (fun e => e.2.latches)
      = (l.map Prod.snd).any Rewrite.latches := by rw [List.any_map]; rfl
    _ = (t.items.map Job.rewriteOnLoad).any Rewrite.latches := by rw [hrew]
    _ = t.items.any fun j => j.rewriteOnLoad.latches := by rw [List.any_map]; rfl

/-- **A written file is loaded job for job.** When `_write_atomic` returns, the file holds
the evicted table, `_load` does not take it for corrupt whenever it is called, and the jobs
it loads are those of the table, rewritten as documented and in their order, less the ones
that have expired by then. -/
theorem load_of_writeAtomic (readings : ℕ → Reading fromisoformat) (now₁ now₂ : ℤ)
    (outcome : WriteOutcome) (s s' : Store)
    (h : writeAtomic fromisoformat now₁ outcome s = (s', false)) :
    evictOld fromisoformat now₁ s.jobs = some s'.jobs ∧
      ∃ v loaded, s'.file = .json v ∧ load readings now₂ v = some loaded ∧
        loaded.jobs.items =
          (s'.jobs.items.mapIdx fun i j => j.rewriteOnLoad.apply (readings i) j).filter
            fun j => !j.expired fromisoformat now₂ := by
  obtain ⟨hevict, hf⟩ := writeAtomic_returned h
  obtain ⟨loaded, hl, hjs, -⟩ := load_encodeTable readings now₂ (Timed.evictOld hevict)
  exact ⟨hevict, encodeTable s'.jobs, loaded, hf, hl, hjs⟩

end Written

/-! ### A store that dies while a job runs -/

/-- The one time stamp of the sample stores, as `datetime.fromisoformat` reads it. -/
def sampleFromisoformat (text : String) : Option ℤ :=
  if text = "2026-01-01T00:00:00+00:00" then some 1767225600000000 else none

def sampleReading : Reading sampleFromisoformat where
  text := "2026-01-01T00:00:00+00:00"
  instant := 1767225600000000
  parses := rfl

def sampleJob (id : String) (status : JobStatus) (payload : Payload) : Job where
  jobId := .str id
  status := status
  createdAt := .str sampleReading.text
  updatedAt := .str sampleReading.text
  payload := payload

def sampleTable : Table where
  items := [sampleJob "a" .running .ingest, sampleJob "b" .done (.exportJob (.str "out") (.str ""))]
  nodup := by decide

/-- The sample table is written and loaded: the ingest comes back failed, the export as it
was. -/
theorem load_of_writeAtomic_running :
    ∃ s' v loaded, writeAtomic sampleFromisoformat sampleReading.instant .written
        ⟨sampleTable, .missing⟩ = (s', false) ∧ s'.file = .json v ∧
      load (fun _ => sampleReading) sampleReading.instant v = some loaded ∧
      loaded.jobs.items = [(Rewrite.processRestart true).apply sampleReading
          (sampleJob "a" .running .ingest),
        sampleJob "b" .done (.exportJob (.str "out") (.str ""))] := by
  have hw : writeAtomic sampleFromisoformat sampleReading.instant .written
      ⟨sampleTable, .missing⟩ = (⟨sampleTable, .json (encodeTable sampleTable)⟩, false) := rfl
  obtain ⟨-, v, loaded, hv, hl, hjs⟩ := load_of_writeAtomic (fun _ => sampleReading)
    sampleReading.instant sampleReading.instant .written _ _ hw
  exact ⟨_, v, loaded, hw, hv, hl, hjs⟩

end ArchonSearch.Jobs
