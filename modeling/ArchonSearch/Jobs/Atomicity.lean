import ArchonSearch.Jobs.RoundTrip

/-!
# A failed write is as if nothing had happened

`create_job`, `transition` and `cancel_ingest_retries` change the table in memory, write
it, and undo the change when the write raises. Two things stand between that and plain
atomicity. The write evicts old jobs from memory before it fails, so what is undone is
undone on a smaller table; and the write may have reached the file before it raised, so the
file is rewritten from memory, which may fail as well – and evicts again.

All three go through `persistOrRollback`. What it needs of a call is that its undo restores the
lookups of the old table whatever an eviction has removed in between (`Undoes`), and what it gives
is `CallSpec`: `callSpec_persistOrRollback`. The three calls are put together in `call_atomic`.
-/

namespace ArchonSearch.Jobs

open Py Lib

variable {fromisoformat : String → Option ℤ}

/-! ### One write -/

variable {outcome : WriteOutcome}

/-- After a write, memory is what it was less expired jobs. -/
theorem jobs_writeAtomic {now : ℤ} {s s' : Store} {raised : Bool}
    (h : writeAtomic fromisoformat now outcome s = (s', raised)) :
    ∃ p : Job → Bool, s'.jobs = s.jobs.filter p ∧
      ∀ j, p j = false → j.expired fromisoformat now = true := by
  cases hevict : evictOld fromisoformat now s.jobs with
  | none =>
    simp only [writeAtomic, hevict, Prod.mk.injEq] at h
    obtain ⟨rfl, -⟩ := h
    refine ⟨fun _ => true, ?_, fun j hj => by simp at hj⟩
    exact Keyed.ext (List.filter_eq_self.mpr fun _ _ => rfl).symm
  | some jobs =>
    simp only [writeAtomic, hevict, Prod.mk.injEq] at h
    obtain ⟨rfl, -⟩ := h
    obtain ⟨-, rfl⟩ := evictOld_eq_some_iff.mp hevict
    exact ⟨fun j => !j.expired fromisoformat now, rfl, fun j hj => by simpa using hj⟩

/-- After a write that returned, the file decodes to what is in memory. -/
theorem decodeTable_writeAtomic {now : ℤ} {s s' : Store}
    (h : writeAtomic fromisoformat now outcome s = (s', false)) :
    decodeTable s'.file = some s'.jobs := by
  rw [(writeAtomic_returned h).2]
  exact decodeTable_encodeTable s'.jobs

/-! ### Two writes -/

/-- The tables agree, except for terminal jobs that were older than the eviction age at one
of the clocks. -/
def SameUpToEviction (fromisoformat : String → Option ℤ) (clocks : List ℤ)
    (before after : Table) : Prop :=
  ∀ k, after.get? k = before.get? k ∨
    after.get? k = none ∧ ∃ j, before.get? k = some j ∧
      ∃ now ∈ clocks, j.expired fromisoformat now = true

/-- `restore` undoes the step from `old` to `new`, whatever jobs have been removed from the
new table in between. -/
def Undoes (old new : Table) (restore : Table → Table) : Prop :=
  ∀ (p : Job → Bool) k, (restore (new.filter p)).get? k = old.get? k ∨
    (restore (new.filter p)).get? k = none ∧ ∃ j, old.get? k = some j ∧ p j = false

/-- What a call that wants to store the table `new` leaves behind. -/
def CallSpec (a : Attempt fromisoformat) (s : Store) (new : Table) (s' : Store) :
    CallResult → Prop
  | .unchanged => s' = s
  | .persisted =>
    evictOld fromisoformat a.now₁ new = some s'.jobs ∧ decodeTable s'.file = some s'.jobs
  | .rolledBack rewritten =>
    SameUpToEviction fromisoformat [a.now₁, a.now₂] s.jobs s'.jobs ∧
      (rewritten = true → decodeTable s'.file = some s'.jobs)

variable {restore : Table → Table}

/-- An undone step and the eviction of the corrective rewrite. -/
theorem Undoes.sameUpToEviction {old new : Table}
    (h : Undoes old new restore) {now₁ now₂ : ℤ} {p q : Job → Bool}
    (hp : ∀ j, p j = false → j.expired fromisoformat now₁ = true)
    (hq : ∀ j, q j = false → j.expired fromisoformat now₂ = true) :
    SameUpToEviction fromisoformat [now₁, now₂] old ((restore (new.filter p)).filter q) := by
  intro k
  rw [Keyed.get?_filter]
  rcases h p k with hk | ⟨hk, j, hj, hpj⟩
  · rw [hk]
    cases hold : old.get? k with
    | none => exact Or.inl rfl
    | some j =>
      cases hqj : q j with
      | true => exact Or.inl (by simp [hqj])
      | false =>
        exact Or.inr ⟨by simp [hqj], j, rfl, now₂, by simp, hq j hqj⟩
  · rw [hk]
    exact Or.inr ⟨rfl, j, hj, now₁, by simp, hp j hpj⟩

/-- The writes of a call: one that returns, or one that raises and the corrective one. -/
theorem persistOrRollback_cases (a : Attempt fromisoformat) (s : Store) (new : Table)
    (restore : Table → Table) :
    (∃ s₁, writeAtomic fromisoformat a.now₁ a.outcome₁ { s with jobs := new } = (s₁, false) ∧
      persistOrRollback a s new restore = (s₁, .persisted)) ∨
    ∃ s₁ s₂ raised,
      writeAtomic fromisoformat a.now₁ a.outcome₁ { s with jobs := new } = (s₁, true) ∧
      writeAtomic fromisoformat a.now₂ a.outcome₂ { s₁ with jobs := restore s₁.jobs } =
        (s₂, raised) ∧
      persistOrRollback a s new restore = (s₂, .rolledBack !raised) := by
  unfold persistOrRollback
  rcases h₁ : writeAtomic fromisoformat a.now₁ a.outcome₁ { s with jobs := new } with ⟨s₁, - | -⟩
  · exact Or.inl ⟨s₁, rfl, rfl⟩
  · exact Or.inr ⟨s₁, _, _, rfl, rfl, rfl⟩

/-- **Persisting with an undo is all or nothing.** -/
theorem callSpec_persistOrRollback (a : Attempt fromisoformat) (s : Store) {new : Table}
    (h : Undoes s.jobs new restore) :
    CallSpec a s new (persistOrRollback a s new restore).1
      (persistOrRollback a s new restore).2 := by
  rcases persistOrRollback_cases a s new restore with
    ⟨s₁, h₁, heq⟩ | ⟨s₁, s₂, raised, h₁, h₂, heq⟩
  · rw [heq]
    exact ⟨(writeAtomic_returned h₁).1, decodeTable_writeAtomic h₁⟩
  · rw [heq]
    obtain ⟨p, hp, hexp₁⟩ := jobs_writeAtomic h₁
    obtain ⟨q, hq, hexp₂⟩ := jobs_writeAtomic h₂
    refine ⟨?_, fun hrew => ?_⟩
    · rw [hq]
      simp only [hp]
      exact h.sameUpToEviction hexp₁ hexp₂
    · obtain rfl : raised = false := by simpa using hrew
      exact decodeTable_writeAtomic h₂

/-! ### The three calls -/

theorem undoes_insert_new {t : Table} {job : Job} (hw : t.get? job.key = none) :
    Undoes t (t.insert job) fun jobs => jobs.erase job.key := by
  intro p k
  rw [Keyed.get?_erase, Keyed.get?_filter, Keyed.get?_insert]
  by_cases hk : k = job.key
  · rw [if_pos hk, hk, hw]
    exact Or.inl rfl
  · rw [if_neg hk, if_neg hk]
    cases hj : t.get? k with
    | none => exact Or.inl rfl
    | some j => cases hp : p j <;> simp [hp]

theorem undoes_insert_old {t : Table} {job job' : Job} (hold : t.get? job.key = some job)
    (hkey : job'.key = job.key) : Undoes t (t.insert job') fun jobs => jobs.insert job := by
  intro p k
  rw [Keyed.get?_insert, Keyed.get?_filter, Keyed.get?_insert, hkey]
  by_cases hk : k = job.key
  · rw [if_pos hk, hk, hold]
    exact Or.inl rfl
  · rw [if_neg hk, if_neg hk]
    cases hj : t.get? k with
    | none => exact Or.inl rfl
    | some j => cases hp : p j <;> simp [hp]

theorem undoes_cancelledRetry (r : Reading fromisoformat) (collection : String) (t : Table) :
    Undoes t (t.map (cancelledRetry r collection) (key_cancelledRetry r collection))
      fun jobs => (t.items.filter (isRetryCandidate collection)).foldl Keyed.insert jobs := by
  intro p k
  have hfind : ((t.items.filter (isRetryCandidate collection)).find? fun j => j.key = k) =
      (t.get? k).filter (isRetryCandidate collection) := Keyed.get?_filter _ t k
  have hnd : ((t.items.filter (isRetryCandidate collection)).map Job.key).Nodup :=
    (t.filter (isRetryCandidate collection)).nodup
  rw [Keyed.get?_foldl_insert hnd, hfind, Keyed.get?_filter, Keyed.get?_map]
  cases hj : t.get? k with
  | none => exact Or.inl rfl
  | some j =>
    cases hc : isRetryCandidate collection j with
    | true => exact Or.inl (by simp [hc])
    | false => cases hp : p j <;> simp [hc, hp, cancelledRetry]

/-- A call returns its value when the new table was persisted, and raises when it was
rolled back. -/
theorem returned_reraise {α : Type*} (a : Attempt fromisoformat) (s : Store) (new : Table)
    (restore : Table → Table) (value : α) :
    let r := reraise (persistOrRollback a s new restore) value
    r.result = .persisted ∧ r.returned = .ok value ∨
      (∃ b, r.result = .rolledBack b) ∧ r.returned = .error .notPersisted := by
  rcases persistOrRollback_cases a s new restore with
    ⟨s₁, -, heq⟩ | ⟨s₁, s₂, raised, -, -, heq⟩
  · exact Or.inl (by simp [reraise, heq])
  · exact Or.inr (by simp [reraise, heq])

/-- A transition that is not allowed touches nothing, and another one persists the new status
or is rolled back. -/
theorem transition_cases (a : Attempt fromisoformat) (jobId : Key)
    (fromStatuses : List JobStatus) (toStatus : JobStatus) (fields : FieldUpdate) (s : Store) :
    let r := transition a jobId fromStatuses toStatus fields s
    (r.store = s ∧ r.result = .unchanged ∧ r.returned = .ok none ∧
        ∀ job, s.jobs.get? jobId = some job → job.status ∉ fromStatuses) ∨
      ∃ job, s.jobs.get? jobId = some job ∧ job.status ∈ fromStatuses ∧
        CallSpec a s (s.jobs.insert (transitioned a.stamp toStatus fields job)) r.store r.result ∧
        (r.result = .persisted ∧
            r.returned = .ok (some (transitioned a.stamp toStatus fields job)) ∨
          (∃ b, r.result = .rolledBack b) ∧ r.returned = .error .notPersisted) := by
  cases hj : s.jobs.get? jobId with
  | none => simp [transition, hj]
  | some job =>
    obtain ⟨hm, rfl⟩ := Keyed.get?_eq_some_iff.mp hj
    by_cases hfrom : job.status ∈ fromStatuses
    · have hk : (transitioned a.stamp toStatus fields job).key = job.key :=
        fields.key_apply job
      refine Or.inr ⟨job, rfl, hfrom, ?_⟩
      simp only [transition, hj, if_pos hfrom]
      exact ⟨callSpec_persistOrRollback a s (undoes_insert_old hj hk),
        returned_reraise a s _ _ _⟩
    · exact Or.inl (by simp [transition, hj, hfrom])

/-- An update finds no job, or stores the changed one and writes. -/
theorem update_cases (r : Reading fromisoformat) (now : ℤ) (outcome : WriteOutcome) (jobId : Key)
    (fields : FieldUpdate) (s : Store) :
    (s.jobs.get? jobId = none ∧ update r now outcome jobId fields s = (s, .unknownJob)) ∨
    ∃ job ∈ s.jobs, job.key = jobId ∧ ∃ s' raised,
      writeAtomic fromisoformat now outcome
        { s with jobs := s.jobs.insert (stamped r (fields.apply job)) } = (s', raised) ∧
      update r now outcome jobId fields s = (s', if raised then .notPersisted else .updated) := by
  unfold update
  cases hj : s.jobs.get? jobId with
  | none => exact Or.inl ⟨rfl, rfl⟩
  | some job =>
    obtain ⟨hm, hk⟩ := Keyed.get?_eq_some_iff.mp hj
    refine Or.inr ⟨job, hm, hk, ?_⟩
    rcases hw : writeAtomic fromisoformat now outcome
      { s with jobs := s.jobs.insert (stamped r (fields.apply job)) } with ⟨s', - | -⟩
    · exact ⟨s', false, rfl, by simp [hw]⟩
    · exact ⟨s', true, rfl, by simp [hw]⟩

/-- **The calls are atomic.** For every job table and every outcome of the writes, a call
either persists its new table – the file then decodes to what is in memory – or leaves
memory as it was, up to expired jobs, with the file decoding to it if the corrective
rewrite succeeded. Creating a job and transitions raise in the second case; cancelling the
retries of a collection never does. A transition that is not allowed, and a cancel with no
candidates, touch nothing. -/
theorem call_atomic (a : Attempt fromisoformat) (s : Store) :
    (∀ job, s.jobs.get? job.key = none →
      CallSpec a s (s.jobs.insert job) (createJob a job s).store (createJob a job s).result ∧
        ((createJob a job s).result = .persisted ∧ (createJob a job s).returned = .ok job ∨
          (∃ b, (createJob a job s).result = .rolledBack b) ∧
            (createJob a job s).returned = .error .notPersisted)) ∧
    (∀ jobId fromStatuses toStatus fields,
      let r := transition a jobId fromStatuses toStatus fields s
      (r.store = s ∧ r.result = .unchanged ∧ r.returned = .ok none ∧
          ∀ job, s.jobs.get? jobId = some job → job.status ∉ fromStatuses) ∨
        ∃ job, s.jobs.get? jobId = some job ∧ job.status ∈ fromStatuses ∧
          CallSpec a s (s.jobs.insert (transitioned a.stamp toStatus fields job)) r.store r.result ∧
          (r.result = .persisted ∧
              r.returned = .ok (some (transitioned a.stamp toStatus fields job)) ∨
            (∃ b, r.result = .rolledBack b) ∧ r.returned = .error .notPersisted)) ∧
    ∀ collection,
      let r := cancelIngestRetries a collection s
      r.returned = .ok () ∧
        CallSpec a s (s.jobs.map (cancelledRetry a.stamp collection)
          (key_cancelledRetry a.stamp collection)) r.store r.result ∧
        (r.result = .unchanged → ∀ j ∈ s.jobs, isRetryCandidate collection j = false) := by
  refine ⟨fun job hw => ?_, fun jobId fromStatuses toStatus fields => ?_, fun collection => ?_⟩
  · exact ⟨callSpec_persistOrRollback a s (undoes_insert_new hw), returned_reraise a s _ _ job⟩
  · exact transition_cases a jobId fromStatuses toStatus fields s
  · by_cases hn : (s.jobs.items.filter (isRetryCandidate collection)).isEmpty = true
    · have hcand : ∀ j ∈ s.jobs, isRetryCandidate collection j = false := by
        intro j hj
        have hfil := List.filter_eq_nil_iff.mp (List.isEmpty_iff.mp hn) j hj
        simpa using hfil
      simp only [cancelIngestRetries, if_pos hn]
      exact ⟨trivial, rfl, fun _ => hcand⟩
    · simp only [cancelIngestRetries, if_neg hn]
      have hund := undoes_cancelledRetry a.stamp collection s.jobs
      refine ⟨trivial, callSpec_persistOrRollback a s hund, fun hunc => ?_⟩
      rcases persistOrRollback_cases a s _ _ with ⟨s₁, -, heq⟩ | ⟨s₁, s₂, raised, -, -, heq⟩
      · rw [heq] at hunc
        cases hunc
      · rw [heq] at hunc
        cases hunc

/-! ### A new job whose write fails after the rename -/

def sampleAttempt : Attempt sampleFromisoformat where
  stamp := sampleReading
  now₁ := sampleReading.instant
  outcome₁ := .failedAfterReplace
  now₂ := sampleReading.instant
  outcome₂ := .written

/-- The job is taken back, in memory and in the file, and the caller gets an error. -/
theorem call_atomic_rolledBack :
    (createJob sampleAttempt (sampleJob "c" .pending .ingest) ⟨sampleTable, .missing⟩).result =
        .rolledBack true ∧
      (createJob sampleAttempt (sampleJob "c" .pending .ingest) ⟨sampleTable, .missing⟩).returned =
        .error .notPersisted ∧
      decodeTable (createJob sampleAttempt (sampleJob "c" .pending .ingest)
          ⟨sampleTable, .missing⟩).store.file =
        some (createJob sampleAttempt (sampleJob "c" .pending .ingest)
          ⟨sampleTable, .missing⟩).store.jobs := by
  obtain ⟨hspec, hret⟩ := (call_atomic sampleAttempt ⟨sampleTable, .missing⟩).1
    (sampleJob "c" .pending .ingest) rfl
  rcases hret with ⟨hres, -⟩ | ⟨-, hret⟩
  · exact absurd hres (by decide)
  · exact ⟨rfl, hret, hspec.2 rfl⟩

end ArchonSearch.Jobs
