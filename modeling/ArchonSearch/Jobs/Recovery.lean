import ArchonSearch.Jobs.RoundTrip

/-!
# What a restart finds

After a store is constructed on a jobs file, the jobs of the previous process are settled:
nothing is running, nothing is being cancelled, and nothing waits to be run that nobody
would run. Whether the process died in an ingest is latched from the rows, before eviction
can drop them.

Recovery goes by the `job_type` of the row. A row of a type this version does not know is loaded as
a plain ingest job, and keeps its status when that is `PENDING` – its type is not one whose
`PENDING` rows are settled. So a base ingest job can be `PENDING` after a load, if its row had an
unknown type (`unknown_type_stays_pending`), and it is settled by the load after the next write,
which tags it as an ingest. That is the only exception: `openStore_recovers`.
-/

namespace ArchonSearch.Jobs

open Py Lib List Option

/-! ### One row -/

variable {jobType : Json}

/-- The class of a decoded row is the one its type names, or a plain ingest job. -/
theorem decodePayload_cases {row : Row} {p : Payload} {extra : List String}
    (h : decodePayload jobType row = some (p, extra)) : p = .ingest ∨ jobType = .str p.jobType := by
  unfold decodePayload at h
  split at h
  all_goals
    first
      | (simp only [some.injEq, Prod.mk.injEq] at h
         obtain ⟨rfl, -⟩ := h
         first
           | exact Or.inr rfl
           | exact Or.inl rfl)
      | (simp only [bind_eq_bind, bind_eq_some_iff, some.injEq, Prod.mk.injEq] at h
         obtain ⟨_, -, _, -, rfl, -⟩ := h
         exact Or.inr rfl)

theorem payload_of_decodeJob {row : Row} {j : Job} (h : decodeJob row = some j) :
    j.payload = .ingest ∨ jobTypeOf row = .str j.payload.jobType := by
  simp only [decodeJob, bind_eq_bind, bind_eq_some_iff] at h
  obtain ⟨_, -, _, -, ⟨p, extra⟩, hp, _, -, _, -, _, -, _, -, _, -, hj⟩ := h
  split_ifs at hj
  cases hj
  exact decodePayload_cases hp

/-- The recovery branches, with the test that led to each. -/
theorem rewriteOf_cases {j : Job} {w : Rewrite}
    (h : rewriteOf jobType j = some w) :
    (w = .cancelled ∧ j.status = .cancelling ∧ j.cancelledBeforeStart = true) ∨
    (∃ b, w = .processRestart b ∧ memStrings ingestFamilyJobTypes jobType = some b ∧
      (j.status = .running ∨ j.status = .cancelling ∧ j.cancelledBeforeStart = false)) ∨
    (j.status = .pending ∧ ∃ b, memStrings notStartedOnLoadJobTypes jobType = some b ∧
      w = if b then .notStarted else .keep) ∨
    (j.status = .queued ∧ ∃ b, memStrings neverScheduledOnLoadJobTypes jobType = some b ∧
      w = if b then .notStarted else .keep) ∨
    (w = .keep ∧ j.status.terminal = true) := by
  unfold rewriteOf at h
  split_ifs at h with hcan hcrash hpen hqd
  · exact Or.inl ⟨(some.inj h).symm, hcan⟩
  · obtain ⟨b, hb, rfl⟩ := map_eq_some_iff.mp h
    refine Or.inr (Or.inl ⟨b, rfl, hb, ?_⟩)
    rcases hcrash with hr | hc
    · exact Or.inl hr
    · exact Or.inr ⟨hc, by simpa [hc] using hcan⟩
  · obtain ⟨b, hb, rfl⟩ := map_eq_some_iff.mp h
    exact Or.inr (Or.inr (Or.inl ⟨hpen, b, hb, rfl⟩))
  · obtain ⟨b, hb, rfl⟩ := map_eq_some_iff.mp h
    exact Or.inr (Or.inr (Or.inr (Or.inl ⟨hqd, b, hb, rfl⟩)))
  · refine Or.inr (Or.inr (Or.inr (Or.inr ⟨(some.inj h).symm, ?_⟩)))
    cases hs : j.status <;> simp_all [JobStatus.terminal]

/-- A settled job: neither running nor being cancelled, not `PENDING` as a reindex, and not
`QUEUED` as a job the scheduler does not run. -/
structure Settled (j : Job) : Prop where
  not_running : j.status ≠ .running
  not_cancelling : j.status ≠ .cancelling
  /-- A `PENDING` job is no reindex. -/
  pending : j.status = .pending → j.payload.jobType ≠ "reindex"
  /-- A `QUEUED` job is an export, import, migration, delete, reindex or base ingest. -/
  queued : j.status = .queued → neverScheduledOnLoadJobTypes.contains j.payload.jobType = false

section Load

variable {fromisoformat : String → Option ℤ} {r : Reading fromisoformat} {e : Job × Rewrite}
  {row : Row}

theorem loadRow_cases
    (h : loadRow r row = some e) :
    ∃ j, decodeJob row = some j ∧ rewriteOf (jobTypeOf row) j = some e.2 ∧ e.1 = e.2.apply r j := by
  simp only [loadRow, bind_eq_bind, bind_eq_some_iff, some.injEq] at h
  obtain ⟨j, hj, w, hw, rfl⟩ := h
  exact ⟨j, hj, hw, rfl⟩

@[simp] theorem Rewrite.payload_apply (r : Reading fromisoformat) (w : Rewrite) (j : Job) :
    (w.apply r j).payload = j.payload := by
  cases w <;> rfl

theorem settled_of_loadRow
    (h : loadRow r row = some e) : Settled e.1 := by
  obtain ⟨j, hj, hw, he⟩ := loadRow_cases h
  rcases rewriteOf_cases hw with ⟨hcand, -⟩ | ⟨b, hres, -⟩ | ⟨hs, b, hb, hb'⟩ |
    ⟨hs, b, hb, hb'⟩ | ⟨hkeep, hs⟩
  · rw [he, hcand]
    constructor <;> simp [Rewrite.apply, stamped]
  · rw [he, hres]
    constructor <;> simp [Rewrite.apply, stamped]
  · cases b with
    | true =>
      rw [he, hb']
      constructor <;> simp [Rewrite.apply, stamped]
    | false =>
      rw [he, hb']
      constructor
      · simp [Rewrite.apply, hs]
      · simp [Rewrite.apply, hs]
      · intro _ hre
        -- a reindex job has the type of one, whose `PENDING` rows are settled
        rcases payload_of_decodeJob hj with hp | hp
        · rw [Rewrite.payload_apply, hp] at hre
          exact absurd hre (by decide)
        · rw [Rewrite.payload_apply] at hre
          rw [hp, hre] at hb
          exact absurd hb (by decide)
      · simp [Rewrite.apply, hs]
  · cases b with
    | true =>
      rw [he, hb']
      constructor <;> simp [Rewrite.apply, stamped]
    | false =>
      rw [he, hb']
      constructor
      · simp [Rewrite.apply, hs]
      · simp [Rewrite.apply, hs]
      · simp [Rewrite.apply, hs]
      · intro _
        rw [Rewrite.payload_apply]
        rcases payload_of_decodeJob hj with hp | hp
        · rw [hp]
          decide
        · rw [hp] at hb
          exact some.inj hb
  · rw [he, hkeep]
    constructor <;> intro hs' <;> rw [Rewrite.apply] at hs' <;> rw [hs'] at hs <;>
      exact absurd hs (by decide)

/-- The type of the row is none of this version. -/
def UnknownType (row : Row) : Prop := ∀ p : Payload, jobTypeOf row ≠ .str p.jobType

/-- A row of a known type other than `ingest` is not loaded as a plain ingest job. -/
theorem jobType_of_decodePayload {p : Payload} {extra : List String}
    (h : decodePayload (.str p.jobType) row = some (.ingest, extra)) : p.jobType = "ingest" := by
  cases p <;> simp [decodePayload, Payload.jobType, bind_eq_some_iff] at h ⊢

/-- A base ingest job that is loaded `PENDING` comes from a row of an unknown type. -/
theorem unknownType_of_pending
    (h : loadRow r row = some e) (hbase : e.1.isBaseIngest = true)
    (hpen : e.1.status = .pending) : decodeJob row = some e.1 ∧ UnknownType row := by
  obtain ⟨j, hj, hw, he⟩ := loadRow_cases h
  rcases rewriteOf_cases hw with ⟨hcand, -⟩ | ⟨b, hres, -⟩ | ⟨hs, b, hb, hb'⟩ |
    ⟨hs, b, hb, hb'⟩ | ⟨hkeep, hs⟩
  · rw [he, hcand] at hpen
    cases hpen
  · rw [he, hres] at hpen
    cases hpen
  · cases b with
    | true =>
      rw [he, hb'] at hpen
      cases hpen
    | false =>
      have hej : e.1 = j := by
        rw [he, hb']
        rfl
      rw [hej] at hbase ⊢
      refine ⟨hj, fun p hp => ?_⟩
      have hing : j.payload = .ingest := by
        revert hbase
        unfold Job.isBaseIngest
        cases j.payload <;> simp
      have htype : p.jobType = "ingest" := by
        simp only [decodeJob, bind_eq_bind, bind_eq_some_iff] at hj
        obtain ⟨_, -, _, -, ⟨q, extra⟩, hq, _, -, _, -, _, -, _, -, _, -, hjq⟩ := hj
        split_ifs at hjq
        cases hjq
        obtain rfl : q = .ingest := hing
        rw [hp] at hq
        exact jobType_of_decodePayload hq
      rw [hp, htype] at hb
      exact absurd hb (by decide)
  · cases b with
    | true =>
      rw [he, hb'] at hpen
      cases hpen
    | false =>
      rw [he, hb'] at hpen
      exact absurd (hs.symm.trans hpen) (by decide)
  · rw [he, hkeep, Rewrite.apply] at hpen
    rw [hpen] at hs
    cases hs

/-- The guard is latched by exactly the rows of the ingest family that were running, or
being cancelled after they had started. -/
theorem latches_iff_of_loadRow
    (h : loadRow r row = some e) :
    e.2.latches = true ↔ ∃ j, decodeJob row = some j ∧
      (jobTypeOf row = .str "ingest" ∨ jobTypeOf row = .str "sync") ∧
      (j.status = .running ∨ j.status = .cancelling ∧ j.cancelledBeforeStart = false) := by
  obtain ⟨j, hj, hw, -⟩ := loadRow_cases h
  constructor
  · intro hlats
    rcases rewriteOf_cases hw with ⟨hcand, -⟩ | ⟨b, hres, hb, hs⟩ | ⟨-, b, -, hb'⟩ |
      ⟨-, b, -, hb'⟩ | ⟨hkeep, -⟩
    · rw [hcand] at hlats
      cases hlats
    · rw [hres] at hlats
      obtain rfl : b = true := hlats
      obtain ⟨s, hs', hjs⟩ := memStrings_eq_true_iff.mp hb
      refine ⟨j, hj, ?_, hs⟩
      rcases mem_cons.mp hs' with rfl | hs'
      · exact Or.inl hjs
      · rw [mem_singleton.mp hs'] at hjs
        exact Or.inr hjs
    all_goals
      first
        | (rw [hkeep] at hlats
           cases hlats)
        | (rw [hb'] at hlats
           cases b <;> cases hlats)
  · rintro ⟨j', hj', htype, hs⟩
    obtain rfl : j = j' := some.inj (hj.symm.trans hj')
    have hm : memStrings ingestFamilyJobTypes (jobTypeOf row) = some true := by
      rw [memStrings_eq_true_iff]
      rcases htype with htype | htype
      · exact ⟨"ingest", by decide, htype⟩
      · exact ⟨"sync", by decide, htype⟩
    rcases rewriteOf_cases hw with ⟨-, hc, hflag⟩ | ⟨b, hres, hb, -⟩ | ⟨hp, -⟩ | ⟨hq, -⟩ | ⟨-, ht⟩
    · rcases hs with hs | ⟨-, hs⟩
      · rw [hs] at hc
        cases hc
      · rw [hs] at hflag
        cases hflag
    · rw [hres]
      exact some.inj (hb.symm.trans hm)
    · rcases hs with hs | ⟨hs, -⟩ <;> rw [hs] at hp <;> cases hp
    · rcases hs with hs | ⟨hs, -⟩ <;> rw [hs] at hq <;> cases hq
    · rcases hs with hs | ⟨hs, -⟩ <;> rw [hs] at ht <;> cases ht

/-! ### A whole file -/

variable {readings : ℕ → Reading fromisoformat} {rows : List Row} {es : List (Job × Rewrite)}

/-- The loop of `_load` goes through every row, and through nothing else. -/
theorem loadRows_mem (h : loadRows readings rows = some es) :
    (∀ e ∈ es, ∃ row ∈ rows, ∃ r : Reading fromisoformat, loadRow r row = some e) ∧
      ∀ row ∈ rows, ∃ e ∈ es, ∃ r : Reading fromisoformat, loadRow r row = some e := by
  induction rows generalizing readings es with
  | nil =>
    cases h
    simp
  | cons row rows ih =>
    simp only [loadRows, bind_eq_bind, bind_eq_some_iff, some.injEq] at h
    obtain ⟨e, he, es', hes', rfl⟩ := h
    obtain ⟨hfrom, hto⟩ := ih hes'
    constructor
    · intro e' he'
      rcases mem_cons.mp he' with rfl | he'
      · exact ⟨row, mem_cons_self, _, he⟩
      · obtain ⟨row', hr', hr⟩ := hfrom e' he'
        exact ⟨row', mem_cons_of_mem row hr', hr⟩
    · intro row' hr'
      rcases mem_cons.mp hr' with rfl | hr'
      · exact ⟨e, mem_cons_self, _, he⟩
      · obtain ⟨e', he', hr⟩ := hto row' hr'
        exact ⟨e', mem_cons_of_mem e he', hr⟩

variable {loaded : Loaded} {v : Json} {now : ℤ}

/-- The parts of a load that is not taken for corrupt. -/
theorem load_cases
    (h : load readings now v = some loaded) :
    ∃ rows es, rows? v = some rows ∧ loadRows readings rows = some es ∧
      Timed fromisoformat (Keyed.ofList (es.map Prod.fst)) ∧
      loaded.jobs =
        (Keyed.ofList (es.map Prod.fst)).filter (fun j => !j.expired fromisoformat now) ∧
      loaded.modified = (es.any (fun e => e.2.modifies) || decide (loaded.jobs.items.length <
        (Keyed.ofList (es.map Prod.fst) : Table).items.length)) ∧
      loaded.crashed = es.any fun e => e.2.latches := by
  simp only [load, bind_eq_bind, bind_eq_some_iff, some.injEq] at h
  obtain ⟨rows, hrw, es, hes, kept, hk, rfl⟩ := h
  obtain ⟨htim, rfl⟩ := evictOld_eq_some_iff.mp hk
  exact ⟨rows, es, hrw, hes, htim, rfl, rfl, rfl⟩

/-- Rows that are kept as they are do not depend on the clock. -/
theorem loadRows_of_keep (h : loadRows readings rows = some es)
    (hkeep : ∀ e ∈ es, e.2 = .keep) (readings' : ℕ → Reading fromisoformat) :
    loadRows readings' rows = some es := by
  induction rows generalizing readings readings' es with
  | nil => exact h
  | cons row rows ih =>
    simp only [loadRows, bind_eq_bind, bind_eq_some_iff, some.injEq] at h
    obtain ⟨e, he, es', hes', rfl⟩ := h
    have hr : loadRow (readings' 0) row = some e := by
      obtain ⟨j, hj, hw, hej⟩ := loadRow_cases he
      have hkeep' := hkeep e mem_cons_self
      have hej' : e = (j, .keep) := Prod.ext (by rw [hej, hkeep']; rfl) hkeep'
      simp only [loadRow, hj, hw, bind_eq_bind, bind_some]
      rw [hej']
      rfl
    have hrs := ih hes' (fun e' he' => hkeep e' (mem_cons_of_mem e he')) fun i => readings' (i + 1)
    simp [loadRows, hr, hrs]

variable {outcome : WriteOutcome} {opened : Opened}

/-- A store constructed on a file that is not corrupt: it keeps the file as it is, or
rewrites it. -/
theorem openStore_cases {now₁ now₂ : ℤ}
    (hl : load readings now₁ v = some loaded)
    (hopen : openStore readings now₁ now₂ outcome (.json v) = some opened) :
    opened.crashed = loaded.crashed ∧
      ((loaded.modified = false ∧ opened.store = ⟨loaded.jobs, .json v⟩) ∨
        (evictOld fromisoformat now₂ loaded.jobs = some opened.store.jobs ∧
          opened.store.file = .json (encodeTable opened.store.jobs))) := by
  have hf : loadFile readings now₁ (.json v) = loaded := by
    simp [loadFile, hl]
  cases hmod : loaded.modified with
  | false =>
    simp only [openStore, reopen, hf, hmod] at hopen
    cases hopen
    exact ⟨rfl, Or.inl ⟨rfl, rfl⟩⟩
  | true =>
    rcases hw : writeAtomic fromisoformat now₂ outcome ⟨loaded.jobs, .json v⟩ with ⟨s, - | -⟩
    · simp only [openStore, reopen, hf, hmod, if_true, hw] at hopen
      cases hopen
      exact ⟨rfl, Or.inr (writeAtomic_returned hw)⟩
    · simp [openStore, reopen, hf, hmod, hw] at hopen

variable {j : Job}

/-- The jobs of a constructed store are among the loaded ones. -/
theorem mem_loaded_of_mem_opened {now₁ now₂ : ℤ}
    (hl : load readings now₁ v = some loaded)
    (hopen : openStore readings now₁ now₂ outcome (.json v) = some opened)
    (hj : j ∈ opened.store.jobs) : j ∈ loaded.jobs := by
  rcases (openStore_cases hl hopen).2 with ⟨-, hstore⟩ | ⟨hevict, -⟩
  · rw [hstore] at hj
    exact hj
  · obtain ⟨-, hjs⟩ := evictOld_eq_some_iff.mp hevict
    rw [← hjs] at hj
    exact (Keyed.mem_filter.mp hj).1

theorem loadRow_of_mem_loaded (hl : load readings now v = some loaded)
    (hrw : rows? v = some rows) (hj : j ∈ loaded.jobs) :
    ∃ row ∈ rows, ∃ (r : Reading fromisoformat) (w : Rewrite), loadRow r row = some (j, w) := by
  obtain ⟨rows', es, hrw', hes, -, hjs, -⟩ := load_cases hl
  obtain rfl : rows' = rows := some.inj (hrw'.symm.trans hrw)
  rw [hjs] at hj
  obtain ⟨e, he, rfl⟩ := List.mem_map.mp (Keyed.mem_of_mem_ofList (Keyed.mem_filter.mp hj).1)
  obtain ⟨row, hrow, r, hr⟩ := (loadRows_mem hes).1 e he
  exact ⟨row, hrow, r, e.2, hr⟩

/-- A settled job is kept by the next load, unless it is a `PENDING` base ingest. -/
theorem Settled.rewriteOnLoad (h : Settled j) :
    j.rewriteOnLoad.latches = false ∧
      (j.rewriteOnLoad = .keep ∨ j.isBaseIngest = true ∧ j.status = .pending) := by
  have hr := h.not_running
  have hcang := h.not_cancelling
  have hpen := h.pending
  have hqd := h.queued
  unfold Job.rewriteOnLoad Job.isBaseIngest
  cases hs : j.status <;> cases hp : j.payload <;>
    simp_all [Rewrite.latches, Payload.jobType, neverScheduledOnLoadJobTypes]

/-- A load that modified nothing had nothing to rewrite and nothing to evict, so another one
of the same file finds the same jobs, less those that have expired since. -/
theorem load_of_not_modified (hl : load readings now v = some loaded)
    (hmodi : loaded.modified = false) (readings' : ℕ → Reading fromisoformat) (now' : ℤ) :
    ∃ loaded', load readings' now' v = some loaded' ∧ loaded'.crashed = false ∧
      ∀ j ∈ loaded'.jobs, j ∈ loaded.jobs := by
  obtain ⟨rows, es, hrw, hes, htim, hjs, hmod, -⟩ := load_cases hl
  rw [hmodi, eq_comm, Bool.or_eq_false_iff] at hmod
  have hkeep : ∀ e ∈ es, e.2 = .keep := by
    intro e he
    have hnot := List.any_eq_false.mp hmod.1 e he
    revert hnot
    cases e.2 <;> simp [Rewrite.modifies]
  have hlen := of_decide_eq_false hmod.2
  have hall : loaded.jobs = Keyed.ofList (es.map Prod.fst) := by
    refine Keyed.ext ?_
    rw [hjs] at hlen ⊢
    refine filter_sublist.eq_of_length_le ?_
    exact Nat.le_of_not_lt hlen
  have hk : evictOld fromisoformat now' (Keyed.ofList (es.map Prod.fst)) =
      some ((Keyed.ofList (es.map Prod.fst)).filter fun j => !j.expired fromisoformat now') :=
    evictOld_eq_some_iff.mpr ⟨htim, rfl⟩
  obtain ⟨loaded', hl', hjs', hcras'⟩ : ∃ loaded', load readings' now' v = some loaded' ∧
      loaded'.jobs =
        (Keyed.ofList (es.map Prod.fst)).filter (fun j => !j.expired fromisoformat now') ∧
      loaded'.crashed = es.any fun e => e.2.latches := by
    simp only [load, hrw, loadRows_of_keep hes hkeep readings', hk, bind_eq_bind, bind_some]
    exact ⟨_, rfl, rfl, rfl⟩
  refine ⟨loaded', hl', ?_, fun j hj => ?_⟩
  · rw [hcras', List.any_eq_false]
    intro e he
    rw [hkeep e he]
    decide
  · rw [hjs'] at hj
    rw [hall]
    exact (Keyed.mem_filter.mp hj).1

/-- **The second load finds nothing to settle**, except base ingest jobs that the first one
has left `PENDING`. -/
theorem load_again {now₁ now₂ : ℤ}
    (hl : load readings now₁ v = some loaded)
    (hopen : openStore readings now₁ now₂ outcome (.json v) = some opened)
    (hst : ∀ j ∈ opened.store.jobs, Settled j) (readings' : ℕ → Reading fromisoformat)
    (now' : ℤ) :
    ∃ v' loaded', opened.store.file = .json v' ∧ load readings' now' v' = some loaded' ∧
      loaded'.crashed = false ∧ ∀ j' ∈ loaded'.jobs, ∃ j ∈ opened.store.jobs, j'.key = j.key ∧
        (j'.status = j.status ∨ j.isBaseIngest = true ∧ j.status = .pending) := by
  rcases (openStore_cases hl hopen).2 with ⟨hmod, hstore⟩ | ⟨hevict, hf⟩
  · -- the file was kept: no row was rewritten and no job evicted
    obtain ⟨loaded', hl', hcras', hjs'⟩ :=
      load_of_not_modified hl hmod readings' now'
    rw [hstore]
    exact ⟨v, loaded', rfl, hl', hcras', fun j' hj' => ⟨j', hjs' j' hj', rfl, Or.inl rfl⟩⟩
  · -- the file was rewritten from memory
    obtain ⟨loaded', hl', hjs', hcras'⟩ :=
      load_encodeTable readings' now' (Timed.evictOld hevict)
    refine ⟨_, loaded', hf, hl', ?_, fun j' hj' => ?_⟩
    · rw [hcras', List.any_eq_false]
      intro j hj
      rw [(hst j hj).rewriteOnLoad.1]
      decide
    · rw [Keyed.mem_def, hjs'] at hj'
      obtain ⟨i, hi, rfl⟩ := mem_mapIdx.mp (mem_of_mem_filter hj')
      have hm : opened.store.jobs.items[i] ∈ opened.store.jobs := getElem_mem hi
      refine ⟨_, hm, Rewrite.key_apply _ _ _, ?_⟩
      rcases (hst _ hm).rewriteOnLoad.2 with hkeep | hpen
      · rw [hkeep]
        exact Or.inl rfl
      · exact Or.inr hpen

/-- **A constructed store is settled.** On every jobs file that is not corrupt, after the
construction no job is running or being cancelled, no reindex is `PENDING`, a `PENDING` base
ingest comes from a row of an unknown type, and only exports, imports, migrations, deletes,
reindexes and base ingests can be `QUEUED`; the guard is latched exactly when the file held
a row of type `ingest` or `sync` that was running, or being cancelled after it had started;
and a second construction on the resulting file does not find it corrupt, latches nothing and
changes no status but those of `PENDING` base ingests. -/
theorem openStore_recovers (readings : ℕ → Reading fromisoformat) (now₁ now₂ : ℤ)
    (outcome : WriteOutcome) (v : Json) (loaded : Loaded) (opened : Opened)
    (hload : load readings now₁ v = some loaded)
    (hopen : openStore readings now₁ now₂ outcome (.json v) = some opened) :
    ∃ rows, rows? v = some rows ∧
      (∀ j ∈ opened.store.jobs, Settled j ∧ (j.isBaseIngest = true → j.status = .pending →
        ∃ row ∈ rows, decodeJob row = some j ∧ UnknownType row)) ∧
      (opened.crashed = true ↔ ∃ row ∈ rows, ∃ j, decodeJob row = some j ∧
        (jobTypeOf row = .str "ingest" ∨ jobTypeOf row = .str "sync") ∧
        (j.status = .running ∨ j.status = .cancelling ∧ j.cancelledBeforeStart = false)) ∧
      ∀ (readings' : ℕ → Reading fromisoformat) (now₁' now₂' : ℤ) (outcome' : WriteOutcome),
        ∃ v' loaded', opened.store.file = .json v' ∧ load readings' now₁' v' = some loaded' ∧
          ∀ opened', openStore readings' now₁' now₂' outcome' (.json v') = some opened' →
            opened'.crashed = false ∧ ∀ j' ∈ opened'.store.jobs, ∃ j ∈ opened.store.jobs,
              j'.key = j.key ∧
                (j'.status = j.status ∨ j.isBaseIngest = true ∧ j.status = .pending) := by
  obtain ⟨rows, es, hrw, hes, -, -, -, hcras⟩ := load_cases hload
  have hrow : ∀ j ∈ opened.store.jobs, ∃ row ∈ rows, ∃ (r : Reading fromisoformat) (w : Rewrite),
      loadRow r row = some (j, w) := fun j hj =>
    loadRow_of_mem_loaded hload hrw (mem_loaded_of_mem_opened hload hopen hj)
  have hst : ∀ j ∈ opened.store.jobs, Settled j := by
    intro j hj
    obtain ⟨row, -, r, w, hr⟩ := hrow j hj
    exact settled_of_loadRow hr
  refine ⟨rows, hrw, fun j hj => ⟨hst j hj, fun hbase hpen => ?_⟩, ?_, ?_⟩
  · obtain ⟨row, hm, r, w, hr⟩ := hrow j hj
    exact ⟨row, hm, unknownType_of_pending hr hbase hpen⟩
  · rw [(openStore_cases hload hopen).1, hcras, List.any_eq_true]
    constructor
    · rintro ⟨e, he, hlats⟩
      obtain ⟨row, hm, r, hr⟩ := (loadRows_mem hes).1 e he
      exact ⟨row, hm, (latches_iff_of_loadRow hr).mp hlats⟩
    · rintro ⟨row, hm, hj⟩
      obtain ⟨e, he, r, hr⟩ := (loadRows_mem hes).2 row hm
      exact ⟨e, he, (latches_iff_of_loadRow hr).mpr hj⟩
  · intro readings' now₁' now₂' outcome'
    obtain ⟨v', loaded', hf, hl', hcras', hjs'⟩ :=
      load_again hload hopen hst readings' now₁'
    refine ⟨v', loaded', hf, hl', fun opened' ho' => ⟨?_, fun j' hj' => ?_⟩⟩
    · rw [(openStore_cases hl' ho').1, hcras']
    · exact hjs' j' (mem_loaded_of_mem_opened hl' ho' hj')

end Load

/-! ### A row of a type from another version -/

def sampleRow (id status jobType : String) : Row :=
  [("job_id", .str id), ("status", .str status), ("created_at", .str sampleReading.text),
    ("updated_at", .str sampleReading.text), ("job_type", .str jobType)]

/-- A pending job of a type this version does not know, and an ingest that was running. -/
def sampleFile : Json :=
  .arr [.obj (sampleRow "a" "PENDING" "vacuum"), .obj (sampleRow "b" "RUNNING" "ingest")]

def sampleOpen (file : JobsFile) : Option Opened :=
  openStore (fun _ => sampleReading) sampleReading.instant sampleReading.instant .written file

/-- **A base ingest job can be `PENDING` after a load**, and the second load then changes
its status. -/
theorem unknown_type_stays_pending :
    ∃ loaded opened opened',
      load (fun _ => sampleReading) sampleReading.instant sampleFile = some loaded ∧
      sampleOpen (.json sampleFile) = some opened ∧
      (∃ j ∈ opened.store.jobs, j.isBaseIngest = true ∧ j.status = .pending) ∧
      sampleOpen opened.store.file = some opened' ∧
      ∃ j' ∈ opened'.store.jobs, ∃ j ∈ opened.store.jobs, j'.key = j.key ∧
        j'.status ≠ j.status := by
  refine ⟨_, _, _, rfl, rfl, ⟨_, mem_cons_self, rfl, rfl⟩, rfl, _, mem_cons_self, _,
    mem_cons_self, rfl, ?_⟩
  decide

/-- On the sample file the guard is latched, by the ingest that was running. -/
theorem openStore_recovers_running :
    ∃ opened, sampleOpen (.json sampleFile) = some opened ∧ opened.crashed = true := by
  refine ⟨_, rfl, ?_⟩
  obtain ⟨rows, hrw, -, hcras, -⟩ := openStore_recovers (fun _ => sampleReading)
    sampleReading.instant sampleReading.instant .written sampleFile _ _ rfl rfl
  cases hrw
  exact hcras.mpr ⟨_, mem_cons_of_mem _ mem_cons_self, _, rfl, Or.inl rfl, Or.inl rfl⟩

end ArchonSearch.Jobs
