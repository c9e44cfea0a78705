import ArchonSearch.Jobs.Retry

/-!
# Retries are bounded

A retry carries its number, and the next pass reads the number off the newest retry – if the job
store still has it. So the invariant speaks about the last retry of a key since the key was last
submitted (`Counted`): its number is at least the number of retries created so far, no job of the
key is younger, and either the job store has it or it was created more than the seven days of the
eviction ago.

In the second case a pass may start to count anew. It does not if the chain is then too old to be
retried, which is so when `retry_max_age_hours` is at most seven days; and it does not if there is
no `FAILED` job left, which is so when no other job of the key was outstanding as the last retry was
created (`Undisturbed`): such jobs have been evicted with it or before. Otherwise an older job that
fails after eight days is retried as if nothing had been (`retried_anew`).

What holds of the memory holds of the file, but for a job whose creation raised after it had
replaced the file (`GoodFile`).
-/

namespace ArchonSearch.Jobs.Retry

open Lib List

/-! ### Later versions of a job -/

/-- A job later on: created the same, not younger, not active again. -/
structure Evolves (stamp : ℤ) (r r' : Record) : Prop where
  ticket : r'.toTicket = r.toTicket
  updated : r.updatedAt ≤ r'.updatedAt
  stamped : r'.updatedAt = r.updatedAt ∨ r'.updatedAt = stamp
  terminal : r.status.terminal = true → r'.status.terminal = true
  failed : r.status.terminal = true → r'.status = .failed →
    r.status = .failed ∧ r'.updatedAt = r.updatedAt

open Evolves

theorem Evolves.refl (stamp : ℤ) (r : Record) : Evolves stamp r r where
  ticket := rfl
  updated := le_rfl
  stamped := Or.inl rfl
  terminal h := h
  failed _ h := ⟨h, rfl⟩

variable {r : Record}

/-- A write to a job that has not ended, or that ends it otherwise. -/
theorem Evolves.replace {stamp : ℤ} (hsp : r.updatedAt ≤ stamp) (f : Fields)
    (h : r.status.terminal = true → f.status.terminal = true ∧ f.status ≠ .failed) :
    Evolves stamp r (r.replace stamp f) where
  ticket := rfl
  updated := hsp
  stamped := Or.inr rfl
  terminal ht := (h ht).1
  failed ht hf := absurd hf (h ht).2

/-- What calls of the store do to its jobs: they go on, and the old ones that ended are dropped. -/
structure Advances (stamp cut : ℤ) (jobs jobs' : List Record) : Prop where
  back : ∀ r' ∈ jobs', (∃ r ∈ jobs, Evolves stamp r r') ∧
    (r'.status.terminal = true → cut ≤ r'.updatedAt)
  forth : ∀ r ∈ jobs, ∃ r', Evolves stamp r r' ∧ (r' ∈ jobs' ∨ r'.updatedAt < cut)

/-- **What a write makes of the jobs.** Before the eviction each job is a later version of one
that was there, and none is missing but the ones that were to be dropped. -/
theorem Advances.of_evictOld {stamp now : ℤ} {t t' : Table}
    (hback : ∀ r' ∈ t', ∃ r ∈ t, Evolves stamp r r')
    (hfor : ∀ r ∈ t, ∃ r', Evolves stamp r r' ∧ (r' ∈ t' ∨ r'.updatedAt < now - evictionAge)) :
    Advances stamp (now - evictionAge) t.items (evictOld now t').items where
  back r' hr' := by
    obtain ⟨hm, hk⟩ := Keyed.mem_filter.mp hr'
    refine ⟨hback r' hm, fun hter => ?_⟩
    simpa [Record.expired, hter] using hk
  forth r hr := by
    obtain ⟨r', hev, hm | hold⟩ := hfor r hr
    · refine ⟨r', hev, ?_⟩
      by_cases hexp : r'.expired now = true
      · simp only [Record.expired, Bool.and_eq_true, decide_eq_true_eq] at hexp
        exact Or.inr hexp.2
      · exact Or.inl (Keyed.mem_filter.mpr ⟨hm, by simpa using hexp⟩)
    · exact ⟨r', hev, Or.inr hold⟩

variable {t : Table}

theorem mem_evictOld {now : ℤ} (hr : r ∈ t) :
    r ∈ evictOld now t ∨ r.updatedAt < now - evictionAge := by
  by_cases hexp : r.expired now = true
  · simp only [Record.expired, Bool.and_eq_true, decide_eq_true_eq] at hexp
    exact Or.inr hexp.2
  · exact Or.inl (Keyed.mem_filter.mpr ⟨hr, by simpa using hexp⟩)

theorem mem_of_mem_evictOld {now : ℤ} (hr : r ∈ evictOld now t) : r ∈ t :=
  (Keyed.mem_filter.mp hr).1

/-! ### The last retry of a key -/

/-- What is known of the last retry `t` of a key since its last submission, created at `c`. -/
structure Counted (calm : Prop) (now : ℤ) (entered : List Ticket) (key : String)
    (jobs : List Record) (t : Ticket) (c : ℤ) : Prop where
  created : t.createdAt = some c
  length_le : (retriesSince key entered).length ≤ t.retryCount
  newest : ∀ r ∈ jobs, ofKey key r.toTicket = true → ∀ c', r.createdAt = some c' → c' ≤ c
  ended : calm → ∀ r ∈ jobs, ofKey key r.toTicket = true → r.toTicket ≠ t →
    r.status.terminal = true ∧ (r.status = .failed → r.updatedAt ≤ c)
  kept : (∃ r ∈ jobs, r.toTicket = t) ∨
    c + evictionAge < now ∧ (calm → ∀ r ∈ jobs, ofKey key r.toTicket = true → r.status ≠ .failed)

/-- The last retry of the key is counted, if there was one. -/
def CountedAt (calm : Prop) (now : ℤ) (entered : List Ticket) (key : String)
    (jobs : List Record) : Prop :=
  ∀ t, (retriesSince key entered).head? = some t → ∃ c, Counted calm now entered key jobs t c

/-- **What the retries rest on**: the jobs were entered, their times are in order, and of every key
the retries are bounded and counted. -/
structure Good (counts calm : Prop) (bound : ℕ) (now : ℤ) (entered : List Ticket)
    (jobs : List Record) : Prop where
  known : ∀ r ∈ jobs, r.toTicket ∈ entered
  timed : ∀ r ∈ jobs, ∃ c, r.createdAt = some c ∧ c ≤ r.updatedAt ∧ r.updatedAt ≤ now
  bounded : counts → ∀ key, (retriesSince key entered).length ≤ bound
  counted : counts → ∀ key, CountedAt calm now entered key jobs

variable {counts calm : Prop} {bound : ℕ} {now now' stamp cut : ℤ} {entered : List Ticket}
  {key : String} {jobs jobs' : List Record}

theorem CountedAt.mono (h : CountedAt calm now entered key jobs) (hnow : now ≤ now') :
    CountedAt calm now' entered key jobs := by
  intro t ht
  obtain ⟨c, hc⟩ := h t ht
  refine ⟨c, { hc with kept := ?_ }⟩
  rcases hc.kept with hk | ⟨hold, hfa⟩
  · exact Or.inl hk
  · exact Or.inr ⟨by omega, hfa⟩

theorem Good.mono (h : Good counts calm bound now entered jobs) (hnow : now ≤ now') :
    Good counts calm bound now' entered jobs where
  known := h.known
  timed r hr := by
    obtain ⟨c, hc, hle, hupd⟩ := h.timed r hr
    exact ⟨c, hc, hle, hupd.trans hnow⟩
  bounded := h.bounded
  counted hcnts key := (h.counted hcnts key).mono hnow

/-- **What is known of the last retry stays known.** -/
theorem CountedAt.advances (hg : Good counts calm bound now entered jobs)
    (hcnts : counts) (hadv : Advances stamp cut jobs jobs') (hnow : now ≤ now')
    (hcut : cut ≤ now' - evictionAge) :
    CountedAt calm now' entered key jobs' := by
  intro t ht
  obtain ⟨c, hc⟩ := hg.counted hcnts key t ht
  have hback : ∀ r' ∈ jobs', ∃ r ∈ jobs, Evolves stamp r r' := fun r' hr' => (hadv.back r' hr').1
  refine ⟨c, hc.created, hc.length_le, ?_, ?_, ?_⟩
  · intro r' hr' hk c' hc'
    obtain ⟨r, hr, hev⟩ := hback r' hr'
    rw [hev.ticket] at hk hc'
    exact hc.newest r hr hk c' hc'
  · intro hcalm r' hr' hk hne
    obtain ⟨r, hr, hev⟩ := hback r' hr'
    rw [hev.ticket] at hk hne
    obtain ⟨hter, hfa⟩ := hc.ended hcalm r hr hk hne
    refine ⟨hev.terminal hter, fun hf => ?_⟩
    obtain ⟨hf, hupd⟩ := hev.failed hter hf
    exact hupd ▸ hfa hf
  · by_cases hthere : ∃ r' ∈ jobs', r'.toTicket = t
    · exact Or.inl hthere
    right
    rcases hc.kept with ⟨r, hr, htic⟩ | ⟨hold, hfa⟩
    · -- the last retry is dropped, and every failed job of its key with it
      obtain ⟨r', hev, hm | hlt⟩ := hadv.forth r hr
      · exact absurd ⟨r', hm, hev.ticket.trans htic⟩ hthere
      obtain ⟨c', hc', hle, -⟩ := hg.timed r hr
      obtain rfl : c = c' := by
        rw [htic, hc.created] at hc'
        exact Option.some.inj hc'
      have hupd := hev.updated
      refine ⟨by omega, fun hcalm q' hq' hk hf => ?_⟩
      obtain ⟨q, hq, hqev⟩ := hback q' hq'
      have hne : q.toTicket ≠ t := fun h => hthere ⟨q', hq', hqev.ticket.trans h⟩
      rw [hqev.ticket] at hk
      obtain ⟨hter, hqfail⟩ := hc.ended hcalm q hq hk hne
      obtain ⟨hqf, hqup⟩ := hqev.failed hter hf
      have hqold := hqfail hqf
      have hqcut := (hadv.back q' hq').2 (hqev.terminal hter)
      omega
    · refine ⟨by omega, fun hcalm q' hq' hk hf => ?_⟩
      obtain ⟨q, hq, hqev⟩ := hback q' hq'
      have hne : q.toTicket ≠ t := fun h => hthere ⟨q', hq', hqev.ticket.trans h⟩
      rw [hqev.ticket] at hk
      obtain ⟨hter, -⟩ := hc.ended hcalm q hq hk hne
      exact hfa hcalm q hq hk (hqev.failed hter hf).1

theorem Good.advances (h : Good counts calm bound now entered jobs)
    (hadv : Advances stamp cut jobs jobs') (hsp : stamp ≤ now') (hnow : now ≤ now')
    (hcut : cut ≤ now' - evictionAge) :
    Good counts calm bound now' entered jobs' where
  known r' hr' := by
    obtain ⟨⟨r, hr, hev⟩, -⟩ := hadv.back r' hr'
    exact hev.ticket ▸ h.known r hr
  timed r' hr' := by
    obtain ⟨⟨r, hr, hev⟩, -⟩ := hadv.back r' hr'
    obtain ⟨c, hc, hle, hupd⟩ := h.timed r hr
    refine ⟨c, hev.ticket ▸ hc, hle.trans hev.updated, ?_⟩
    rcases hev.stamped with heq | heq <;> omega
  bounded := h.bounded
  counted hcnts _ := CountedAt.advances h hcnts hadv hnow hcut

/-! ### New jobs -/

theorem retriesSince_cons_of_submission {t : Ticket} (h : isSubmission key t = true) :
    retriesSince key (t :: entered) = [] := by
  simp [retriesSince, h]

theorem retriesSince_cons_of_retry {t : Ticket} (h : isRetry key t = true) :
    retriesSince key (t :: entered) = t :: retriesSince key entered := by
  have hsrc : t.source = .maintenance := by
    simp only [isRetry, Bool.and_eq_true, beq_iff_eq] at h
    exact h.1
  simp [retriesSince, isSubmission, hsrc, h]

theorem retriesSince_cons_of_notOfKey {t : Ticket} (h : ofKey key t = false) :
    retriesSince key (t :: entered) = retriesSince key entered := by
  simp [retriesSince, isSubmission, isRetry, h]

/-- A new job is a submission, or a retry that the count allows. -/
def Admissible (counts calm : Prop) (bound : ℕ) (entered : List Ticket) (jobs : List Record)
    (z : Record) : Prop :=
  ∀ key, ofKey key z.toTicket = true → z.source = .user ∨
    z.source = .maintenance ∧
      (counts → (retriesSince key entered).length + 1 ≤ z.retryCount) ∧ z.retryCount ≤ bound ∧
      (calm → ∀ r ∈ jobs, ofKey key r.toTicket = true → r.status.terminal = true)

variable {z : Record}

theorem Good.insert (h : Good counts calm bound now entered t.items)
    (hfr : ∀ r ∈ t, r.key ≠ z.key) (hcrd : z.createdAt = some stamp)
    (hupd : z.updatedAt = stamp) (hnow : now ≤ stamp)
    (hz : Admissible counts calm bound entered t.items z) :
    Good counts calm bound stamp (z.toTicket :: entered) (t.insert z).items := by
  have hm : ∀ r, r ∈ (t.insert z).items ↔ r = z ∨ r ∈ t := by
    intro r
    rw [← Keyed.mem_def, Keyed.mem_insert]
    constructor
    · exact Or.imp_right And.left
    · exact Or.imp_right fun hr => ⟨hr, hfr r hr⟩
  have hkp : ∀ {t₀ : Ticket}, (∃ r ∈ t, r.toTicket = t₀) →
      ∃ r ∈ (t.insert z).items, r.toTicket = t₀ := by
    rintro t₀ ⟨r, hr, htic⟩
    exact ⟨r, (hm r).mpr (Or.inr hr), htic⟩
  have htim : ∀ r ∈ t, ∃ c, r.createdAt = some c ∧ c ≤ r.updatedAt ∧ r.updatedAt ≤ stamp := by
    intro r hr
    obtain ⟨c, hc, hle, hupd⟩ := h.timed r hr
    exact ⟨c, hc, hle, hupd.trans hnow⟩
  refine ⟨?_, ?_, ?_, ?_⟩
  · intro r hr
    rcases (hm r).mp hr with rfl | hr
    · exact mem_cons_self
    · exact mem_cons_of_mem _ (h.known r hr)
  · intro r hr
    rcases (hm r).mp hr with rfl | hr
    · exact ⟨stamp, hcrd, hupd.ge, hupd.le⟩
    · exact htim r hr
  · intro hcnts key
    cases hk : ofKey key z.toTicket with
    | false =>
      rw [retriesSince_cons_of_notOfKey hk]
      exact h.bounded hcnts key
    | true =>
      rcases hz key hk with huser | ⟨hsrc, hcnt, hbound, -⟩
      · rw [retriesSince_cons_of_submission (by simp [isSubmission, huser, hk])]
        exact Nat.zero_le _
      · rw [retriesSince_cons_of_retry (by simp [isRetry, hsrc, hk]), length_cons]
        exact (hcnt hcnts).trans hbound
  · intro hcnts key t₀ ht₀
    cases hk : ofKey key z.toTicket with
    | false =>
      rw [retriesSince_cons_of_notOfKey hk] at ht₀
      obtain ⟨c, hc⟩ := (h.counted hcnts key).mono hnow t₀ ht₀
      have hold : ∀ r ∈ (t.insert z).items, ofKey key r.toTicket = true → r ∈ t := by
        intro r hr hrkey
        rcases (hm r).mp hr with rfl | hr
        · rw [hk] at hrkey
          cases hrkey
        · exact hr
      refine ⟨c, hc.created, ?_, fun r hr hrkey => hc.newest r (hold r hr hrkey) hrkey,
        fun hcalm r hr hrkey => hc.ended hcalm r (hold r hr hrkey) hrkey, ?_⟩
      · rw [retriesSince_cons_of_notOfKey hk]
        exact hc.length_le
      · exact hc.kept.imp hkp fun hgone =>
          ⟨hgone.1, fun hcalm r hr hrkey => hgone.2 hcalm r (hold r hr hrkey) hrkey⟩
    | true =>
      rcases hz key hk with huser | ⟨hsrc, hcnt, -, hcalm⟩
      · rw [retriesSince_cons_of_submission (by simp [isSubmission, huser, hk])] at ht₀
        cases ht₀
      have hret : isRetry key z.toTicket = true := by simp [isRetry, hsrc, hk]
      rw [retriesSince_cons_of_retry hret, head?_cons, Option.some.injEq] at ht₀
      subst ht₀
      refine ⟨stamp, hcrd, ?_, ?_, ?_, Or.inl ⟨z, (hm z).mpr (Or.inl rfl), rfl⟩⟩
      · rw [retriesSince_cons_of_retry hret, length_cons]
        exact hcnt hcnts
      · intro r hr hrkey c' hc'
        rcases (hm r).mp hr with rfl | hr
        · rw [hcrd] at hc'
          exact (Option.some.inj hc').ge
        · obtain ⟨c, hc, hle, hupd⟩ := htim r hr
          rw [hc] at hc'
          exact (Option.some.inj hc').ge.trans (hle.trans hupd)
      · intro hc r hr hrkey hne
        rcases (hm r).mp hr with rfl | hr
        · exact absurd rfl hne
        · obtain ⟨-, -, -, hle⟩ := htim r hr
          exact ⟨hcalm hc r hr hrkey, fun _ => hle⟩

/-! ### What enters memory -/

theorem enter_of_known (h : ∀ r ∈ t, r.toTicket ∈ entered) :
    enter t entered = entered := by
  have hn : (t.items.map fun r => r.toTicket).filter
      (fun u => decide (u.jobId ∉ entered.map fun u => u.jobId)) = [] := by
    rw [filter_eq_nil_iff]
    intro u hu
    obtain ⟨r, hr, rfl⟩ := mem_map.mp hu
    simpa using ⟨r.toTicket, h r hr, rfl⟩
  rw [enter, hn, nil_append]

theorem enter_of_new (hz : z ∈ t)
    (hfr : z.jobId ∉ entered.map fun u => u.jobId)
    (h : ∀ r ∈ t, r.toTicket = z.toTicket ∨ r.toTicket ∈ entered) :
    enter t entered = z.toTicket :: entered := by
  have hone : t.items.filter
      (fun r => decide (r.jobId ∉ entered.map fun u => u.jobId)) = [z] := by
    have hnd : t.items.Nodup := List.Nodup.of_map _ t.nodup
    have hcon : ∀ r ∈ t.items, decide (r.jobId ∉ entered.map fun u => u.jobId) =
        decide (r = z) := by
      intro r hr
      rw [decide_eq_decide]
      constructor
      · intro hw
        rcases h r hr with htic | hknown
        · exact Keyed.eq_of_key_eq hr hz (congrArg Ticket.jobId htic)
        · exact absurd (mem_map_of_mem hknown) hw
      · rintro rfl
        exact hfr
    rw [filter_congr hcon, filter_eq, count_eq_one_of_mem hnd hz]
    rfl
  rw [enter, filter_map]
  exact congrArg (fun l => l.map (fun r : Record => r.toTicket) ++ entered) hone

/-- What holds of the jobs in the file: they are as in memory, or one of them has not entered
memory yet, and without it they are. -/
def GoodFile (counts calm : Prop) (bound : ℕ) (now : ℤ) (entered : List Ticket)
    (saved : Table) : Prop :=
  Good counts calm bound now entered saved.items ∨
    ∃ z ∈ saved, (z.jobId ∉ entered.map fun u => u.jobId) ∧
      Good counts calm bound now (z.toTicket :: entered) saved.items ∧
      Good counts calm bound now entered (saved.erase z.key).items

variable {saved : Table}

theorem GoodFile.mono (h : GoodFile counts calm bound now entered saved)
    (hnow : now ≤ now') : GoodFile counts calm bound now' entered saved := by
  rcases h with hg | ⟨z, hz, hfr, hwith, hwit⟩
  · exact Or.inl (hg.mono hnow)
  · exact Or.inr ⟨z, hz, hfr, hwith.mono hnow, hwit.mono hnow⟩

theorem GoodFile.bounded (h : GoodFile counts calm bound now entered saved)
    (hcnts : counts) (key : String) : (retriesSince key entered).length ≤ bound := by
  rcases h with hg | ⟨z, -, -, -, hwit⟩
  · exact hg.bounded hcnts key
  · exact hwit.bounded hcnts key

theorem Evolves.key_eq {r r' : Record} (h : Evolves stamp r r') : r'.key = r.key :=
  congrArg Ticket.jobId h.ticket

theorem Advances.erase {t t' : Table} (h : Advances stamp cut t.items t'.items) (k : ℕ) :
    Advances stamp cut (t.erase k).items (t'.erase k).items where
  back r' hr' := by
    obtain ⟨hm, hne⟩ := Keyed.mem_erase.mp hr'
    obtain ⟨⟨r, hr, hev⟩, hcut⟩ := h.back r' hm
    exact ⟨⟨r, Keyed.mem_erase.mpr ⟨hr, hev.key_eq ▸ hne⟩, hev⟩, hcut⟩
  forth r hr := by
    obtain ⟨hm, hne⟩ := Keyed.mem_erase.mp hr
    obtain ⟨r', hev, hthere | hold⟩ := h.forth r hm
    · exact ⟨r', hev, Or.inl (Keyed.mem_erase.mpr ⟨hthere, hev.key_eq.symm ▸ hne⟩)⟩
    · exact ⟨r', hev, Or.inr hold⟩

theorem GoodFile.advances {t t' : Table} (h : GoodFile counts calm bound now entered t)
    (hadv : Advances stamp cut t.items t'.items) (hsp : stamp ≤ now') (hnow : now ≤ now')
    (hcut : cut ≤ now' - evictionAge) : GoodFile counts calm bound now' entered t' := by
  rcases h with hg | ⟨z, hz, hfr, hwith, hwit⟩
  · exact Or.inl (hg.advances hadv hsp hnow hcut)
  by_cases hthere : ∃ z' ∈ t', z'.toTicket = z.toTicket
  · obtain ⟨z', hz', htic⟩ := hthere
    have hk : z'.key = z.key := congrArg Ticket.jobId htic
    refine Or.inr ⟨z', hz', ?_, ?_, ?_⟩
    · rw [htic]
      exact hfr
    · rw [htic]
      exact hwith.advances hadv hsp hnow hcut
    · rw [hk]
      exact hwit.advances (hadv.erase z.key) hsp hnow hcut
  · -- the job is dropped before it has entered
    refine Or.inl (hwit.advances ⟨?_, ?_⟩ hsp hnow hcut)
    · intro r' hr'
      obtain ⟨⟨r, hr, hev⟩, hkp⟩ := hadv.back r' hr'
      refine ⟨⟨r, Keyed.mem_erase.mpr ⟨hr, fun hk => hthere ⟨r', hr', ?_⟩⟩, hev⟩, hkp⟩
      rw [hev.ticket, Keyed.eq_of_key_eq hr hz hk]
    · intro r hr
      exact hadv.forth r (Keyed.mem_erase.mp hr).1

theorem GoodFile.entering (h : GoodFile counts calm bound now entered t) :
    Good counts calm bound now (enter t entered) t.items := by
  rcases h with hg | ⟨z, hz, hfr, hwith, -⟩
  · rw [enter_of_known hg.known]
    exact hg
  · rw [enter_of_new hz hfr fun r hr => mem_cons.mp (hwith.known r hr)]
    exact hwith

/-! ### What a call makes of the store -/

theorem advances_insert {r r' : Record} (hr : r ∈ t) (hev : Evolves stamp r r') :
    Advances stamp (now - evictionAge) t.items (evictOld now (t.insert r')).items := by
  refine Advances.of_evictOld ?_ ?_
  · intro q' hq'
    rcases Keyed.mem_insert.mp hq' with rfl | ⟨hq, -⟩
    · exact ⟨r, hr, hev⟩
    · exact ⟨q', hq, refl stamp q'⟩
  · intro q hq
    by_cases hk : q.key = r.key
    · rw [Keyed.eq_of_key_eq hq hr hk]
      exact ⟨r', hev, Or.inl (Keyed.mem_insert.mpr (Or.inl rfl))⟩
    · refine ⟨q, refl stamp q, Or.inl (Keyed.mem_insert.mpr (Or.inr ⟨hq, ?_⟩))⟩
      rw [hev.key_eq]
      exact hk

theorem advances_restore {r r' : Record} (hr : r ∈ t) (hev : Evolves stamp r r')
    (hnow : now ≤ now') :
    Advances stamp (now' - evictionAge) t.items
      (evictOld now' ((evictOld now (t.insert r')).insert r)).items := by
  refine Advances.of_evictOld ?_ ?_
  · intro q hq
    rcases Keyed.mem_insert.mp hq with rfl | ⟨hm, hne⟩
    · exact ⟨q, hr, refl stamp q⟩
    · rcases Keyed.mem_insert.mp (mem_of_mem_evictOld hm) with rfl | ⟨hm, -⟩
      · exact absurd hev.key_eq hne
      · exact ⟨q, hm, refl stamp q⟩
  · intro q hq
    refine ⟨q, refl stamp q, ?_⟩
    by_cases hk : q.key = r.key
    · rw [Keyed.eq_of_key_eq hq hr hk]
      exact Or.inl (Keyed.mem_insert.mpr (Or.inl rfl))
    · have hm : q ∈ t.insert r' := by
        refine Keyed.mem_insert.mpr (Or.inr ⟨hq, ?_⟩)
        rw [hev.key_eq]
        exact hk
      rcases mem_evictOld hm with hkp | hold
      · exact Or.inl (Keyed.mem_insert.mpr (Or.inr ⟨hkp, hk⟩))
      · exact Or.inr (by omega)

theorem advances_map {f : Record → Record} {hf : ∀ r, (f r).key = r.key}
    (hev : ∀ r ∈ t, Evolves stamp r (f r)) :
    Advances stamp (now - evictionAge) t.items (evictOld now (t.map f hf)).items := by
  refine Advances.of_evictOld ?_ ?_
  · intro r' hr'
    obtain ⟨r, hr, rfl⟩ := Keyed.mem_map.mp hr'
    exact ⟨r, hr, hev r hr⟩
  · intro r hr
    exact ⟨f r, hev r hr, Or.inl (Keyed.mem_map.mpr ⟨r, hr, rfl⟩)⟩

theorem evolves_cancelledRetry (hr : r.updatedAt ≤ stamp) (collection : String) :
    Evolves stamp r (cancelledRetry stamp collection r) := by
  unfold cancelledRetry
  split_ifs
  · exact replace hr _ fun _ => ⟨rfl, by decide⟩
  · exact refl stamp r

theorem evolves_recover (hr : r.updatedAt ≤ stamp) :
    Evolves stamp r (recover stamp r) := by
  unfold recover recover?
  split_ifs with h₁ h₂ h₃
  · refine replace hr _ fun hter => ?_
    rw [h₁.1] at hter
    cases hter
  · refine replace hr _ fun hter => ?_
    rcases h₂ with h₂ | h₂
    all_goals
      rw [h₂] at hter
      cases hter
  · refine replace hr _ fun hter => ?_
    rcases h₃ with ⟨h₃, -⟩ | ⟨h₃, -⟩
    all_goals
      rw [h₃] at hter
      cases hter
  · exact refl stamp r

/-- The writes of a call: one that returns, or one that raises and the one that undoes it. -/
theorem persistOrRollback_cases (c : Call) (s : Store) (new : Table) (restore : Table → Table) :
    persistOrRollback c s new restore =
        (⟨evictOld c.now₁ new, evictOld c.now₁ new⟩, true) ∨
      ∃ saved, (saved = s.saved ∨ saved = evictOld c.now₁ new) ∧
        persistOrRollback c s new restore =
          ((writeAtomic c.now₂ c.outcome₂ ⟨restore (evictOld c.now₁ new), saved⟩).1, false) := by
  unfold persistOrRollback writeAtomic
  cases hout : c.outcome₁ with
  | written => exact Or.inl rfl
  | failedBeforeReplace => exact Or.inr ⟨s.saved, Or.inl rfl, rfl⟩
  | failedAfterReplace => exact Or.inr ⟨_, Or.inr rfl, rfl⟩

/-- What a call of the store may do to the memory and the file. -/
structure StoreStep (c : Call) (s s' : Store) : Prop where
  memory : s'.jobs = s.jobs ∨ ∃ t, c.now₁ ≤ t ∧ t ≤ c.now₂ ∧
    Advances c.stamp (t - evictionAge) s.jobs.items s'.jobs.items
  file : s'.saved = s.saved ∨ ∃ t, c.now₁ ≤ t ∧ t ≤ c.now₂ ∧
    Advances c.stamp (t - evictionAge) s.jobs.items s'.saved.items

theorem StoreStep.refl (c : Call) (s : Store) : StoreStep c s s := ⟨Or.inl rfl, Or.inl rfl⟩

variable {c : Call} {s : Store}

theorem storeStep_writeAtomic
    (h : Advances c.stamp (c.now₁ - evictionAge) s.jobs.items (evictOld c.now₁ t).items) :
    StoreStep c s (writeAtomic c.now₁ c.outcome₁ { s with jobs := t }).1 where
  memory := Or.inr ⟨c.now₁, le_rfl, c.now₁_le, h⟩
  file := by
    rcases c.outcome₁.publish_eq_or s.saved (evictOld c.now₁ t) with heq | heq
    · exact Or.inl heq
    · right
      refine ⟨c.now₁, le_rfl, c.now₁_le, ?_⟩
      show Advances _ _ _ (c.outcome₁.publish s.saved (evictOld c.now₁ t)).items
      rw [heq]
      exact h

theorem storeStep_persistOrRollback {new : Table} {restore : Table → Table}
    (hw : Advances c.stamp (c.now₁ - evictionAge) s.jobs.items (evictOld c.now₁ new).items)
    (hres : Advances c.stamp (c.now₂ - evictionAge) s.jobs.items
      (evictOld c.now₂ (restore (evictOld c.now₁ new))).items) :
    StoreStep c s (persistOrRollback c s new restore).1 := by
  rcases persistOrRollback_cases c s new restore with heq | ⟨saved, hsav, heq⟩
  · rw [heq]
    exact ⟨Or.inr ⟨c.now₁, le_rfl, c.now₁_le, hw⟩, Or.inr ⟨c.now₁, le_rfl, c.now₁_le, hw⟩⟩
  rw [heq]
  refine ⟨Or.inr ⟨c.now₂, c.now₁_le, le_rfl, hres⟩, ?_⟩
  show c.outcome₂.publish saved (evictOld c.now₂ (restore (evictOld c.now₁ new))) = _ ∨ ∃ t, _ ∧
    _ ∧ Advances _ _ _ (c.outcome₂.publish saved _).items
  rcases c.outcome₂.publish_eq_or saved (evictOld c.now₂ (restore (evictOld c.now₁ new))) with
    hpub | hpub
  · rw [hpub]
    rcases hsav with rfl | rfl
    · exact Or.inl rfl
    · exact Or.inr ⟨c.now₁, le_rfl, c.now₁_le, hw⟩
  · rw [hpub]
    exact Or.inr ⟨c.now₂, c.now₁_le, le_rfl, hres⟩

theorem storeStep_write :
    StoreStep c s (writeAtomic c.now₁ c.outcome₁ s).1 :=
  storeStep_writeAtomic (Advances.of_evictOld (fun r hr => ⟨r, hr, refl c.stamp r⟩)
    fun r hr => ⟨r, refl c.stamp r, Or.inl hr⟩)

variable {jobId : ℕ}

theorem storeStep_update {f : Fields}
    (htime : ∀ r ∈ s.jobs, r.updatedAt ≤ c.stamp)
    (hf : ∀ r ∈ s.jobs, r.key = jobId → r.status.terminal = false) :
    StoreStep c s (update c jobId f s) := by
  unfold update
  cases hr : s.jobs.get? jobId with
  | none => exact StoreStep.refl c s
  | some r =>
    obtain ⟨hm, hk⟩ := Keyed.get?_eq_some_iff.mp hr
    have hev : Evolves c.stamp r (r.replace c.stamp f) := by
      refine replace (htime r hm) f fun hter => ?_
      rw [hf r hm hk] at hter
      cases hter
    exact storeStep_writeAtomic (advances_insert hm hev)

theorem storeStep_transition {fromStatuses : List JobStatus}
    {f : Record → Fields} (htime : ∀ r ∈ s.jobs, r.updatedAt ≤ c.stamp)
    (hf : ∀ r, r.status ∈ fromStatuses → r.status.terminal = true →
      (f r).status.terminal = true ∧ (f r).status ≠ .failed) :
    StoreStep c s (transition c jobId fromStatuses f s) := by
  unfold transition
  cases hr : s.jobs.get? jobId with
  | none => exact StoreStep.refl c s
  | some r =>
    obtain ⟨hm, -⟩ := Keyed.get?_eq_some_iff.mp hr
    dsimp only
    split_ifs with hfrom
    · have hev : Evolves c.stamp r (r.replace c.stamp (f r)) :=
        replace (htime r hm) (f r) (hf r hfrom)
      exact storeStep_persistOrRollback (advances_insert hm hev) (advances_restore hm hev c.now₁_le)
    · exact StoreStep.refl c s

theorem storeStep_cancelIngestRetries {collection : String}
    (htime : ∀ r ∈ s.jobs, r.updatedAt ≤ c.stamp) :
    StoreStep c s (cancelIngestRetries c collection s) := by
  have hev : ∀ r ∈ s.jobs, Evolves c.stamp r (cancelledRetry c.stamp collection r) :=
    fun r hr => evolves_cancelledRetry (htime r hr) collection
  unfold cancelIngestRetries
  dsimp only
  split_ifs
  · exact StoreStep.refl c s
  refine storeStep_persistOrRollback (advances_map hev) (Advances.of_evictOld ?_ ?_)
  · intro r hr
    refine ⟨r, ?_, refl c.stamp r⟩
    rcases Keyed.mem_foldl_insert hr with ⟨hm, hk⟩ | hold
    · obtain ⟨q, hq, rfl⟩ := Keyed.mem_map.mp (mem_of_mem_evictOld hm)
      unfold cancelledRetry at hk ⊢
      split_ifs at hk ⊢ with hcand
      · exact absurd (mem_map_of_mem (mem_filter.mpr ⟨hq, hcand⟩)) hk
      · exact hq
    · exact mem_of_mem_filter hold
  · intro r hr
    refine ⟨r, refl c.stamp r, ?_⟩
    have hnd : ((s.jobs.items.filter (isRetryCandidate collection)).map Record.key).Nodup :=
      s.jobs.nodup.sublist (filter_sublist.map _)
    by_cases hcand : isRetryCandidate collection r = true
    · left
      have hin : r ∈ s.jobs.items.filter (isRetryCandidate collection) :=
        mem_filter.mpr ⟨hr, hcand⟩
      exact Keyed.mem_foldl_insert_of_mem hnd hin
    · have hm : r ∈ s.jobs.map (cancelledRetry c.stamp collection) (by
          intro q
          unfold cancelledRetry
          split_ifs <;> rfl) := Keyed.mem_map.mpr ⟨r, hr, if_neg hcand⟩
      rcases (mem_evictOld hm : r ∈ evictOld c.now₁ _ ∨ _) with hkp | hold
      · refine Or.inl (Keyed.mem_foldl_insert_of_notMem hkp fun hk => hcand ?_)
        obtain ⟨q, hq, hqr⟩ := mem_map.mp hk
        obtain ⟨hq, hqcand⟩ := mem_filter.mp hq
        exact Keyed.eq_of_key_eq hq hr hqr ▸ hqcand
      · have hle := c.now₁_le
        exact Or.inr (by omega)

/-! ### What holds of a store -/

/-- Both the memory and the file are good. -/
structure StoreGood (counts calm : Prop) (bound : ℕ) (now : ℤ) (entered : List Ticket)
    (s : Store) : Prop where
  memory : Good counts calm bound now entered s.jobs.items
  file : GoodFile counts calm bound now entered s.saved

theorem Good.updatedAt_le (h : Good counts calm bound now entered jobs)
    (hr : r ∈ jobs) :
    r.updatedAt ≤ now := by
  obtain ⟨-, -, -, hle⟩ := h.timed r hr
  exact hle

theorem Good.evictOld (h : Good counts calm bound now entered t.items)
    (hnow : now ≤ now') :
    Good counts calm bound now' entered (evictOld now' t).items :=
  h.advances (Advances.of_evictOld (fun r hr => ⟨r, hr, refl now' r⟩)
    fun r hr => ⟨r, refl now' r, Or.inl hr⟩) le_rfl hnow le_rfl

theorem storeGood_writeAtomic {outcome : WriteOutcome} {t : Table}
    (ht : Good counts calm bound now entered (evictOld now t).items)
    (hsav : GoodFile counts calm bound now entered saved) :
    StoreGood counts calm bound now entered (writeAtomic now outcome ⟨t, saved⟩).1 := by
  refine ⟨ht, ?_⟩
  show GoodFile counts calm bound now entered (outcome.publish saved (evictOld now t))
  rcases outcome.publish_eq_or saved (evictOld now t) with heq | heq
  · rw [heq]
    exact hsav
  · rw [heq]
    exact Or.inl ht

theorem StoreGood.mono (h : StoreGood counts calm bound now entered s)
    (hnow : now ≤ now') :
    StoreGood counts calm bound now' entered s :=
  ⟨h.memory.mono hnow, h.file.mono hnow⟩

/-- **A call keeps what holds of the store.** -/
theorem StoreGood.step {s s' : Store} (h : StoreGood counts calm bound now entered s)
    (hck : now ≤ c.stamp) (hs : StoreStep c s s') :
    StoreGood counts calm bound c.now₂ entered s' := by
  have hle : now ≤ c.now₂ := (hck.trans c.stamp_le).trans c.now₁_le
  have hadv : ∀ {t jobs}, c.now₁ ≤ t → t ≤ c.now₂ →
      Advances c.stamp (t - evictionAge) s.jobs.items jobs →
      Good counts calm bound c.now₂ entered jobs := fun hge hle' ha =>
    (h.memory.advances ha (c.stamp_le.trans hge) ((hck.trans c.stamp_le).trans hge)
      le_rfl).mono hle'
  constructor
  · rcases hs.memory with heq | ⟨t, hge, hle', ha⟩
    · exact heq ▸ h.memory.mono hle
    · exact hadv hge hle' ha
  · rcases hs.file with heq | ⟨t, hge, hle', ha⟩
    · exact heq ▸ h.file.mono hle
    · exact Or.inl (hadv hge hle' ha)

/-- After a creation that returned, the job is in memory. -/
theorem jobs_createJob_of_returned {s s' : Store}
    (h : createJob c z s = (s', true)) : s'.jobs = evictOld c.now₁ (s.jobs.insert z) := by
  rcases persistOrRollback_cases c s (s.jobs.insert z) fun jobs => jobs.erase z.key with
    heq | ⟨saved, -, heq⟩
  · rw [createJob, heq] at h
    cases h
    rfl
  · rw [createJob, heq] at h
    cases (Prod.mk.inj h).2

/-- **A creation** that returns has let the job enter, and one that raises has not – although the
file may have it. -/
theorem storeGood_createJob
    (h : StoreGood counts calm bound now entered s) (hck : now ≤ c.stamp)
    (hfr : z.jobId ∉ entered.map fun u => u.jobId) (hcrd : z.createdAt = some c.stamp)
    (hupd : z.updatedAt = c.stamp) (hopen : z.status.terminal = false)
    (hz : Admissible counts calm bound entered s.jobs.items z) :
    StoreGood counts calm bound c.now₂ (enter (createJob c z s).1.jobs entered)
        (createJob c z s).1 ∧
      enter (createJob c z s).1.jobs entered =
        if (createJob c z s).2 then z.toTicket :: entered else entered := by
  have hle₁ : now ≤ c.now₁ := hck.trans c.stamp_le
  have hw : ∀ r ∈ s.jobs, r.key ≠ z.key := fun r hr hkey =>
    hfr (mem_map.mpr ⟨_, h.memory.known r hr, hkey⟩)
  have hg := (h.memory.insert hw hcrd hupd hck hz).evictOld c.stamp_le
  have hz₁ : z ∈ evictOld c.now₁ (s.jobs.insert z) :=
    Keyed.mem_filter.mpr ⟨Keyed.mem_insert.mpr (Or.inl rfl), by simp [Record.expired, hopen]⟩
  -- without the job, memory has evolved
  have hwit : Good counts calm bound c.now₁ entered
      ((evictOld c.now₁ (s.jobs.insert z)).erase z.key).items := by
    have hevict : (evictOld c.now₁ ((evictOld c.now₁ (s.jobs.insert z)).erase z.key)) =
        (evictOld c.now₁ (s.jobs.insert z)).erase z.key := by
      refine Keyed.ext (filter_eq_self.mpr fun r hr => ?_)
      exact (Keyed.mem_filter.mp (Keyed.mem_erase.mp hr).1).2
    rw [← hevict]
    refine h.memory.advances (Advances.of_evictOld ?_ ?_) c.stamp_le hle₁ le_rfl
    · intro r hr
      obtain ⟨hr, hne⟩ := Keyed.mem_erase.mp hr
      rcases Keyed.mem_insert.mp (mem_of_mem_evictOld hr) with rfl | ⟨hr, -⟩
      · exact absurd rfl hne
      · exact ⟨r, hr, refl c.stamp r⟩
    · intro r hr
      refine ⟨r, refl c.stamp r, ?_⟩
      exact (mem_evictOld (Keyed.mem_insert.mpr (Or.inr ⟨hr, hw r hr⟩))).imp_left fun hk =>
        Keyed.mem_erase.mpr ⟨hk, hw r hr⟩
  rcases persistOrRollback_cases c s (s.jobs.insert z) fun jobs => jobs.erase z.key with
    heq | ⟨saved, hsav, heq⟩
  · have hent : enter (evictOld c.now₁ (s.jobs.insert z)) entered = z.toTicket :: entered :=
      enter_of_new hz₁ hfr fun r hr => mem_cons.mp (hg.known r hr)
    rw [createJob, heq]
    refine ⟨?_, hent⟩
    rw [hent]
    exact StoreGood.mono ⟨hg, Or.inl hg⟩ c.now₁_le
  · have hrol := hwit.evictOld c.now₁_le
    have hent : enter (evictOld c.now₂ ((evictOld c.now₁ (s.jobs.insert z)).erase z.key))
        entered = entered := enter_of_known hrol.known
    rw [createJob, heq]
    refine ⟨?_, hent⟩
    show StoreGood counts calm bound c.now₂ (enter (evictOld c.now₂ _) entered) _
    rw [hent]
    refine storeGood_writeAtomic hrol ?_
    rcases hsav with rfl | rfl
    · exact h.file.mono (hle₁.trans c.now₁_le)
    · exact GoodFile.mono (Or.inr ⟨z, hz₁, hfr, hg, hwit⟩) c.now₁_le

theorem advances_loaded
    (h : ∀ r ∈ saved, r.updatedAt ≤ c.stamp) :
    Advances c.stamp (c.now₁ - evictionAge) saved.items (loaded c saved).items :=
  advances_map fun r hr => evolves_recover (h r hr)

theorem GoodFile.updatedAt_le
    (h : GoodFile counts calm bound now entered saved) (hr : r ∈ saved) : r.updatedAt ≤ now := by
  rcases h with hg | ⟨z, -, -, hwith, -⟩
  · exact hg.updatedAt_le hr
  · exact hwith.updatedAt_le hr

/-- The file keeps its guarantee when what it decodes to has entered. -/
theorem GoodFile.of_enter {t t' : Table} (h : GoodFile counts calm bound now entered t)
    (hadv : Advances stamp cut t.items t'.items) :
    GoodFile counts calm bound now (enter t' entered) t := by
  have hback : ∀ r' ∈ t', ∃ r ∈ t, Evolves stamp r r' := fun r' hr' => (hadv.back r' hr').1
  rcases h with hg | ⟨z, hz, hfr, hwith, hwit⟩
  · left
    rw [enter_of_known fun r' hr' => ?_]
    · exact hg
    · obtain ⟨r, hr, hev⟩ := hback r' hr'
      exact hev.ticket ▸ hg.known r hr
  · have hknown : ∀ r' ∈ t', r'.toTicket = z.toTicket ∨ r'.toTicket ∈ entered := by
      intro r' hr'
      obtain ⟨r, hr, hev⟩ := hback r' hr'
      rw [hev.ticket]
      exact mem_cons.mp (hwith.known r hr)
    by_cases hthere : ∃ z' ∈ t', z'.toTicket = z.toTicket
    · obtain ⟨z', hz', htic⟩ := hthere
      left
      rw [enter_of_new hz' (htic ▸ hfr) (htic ▸ hknown), htic]
      exact hwith
    · rw [enter_of_known fun r' hr' =>
        (hknown r' hr').resolve_left fun heq => hthere ⟨r', hr', heq⟩]
      exact Or.inr ⟨z, hz, hfr, hwith, hwit⟩

/-- **A start** that returns lets the jobs of the file enter. -/
theorem storeGood_openStore {raised : Bool}
    (h : GoodFile counts calm bound now entered saved) (hck : now ≤ c.stamp)
    (hopen : openStore c saved = (s, raised)) :
    if raised then GoodFile counts calm bound c.now₂ entered s.saved
    else StoreGood counts calm bound c.now₂ (enter s.jobs entered) s := by
  have hle₁ : now ≤ c.now₁ := hck.trans c.stamp_le
  have hle₂ : now ≤ c.now₂ := hle₁.trans c.now₁_le
  have hadv₁ := advances_loaded fun r hr => (h.updatedAt_le hr).trans hck
  have hl := h.advances hadv₁ c.stamp_le hle₁ le_rfl
  have hrew : GoodFile counts calm bound c.now₂ entered (evictOld c.now₂ (loaded c saved)) :=
    hl.advances (Advances.of_evictOld (fun r hr => ⟨r, hr, refl c.now₂ r⟩)
      fun r hr => ⟨r, refl c.now₂ r, Or.inl hr⟩) le_rfl c.now₁_le le_rfl
  unfold openStore writeAtomic at hopen
  split_ifs at hopen
  · cases hopen
    cases hout : c.outcome₁ with
    | written => exact ⟨hrew.entering, Or.inl hrew.entering⟩
    | failedBeforeReplace => exact h.mono hle₂
    | failedAfterReplace => exact hrew
  · cases hopen
    exact ⟨hl.entering.mono c.now₁_le, (h.of_enter hadv₁).mono hle₂⟩

end ArchonSearch.Jobs.Retry
