import ArchonSearch.Jobs.RetryBound

/-!
# The chain of retries of a key

What a pass retries, and how often. A retry is created for the newest of the jobs that settle its
key, when the pass began, and only if that job has failed, has its options, was not cancelled by a
client and did not run when a process died; and the options of the retry are those of the job
(`Justified`). Since a client has last submitted a key there are at most `retry_max_attempts`
retries of it, if `retry_max_age_hours` is at most seven days, or if no retry is created while
another job of its key is outstanding (`retries_justified_and_bounded`).
-/

namespace ArchonSearch.Jobs.Retry

open Lib List Option

variable {cfg : Config} {p : Pass} {r : Record} {attempt : ℕ} {rest : List Record}

/-! ### What a pass retries -/

structure Retried (cfg : Config) (p : Pass) (r : Record) (attempt : ℕ) : Prop where
  base : r.isBaseIngest = true
  failed : r.status = .failed
  path : r.sourcePath ≠ ""
  unseen : retryKey r.toTicket ∉ p.seenKeys
  latest : isSuperseded r (History.of (p.keyJobs (retryKey r.toTicket))).latest = false
  retriable : unretriableReason r = none
  began : ∃ o, origin (p.keyJobs (retryKey r.toTicket)) = some o ∧ p.cutoff cfg ≤ o
  attempt_eq : attempt = (History.of (p.keyJobs (retryKey r.toTicket))).attemptsUsed + 1
  attempt_le : attempt ≤ cfg.retryMaxAttempts

theorem retried_of_decision (h : p.decision cfg r = .retry attempt) : Retried cfg p r attempt := by
  unfold Pass.decision at h
  dsimp only at h
  split_ifs at h with hbase hp hseen hexc hlat
  unfold retryOrEndChain at h
  split at h
  · cases h
  next hreas =>
  split at h
  · cases h
  next o ho =>
    split_ifs at h with hcut hatt
    obtain rfl : _ = attempt := Decision.retry.inj h
    simp only [Bool.or_eq_true, Bool.not_eq_true', bne_iff_ne, ne_eq, not_or,
      Bool.not_eq_false, not_not] at hbase
    exact
      { base := hbase.1
        failed := hbase.2
        path := hp
        unseen := hseen
        latest := by simpa using hlat
        retriable := by simpa using hreas
        began := ⟨o, ho, not_lt.mp hcut⟩
        attempt_eq := rfl
        attempt_le := not_le.mp hatt }

theorem retries_cases (h : p.retries cfg = some (r, attempt, rest)) :
    p.duty = .looking ∧ p.rest = r :: rest ∧ Retried cfg p r attempt := by
  unfold Pass.retries at h
  split at h
  · next q rest' hduty hrs =>
    split at h
    · next n hdec =>
      obtain ⟨rfl, rfl, rfl⟩ : q = r ∧ n = attempt ∧ rest' = rest := by simpa using h
      exact ⟨hduty, hrs, retried_of_decision hdec⟩
    · cases h
  · cases h

theorem ofKey_retryKey {t : Ticket} (h : t.sourcePath ≠ "") : ofKey (retryKey t) t = true := by
  simp [ofKey, h]

variable {key : String}

theorem ofKey_iff {t : Ticket} :
    ofKey key t = true ↔ t.sourcePath ≠ "" ∧ retryKey t = key := by
  simp [ofKey]

/-! ### The lineage of a key -/

variable {q : Record} {l : List Record}

theorem mem_lineage {c : ℤ} :
    (c, q) ∈ lineage l ↔ q ∈ l ∧ supersedes q = true ∧ q.createdAt = some c := by
  unfold lineage
  rw [mem_filterMap]
  constructor
  · rintro ⟨q', hq', heq⟩
    split_ifs at heq with hsup
    obtain ⟨c', hc', hpr⟩ := map_eq_some_iff.mp heq
    cases hpr
    exact ⟨hq', hsup, hc'⟩
  · rintro ⟨hq, hsup, hc⟩
    refine ⟨q, hq, ?_⟩
    rw [if_pos hsup, hc]
    rfl

/-- The chain of a key begins with a job of its lineage. -/
theorem origin_mem {o : ℤ} (h : origin l = some o) :
    ∃ q, (o, q) ∈ lineage l := by
  unfold origin at h
  split at h
  · next o' ho' =>
    cases h
    obtain ⟨⟨c, q⟩, hm, rfl⟩ := List.mem_map.mp (max?_mem ho')
    exact ⟨q, mem_of_mem_filter hm⟩
  · obtain ⟨⟨c, q⟩, hm, rfl⟩ := List.mem_map.mp (min?_mem h)
    exact ⟨q, hm⟩

/-- The numbers of the retries since the chain of a key began are among the attempts used. -/
theorem retryCount_le_attemptsUsed {o c : ℤ} (hq : q ∈ l)
    (hsrc : q.source = .maintenance) (ho : origin l = some o) (hc : q.createdAt = some c)
    (hle : o ≤ c) : q.retryCount ≤ (History.of l).attemptsUsed := by
  have hm : q ∈ retriesFrom (origin l) l := by
    refine mem_filter.mpr ⟨hq, ?_⟩
    simp [hsrc, ho, createdSince, hc, hle]
  exact le_max?_getD_of_mem (List.mem_map_of_mem hm)

/-- The job of a key that the others of the list do not supersede: of the jobs that settle the
key, it is the newest; of those that are as old, all have failed, and it has the greatest id. -/
structure NewestSettling (jobs : List Record) (key : String) (r : Record) : Prop where
  mem : r ∈ jobs
  ofKey : ofKey key r.toTicket = true
  settles : supersedes r = true
  newest : ∃ c, r.createdAt = some c ∧ ∀ q ∈ jobs, Retry.ofKey key q.toTicket = true →
    supersedes q = true → ∀ c', q.createdAt = some c' →
      c' < c ∨ c' = c ∧ q.status = .failed ∧ q.jobId ≤ r.jobId

/-- **A pass retries the newest job of its key.** -/
theorem newestSettling_of_retried (hp : (p.allJobs.map Record.key).Nodup) (hr : r ∈ p.allJobs)
    (h : Retried cfg p r attempt) : NewestSettling p.allJobs (retryKey r.toTicket) r := by
  obtain ⟨o, ho, -⟩ := h.began
  obtain ⟨q₀, hq₀⟩ := origin_mem ho
  have hlat := h.latest
  cases hmax : (lineage (p.keyJobs (retryKey r.toTicket))).argmax rank with
  | none =>
    rw [argmax_eq_none.mp hmax] at hq₀
    cases hq₀
  | some m =>
    obtain ⟨c, l⟩ := m
    have hl : isSuperseded r (some l) = false := by
      simpa only [History.of, hmax, map_some] using hlat
    obtain ⟨hm, hsup, hc⟩ := mem_lineage.mp (argmax_mem hmax)
    obtain ⟨hall, hk⟩ := mem_filter.mp hm
    obtain rfl : l = r := inj_on_of_nodup_map hp hall hr
      (by simpa [isSuperseded] using hl : l.jobId = r.jobId)
    refine ⟨hr, hk, hsup, c, hc, ?_⟩
    intro q hq hqkey hqsup c' hc'
    have hle : rank (c', q) ≤ rank (c, l) :=
      le_of_mem_argmax (mem_lineage.mpr ⟨mem_filter.mpr ⟨hq, hqkey⟩, hqsup, hc'⟩) hmax
    simp only [rank_le_iff, h.failed] at hle
    rcases hle with hlt | ⟨heq, hlt | ⟨hstat, hid⟩⟩
    · exact Or.inl hlt
    · exact absurd hlt (by simp)
    · exact Or.inr ⟨heq, by simpa using hstat, hid⟩

/-- **What a retry rests on**: the newest job that settled its key. -/
structure Justified (jobs : List Record) (r : Record) (z : Ticket) : Prop where
  newest : NewestSettling jobs (retryKey z) r
  base : r.isBaseIngest = true
  failed : r.status = .failed
  options : r.ingestOptions ≠ none
  notCancelled : r.cancelRequested = false
  notCrashed : r.error ≠ some processRestartError
  sameOptions : z.ingestOptions = r.ingestOptions
  samePath : z.ns = r.ns ∧ z.collection = r.collection ∧ z.sourcePath = r.sourcePath

theorem unretriableReason_eq_none (h : unretriableReason r = none) :
    r.ingestOptions ≠ none ∧ r.cancelRequested = false ∧ r.error ≠ some processRestartError := by
  unfold unretriableReason at h
  split_ifs at h with hopt hcan herr
  exact ⟨hopt, by simpa using hcan, herr⟩

theorem justified_of_retried (hp : (p.allJobs.map Record.key).Nodup) (hr : r ∈ p.allJobs)
    (h : Retried cfg p r attempt) (stamp : ℤ) (jobId : ℕ) :
    Justified p.allJobs r (retryJob stamp jobId r attempt).toTicket := by
  obtain ⟨hopt, hcan, herr⟩ := unretriableReason_eq_none h.retriable
  exact
    { newest := newestSettling_of_retried hp hr h
      base := h.base
      failed := h.failed
      options := hopt
      notCancelled := hcan
      notCrashed := herr
      sameOptions := rfl
      samePath := ⟨rfl, rfl, rfl⟩ }

/-! ### The invariant -/

/-- What a pass has read and counted is right. -/
structure PassSound (counts calm : Prop) (s : State) (p : Pass) : Prop where
  rest : ∀ r ∈ p.rest, r ∈ p.allJobs
  nodup : (p.allJobs.map Record.key).Nodup
  counted : counts → ∀ key, key ∉ p.seenKeys → CountedAt calm p.now s.entered key p.allJobs
  failing : ∀ jobId, p.duty = .failing jobId → ∀ r ∈ s.store.jobs, r.key = jobId →
    r.status.terminal = false

/-- The file, the memory and the pass are in order. -/
structure Sound (counts calm : Prop) (bound : ℕ) (s : State) : Prop where
  file : GoodFile counts calm bound s.clock s.entered s.store.saved
  memory : s.mode ≠ .down → Good counts calm bound s.clock s.entered s.store.jobs.items
  pass : ∀ p, s.mode = .pass p → PassSound counts calm s p

/-- When a retry is created, no other job of its key is outstanding. -/
def Undisturbed (s : State) : Event → Prop
  | .reenqueue _ _ _ => ∀ p r, s.mode = .pass p → p.rest.head? = some r →
      ∀ q ∈ s.store.jobs, ofKey (retryKey r.toTicket) q.toTicket = true → q.status.terminal = true
  | _ => True

variable {counts calm : Prop} {bound : ℕ} {s t : State} {c : Call}

theorem sound_init : Sound counts calm bound State.init := by
  have hg : Good counts calm bound 0 [] ([] : List Record) :=
    { known := fun _ hr => absurd hr not_mem_nil
      timed := fun _ hr => absurd hr not_mem_nil
      bounded := fun _ _ => Nat.zero_le _
      counted := fun _ _ _ ht => absurd ht (some_ne_none _ ·.symm) }
  exact ⟨Or.inl hg, fun _ => hg, fun _ hp => Mode.noConfusion hp⟩

variable {now : ℤ} {jobs : List Record}

theorem CountedAt.congr {entered entered' : List Ticket} (h : CountedAt calm now entered key jobs)
    (heq : retriesSince key entered' = retriesSince key entered) :
    CountedAt calm now entered' key jobs := by
  intro t₀ ht₀
  rw [heq] at ht₀
  obtain ⟨c₀, hc₀⟩ := h t₀ ht₀
  exact ⟨c₀, { hc₀ with length_le := heq ▸ hc₀.length_le }⟩

variable {st : Store}

theorem StoreGood.enter_eq {entered : List Ticket}
    (h : StoreGood counts calm bound now entered st) : enter st.jobs entered = entered :=
  enter_of_known h.memory.known

theorem Sound.store (h : Sound counts calm bound s) (hmd : s.mode ≠ .down) :
    StoreGood counts calm bound s.clock s.entered s.store :=
  ⟨h.memory hmd, h.file⟩

variable {f : Store → Store}

theorem Sound.of_call (h : Sound counts calm bound s)
    (hs : s.call c f = some t)
    (hf : StoreGood counts calm bound s.clock s.entered s.store → s.clock ≤ c.stamp →
      StoreGood counts calm bound c.now₂ (enter (f s.store).jobs s.entered) (f s.store)) :
    Sound counts calm bound t := by
  unfold State.call at hs
  split at hs
  · next hmd =>
    obtain ⟨hck, rfl⟩ := of_guard hs
    have hg := hf (h.store (by simp [hmd])) hck
    exact ⟨hg.file, fun _ => hg.memory, fun _ hp => Mode.noConfusion hp⟩
  · cases hs

theorem Sound.of_storeStep (h : Sound counts calm bound s)
    (hs : s.call c f = some t)
    (hf : (∀ r ∈ s.store.jobs, r.updatedAt ≤ c.stamp) → StoreStep c s.store (f s.store)) :
    Sound counts calm bound t := by
  refine h.of_call hs fun hg hck => ?_
  have hg' := hg.step hck (hf fun r hr => (hg.memory.updatedAt_le hr).trans hck)
  rw [hg'.enter_eq]
  exact hg'

/-- A call that creates a job for a client, or of another class. -/
theorem Sound.of_create {z : Record} (h : Sound counts calm bound s)
    (hs : s.call c (fun st => (createJob c z st).1) = some t) (hfr : s.fresh z.jobId)
    (hcrd : z.createdAt = some c.stamp) (hupd : z.updatedAt = c.stamp)
    (hopen : z.status.terminal = false)
    (hz : ∀ key, ofKey key z.toTicket = true → z.source = .user) : Sound counts calm bound t :=
  h.of_call hs fun hg hck =>
    (storeGood_createJob hg hck hfr.1 hcrd hupd hopen fun key hk => Or.inl (hz key hk)).1

theorem sound_restart (h : Sound counts calm bound s) (hs : step cfg s (.restart c) = some t) :
    Sound counts calm bound t := by
  simp only [step] at hs
  split_ifs at hs with hck
  split at hs
  · next store hopen =>
    cases hs
    have hg := storeGood_openStore h.file hck hopen
    exact ⟨hg.file, fun _ => hg.memory, fun _ hp => Mode.noConfusion hp⟩
  · next store hopen =>
    cases hs
    have hf := storeGood_openStore h.file hck hopen
    exact ⟨hf, fun hmd => absurd rfl hmd, fun _ hp => Mode.noConfusion hp⟩

theorem sound_beginPass (h : Sound counts calm bound s)
    (hs : step cfg s (.beginPass now) = some t) : Sound counts calm bound t := by
  simp only [step] at hs
  split at hs
  · next hmd =>
    have hg := h.memory (by simp [hmd])
    split_ifs at hs with hck hret
    · cases hs
      refine ⟨h.file.mono hck, fun _ => hg.mono hck, fun p hp => ?_⟩
      cases hp
      exact
        { rest := fun _ hr => hr
          nodup := s.store.jobs.nodup
          counted := fun hcnts key _ => (hg.counted hcnts key).mono hck
          failing := fun _ hduty => Duty.noConfusion hduty }
    · cases hs
      exact ⟨h.file.mono hck, fun _ => hg.mono hck,
        fun p hp => absurd (hmd.symm.trans hp) (by simp)⟩
  · cases hs

variable {duty : Duty}

theorem PassSound.mark {t : State} (h : PassSound counts calm s p)
    (hrs : p.rest = r :: rest)
    (hent : ∀ key, key ≠ retryKey r.toTicket →
      retriesSince key t.entered = retriesSince key s.entered)
    (hfa : ∀ jobId, duty = .failing jobId → ∀ q ∈ t.store.jobs, q.key = jobId →
      q.status.terminal = false) : PassSound counts calm t (p.mark r rest duty) where
  rest q hq := h.rest q (hrs ▸ mem_cons_of_mem r hq)
  nodup := h.nodup
  counted hcnts key hk := by
    rw [Pass.mark, mem_cons, not_or] at hk
    exact (h.counted hcnts key hk.2).congr (hent key hk.1)
  failing := hfa

theorem sound_look (h : Sound counts calm bound s) (hs : step cfg s .look = some t) :
    Sound counts calm bound t := by
  simp only [step] at hs
  split at hs
  · next p hmd =>
    obtain ⟨mode, hlook, rfl⟩ := map_eq_some_iff.mp hs
    have hpass := h.pass p hmd
    refine ⟨h.file, fun _ => h.memory (by simp [hmd]), fun p' hp' => ?_⟩
    obtain rfl : mode = .pass p' := hp'
    unfold Pass.look at hlook
    split at hlook
    · cases hlook
    · next q rest hduty hrs =>
      split at hlook
      · cases hlook
        exact { hpass with
          rest := fun r' hr' => hpass.rest r' (hrs ▸ mem_cons_of_mem q hr') }
      · cases hlook
        exact hpass.mark hrs (fun _ _ => rfl) fun _ hd => Duty.noConfusion hd
      · cases hlook
        exact hpass.mark hrs (fun _ _ => rfl) fun _ hd => Duty.noConfusion hd
      · cases hlook
    · cases hlook
      exact { hpass with failing := fun _ hd => Duty.noConfusion hd }
    · cases hlook
  · cases hs

/-- **A pass counts the retries that it does not see.** -/
theorem length_lt_attempt (hp : PassSound counts calm s p) (hr : r ∈ p.allJobs)
    (h : Retried cfg p r attempt) (hcnts : counts)
    (hcfg : cfg.retryMaxAgeHours ≤ 7 * 24 ∨ calm) :
    (retriesSince (retryKey r.toTicket) s.entered).length + 1 ≤ attempt := by
  obtain ⟨o, ho, hcut⟩ := h.began
  have hatt := h.attempt_eq
  cases hhead : (retriesSince (retryKey r.toTicket) s.entered).head? with
  | none =>
    rw [head?_eq_none_iff.mp hhead, length_nil]
    omega
  | some z =>
    obtain ⟨c₀, hc₀⟩ := hp.counted hcnts _ h.unseen z hhead
    have hlen := hc₀.length_le
    obtain ⟨q₀, hq₀⟩ := origin_mem ho
    obtain ⟨hq₀mem, -, hq₀created⟩ := mem_lineage.mp hq₀
    obtain ⟨hq₀all, hq₀key⟩ := mem_filter.mp hq₀mem
    have hle : o ≤ c₀ := hc₀.newest q₀ hq₀all hq₀key o hq₀created
    have hz := mem_filter.mp (mem_of_head? hhead)
    simp only [isRetry, Bool.and_eq_true, beq_iff_eq] at hz
    rcases hc₀.kept with ⟨q, hq, rfl⟩ | ⟨hold, hfa⟩
    · have hqkey : q ∈ p.keyJobs (retryKey r.toTicket) := mem_filter.mpr ⟨hq, hz.2.2⟩
      have hcnt := retryCount_le_attemptsUsed hqkey hz.2.1 ho hc₀.created hle
      omega
    · rcases hcfg with hage | hcalm
      · -- the chain is too old
        unfold Pass.cutoff at hcut
        unfold evictionAge at hold
        omega
      · exact absurd h.failed (hfa hcalm r hr (ofKey_retryKey h.path))

variable {jobId : ℕ}

theorem sound_reenqueue {dispatched : Bool}
    (hcfg : counts → cfg.retryMaxAgeHours ≤ 7 * 24 ∨ calm)
    (hcalm : calm → Undisturbed s (.reenqueue c jobId dispatched))
    (h : Sound counts calm cfg.retryMaxAttempts s)
    (hs : step cfg s (.reenqueue c jobId dispatched) = some t) :
    Sound counts calm cfg.retryMaxAttempts t := by
  simp only [step] at hs
  split at hs
  case h_2 => cases hs
  next p hmd =>
  split at hs
  case isFalse => cases hs
  next hguard =>
  obtain ⟨⟨r, attempt, rest⟩, hretr, rfl⟩ := map_eq_some_iff.mp hs
  obtain ⟨-, hrs, hret⟩ := retries_cases hretr
  obtain ⟨hfr, hck⟩ := hguard
  have hpass := h.pass p hmd
  have hg := h.store (by simp [hmd])
  have hr : r ∈ p.allJobs := hpass.rest r (hrs ▸ mem_cons_self)
  have hks : ∀ key, ofKey key (retryJob c.stamp jobId r attempt).toTicket = true →
      retryKey r.toTicket = key := fun key hk => (ofKey_iff.mp hk).2
  have hadm : Admissible counts calm cfg.retryMaxAttempts s.entered s.store.jobs.items
      (retryJob c.stamp jobId r attempt) := by
    intro key hk
    obtain rfl := hks key hk
    refine Or.inr ⟨rfl, fun hcnts => length_lt_attempt hpass hr hret hcnts (hcfg hcnts),
      hret.attempt_le,
      fun hc q hq hqkey => ?_⟩
    exact hcalm hc p r hmd (by rw [hrs]; rfl) q hq hqkey
  obtain ⟨hg', henter⟩ := storeGood_createJob hg hck hfr.1 rfl rfl rfl hadm
  have hent : ∀ key, key ≠ retryKey r.toTicket →
      retriesSince key (enter (createJob c (retryJob c.stamp jobId r attempt) s.store).1.jobs
        s.entered) = retriesSince key s.entered := by
    intro key hne
    rw [henter]
    split_ifs
    · refine retriesSince_cons_of_notOfKey (Bool.eq_false_iff.mpr fun hk => hne ?_)
      exact (hks key hk).symm
    · rfl
  rcases hcreate : createJob c (retryJob c.stamp jobId r attempt) s.store with ⟨store, returned⟩
  rw [hcreate] at hg' hent
  cases returned with
  | false =>
    refine ⟨hg'.file, fun _ => hg'.memory, fun p' hp' => ?_⟩
    cases hp'
    exact hpass.mark hrs hent fun _ hd => Duty.noConfusion hd
  | true =>
    refine ⟨hg'.file, fun _ => hg'.memory, fun p' hp' => ?_⟩
    cases hp'
    refine hpass.mark hrs hent fun jobId' hduty q hq hk => ?_
    cases dispatched with
    | true => cases hduty
    | false =>
      obtain rfl : jobId = jobId' := Duty.failing.inj hduty
      have hq' : q ∈ evictOld c.now₁
          (s.store.jobs.insert (retryJob c.stamp jobId r attempt)) :=
        jobs_createJob_of_returned hcreate ▸ hq
      rcases Keyed.mem_insert.mp (mem_of_mem_evictOld hq') with rfl | ⟨hold, hne⟩
      · rfl
      · exact absurd hk hne

theorem Sound.of_pass (h : Sound counts calm bound s)
    (hmd : s.mode = .pass p) (hck : s.clock ≤ c.stamp)
    (hf : (∀ r ∈ s.store.jobs, r.updatedAt ≤ c.stamp) → StoreStep c s.store (f s.store))
    (hduty : ∀ jobId, duty ≠ .failing jobId) :
    Sound counts calm bound (s.after c (.pass { p with duty := duty }) (f s.store)) := by
  have hg := h.store (by simp [hmd])
  have hg' := hg.step hck (hf fun r hr => (hg.memory.updatedAt_le hr).trans hck)
  have hpass := h.pass p hmd
  have hent := hg'.enter_eq
  refine ⟨?_, fun _ => ?_, fun p' hp' => ?_⟩
  · show GoodFile counts calm bound c.now₂ (enter (f s.store).jobs s.entered) (f s.store).saved
    rw [hent]
    exact hg'.file
  · show Good counts calm bound c.now₂ (enter (f s.store).jobs s.entered) (f s.store).jobs.items
    rw [hent]
    exact hg'.memory
  · cases hp'
    refine ⟨hpass.rest, hpass.nodup, fun hcnts key hk => ?_,
      fun jobId hd => absurd hd (hduty jobId)⟩
    exact (hpass.counted hcnts key hk).congr (congrArg (retriesSince key) hent)

theorem sound_expire (h : Sound counts calm bound s) (hs : step cfg s (.expire c) = some t) :
    Sound counts calm bound t := by
  simp only [step] at hs
  split at hs
  case h_2 => cases hs
  next p hmd =>
  split at hs
  case h_2 => cases hs
  obtain ⟨hck, rfl⟩ := of_guard hs
  refine h.of_pass hmd hck (fun htime => ?_) fun _ hd => Duty.noConfusion hd
  exact storeStep_transition htime fun r hr _ => ⟨rfl, by simp⟩

theorem sound_fail (h : Sound counts calm bound s) (hs : step cfg s (.fail c) = some t) :
    Sound counts calm bound t := by
  simp only [step] at hs
  split at hs
  case h_2 => cases hs
  next p hmd =>
  split at hs
  case h_2 => cases hs
  next jobId hduty =>
  obtain ⟨hck, rfl⟩ := of_guard hs
  refine h.of_pass hmd hck (fun htime => ?_) fun _ hd => Duty.noConfusion hd
  exact storeStep_update htime ((h.pass p hmd).failing jobId hduty)

/-- A change of the status of jobs that have not ended. -/
theorem ends_of_open {statuses : List JobStatus} (h : ∀ x ∈ statuses, x.terminal = false)
    (f : Record → Fields) : ∀ r, r.status ∈ statuses → r.status.terminal = true →
      (f r).status.terminal = true ∧ (f r).status ≠ .failed := by
  intro r hr hter
  rw [h r.status hr] at hter
  cases hter

theorem open_of_canFinish {jobs : Table} {status : JobStatus}
    (h : canFinish jobs jobId status = true) :
    ∀ r ∈ jobs, r.key = jobId → r.status.terminal = false := by
  intro r hr hk
  simp only [canFinish, Bool.and_eq_true, Keyed.get?_eq_some_iff.mpr ⟨hr, hk⟩,
    any_some, Bool.not_eq_true'] at h
  exact h.1

theorem sound_step (hcfg : counts → cfg.retryMaxAgeHours ≤ 7 * 24 ∨ calm) (s : State) (e : Event)
    (t : State) (hcalm : calm → Undisturbed s e) (h : Sound counts calm cfg.retryMaxAttempts s)
    (hs : step cfg s e = some t) : Sound counts calm cfg.retryMaxAttempts t := by
  cases e with
  | submit c jobId ns collection sourcePath options =>
    simp only [step] at hs
    split_ifs at hs with hfr
    exact h.of_create hs hfr rfl rfl rfl fun _ _ => rfl
  | other c jobId jobType ns collection source status =>
    simp only [step] at hs
    split_ifs at hs with hguard
    exact h.of_create hs hguard.1 rfl rfl hguard.2.2.2 fun _ hk =>
      absurd rfl (ofKey_iff.mp hk).1
  | claim c jobId =>
    exact h.of_storeStep hs fun htime =>
      storeStep_transition htime (ends_of_open (by decide) _)
  | finish c jobId status error =>
    simp only [step] at hs
    split_ifs at hs with hfin
    exact h.of_storeStep hs fun htime => storeStep_update htime (open_of_canFinish hfin)
  | cancel c jobId | complete c jobId =>
    exact h.of_storeStep hs fun htime =>
      storeStep_transition htime (ends_of_open (by decide) _)
  | drop c collection =>
    exact h.of_storeStep hs fun htime => storeStep_cancelIngestRetries htime
  | write c =>
    exact h.of_storeStep (f := fun st => (writeAtomic c.now₁ c.outcome₁ st).1) hs
      fun _ => storeStep_write
  | restart c => exact sound_restart h hs
  | beginPass now => exact sound_beginPass h hs
  | look => exact sound_look h hs
  | reenqueue c jobId dispatched => exact sound_reenqueue hcfg hcalm h hs
  | expire c => exact sound_expire h hs
  | fail c => exact sound_fail h hs

/-! ### Where a retry comes from -/

/-- The job is in memory or in the file. -/
def Store.Has (st : Store) (z : Ticket) : Prop :=
  ∃ r : Record, (r ∈ st.jobs ∨ r ∈ st.saved) ∧ r.toTicket = z

theorem Store.Has.of_advances {stamp cut : ℤ}
    (h : Advances stamp cut st.jobs.items jobs) (hq : q ∈ jobs) : st.Has q.toTicket := by
  obtain ⟨⟨r, hr, hev⟩, -⟩ := h.back q hq
  exact ⟨r, Or.inl hr, hev.ticket.symm⟩

variable {z : Ticket} {st' : Store}

theorem StoreStep.has (h : StoreStep c st st') (hz : st'.Has z) :
    st.Has z := by
  obtain ⟨q, hq | hq, rfl⟩ := hz
  · rcases h.memory with heq | ⟨_, -, -, hadv⟩
    · exact ⟨q, Or.inl (heq ▸ hq), rfl⟩
    · exact Store.Has.of_advances hadv hq
  · rcases h.file with heq | ⟨_, -, -, hadv⟩
    · exact ⟨q, Or.inr (heq ▸ hq), rfl⟩
    · exact Store.Has.of_advances hadv hq

theorem has_createJob (hz : (createJob c q st).1.Has z) :
    st.Has z ∨ z = q.toTicket := by
  have hw : ∀ r, r ∈ evictOld c.now₁ (st.jobs.insert q) →
      st.Has r.toTicket ∨ r.toTicket = q.toTicket := by
    intro r hr
    rcases Keyed.mem_insert.mp (mem_of_mem_evictOld hr) with rfl | ⟨hr, -⟩
    · exact Or.inr rfl
    · exact Or.inl ⟨r, Or.inl hr, rfl⟩
  have hund : ∀ r,
      r ∈ evictOld c.now₂ ((evictOld c.now₁ (st.jobs.insert q)).erase q.key) →
      st.Has r.toTicket ∨ r.toTicket = q.toTicket := fun r hr =>
    hw r (Keyed.mem_erase.mp (mem_of_mem_evictOld hr)).1
  obtain ⟨r, hr, rfl⟩ := hz
  rcases persistOrRollback_cases c st (st.jobs.insert q) fun jobs => jobs.erase q.key with
    heq | ⟨saved, hsav, heq⟩
  · rw [createJob, heq] at hr
    exact hw r (hr.elim id id)
  rw [createJob, heq] at hr
  rcases hr with hr | hr
  · exact hund r hr
  · rcases c.outcome₂.publish_eq_or saved
      (evictOld c.now₂ ((evictOld c.now₁ (st.jobs.insert q)).erase q.key)) with hpub | hpub
    · replace hr : r ∈ saved := hpub ▸ hr
      rcases hsav with rfl | rfl
      · exact Or.inl ⟨r, Or.inr hr, rfl⟩
      · exact hw r hr
    · exact hund r (hpub ▸ hr)

theorem has_openStore {raised : Bool}
    (hopen : openStore c st.saved = (st', raised)) (hz : st'.Has z) : st.Has z := by
  have hl : ∀ r ∈ loaded c st.saved, st.Has r.toTicket := by
    intro r hr
    obtain ⟨q, hq, rfl⟩ := Keyed.mem_map.mp (mem_of_mem_evictOld hr)
    exact ⟨q, Or.inr hq, (ticket_recover c.stamp q).symm⟩
  unfold openStore writeAtomic at hopen
  split_ifs at hopen
  · cases hopen
    obtain ⟨r, hr | hr, rfl⟩ := hz
    · exact hl r (mem_of_mem_evictOld hr)
    · rcases c.outcome₁.publish_eq_or st.saved (evictOld c.now₂ (loaded c st.saved)) with
        hpub | hpub
      · exact ⟨r, Or.inr (hpub ▸ hr), rfl⟩
      · exact hl r (mem_of_mem_evictOld (hpub ▸ hr))
  · cases hopen
    obtain ⟨r, hr | hr, rfl⟩ := hz
    · exact hl r hr
    · exact ⟨r, Or.inr hr, rfl⟩

/-- A call while requests are served leaves no job but the ones `f` does. -/
theorem has_of_call (hs : s.call c f = some t)
    (hz : t.store.Has z) : s.clock ≤ c.stamp ∧ s.mode ≠ .down ∧ (f s.store).Has z := by
  unfold State.call at hs
  split at hs
  · next hmd =>
    obtain ⟨hck, rfl⟩ := of_guard hs
    exact ⟨hck, by simp [hmd], hz⟩
  · cases hs

theorem Sound.has_of_storeStep (h : Sound counts calm bound s)
    (hs : s.call c f = some t) (hz : t.store.Has z)
    (hf : (∀ r ∈ s.store.jobs, r.updatedAt ≤ c.stamp) → StoreStep c s.store (f s.store)) :
    s.store.Has z := by
  obtain ⟨hck, hmd, hz⟩ := has_of_call hs hz
  exact (hf fun r hr => ((h.memory hmd).updatedAt_le hr).trans hck).has hz

/-- **A maintenance job is created by a pass**, from the job that it looks at. -/
theorem retried_of_new {e : Event} (h : Sound counts calm bound s)
    (hs : step cfg s e = some t) (hsrc : z.source = .maintenance) (hz : t.store.Has z)
    (hw : ¬s.store.Has z) :
    ∃ c jobId dispatched p r attempt rest, e = .reenqueue c jobId dispatched ∧
      s.mode = .pass p ∧ p.retries cfg = some (r, attempt, rest) ∧
      z = (retryJob c.stamp jobId r attempt).toTicket := by
  cases e with
  | submit c jobId ns collection sourcePath options =>
    simp only [step] at hs
    split_ifs at hs
    obtain ⟨-, -, hz⟩ := has_of_call hs hz
    obtain rfl := (has_createJob hz).resolve_left hw
    cases hsrc
  | other c jobId jobType ns collection source status =>
    simp only [step] at hs
    split_ifs at hs with hguard
    obtain ⟨-, -, hz⟩ := has_of_call hs hz
    obtain rfl := (has_createJob hz).resolve_left hw
    exact absurd hsrc hguard.2.2.1
  | claim c jobId =>
    exact absurd (h.has_of_storeStep hs hz fun htime =>
      storeStep_transition htime (ends_of_open (by decide) _)) hw
  | finish c jobId status error =>
    simp only [step] at hs
    split_ifs at hs with hfin
    exact absurd (h.has_of_storeStep hs hz fun htime =>
      storeStep_update htime (open_of_canFinish hfin)) hw
  | cancel c jobId | complete c jobId =>
    exact absurd (h.has_of_storeStep hs hz fun htime =>
      storeStep_transition htime (ends_of_open (by decide) _)) hw
  | drop c collection =>
    exact absurd (h.has_of_storeStep hs hz fun htime =>
      storeStep_cancelIngestRetries htime) hw
  | write c =>
    exact absurd (h.has_of_storeStep (f := fun st => (writeAtomic c.now₁ c.outcome₁ st).1) hs hz
      fun _ => storeStep_write) hw
  | restart c =>
    simp only [step] at hs
    split_ifs at hs
    split at hs
    · next store hopen =>
      cases hs
      exact absurd (has_openStore hopen hz) hw
    · next store hopen =>
      cases hs
      obtain ⟨r, hr | hr, rfl⟩ := hz
      · exact absurd hr (Keyed.notMem_empty r)
      · exact absurd (has_openStore hopen ⟨r, Or.inr hr, rfl⟩) hw
  | beginPass now =>
    simp only [step] at hs
    split at hs
    · split_ifs at hs
      all_goals
        cases hs
        exact absurd hz hw
    · cases hs
  | look =>
    simp only [step] at hs
    split at hs
    · obtain ⟨mode, -, rfl⟩ := map_eq_some_iff.mp hs
      exact absurd hz hw
    · cases hs
  | reenqueue c jobId dispatched =>
    simp only [step] at hs
    split at hs
    case h_2 => cases hs
    next p hmd =>
    split at hs
    case isFalse => cases hs
    obtain ⟨⟨r, attempt, rest⟩, hret, rfl⟩ := map_eq_some_iff.mp hs
    refine ⟨c, jobId, dispatched, p, r, attempt, rest, rfl, hmd, hret, ?_⟩
    refine (has_createJob (c := c) ?_).resolve_left hw
    split at hz
    · next store hcreate =>
      rw [hcreate]
      exact hz
    · next store hcreate =>
      rw [hcreate]
      exact hz
  | expire c =>
    simp only [step] at hs
    split at hs
    case h_2 => cases hs
    next p hmd =>
    split at hs
    case h_2 => cases hs
    obtain ⟨hck, rfl⟩ := of_guard hs
    refine absurd (StoreStep.has (storeStep_transition (fun r hr => ?_) fun r hr _ =>
      ⟨rfl, by simp⟩) hz) hw
    exact ((h.memory (by simp [hmd])).updatedAt_le hr).trans hck
  | fail c =>
    simp only [step] at hs
    split at hs
    case h_2 => cases hs
    next p hmd =>
    split at hs
    case h_2 => cases hs
    next jobId hduty =>
    obtain ⟨hck, rfl⟩ := of_guard hs
    refine absurd (StoreStep.has (storeStep_update (fun r hr => ?_)
      ((h.pass p hmd).failing jobId hduty)) hz) hw
    exact ((h.memory (by simp [hmd])).updatedAt_le hr).trans hck

/-! ### The beginning of a pass -/

def Event.ofPass : Event → Bool
  | .look | .reenqueue .. | .expire _ | .fail _ => true
  | _ => false

theorem not_pass_of_call (hs : s.call c f = some t) : t.mode ≠ .pass p := by
  unfold State.call at hs
  split at hs
  · split_ifs at hs
    cases hs
    exact fun h => Mode.noConfusion h
  · cases hs

/-- A pass begins with the jobs of the store, or it goes on with those it began with. -/
theorem pass_of_step {e : Event} (hs : step cfg s e = some t) (hp : t.mode = .pass p) :
    (∃ now, e = .beginPass now ∧ p.allJobs = s.store.jobs.items) ∨
      e.ofPass = true ∧ ∃ p', s.mode = .pass p' ∧ p'.allJobs = p.allJobs := by
  cases e with
  | submit c jobId ns collection sourcePath options
  | other c jobId jobType ns collection source status | finish c jobId status error =>
    simp only [step] at hs
    split_ifs at hs
    exact absurd hp (not_pass_of_call hs)
  | claim c jobId => exact absurd hp (not_pass_of_call hs)
  | cancel c jobId => exact absurd hp (not_pass_of_call hs)
  | complete c jobId => exact absurd hp (not_pass_of_call hs)
  | drop c collection => exact absurd hp (not_pass_of_call hs)
  | write c =>
    exact absurd hp (not_pass_of_call (f := fun st => (writeAtomic c.now₁ c.outcome₁ st).1) hs)
  | restart c =>
    simp only [step] at hs
    split_ifs at hs
    split at hs
    all_goals
      cases hs
      cases hp
  | beginPass now =>
    simp only [step] at hs
    split at hs
    · next hmd =>
      split_ifs at hs
      · cases hs
        cases hp
        exact Or.inl ⟨now, rfl, rfl⟩
      · cases hs
        exact absurd (hmd.symm.trans hp) (by simp)
    · cases hs
  | look =>
    simp only [step] at hs
    split at hs
    case h_2 => cases hs
    next p' hmd =>
    obtain ⟨mode, hlook, rfl⟩ := map_eq_some_iff.mp hs
    obtain rfl : mode = .pass p := hp
    refine Or.inr ⟨rfl, p', hmd, ?_⟩
    unfold Pass.look at hlook
    split at hlook
    · cases hlook
    · split at hlook
      case h_4 => cases hlook
      all_goals
        cases hlook
        rfl
    · cases hlook
      rfl
    · cases hlook
  | reenqueue c jobId dispatched =>
    simp only [step] at hs
    split at hs
    case h_2 => cases hs
    next p' hmd =>
    split at hs
    case isFalse => cases hs
    obtain ⟨⟨r, attempt, rest⟩, -, rfl⟩ := map_eq_some_iff.mp hs
    refine Or.inr ⟨rfl, p', hmd, ?_⟩
    split at hp
    all_goals
      cases hp
      rfl
  | expire c | fail c =>
    simp only [step] at hs
    split at hs
    case h_2 => cases hs
    next p' hmd =>
    split at hs
    case h_2 => cases hs
    obtain ⟨-, rfl⟩ := of_guard hs
    cases hp
    exact Or.inr ⟨rfl, p', hmd, rfl⟩

/-- **A pass began with the jobs that were in memory**, and nothing else has happened since. -/
theorem began_of_pass {es : List Event} (hr : run (step cfg) State.init es = some s)
    (hp : s.mode = .pass p) :
    ∃ before now since s₀, es = before ++ .beginPass now :: since ∧
      (∀ e ∈ since, e.ofPass = true) ∧ run (step cfg) State.init before = some s₀ ∧
      p.allJobs = s₀.store.jobs.items := by
  induction es using List.reverseRecOn generalizing s p with
  | nil =>
    cases hr
    cases hp
  | append_singleton es e ih =>
    obtain ⟨s', hr', hs⟩ := (run_concat_eq_some (step cfg)).mp hr
    rcases pass_of_step hs hp with ⟨now, rfl, hjs⟩ | ⟨hof, p', hp', hjs⟩
    · exact ⟨es, now, [], s', rfl, fun _ he => absurd he not_mem_nil, hr', hjs⟩
    · obtain ⟨before, now, since, s₀, rfl, hsin, hbef, hjs'⟩ := ih hr' hp'
      refine ⟨before, now, since ++ [e], s₀, by simp, ?_, hbef, hjs.symm.trans hjs'⟩
      intro e' he'
      rcases mem_append.mp he' with he' | he'
      · exact hsin e' he'
      · rw [mem_singleton.mp he']
        exact hof

/-! ### The two guarantees -/

/-- What is known of every state, with the bound where it holds. -/
theorem sound_of_run {es : List Event} (hrun : run (step cfg) State.init es = some s) :
    Sound (cfg.retryMaxAgeHours ≤ 7 * 24 ∨ Along (step cfg) Undisturbed State.init es)
      (Along (step cfg) Undisturbed State.init es) cfg.retryMaxAttempts s := by
  have halong : Along (step cfg)
      (fun s e => Along (step cfg) Undisturbed State.init es → Undisturbed s e)
      State.init es := by
    refine along_iff.mpr fun before e after s' hes hbef hcalm => ?_
    exact along_iff.mp hcalm before e after s' hes hbef
  exact run_invariant_along (fun s' e t' hcalm hs hst => sound_step id s' e t' hcalm hs hst)
    halong sound_init hrun

/-- **Retries are bounded, and each has its reason.** At every moment of every run, the retries of
a key since its last submission are at most `retry_max_attempts`, if the settings let no chain
grow older than the jobs that the store keeps, or if no retry was created while another job of its
key was outstanding. And whatever the settings, a maintenance job that is new in memory or in the
file is a retry of the newest job that settled its key when the pass began, which is a failed
ingest with options that no client has cancelled and that no restart has ended; and it carries
these options. -/
theorem retries_justified_and_bounded (cfg : Config) (es : List Event) (s : State)
    (hrun : run (step cfg) State.init es = some s) :
    (cfg.retryMaxAgeHours ≤ 7 * 24 ∨ Along (step cfg) Undisturbed State.init es →
      ∀ key, (retriesSince key s.entered).length ≤ cfg.retryMaxAttempts) ∧
    ∀ e t z, step cfg s e = some t → z.source = .maintenance → t.store.Has z → ¬s.store.Has z →
      ∃ before now since s₀ r, es = before ++ .beginPass now :: since ∧
        (∀ e' ∈ since, e'.ofPass = true) ∧ run (step cfg) State.init before = some s₀ ∧
        Justified s₀.store.jobs.items r z := by
  have hsd := sound_of_run hrun
  refine ⟨fun hcnts key => hsd.file.bounded hcnts key, ?_⟩
  intro e t z hs hsrc hz hw
  obtain ⟨c, jobId, dispatched, p, r, attempt, rest, rfl, hp, hret, rfl⟩ :=
    retried_of_new hsd hs hsrc hz hw
  obtain ⟨before, now, since, s₀, hes, hsin, hbef, hjs⟩ := began_of_pass hrun hp
  obtain ⟨-, hrs, hretr⟩ := retries_cases hret
  have hpass := hsd.pass p hp
  refine ⟨before, now, since, s₀, r, hes, hsin, hbef, ?_⟩
  rw [← hjs]
  exact justified_of_retried hpass.nodup (hpass.rest r (hrs ▸ mem_cons_self)) hretr _ _

/-! ### An ingest that takes eight days -/

def Call.at (now : ℤ) : Call := ⟨now, now, now, .written, .written, le_rfl, le_rfl⟩

def plainOptions : IngestOptions := { submittedPath := "/docs", ingestedBy := "" }

/-- A path is submitted, and its ingest runs; the path is submitted again and fails, is retried
once and fails, and its chain is ended. -/
def overlapping : List Event :=
  [.submit (.at 0) 0 "default" "docs" "/docs" (some plainOptions), .claim (.at 0) 0,
    .submit (.at 1) 1 "default" "docs" "/docs" (some plainOptions), .claim (.at 1) 1,
    .finish (.at 2) 1 .failed none,
    .beginPass 3, .look, .reenqueue (.at 3) 2 true, .look, .claim (.at 4) 2,
    .finish (.at 4) 2 .failed none,
    .beginPass 5, .look, .look, .look, .expire (.at 5), .expire (.at 5), .look, .look]

def belated : List Event :=
  overlapping ++
    [.finish (.at 691200000000) 0 .failed none, .beginPass 691200000000,
      .reenqueue (.at 691200000000) 3 true]

/-- **One retry is allowed, and there are two** since the last submission. -/
theorem retried_anew :
    ∃ s, run (step ⟨true, 1, 720, []⟩) State.init belated = some s ∧
      1 < (retriesSince "default/docs//docs" s.entered).length := by
  show ∃ s ∈ run (step ⟨true, 1, 720, []⟩) State.init belated, _
  decide +kernel

/-- With the default age, the one retry that is allowed is created before the chain ends. -/
theorem retries_justified_and_bounded_overlapping :
    ∃ s, run (step ⟨true, 1, 72, []⟩) State.init overlapping = some s ∧
      (retriesSince "default/docs//docs" s.entered).length = 1 ∧
      (retriesSince "default/docs//docs" s.entered).length ≤ 1 := by
  obtain ⟨s, hs, heq⟩ : ∃ s ∈ run (step ⟨true, 1, 72, []⟩) State.init overlapping,
      (retriesSince "default/docs//docs" s.entered).length = 1 := by
    decide +kernel
  exact ⟨s, hs, heq,
    (retries_justified_and_bounded ⟨true, 1, 72, []⟩ overlapping s hs).1 (Or.inl (by decide)) _⟩

end ArchonSearch.Jobs.Retry
