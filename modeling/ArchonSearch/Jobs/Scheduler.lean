import Mathlib.Data.List.Sort
import ArchonSearch.Jobs.Atomicity
import ArchonSearch.Lib.Run

/-!
# The scheduler of bulk jobs

A tick lists the queued bulk jobs, counts the tasks that are not done, and promotes as many jobs
as there are slots left: each is claimed by a `transition` from `QUEUED` to `RUNNING`, and if that
succeeds `dispatch_fn` is called, which raises or registers a task. The slots are counted once,
before the claims. That is safe as a tick does not wait anywhere, and every turn of its loop
registers one task at most.

A claim whose write raises has not been made: the store puts the old job back, whether the file was
reached or not, so that it is still queued, and nothing has been dispatched for it. What the ticks
of a run have done is recorded in its log (`Scheduler.Act`), and `Scheduler.scheduler_safe` reads
off it that claims and dispatches go together, whatever else the store is asked for in between.
-/

namespace ArchonSearch.Jobs

open Py Lib List Option

/-! ### The queue -/

def Payload.isBulk : Payload → Bool
  | .exportJob _ _ | .importJob _ | .migration _ _ _ => true
  | _ => false

/-- A `created_at` that can be compared: a text or a number. -/
inductive Stamp where
  | text : String → Stamp
  /-- An `int`, a `float` or a `bool`. -/
  | number : ℚ → Stamp

def stamp? : Json → Option Stamp
  | .str s => some (.text s)
  | .int n => some (.number n)
  | .float q => some (.number q)
  | .bool b => some (.number (if b then 1 else 0))
  | _ => none

def comparable (a b : Json) : Bool :=
  match stamp? a, stamp? b with
  | some (.text _), some (.text _) | some (.number _), some (.number _) => true
  | _, _ => false

def notLater (a b : Json) : Bool :=
  match stamp? a, stamp? b with
  | some (.text a), some (.text b) => decide (a ≤ b)
  | some (.number a), some (.number b) => decide (a ≤ b)
  | _, _ => false

def sourcePriority (j : Job) : ℕ := if j.source = .user then 0 else 1

def notAfter (j k : Job) : Bool :=
  sourcePriority j < sourcePriority k ||
    sourcePriority j == sourcePriority k && notLater j.createdAt k.createdAt

def queuedBulk (t : Table) : List Job :=
  t.items.filter fun j => j.payload.isBulk && j.status == .queued

/-- `list_queued_bulk`; none when two of them cannot be compared, and the sort raises. -/
def listQueuedBulk (t : Table) : Option (List Job) :=
  if ∀ j ∈ queuedBulk t, ∀ k ∈ queuedBulk t, j.key ≠ k.key →
      sourcePriority j = sourcePriority k → comparable j.createdAt k.createdAt = true then
    some ((queuedBulk t).insertionSort fun j k => notAfter j k)
  else none

def Store.statusOf (s : Store) (jobId : Key) : Option JobStatus :=
  (s.jobs.get? jobId).map Job.status

namespace Scheduler

variable {fromisoformat : String → Option ℤ}

/-! ### A tick -/

/-- An `asyncio.Task` in `_active`. -/
structure Task where
  id : ℕ
  /-- `t.done()`. -/
  done : Bool

inductive Act where
  /-- It claims a job: the store before and after, and whether `transition` raised. -/
  | claim : (jobId : Key) → (before after : Store) → (raised : Bool) → Act
  /-- It calls `dispatch_fn`, while this is the store. -/
  | dispatch : Job → Store → Act

structure State where
  store : Store
  active : List Task
  registered : ℕ
  log : List Act

/-- `_active_count_running`. -/
def State.activeCountRunning (s : State) : ℕ := s.active.countP fun t => !t.done

/-- `register_task`, for a new task. -/
def State.registerTask (s : State) : State :=
  { s with active := s.active ++ [⟨s.registered, false⟩], registered := s.registered + 1 }

/-- What becomes of the calls in a turn of the loop of `_tick`. -/
structure Turn (fromisoformat : String → Option ℤ) where
  attempt : Attempt fromisoformat
  /-- `dispatch_fn` raises; otherwise it registers a task. -/
  raises : Bool
  /-- The stamp of the update to `FAILED`. -/
  stamp : Reading fromisoformat
  now : ℤ
  outcome : WriteOutcome

def noFields : FieldUpdate := ⟨id, fun _ => rfl⟩

/-- `status=FAILED, error=DISPATCH_FAILED_DETAIL`. -/
def dispatchFailed : FieldUpdate where
  apply j :=
    { j with
      status := .failed
      error := .str "dispatch_failed; see the server log for details" }
  key_apply _ := rfl

/-- `dispatch_fn(promoted)`, and what follows when it raises. -/
def State.dispatch (s : State) (promoted : Job) (jobId : Key) (t : Turn fromisoformat) : State :=
  let s := { s with log := s.log ++ [Act.dispatch promoted s.store] }
  if t.raises then
    { s with store := (update t.stamp t.now t.outcome jobId dispatchFailed s.store).1 }
  else s.registerTask

def State.turn (s : State) (jobId : Key) (t : Turn fromisoformat) : State :=
  match transition t.attempt jobId [.queued] .running noFields s.store with
  | ⟨store, _, .error _⟩ => { s with store, log := s.log ++ [Act.claim jobId s.store store true] }
  | ⟨store, _, .ok none⟩ => { s with store, log := s.log ++ [Act.claim jobId s.store store false] }
  | ⟨store, _, .ok (some promoted)⟩ =>
    let s := { s with store, log := s.log ++ [Act.claim jobId s.store store false] }
    s.dispatch promoted jobId t

/-- The loop of `_tick`. -/
def promote : List Job → (ℕ → Turn fromisoformat) → State → State
  | [], _, s => s
  | job :: jobs, turns, s => promote jobs (fun i => turns (i + 1)) (s.turn job.key (turns 0))

/-- `_tick`; none when the listing raises. -/
def State.tick (maxConcurrent : ℕ) (turns : ℕ → Turn fromisoformat) (s : State) : Option State :=
  (listQueuedBulk s.store.jobs).map fun queued =>
    promote (queued.take (maxConcurrent - s.activeCountRunning)) turns s

/-! ### The process -/

inductive Event (fromisoformat : String → Option ℤ) where
  | tick : (ℕ → Turn fromisoformat) → Event fromisoformat
  | complete : (task : ℕ) → Event fromisoformat
  | discard : (task : ℕ) → Event fromisoformat
  | create : Attempt fromisoformat → Job → Event fromisoformat
  | transition : Attempt fromisoformat → Key → List JobStatus → JobStatus → FieldUpdate →
      Event fromisoformat
  | update : Reading fromisoformat → ℤ → WriteOutcome → Key → FieldUpdate → Event fromisoformat
  | cancelIngestRetries : Attempt fromisoformat → String → Event fromisoformat

def step (maxConcurrent : ℕ) (s : State) : Event fromisoformat → Option State
  | .tick turns => s.tick maxConcurrent turns
  | .complete task =>
    some { s with
      active := s.active.map fun t => if t.id = task then { t with done := true } else t }
  | .discard task => some { s with active := s.active.filter fun t => t.id ≠ task || !t.done }
  | .create a job => some { s with store := (createJob a job s.store).store }
  | .transition a jobId fromStatuses toStatus fields =>
    some { s with store := (Jobs.transition a jobId fromStatuses toStatus fields s.store).store }
  | .update r now outcome jobId fields =>
    some { s with store := (Jobs.update r now outcome jobId fields s.store).1 }
  | .cancelIngestRetries a collection =>
    some { s with store := (Jobs.cancelIngestRetries a collection s.store).store }

/-! ### The log -/

def Act.promoted? : Act → Option Key
  | .claim jobId old new _ =>
    if old.statusOf jobId = some .queued ∧ new.statusOf jobId = some .running then some jobId
    else none
  | .dispatch _ _ => none

def Act.dispatched? : Act → Option Key
  | .claim _ _ _ _ => none
  | .dispatch job _ => some job.key

/-- **What a log says**: a job is dispatched once for each time it was promoted, it is running
then, and a claim that raised has left it queued. -/
structure Safe (log : List Act) : Prop where
  dispatched : log.filterMap Act.dispatched? = log.filterMap Act.promoted?
  running : ∀ job store, .dispatch job store ∈ log → store.statusOf job.key = some .running
  queued : ∀ jobId before after, .claim jobId before after true ∈ log →
    after.statusOf jobId = some .queued

theorem safe_nil : Safe [] := ⟨rfl, by simp, by simp⟩

theorem Safe.append {log log' : List Act} (h : Safe log) (h' : Safe log') : Safe (log ++ log') where
  dispatched := by rw [filterMap_append, filterMap_append, h.dispatched, h'.dispatched]
  running job store hm := (mem_append.mp hm).elim (h.running job store) (h'.running job store)
  queued jobId before after hm := (mem_append.mp hm).elim (h.queued jobId before after)
    (h'.queued jobId before after)

/-! ### What the calls of the store do to a status -/

variable {s s' : State} {store store' : Store} {t : Turn fromisoformat} {jobId k : Key}
  {maxConcurrent : ℕ}

def Keeps (store store' : Store) (k : Key) : Prop :=
  ∀ status, store.statusOf k = some status → status.terminal = false →
    store'.statusOf k = some status

theorem Keeps.trans {store'' : Store} (h : Keeps store store' k) (h' : Keeps store' store'' k) :
    Keeps store store'' k :=
  fun status hstat hopen => h' status (h status hstat hopen) hopen

variable {jobs : Table}

/-- Only jobs that are over are removed by this filter. -/
theorem statusOf_filter {p : Job → Bool} {now : ℤ} {status : JobStatus}
    (hp : ∀ j, p j = false → j.expired fromisoformat now = true)
    (h : (jobs.get? k).map Job.status = some status) (hopen : status.terminal = false) :
    ((jobs.filter p).get? k).map Job.status = some status := by
  obtain ⟨j, hj, rfl⟩ := map_eq_some_iff.mp h
  have hk : p j = true := by
    by_contra hnot
    have hexp := hp j ((Bool.not_eq_true _).mp hnot)
    rw [Job.expired, hopen] at hexp
    cases hexp
  rw [Keyed.get?_filter, hj, filter_some, if_pos hk]
  rfl

/-- A job that is stored is found with its status, and the others are kept. -/
theorem statusOf_persisted {a : Attempt fromisoformat} {job : Job}
    (h : evictOld fromisoformat a.now₁ (jobs.insert job) = some store'.jobs) :
    (job.status.terminal = false → store'.statusOf job.key = some job.status) ∧
      ∀ k, k ≠ job.key → ∀ status, (jobs.get? k).map Job.status = some status →
        status.terminal = false → store'.statusOf k = some status := by
  obtain ⟨-, hjs⟩ := evictOld_eq_some_iff.mp h
  unfold Store.statusOf
  rw [← hjs]
  constructor
  · intro hopen
    refine statusOf_filter (fun j hj => by simpa using hj) ?_ hopen
    rw [Keyed.get?_insert, if_pos rfl]
    rfl
  · intro k hk status hstat hopen
    refine statusOf_filter (fun j hj => by simpa using hj) ?_ hopen
    rw [Keyed.get?_insert, if_neg hk]
    exact hstat

theorem keeps_of_sameUpToEviction {clocks : List ℤ}
    (h : SameUpToEviction fromisoformat clocks store.jobs store'.jobs) : Keeps store store' k := by
  intro status hstat hopen
  rcases h k with heq | ⟨-, j, hj, now, -, hexp⟩
  · unfold Store.statusOf
    rw [heq]
    exact hstat
  · rw [Store.statusOf, hj] at hstat
    cases hstat
    rw [Job.expired, hopen] at hexp
    cases hexp

/-- **A claim** is made, and the job runs; or it was not queued; or it still is. -/
theorem claim_cases (a : Attempt fromisoformat) (jobId : Key) (store : Store) :
    let r := transition a jobId [.queued] .running noFields store
    (∀ k ≠ jobId, Keeps store r.store k) ∧
      ((∃ promoted, r.returned = .ok (some promoted) ∧ promoted.key = jobId ∧
          store.statusOf jobId = some .queued ∧ r.store.statusOf jobId = some .running) ∨
        r.returned = .ok none ∧ store.statusOf jobId ≠ some .queued ∨
        ∃ e, r.returned = .error e ∧ r.store.statusOf jobId = some .queued) := by
  intro r
  rcases transition_cases a jobId [.queued] .running noFields store with
    ⟨hstore, -, hret, hnot⟩ | ⟨job, hj, hqd, hspec, he⟩
  · refine ⟨fun k _ => ?_, Or.inr (Or.inl ⟨hret, fun hstat => ?_⟩)⟩
    · have hstore : r.store = store := hstore
      rw [hstore]
      exact fun status hstat _ => hstat
    · obtain ⟨job, hj, hstat⟩ := map_eq_some_iff.mp hstat
      exact hnot job hj (mem_singleton.mpr hstat)
  · have hk := (Keyed.get?_eq_some_iff.mp hj).2
    have hstat : store.statusOf jobId = some .queued :=
      map_eq_some_iff.mpr ⟨job, hj, mem_singleton.mp hqd⟩
    rcases he with ⟨hres, hret⟩ | ⟨⟨b, hres⟩, hret⟩
    · rw [hres] at hspec
      obtain ⟨hself, hoth⟩ := statusOf_persisted hspec.1
      have hprom : (transitioned a.stamp .running noFields job).key = jobId := hk
      rw [hprom] at hself hoth
      exact ⟨hoth, Or.inl ⟨_, hret, hprom, hstat, hself rfl⟩⟩
    · rw [hres] at hspec
      have hkp (k : Key) : Keeps store r.store k := keeps_of_sameUpToEviction hspec.1
      exact ⟨fun k _ => hkp k, Or.inr (Or.inr ⟨_, hret, hkp jobId _ hstat rfl⟩)⟩

theorem keeps_update (r : Reading fromisoformat) (now : ℤ) (outcome : WriteOutcome)
    (fields : FieldUpdate) (hk : k ≠ jobId) :
    Keeps store (update r now outcome jobId fields store).1 k := by
  rcases update_cases r now outcome jobId fields store with
    ⟨-, heq⟩ | ⟨job, hj, hkey, store', raised, hw, heq⟩
  · rw [heq]
    exact fun status hstat _ => hstat
  · rw [heq]
    obtain ⟨p, hp, hexp⟩ := jobs_writeAtomic hw
    intro status hstat hopen
    unfold Store.statusOf
    rw [hp]
    refine statusOf_filter hexp ?_ hopen
    have hstam : (stamped r (fields.apply job)).key = jobId := (fields.key_apply job).trans hkey
    rw [Keyed.get?_insert, hstam, if_neg hk]
    exact hstat

/-! ### A tick is safe -/

structure Turned (jobs : List Key) (s s' : State) : Prop where
  count : s'.activeCountRunning ≤ s.activeCountRunning + jobs.length
  keeps : ∀ k ∉ jobs, Keeps s.store s'.store k
  log : ∃ acts, s'.log = s.log ++ acts ∧ Safe acts ∧
    ∀ k before after, .claim k before after true ∈ acts →
      k ∈ jobs ∧ s'.store.statusOf k = some .queued

theorem turned_dispatch (s : State) (promoted : Job) (jobId : Key) (t : Turn fromisoformat) :
    (s.dispatch promoted jobId t).activeCountRunning ≤ s.activeCountRunning + 1 ∧
      (∀ k ≠ jobId, Keeps s.store (s.dispatch promoted jobId t).store k) ∧
      (s.dispatch promoted jobId t).log = s.log ++ [.dispatch promoted s.store] := by
  unfold State.dispatch
  split_ifs
  · exact ⟨Nat.le_succ _, fun k hk => keeps_update _ _ _ _ hk, rfl⟩
  · refine ⟨?_, fun k _ status hstat _ => hstat, rfl⟩
    simp [State.activeCountRunning, State.registerTask, countP_append]

/-- **A turn of the loop.** -/
theorem turned_turn (s : State) (jobId : Key) (t : Turn fromisoformat) :
    Turned [jobId] s (s.turn jobId t) := by
  obtain ⟨hkp, hcs⟩ := claim_cases t.attempt jobId s.store
  have hnot {k : Key} (hk : k ∉ [jobId]) : k ≠ jobId := fun h => hk (mem_singleton.mpr h)
  rcases hclaim : transition t.attempt jobId [.queued] .running noFields s.store with
    ⟨store, result, returned⟩
  rw [hclaim] at hkp hcs
  rcases hcs with ⟨promoted, rfl, hkey, hqd, hr⟩ | ⟨rfl, hn⟩ | ⟨e, rfl, hqd⟩
  · simp only [State.turn, hclaim]
    obtain ⟨hcnt, hoth, hlog⟩ := turned_dispatch
      { s with store, log := s.log ++ [.claim jobId s.store store false] } promoted jobId t
    refine ⟨hcnt, fun k hk => (hkp k (hnot hk)).trans (hoth k (hnot hk)),
      [.claim jobId s.store store false, .dispatch promoted store], ?_, ?_, ?_⟩
    · exact hlog.trans (append_assoc _ _ _)
    · refine ⟨?_, ?_, by simp⟩
      · have hr : store.statusOf jobId = some .running := hr
        simp [filterMap_cons, Act.dispatched?, Act.promoted?, hqd, hr, hkey]
      · simp [hkey, hr]
    · simp
  · simp only [State.turn, hclaim]
    refine ⟨Nat.le_add_right _ _, fun k hk => hkp k (hnot hk), _, rfl, ⟨?_, ?_, ?_⟩, ?_⟩
    · simp [Act.dispatched?, Act.promoted?, hn]
    · simp
    · simp
    · simp
  · simp only [State.turn, hclaim]
    have hleft : ∀ k before after, Act.claim k before after true ∈
        [Act.claim jobId s.store store true] → k = jobId ∧ after = store := by
      intro k before after hm
      simp only [mem_singleton, Act.claim.injEq] at hm
      exact ⟨hm.1, hm.2.2.1⟩
    refine ⟨Nat.le_add_right _ _, fun k hk => hkp k (hnot hk), _, rfl, ⟨?_, ?_, ?_⟩, ?_⟩
    · have hqd : store.statusOf jobId = some .queued := hqd
      simp [Act.dispatched?, Act.promoted?, hqd]
    · simp
    · intro k before after hm
      obtain ⟨rfl, rfl⟩ := hleft k before after hm
      exact hqd
    · intro k before after hm
      obtain ⟨rfl, rfl⟩ := hleft k before after hm
      exact ⟨mem_cons_self, hqd⟩

/-- **The loop**, turn by turn: a job that a claim has left queued is not touched by the turns of
other jobs. -/
theorem turned_promote (jobs : List Job) (turns : ℕ → Turn fromisoformat) (s : State)
    (hjs : (jobs.map Job.key).Nodup) :
    Turned (jobs.map Job.key) s (promote jobs turns s) := by
  induction jobs generalizing turns s with
  | nil => exact ⟨le_rfl, fun k _ status hstat _ => hstat, [], by simp [promote], safe_nil, by simp⟩
  | cons job jobs ih =>
    obtain ⟨hj, hrs⟩ := nodup_cons.mp hjs
    have ht := turned_turn s job.key (turns 0)
    have hlp := ih (fun i => turns (i + 1)) (s.turn job.key (turns 0)) hrs
    obtain ⟨acts, hacts, hsafe, hrsd⟩ := ht.log
    obtain ⟨acts', hacts', hsafe', hrsd'⟩ := hlp.log
    refine ⟨?_, ?_, acts ++ acts', ?_, hsafe.append hsafe', ?_⟩
    · have hfst := ht.count
      have hthen := hlp.count
      simp only [promote, map_cons, length_cons, length_nil] at *
      omega
    · intro k hk
      rw [map_cons, mem_cons, not_or] at hk
      exact (ht.keeps k (by simpa using hk.1)).trans (hlp.keeps k hk.2)
    · rw [promote, hacts', hacts, append_assoc]
    · intro k before after hm
      rcases mem_append.mp hm with hm | hm
      · obtain ⟨hk, hqd⟩ := hrsd k before after hm
        obtain rfl := mem_singleton.mp hk
        exact ⟨mem_cons_self, hlp.keeps _ hj _ hqd rfl⟩
      · obtain ⟨hk, hqd⟩ := hrsd' k before after hm
        exact ⟨mem_cons_of_mem _ hk, hqd⟩

theorem nodup_listQueuedBulk {queued : List Job}
    (h : listQueuedBulk jobs = some queued) : (queued.map Job.key).Nodup := by
  obtain ⟨-, hqd⟩ := ite_none_right_eq_some.mp h
  rw [← some.inj hqd, ((perm_insertionSort _ _).map Job.key).nodup_iff]
  exact jobs.nodup.sublist (filter_sublist.map Job.key)

/-- **A tick** fills the free slots, and does no more. -/
theorem turned_tick {turns : ℕ → Turn fromisoformat}
    (h : s.tick maxConcurrent turns = some s') :
    ∃ jobs : List Key, jobs.length ≤ maxConcurrent - s.activeCountRunning ∧ Turned jobs s s' := by
  obtain ⟨queued, hqd, rfl⟩ := map_eq_some_iff.mp h
  refine ⟨_, ?_, turned_promote _ turns s ((nodup_listQueuedBulk hqd).sublist
    ((take_sublist _ _).map Job.key))⟩
  rw [length_map]
  exact length_take_le _ _

/-! ### Runs -/

structure Inv (maxConcurrent : ℕ) (s : State) : Prop where
  count : s.activeCountRunning ≤ maxConcurrent
  safe : Safe s.log

theorem inv_step {e : Event fromisoformat} (h : Inv maxConcurrent s)
    (hs : step maxConcurrent s e = some s') : Inv maxConcurrent s' := by
  cases e with
  | tick turns =>
    obtain ⟨jobs, hslots, htur⟩ := turned_tick hs
    obtain ⟨acts, hacts, hsafe, -⟩ := htur.log
    refine ⟨?_, hacts ▸ h.safe.append hsafe⟩
    have hfil := htur.count
    have hbef := h.count
    omega
  | complete task =>
    cases hs
    refine ⟨le_trans ?_ h.count, h.safe⟩
    unfold State.activeCountRunning
    rw [countP_map]
    refine countP_mono_left fun t _ hd => ?_
    simp only [Function.comp_apply] at hd
    split_ifs at hd <;> simp_all
  | discard task =>
    cases hs
    exact ⟨le_trans (filter_sublist.countP_le) h.count, h.safe⟩
  | create a job => cases hs; exact ⟨h.count, h.safe⟩
  | transition a jobId fromStatuses toStatus fields => cases hs; exact ⟨h.count, h.safe⟩
  | update r now outcome jobId fields => cases hs; exact ⟨h.count, h.safe⟩
  | cancelIngestRetries a collection => cases hs; exact ⟨h.count, h.safe⟩

def State.init (store : Store) : State := ⟨store, [], 0, []⟩

/-- **The scheduler is safe.** In every state that a run comes to, no more tasks are registered
and not done than there are slots; every job that a tick promoted was dispatched once, while it
was running, and no other was; and a claim that raised left its job queued. It still is when the
tick is over. -/
theorem scheduler_safe (maxConcurrent : ℕ) (store : Store) (events : List (Event fromisoformat))
    (s : State) (hrun : run (step maxConcurrent) (State.init store) events = some s) :
    s.activeCountRunning ≤ maxConcurrent ∧ Safe s.log ∧
      ∀ (turns : ℕ → Turn fromisoformat) s', s.tick maxConcurrent turns = some s' →
        ∀ jobId before after, .claim jobId before after true ∈ s'.log.drop s.log.length →
          s'.store.statusOf jobId = some .queued := by
  have hinv : Inv maxConcurrent s := by
    refine run_invariant (fun s e s' => inv_step) ?_ hrun
    exact ⟨Nat.zero_le _, safe_nil⟩
  refine ⟨hinv.count, hinv.safe, fun turns s' htick => ?_⟩
  obtain ⟨jobs, -, htur⟩ := turned_tick htick
  obtain ⟨acts, hacts, -, hrsd⟩ := htur.log
  intro jobId before after hm
  rw [hacts, drop_left] at hm
  exact (hrsd jobId before after hm).2

def sampleTurn (claim : WriteOutcome) : Turn sampleFromisoformat where
  attempt := { sampleAttempt with outcome₁ := claim }
  raises := false
  stamp := sampleReading
  now := sampleReading.instant
  outcome := .written

def sampleEvents : List (Event sampleFromisoformat) :=
  [.create { sampleAttempt with outcome₁ := .written }
      (sampleJob "a" .queued (.exportJob (.str "out") (.str "tmp"))),
    .tick fun _ => sampleTurn .failedAfterReplace, .tick fun _ => sampleTurn .written]

/-- It is queued after that, and the next tick promotes it. -/
theorem scheduler_safe_secondClaim :
    ∃ s, run (step 1) (State.init ⟨Keyed.empty, .missing⟩) sampleEvents = some s ∧
      s.log.length = 3 ∧ s.activeCountRunning ≤ 1 ∧ Safe s.log := by
  refine ⟨_, rfl, rfl, ?_⟩
  obtain ⟨hcnt, hsafe, -⟩ := scheduler_safe 1 ⟨Keyed.empty, .missing⟩ sampleEvents _ rfl
  exact ⟨hcnt, hsafe⟩

end Scheduler

end ArchonSearch.Jobs
