import ArchonSearch.Descriptions.Lifecycle

/-!
# The turns of the generations

Whatever happens on the event loop, the requests that are accepted take turns. An event of the
lifecycle leaves all places as they are, or lets one task give up its place, once and for all, or
admits a request (`Lifecycle.Moves`); and from what these three do follows what holds of the slot,
the jobs and the collections in flight (`Lifecycle.Sound`).

At most one task is between its grant and its release, the slot passes to the first of those who
wait, nobody waits for a free slot, a collection is in flight exactly while a request of it is
unfinished, and a job is finished once, which leaves it without a place (`orderly_of_reachable`).
As long as a job is unfinished some task can go on, and no task takes more than five steps that end
an await.
-/

namespace ArchonSearch.Descriptions

open Lib Function List Option

variable {ι ρ κ : Type} {n : ℕ} {τ : Type}

/-! ### Jobs -/

def Job.Consistent (granted : Granted) (job : Job κ) : Prop :=
  match job.task with
  | .created _ => job.finished = false ∧ job.released = false
  | .waiting _ => job.finished = false ∧ job.released = false
  | .drafting => job.finished = false ∧ job.released = false ∧ granted = .done
  | .landing => job.finished = false ∧ job.released = true
  | .ended => job.finished = job.released
  | .gone => job.finished = true ∧ job.released = true

def Job.key (job : Job κ) : κ × GenerationKind × Bool × Bool × ℕ :=
  (job.collection, job.kind, job.finished, job.released, job.finishes)

def Job.over (settlement : GenerationSettlement) (job : Job κ) : Job κ :=
  { job with
    finished := true
    settled := job.settled.settle settlement
    released := true
    finishes := job.finishes + 1 }

def TaskState.remaining : TaskState → ℕ
  | .created _ => 5
  | .waiting _ => 4
  | .drafting => 3
  | .landing => 2
  | .ended => 1
  | .gone => 0

/-- The event is a step of the task of the job, which ends an await of it, or its callback. -/
def LifecycleEvent.EndsAwait (i : ι) : LifecycleEvent ι ρ κ n τ → Prop
  | .wake j => j = i
  | .draft j x => j = i ∧ x ≠ .goesOn
  | .land j x => j = i ∧ x ≠ .goesOn
  | .onTaskDone j => j = i
  | _ => False

namespace Lifecycle

def Holds (s : Lifecycle ι ρ κ) (i : ι) : Prop :=
  ∃ job, s.jobs i = some job ∧ job.released = false ∧ s.slot.granted i = .done

def Waits (s : Lifecycle ι ρ κ) (i : ι) : Prop :=
  ∃ job, s.jobs i = some job ∧ job.released = false ∧ s.slot.granted i = .pending

def remaining (s : Lifecycle ι ρ κ) (i : ι) : ℕ := (s.jobs i).elim 0 fun job => job.task.remaining

/-- The task of the job is not waiting for another: it can take a step, or it is at an await that
can be answered. -/
def CanGoOn [DecidableEq ι] [DecidableEq κ] (s : Lifecycle ι ρ κ) (i : ι) : Prop :=
  (∃ s', s.wake i = some s') ∨ (∀ x, ∃ s', s.draft i x = some s') ∨
    (∀ x, ∃ s', s.land i x = some s') ∨ ∃ s', s.onTaskDone i = some s'

/-- What holds of the slot, its queue and the jobs. -/
structure Sound (maxQueued : ℕ) (s : Lifecycle ι ρ κ) : Prop where
  slot : s.slot.Sound
  room : s.slot.waiting.length ≤ maxQueued
  ranked : ∀ entry ∈ s.slot.waiting, entry.arrival < s.slot.arrival ∧
    ∃ job, s.jobs entry.granted = some job ∧ entry.rank = slotRank job.kind
  owned : ∀ i, s.slot.Has i → ∃ job, s.jobs i = some job ∧ job.released = false
  placed : ∀ i job, s.jobs i = some job → job.released = false →
    s.slot.granted i ≠ .cancelled → s.slot.Has i
  consistent : ∀ i job, s.jobs i = some job → job.Consistent (s.slot.granted i)
  once : ∀ i job, s.jobs i = some job → job.finishes = if job.finished then 1 else 0
  inFlight : ∀ c, c ∈ s.inFlight ↔
    ∃ i job, s.jobs i = some job ∧ job.collection = c ∧ job.finished = false
  single : ∀ i j job job', s.jobs i = some job → s.jobs j = some job' →
    job.finished = false → job'.finished = false → job.collection = job'.collection → i = j

/-- **What an event does** to the slot, to the jobs and to the collections in flight. -/
inductive Moves [DecidableEq ι] [DecidableEq κ] (maxQueued : ℕ) (s s' : Lifecycle ι ρ κ) :
    Prop where
  | stays : ∀ granted : ι → Granted, s'.slot = { s.slot with granted := granted } →
    (∀ j, granted j = s.slot.granted j ∨ s.slot.granted j = .pending ∧ granted j = .cancelled) →
    s'.inFlight = s.inFlight →
    (∀ j, (s'.jobs j).map Job.key = (s.jobs j).map Job.key) →
    (∀ j job, s'.jobs j = some job → job.Consistent (granted j)) →
    (∀ j, s'.remaining j ≤ s.remaining j) →
    Moves maxQueued s s'
  | givesUp : ∀ i job job', s.jobs i = some job → job.finished = false →
    s'.slot = s.slot.release i → s'.jobs = update s.jobs i (some job') →
    job'.collection = job.collection → job'.kind = job.kind → job'.released = true →
    (∀ granted, job'.Consistent granted) →
    job'.finishes = (if job'.finished then 1 else 0) →
    s'.inFlight = (if job'.finished then s.inFlight.erase job.collection else s.inFlight) →
    job'.task.remaining ≤ job.task.remaining →
    Moves maxQueued s s'
  | admits : ∀ i collection kind, s.jobs i = none → collection ∉ s.inFlight →
    s.closed = false → s.slot.isFull maxQueued = false →
    s'.slot = s.slot.reserve i (slotRank kind) →
    s'.jobs = update s.jobs i (some { collection := collection, kind := kind }) →
    s'.inFlight = insert collection s.inFlight →
    Moves maxQueued s s'

/-! ### What the three kinds of events keep -/

section Keeps

variable {maxQueued : ℕ} {s s' : Lifecycle ι ρ κ} {i j : ι}

theorem exists_job_of_key (hk : (s'.jobs j).map Job.key = (s.jobs j).map Job.key)
    {job' : Job κ} (hj' : s'.jobs j = some job') :
    ∃ job, s.jobs j = some job ∧ job'.collection = job.collection ∧ job'.kind = job.kind ∧
      job'.finished = job.finished ∧ job'.released = job.released ∧
      job'.finishes = job.finishes := by
  rw [hj'] at hk
  obtain ⟨job, hj, heq⟩ := map_eq_some_iff.mp hk.symm
  simp only [Job.key, Prod.mk.injEq] at heq
  obtain ⟨hcoll, hkd, hfin, hrel, hfini⟩ := heq
  exact ⟨job, hj, hcoll.symm, hkd.symm, hfin.symm, hrel.symm, hfini.symm⟩

/-- **Where all places stay**, everything does. -/
theorem Sound.stays {granted : ι → Granted} (h : s.Sound maxQueued)
    (hsl : s'.slot = { s.slot with granted := granted })
    (hgran : ∀ j, granted j = s.slot.granted j ∨
      s.slot.granted j = .pending ∧ granted j = .cancelled)
    (hflt : s'.inFlight = s.inFlight)
    (hk : ∀ j, (s'.jobs j).map Job.key = (s.jobs j).map Job.key)
    (hconsistent : ∀ j job, s'.jobs j = some job → job.Consistent (granted j)) :
    s'.Sound maxQueued := by
  have hback {j : ι} {job' : Job κ} (hj' : s'.jobs j = some job') :=
    exists_job_of_key (hk j) hj'
  have hfor {j : ι} {job : Job κ} (hjob : s.jobs j = some job) :=
    exists_job_of_key (hk j).symm hjob
  have hhas (j : ι) : s'.slot.Has j ↔ s.slot.Has j := by rw [hsl]; rfl
  constructor
  case slot => rw [hsl]; exact h.slot.cancel hgran
  case room => rw [hsl]; exact h.room
  case ranked =>
    rw [hsl]
    intro entry hent
    obtain ⟨hnum, job, hjob, hrank⟩ := h.ranked entry hent
    obtain ⟨job', hj', -, hkd, -⟩ := hfor hjob
    exact ⟨hnum, job', hj', hkd ▸ hrank⟩
  case owned =>
    intro j hj
    obtain ⟨job, hjob, hopen⟩ := h.owned j ((hhas j).mp hj)
    obtain ⟨job', hj', -, -, -, hrel, -⟩ := hfor hjob
    exact ⟨job', hj', hrel ▸ hopen⟩
  case placed =>
    intro j job' hj' hopen hli
    obtain ⟨job, hjob, -, -, -, hrel, -⟩ := hback hj'
    refine (hhas j).mpr (h.placed j job hjob (hrel ▸ hopen) fun hcand => hli ?_)
    rw [hsl]
    rcases hgran j with heq | ⟨hpen, -⟩
    · exact heq.trans hcand
    · rw [hpen] at hcand
      cases hcand
  case consistent => rw [hsl]; exact hconsistent
  case once =>
    intro j job' hj'
    obtain ⟨job, hjob, -, -, hfin, -, hfini⟩ := hback hj'
    rw [hfini, hfin]
    exact h.once j job hjob
  case inFlight =>
    intro c
    rw [hflt, h.inFlight c]
    constructor
    · rintro ⟨j, job, hjob, rfl, hopen⟩
      obtain ⟨job', hj', hcoll, -, hfin, -⟩ := hfor hjob
      exact ⟨j, job', hj', hcoll.symm, hfin ▸ hopen⟩
    · rintro ⟨j, job', hj', rfl, hopen⟩
      obtain ⟨job, hjob, hcoll, -, hfin, -⟩ := hback hj'
      exact ⟨j, job, hjob, hcoll.symm, hfin ▸ hopen⟩
  case single =>
    intro i j job job' hjob hj' hopen ho' heq
    obtain ⟨first, hfst, hcoll, -, hfin, -⟩ := hback hjob
    obtain ⟨second, hsec, hcoll', -, hfin', -⟩ := hback hj'
    exact h.single i j first second hfst hsec (hfin ▸ hopen) (hfin' ▸ ho') (hcoll ▸ hcoll' ▸ heq)

variable [DecidableEq ι] [DecidableEq κ]

/-- **Who gives up a place** leaves all the others theirs. -/
theorem Sound.givesUp {job job' : Job κ} (h : s.Sound maxQueued) (hjob : s.jobs i = some job)
    (hunf : job.finished = false) (hsl : s'.slot = s.slot.release i)
    (hjs : s'.jobs = update s.jobs i (some job'))
    (hcoll : job'.collection = job.collection) (hk : job'.kind = job.kind)
    (hrel : job'.released = true) (hconsistent : ∀ granted, job'.Consistent granted)
    (hfin : job'.finishes = if job'.finished then 1 else 0)
    (hflt : s'.inFlight =
      if job'.finished then s.inFlight.erase job.collection else s.inFlight) :
    s'.Sound maxQueued := by
  have hself : s'.jobs i = some job' := by rw [hjs, update_self]
  have hoth {j : ι} (hj : j ≠ i) : s'.jobs j = s.jobs j := by
    rw [hjs, update_of_ne hj]
  have hsub := s.slot.sublist_release i
  have hgran {j : ι} (hj : j ≠ i) :
      (s.slot.release i).granted j = s.slot.granted j ∨
        s.slot.granted j = .pending ∧ (s.slot.release i).granted j = .done :=
    GenerationSlot.granted_release hj
  constructor
  case slot => rw [hsl]; exact h.slot.release i
  case room => rw [hsl]; exact hsub.1.length_le.trans h.room
  case ranked =>
    rw [hsl, hsub.2]
    intro entry hent
    obtain ⟨hnum, first, hfst, hrank⟩ := h.ranked entry (hsub.1.subset hent)
    refine ⟨hnum, ?_⟩
    by_cases hi : entry.granted = i
    · rw [hi, hjob] at hfst
      cases hfst
      exact ⟨job', hi ▸ hself, hk ▸ hrank⟩
    · exact ⟨first, (hoth hi).trans hfst, hrank⟩
  case owned =>
    rw [hsl]
    intro j hj
    have hne : j ≠ i := by
      rintro rfl
      exact h.slot.not_has_release j hj
    obtain ⟨first, hfst, hopen⟩ := h.owned j (GenerationSlot.has_of_release hj)
    exact ⟨first, (hoth hne).trans hfst, hopen⟩
  case placed =>
    rw [hsl]
    intro j first hfst hopen hli
    have hne : j ≠ i := by
      rintro rfl
      obtain rfl := some.inj (hself.symm.trans hfst)
      rw [hrel] at hopen
      cases hopen
    have hbef : s.slot.granted j ≠ .cancelled := by
      rcases hgran hne with heq | ⟨hpen, -⟩
      · exact heq ▸ hli
      · rw [hpen]
        decide
    exact h.slot.has_release hne (h.placed j first ((hoth hne).symm.trans hfst) hopen hbef) hbef
  case consistent =>
    rw [hsl]
    intro j first hfst
    by_cases hne : j = i
    · subst hne
      obtain rfl := some.inj (hself.symm.trans hfst)
      exact hconsistent _
    · have hbef := h.consistent j first ((hoth hne).symm.trans hfst)
      rcases hgran hne with heq | ⟨hpen, -⟩
      · rw [heq]
        exact hbef
      · -- a future that is granted the slot was pending, and its task has not drafted
        unfold Job.Consistent at hbef ⊢
        cases htask : first.task <;> simp_all
  case once =>
    intro j first hfst
    by_cases hne : j = i
    · subst hne
      obtain rfl := some.inj (hself.symm.trans hfst)
      exact hfin
    · exact h.once j first ((hoth hne).symm.trans hfst)
  case inFlight =>
    intro c
    have hopenIff : (∃ j first, s'.jobs j = some first ∧ first.collection = c ∧
          first.finished = false) ↔
        (∃ j first, j ≠ i ∧ s.jobs j = some first ∧ first.collection = c ∧
          first.finished = false) ∨ job.collection = c ∧ job'.finished = false := by
      constructor
      · rintro ⟨j, first, hfst, rfl, hopen⟩
        by_cases hne : j = i
        · subst hne
          obtain rfl := some.inj (hself.symm.trans hfst)
          exact Or.inr ⟨hcoll.symm, hopen⟩
        · exact Or.inl ⟨j, first, hne, (hoth hne).symm.trans hfst, rfl, hopen⟩
      · rintro (⟨j, first, hne, hfst, rfl, hopen⟩ | ⟨rfl, hopen⟩)
        · exact ⟨j, first, (hoth hne).trans hfst, rfl, hopen⟩
        · exact ⟨i, job', hself, hcoll, hopen⟩
    rw [hopenIff, hflt]
    cases hfini : job'.finished with
    | true =>
      rw [if_pos rfl, Finset.mem_erase, h.inFlight c]
      constructor
      · rintro ⟨hc, j, first, hfst, rfl, hopen⟩
        refine Or.inl ⟨j, first, ?_, hfst, rfl, hopen⟩
        rintro rfl
        obtain rfl := some.inj (hjob.symm.trans hfst)
        exact hc rfl
      · rintro (⟨j, first, hne, hfst, rfl, hopen⟩ | ⟨-, hopen⟩)
        · exact ⟨fun heq => hne (h.single j i first job hfst hjob hopen hunf heq),
            j, first, hfst, rfl, hopen⟩
        · cases hopen
    | false =>
      rw [if_neg (by decide), h.inFlight c]
      constructor
      · rintro ⟨j, first, hfst, rfl, hopen⟩
        by_cases hne : j = i
        · subst hne
          obtain rfl := some.inj (hjob.symm.trans hfst)
          exact Or.inr ⟨rfl, rfl⟩
        · exact Or.inl ⟨j, first, hne, hfst, rfl, hopen⟩
      · rintro (⟨j, first, -, hfst, rfl, hopen⟩ | ⟨rfl, -⟩)
        · exact ⟨j, first, hfst, rfl, hopen⟩
        · exact ⟨i, job, hjob, rfl, hunf⟩
  case single =>
    have hunfinishedBefore {j : ι} {first : Job κ} (hfst : s'.jobs j = some first)
        (hopen : first.finished = false) :
        ∃ before, s.jobs j = some before ∧ before.finished = false ∧
          before.collection = first.collection := by
      by_cases hne : j = i
      · subst hne
        obtain rfl := some.inj (hself.symm.trans hfst)
        exact ⟨job, hjob, hunf, hcoll.symm⟩
      · exact ⟨first, (hoth hne).symm.trans hfst, hopen, rfl⟩
    intro j k first second hfst hsec hopen ho' heq
    obtain ⟨before, hbef, hopenBefore, hc⟩ := hunfinishedBefore hfst hopen
    obtain ⟨before', hbef', hopenBefore', hc'⟩ := hunfinishedBefore hsec ho'
    exact h.single j k before before' hbef hbef' hopenBefore hopenBefore'
      (hc.trans (heq.trans hc'.symm))

/-- **Who is admitted** gets a place of its own. -/
theorem Sound.admits {collection : κ} {kind : GenerationKind} (h : s.Sound maxQueued)
    (hn : s.jobs i = none) (hw : collection ∉ s.inFlight)
    (hfull : s.slot.isFull maxQueued = false)
    (hsl : s'.slot = s.slot.reserve i (slotRank kind))
    (hjs : s'.jobs = update s.jobs i (some { collection := collection, kind := kind }))
    (hflt : s'.inFlight = insert collection s.inFlight) : s'.Sound maxQueued := by
  have hself : s'.jobs i = some { collection := collection, kind := kind } := by
    rw [hjs, update_self]
  have hne {j : ι} {job : Job κ} (hjob : s.jobs j = some job) : j ≠ i := by
    rintro rfl
    rw [hn] at hjob
    cases hjob
  have hfor {j : ι} {job : Job κ} (hjob : s.jobs j = some job) : s'.jobs j = some job := by
    rw [hjs, update_of_ne (hne hjob), hjob]
  have hback {j : ι} {job : Job κ} (hjob : s'.jobs j = some job) :
      (j = i ∧ job = { collection := collection, kind := kind }) ∨ s.jobs j = some job := by
    by_cases hj : j = i
    · subst hj
      exact Or.inl ⟨rfl, (some.inj (hself.symm.trans hjob)).symm⟩
    · rw [hjs, update_of_ne hj] at hjob
      exact Or.inr hjob
  have hnot : ¬s.slot.Has i := by
    intro hhas
    obtain ⟨job, hjob, -⟩ := h.owned i hhas
    exact hne hjob rfl
  obtain ⟨hli, hgran⟩ := s.slot.granted_reserve i (slotRank kind)
  have hfr {j : ι} {job : Job κ} (hjob : s.jobs j = some job)
      (hopen : job.finished = false) : job.collection ≠ collection := by
    rintro rfl
    exact hw ((h.inFlight _).mpr ⟨j, job, hjob, rfl, hopen⟩)
  constructor
  case slot => rw [hsl]; exact h.slot.reserve hnot _
  case room => rw [hsl]; exact GenerationSlot.length_reserve h.room hfull
  case ranked =>
    rw [hsl]
    intro entry hent
    rcases GenerationSlot.waiting_reserve hent with ⟨hold, hle⟩ | ⟨rfl, hx⟩
    · obtain ⟨hnum, job, hjob, hrank⟩ := h.ranked entry hold
      exact ⟨hnum.trans_le hle, job, hfor hjob, hrank⟩
    · exact ⟨hx, _, hself, rfl⟩
  case owned =>
    rw [hsl]
    intro j hj
    rcases h.slot.has_reserve_iff.mp hj with hj | rfl
    · obtain ⟨job, hjob, hopen⟩ := h.owned j hj
      exact ⟨job, hfor hjob, hopen⟩
    · exact ⟨_, hself, rfl⟩
  case placed =>
    rw [hsl]
    intro j job hjob hopen hcand
    refine h.slot.has_reserve_iff.mpr ?_
    rcases hback hjob with ⟨rfl, -⟩ | hjob
    · exact Or.inr rfl
    · exact Or.inl (h.placed j job hjob hopen (hgran j (hne hjob) ▸ hcand))
  case consistent =>
    rw [hsl]
    intro j job hjob
    rcases hback hjob with ⟨rfl, rfl⟩ | hjob
    · exact ⟨rfl, rfl⟩
    · rw [hgran j (hne hjob)]
      exact h.consistent j job hjob
  case once =>
    intro j job hjob
    rcases hback hjob with ⟨rfl, rfl⟩ | hjob
    · rfl
    · exact h.once j job hjob
  case inFlight =>
    intro c
    rw [hflt, Finset.mem_insert, h.inFlight c]
    constructor
    · rintro (rfl | ⟨j, job, hjob, hc, hopen⟩)
      · exact ⟨i, _, hself, rfl, rfl⟩
      · exact ⟨j, job, hfor hjob, hc, hopen⟩
    · rintro ⟨j, job, hjob, rfl, hopen⟩
      rcases hback hjob with ⟨rfl, rfl⟩ | hjob
      · exact Or.inl rfl
      · exact Or.inr ⟨j, job, hjob, rfl, hopen⟩
  case single =>
    intro j k job job' hjob hj' hopen ho' heq
    rcases hback hjob with ⟨rfl, rfl⟩ | hjob <;> rcases hback hj' with ⟨rfl, rfl⟩ | hj'
    · rfl
    · exact absurd heq.symm (hfr hj' ho')
    · exact absurd heq (hfr hjob hopen)
    · exact h.single j k job job' hjob hj' hopen ho' heq

/-- **Every event keeps what holds.** -/
theorem Sound.of_moves (h : s.Sound maxQueued) (hmvs : Moves maxQueued s s') :
    s'.Sound maxQueued := by
  cases hmvs with
  | stays granted hsl hgran hflt hkey hconsistent hrem =>
    exact h.stays hsl hgran hflt hkey hconsistent
  | givesUp i job job' hj hopen hsl hjs hcoll hk hrel hconsistent hfin
      hflt hrem =>
    exact h.givesUp hj hopen hsl hjs hcoll hk hrel hconsistent hfin hflt
  | admits i collection kind hn hw hcls hfull hsl hjs hflt =>
    exact h.admits hn hw hfull hsl hjs hflt

end Keeps

/-! ### What the events do -/

section Events

variable [DecidableEq ι] [DecidableEq ρ] [DecidableEq κ] {maxQueued : ℕ} {s s' : Lifecycle ι ρ κ}
  {i : ι} {job : Job κ}

omit [DecidableEq ρ] [DecidableEq κ] in
theorem updateJob_of_some (hj : s.jobs i = some job) (f : Job κ → Job κ) :
    s.updateJob i f = { s with jobs := update s.jobs i (some (f job)) } := by
  rw [updateJob, hj]
  rfl

omit [DecidableEq ρ] [DecidableEq κ] in
theorem updateJob_of_none (hj : s.jobs i = none) (f : Job κ → Job κ) : s.updateJob i f = s := by
  rw [updateJob, hj, map_none, ← hj, update_eq_self]

omit [DecidableEq ρ] in
theorem Sound.moves_of_same (h : s.Sound maxQueued) (hsl : s'.slot = s.slot)
    (hflt : s'.inFlight = s.inFlight) (hjs : s'.jobs = s.jobs) : Moves maxQueued s s' := by
  refine .stays s.slot.granted hsl (fun j => Or.inl rfl) hflt (fun j => by rw [hjs])
    (fun j job hj => ?_) fun j => ?_
  · rw [hjs] at hj
    exact h.consistent j job hj
  · rw [remaining, remaining, hjs]

omit [DecidableEq ρ] in
theorem Sound.moves_updateJob (h : s.Sound maxQueued) (f : Job κ → Job κ)
    (hk : ∀ job, s.jobs i = some job → (f job).key = job.key)
    (hconsistent : ∀ job, s.jobs i = some job → (f job).Consistent (s.slot.granted i))
    (hrem : ∀ job, s.jobs i = some job → (f job).task.remaining ≤ job.task.remaining) :
    Moves maxQueued s (s.updateJob i f) := by
  cases hjob : s.jobs i with
  | none =>
    rw [updateJob_of_none hjob]
    exact h.moves_of_same rfl rfl rfl
  | some job =>
    rw [updateJob_of_some hjob]
    refine .stays s.slot.granted rfl (fun j => Or.inl rfl) rfl (fun j => ?_)
      (fun j first hfst => ?_) fun j => ?_
    · by_cases hj : j = i
      · subst hj
        simp [hjob, hk job hjob]
      · simp [update_of_ne hj]
    · by_cases hj : j = i
      · subst hj
        simp only [update_self, some.injEq] at hfst
        exact hfst ▸ hconsistent job hjob
      · simp only [update_of_ne hj] at hfst
        exact h.consistent j first hfst
    · by_cases hj : j = i
      · subst hj
        simpa [remaining, hjob] using hrem job hjob
      · simp [remaining, update_of_ne hj]

omit [DecidableEq ρ] [DecidableEq κ] in
theorem release_of_some (hj : s.jobs i = some job) :
    s.release i = { s with
      slot := s.slot.release i
      jobs := update s.jobs i (some { job with released := true }) } := by
  rw [Lifecycle.release, updateJob_of_some hj]

omit [DecidableEq ρ] in
/-- **An unfinished job is finished** with its place. -/
theorem finish_of_unfinished (hj : s.jobs i = some job) (hopen : job.finished = false)
    (settlement : GenerationSettlement) :
    (s.finish i settlement).slot = s.slot.release i ∧
      (s.finish i settlement).inFlight = s.inFlight.erase job.collection ∧
      (s.finish i settlement).jobs = update s.jobs i (some (job.over settlement)) := by
  have hrel := release_of_some (s := { s with inFlight := s.inFlight.erase job.collection }) hj
  simp only [finish, hj, hopen, Bool.false_eq_true, if_false, hrel]
  refine ⟨rfl, rfl, ?_⟩
  simp [updateJob, Job.over]

omit [DecidableEq ι] [DecidableEq ρ] [DecidableEq κ] in
/-- The task of an unfinished job has a step to take. -/
theorem Sound.remaining_pos (h : s.Sound maxQueued) (hj : s.jobs i = some job)
    (hopen : job.finished = false) : 1 ≤ job.task.remaining := by
  have hconsistent := h.consistent i job hj
  cases htask : job.task with
  | gone =>
    rw [Job.Consistent, htask, hopen] at hconsistent
    cases hconsistent.1
  | _ => simp [TaskState.remaining]

section
omit [DecidableEq ρ]

theorem Sound.moves_finish (h : s.Sound maxQueued) (hj : s.jobs i = some job)
    (hopen : job.finished = false) (settlement : GenerationSettlement) :
    Moves maxQueued s ((s.finish i settlement).endTask i) := by
  obtain ⟨hsl, hflt, hjs⟩ := finish_of_unfinished hj hopen settlement
  have hself : (s.finish i settlement).jobs i = some (job.over settlement) := by
    rw [hjs, update_self]
  have honce := h.once i job hj
  rw [hopen, if_neg (by decide)] at honce
  rw [endTask, updateJob_of_some hself]
  refine .givesUp i job { job.over settlement with task := .ended } hj hopen hsl ?_ rfl rfl rfl
    (fun _ => rfl) ?_ hflt (h.remaining_pos hj hopen)
  · simp [hjs]
  · simp [Job.over, honce]

/-- A draft ends by releasing the slot, and once more by finishing the job. -/
theorem Sound.moves_endDraft (h : s.Sound maxQueued) (hj : s.jobs i = some job)
    (hopen : job.finished = false) (settlement : GenerationSettlement) :
    Moves maxQueued s (s.endDraft i settlement) := by
  have hrel := release_of_some hj
  have hnow : (s.release i).jobs i = some { job with released := true } := by
    rw [hrel]
    exact update_self ..
  obtain ⟨hsl, hflt, hjs⟩ := finish_of_unfinished hnow hopen settlement
  have hjs : ((s.release i).finish i settlement).jobs =
      update s.jobs i (some (job.over settlement)) := by
    rw [hjs, hrel]
    exact update_idem ..
  -- the second release finds no place
  have hsl : ((s.release i).finish i settlement).slot = s.slot.release i := by
    rw [hsl, hrel]
    exact GenerationSlot.release_of_not_has (h.slot.not_has_release i)
  have hself : ((s.release i).finish i settlement).jobs i = some (job.over settlement) := by
    rw [hjs, update_self]
  have honce := h.once i job hj
  rw [hopen, if_neg (by decide)] at honce
  rw [endDraft, endTask, updateJob_of_some hself]
  refine .givesUp i job { job.over settlement with task := .ended } hj hopen hsl ?_ rfl rfl rfl
    (fun _ => rfl) ?_ ?_ (h.remaining_pos hj hopen)
  · simp [hjs]
  · simp [Job.over, honce]
  · refine hflt.trans ?_
    rfl

/-- A draft that is to be landed releases the slot. -/
theorem Sound.moves_landing (h : s.Sound maxQueued) (hj : s.jobs i = some job)
    (hopen : job.finished = false) (htask : job.task = .drafting) :
    Moves maxQueued s ((s.release i).updateJob i fun job => { job with task := .landing }) := by
  have hrel := release_of_some hj
  have hnow : (s.release i).jobs i = some { job with released := true } := by
    rw [hrel]
    exact update_self ..
  have honce := h.once i job hj
  rw [updateJob_of_some hnow, hrel]
  refine .givesUp i job { job with released := true, task := .landing } hj hopen rfl ?_ rfl rfl
    rfl (fun _ => ⟨hopen, rfl⟩) ?_ ?_ ?_
  · exact update_idem ..
  · simp [honce, hopen]
  · simp [hopen]
  · simp [htask, TaskState.remaining]

/-- The callback finishes what the task has left unfinished. -/
theorem Sound.moves_onTaskDone (h : s.Sound maxQueued) (hd : s.onTaskDone i = some s') :
    Moves maxQueued s s' := by
  obtain ⟨htask, rfl⟩ := of_guard hd
  obtain ⟨job, hj, he⟩ := map_eq_some_iff.mp htask
  have heq : job.finished = job.released := by
    have hconsistent := h.consistent i job hj
    rwa [Job.Consistent, he] at hconsistent
  have hmov := updateJob_of_some hj fun job => { job with task := .gone }
  have hnow : (s.updateJob i fun job => { job with task := .gone }).jobs i =
      some { job with task := .gone } := by
    rw [hmov]
    exact update_self ..
  have honce := h.once i job hj
  cases hfin : job.finished with
  | true =>
    have hidle : (s.updateJob i fun job => { job with task := .gone }).finish i shutdown =
        s.updateJob i fun job => { job with task := .gone } := by
      simp [finish, hnow, hfin]
    rw [hidle]
    refine h.moves_updateJob _ (fun _ _ => rfl) (fun first hfst => ?_) fun _ _ => Nat.zero_le _
    obtain rfl := some.inj (hj.symm.trans hfst)
    exact ⟨hfin, heq ▸ hfin⟩
  | false =>
    rw [hfin, if_neg (by decide)] at honce
    obtain ⟨hsl, hflt, hjs⟩ := finish_of_unfinished hnow hfin shutdown
    refine .givesUp i job (Job.over shutdown { job with task := .gone }) hj hfin ?_ ?_
      rfl rfl
      rfl (fun _ => ⟨rfl, rfl⟩) ?_ ?_ (Nat.zero_le _)
    · rw [hsl, hmov]
    · rw [hjs, hmov]
      exact update_idem ..
    · simp [Job.over, honce]
    · rw [hflt, hmov]
      rfl

end

omit [DecidableEq ι] [DecidableEq ρ] [DecidableEq κ] in
theorem granted_cancelTasks (s : Lifecycle ι ρ κ) (which : ι → Bool) (j : ι) :
    (s.cancelTasks which).slot.granted j = s.slot.granted j ∨
      s.slot.granted j = .pending ∧ (s.cancelTasks which).slot.granted j = .cancelled := by
  simp only [cancelTasks]
  split_ifs with hwhich
  · unfold grantedAfter
    split
    · split
      · cases hgran : s.slot.granted j
        · exact Or.inr ⟨rfl, rfl⟩
        · exact Or.inl rfl
        · exact Or.inl rfl
      · exact Or.inl rfl
    · exact Or.inl rfl
  · exact Or.inl rfl

omit [DecidableEq ι] [DecidableEq ρ] [DecidableEq κ] in
theorem remaining_cancelled (granted : Granted) (job : Job κ) :
    (cancelled granted job).task.remaining = job.task.remaining := by
  unfold cancelled
  cases htask : job.task <;> simp [htask, TaskState.remaining]

omit [DecidableEq ρ] in
/-- **A cancellation** leaves all places as they are. -/
theorem Sound.moves_cancelTasks (h : s.Sound maxQueued) (which : ι → Bool) :
    Moves maxQueued s (s.cancelTasks which) := by
  refine .stays (s.cancelTasks which).slot.granted rfl (s.granted_cancelTasks which) rfl
    (fun j => ?_) (fun j job' hj' => ?_) fun j => ?_
  · simp only [cancelTasks]
    split_ifs with hwhich
    · cases hj : s.jobs j with
      | none => rfl
      | some job =>
        simp only [map_some, cancelled]
        cases job.task <;> rfl
    · rfl
  · simp only [cancelTasks] at hj' ⊢
    split_ifs at hj' ⊢ with hwhich
    · obtain ⟨job, hj, rfl⟩ := map_eq_some_iff.mp hj'
      have hconsistent := h.consistent j job hj
      simp only [Job.Consistent, cancelled, grantedAfter, hj] at hconsistent ⊢
      cases htask : job.task <;> simp only [htask] at hconsistent ⊢ <;> exact hconsistent
    · exact h.consistent j job' hj'
  · simp only [remaining, cancelTasks]
    split_ifs with hwhich
    · cases hj : s.jobs j with
      | none => exact le_rfl
      | some job => exact (remaining_cancelled (s.slot.granted j) job).le
    · exact le_rfl

variable {collection : κ}

omit [DecidableEq ι] [DecidableEq ρ] in
theorem not_mem_of_refusedWithoutReading
    (h : s.refusedWithoutReading collection = none) :
    s.closed = false ∧ collection ∉ s.inFlight := by
  unfold refusedWithoutReading at h
  split_ifs at h with hcls hm
  exact ⟨by simpa using hcls, hm⟩

/-- **A request** is answered, or admitted. -/
theorem Sound.moves_requestRead {r : ρ} {kind : GenerationKind}
    {answer : Except Raised (Option (CollectionMeta n τ))} (h : s.Sound maxQueued)
    (hn : s.jobs i = none) :
    Moves maxQueued s (s.requestRead maxQueued r i collection kind answer) := by
  unfold requestRead
  split
  · exact h.moves_of_same rfl rfl rfl
  · exact h.moves_of_same rfl rfl rfl
  · split
    · exact h.moves_of_same rfl rfl rfl
    rename_i hfr
    obtain ⟨hcls, hw⟩ := not_mem_of_refusedWithoutReading hfr
    split
    · exact h.moves_of_same rfl rfl rfl
    · split
      · exact h.moves_of_same rfl rfl rfl
      · unfold admitJob
        split_ifs with hfull
        · exact h.moves_of_same rfl rfl rfl
        · exact .admits i collection kind hn hw hcls (by simpa using hfull) rfl rfl rfl

/-- What a task does when an await of it has ended. -/
inductive Went (s : Lifecycle ι ρ κ) (i : ι) (job : Job κ) : Lifecycle ι ρ κ → Prop where
  | moves (task : TaskState) (hlt : task.remaining < job.task.remaining)
      (hconsistent : job.Consistent (s.slot.granted i) →
        ({ job with task := task } : Job κ).Consistent (s.slot.granted i)) :
      Went s i job (s.updateJob i fun job => { job with task := task })
  | endDraft (settlement : GenerationSettlement)
      (hlt : TaskState.ended.remaining < job.task.remaining)
      (hopen : job.Consistent (s.slot.granted i) → job.finished = false) :
      Went s i job (s.endDraft i settlement)
  | landing (htask : job.task = .drafting) :
      Went s i job ((s.release i).updateJob i fun job => { job with task := .landing })
  | finishes (settlement : GenerationSettlement) (htask : job.task = .landing) :
      Went s i job ((s.finish i settlement).endTask i)

section
omit [DecidableEq ρ]

/-- **A task that takes a step at its future** starts to wait or to draft, or ends. -/
theorem went_of_wake (hwake : s.wake i = some s') :
    ∃ job, s.jobs i = some job ∧ s.Went i job s' := by
  have hplace {job : Job κ}
      (htask : (∃ b, job.task = .created b) ∨ ∃ b, job.task = .waiting b)
      (hconsistent : job.Consistent (s.slot.granted i)) :
      job.finished = false ∧ job.released = false := by
    rcases htask with ⟨b, htask⟩ | ⟨b, htask⟩ <;> rwa [Job.Consistent, htask] at hconsistent
  unfold wake at hwake
  split at hwake
  · rename_i htask
    obtain ⟨job, hj, htask⟩ := map_eq_some_iff.mp htask
    cases hwake
    refine ⟨job, hj, .moves .ended (by rw [htask]; decide) fun hconsistent => ?_⟩
    obtain ⟨hopen, hunr⟩ := hplace (Or.inl ⟨_, htask⟩) hconsistent
    exact hopen.trans hunr.symm
  · rename_i htask
    obtain ⟨job, hj, htask⟩ := map_eq_some_iff.mp htask
    have hplace := hplace (Or.inl ⟨_, htask⟩)
    refine ⟨job, hj, ?_⟩
    split at hwake
    · rename_i hgran
      exact some.inj hwake ▸ .moves .drafting (by rw [htask]; decide) fun hconsistent =>
        ⟨(hplace hconsistent).1, (hplace hconsistent).2, hgran⟩
    · exact some.inj hwake ▸ .moves (.waiting false) (by rw [htask]; decide) hplace
    · exact some.inj hwake ▸ .endDraft _ (by rw [htask]; decide) fun hconsistent =>
        (hplace hconsistent).1
  · rename_i htask
    obtain ⟨job, hj, htask⟩ := map_eq_some_iff.mp htask
    have hplace := hplace (Or.inr ⟨_, htask⟩)
    have he := Went.endDraft (s := s) shutdown (show 1 < job.task.remaining by simp [htask,
      TaskState.remaining]) fun hconsistent => (hplace hconsistent).1
    refine ⟨job, hj, ?_⟩
    split at hwake
    · cases hwake
    · rename_i hgran _
      exact some.inj hwake ▸ .moves .drafting (by rw [htask]; decide) fun hconsistent =>
        ⟨(hplace hconsistent).1, (hplace hconsistent).2, hgran⟩
    · exact some.inj hwake ▸ he
    · exact some.inj hwake ▸ he
  · cases hwake

/-- **A task that goes on with its draft** keeps the slot, or releases it. -/
theorem went_of_draft {x : DraftStep} (hdraft : s.draft i x = some s') :
    x = .goesOn ∧ s' = s ∨ ∃ job, s.jobs i = some job ∧ s.Went i job s' := by
  unfold draft at hdraft
  split_ifs at hdraft with htask
  obtain ⟨job, hj, htask⟩ := map_eq_some_iff.mp htask
  have he (settlement : GenerationSettlement) : s.Went i job (s.endDraft i settlement) :=
    .endDraft settlement (by rw [htask]; decide) fun hconsistent => by
      rw [Job.Consistent, htask] at hconsistent
      exact hconsistent.1
  cases x with
  | goesOn => exact Or.inl ⟨rfl, (some.inj hdraft).symm⟩
  | settles settlement => exact Or.inr ⟨job, hj, some.inj hdraft ▸ he settlement⟩
  | drafts => exact Or.inr ⟨job, hj, some.inj hdraft ▸ .landing htask⟩
  | raises e => exact Or.inr ⟨job, hj, some.inj hdraft ▸ he _⟩

/-- **A task that goes on with its landing** has no place, and may finish. -/
theorem went_of_land {x : LandStep} (hland : s.land i x = some s') :
    x = .goesOn ∧ s' = s ∨ ∃ job, s.jobs i = some job ∧ s.Went i job s' := by
  unfold land at hland
  split_ifs at hland with htask
  obtain ⟨job, hj, htask⟩ := map_eq_some_iff.mp htask
  cases x with
  | goesOn => exact Or.inl ⟨rfl, (some.inj hland).symm⟩
  | settles settlement =>
    exact Or.inr ⟨job, hj, some.inj hland ▸ .finishes settlement htask⟩
  | raises e => exact Or.inr ⟨job, hj, some.inj hland ▸ .finishes _ htask⟩

theorem Sound.moves_of_went (h : s.Sound maxQueued) (hj : s.jobs i = some job)
    (hwent : s.Went i job s') : Moves maxQueued s s' := by
  have hconsistent := h.consistent i job hj
  cases hwent with
  | moves task hlt hkp =>
    have heq {first : Job κ} (hfst : s.jobs i = some first) : first = job :=
      some.inj (hfst.symm.trans hj)
    refine h.moves_updateJob _ (fun _ _ => rfl) (fun first hfst => ?_) fun first hfst => ?_
    · exact heq hfst ▸ hkp hconsistent
    · exact heq hfst ▸ hlt.le
  | endDraft settlement hlt hopen => exact h.moves_endDraft hj (hopen hconsistent) settlement
  | landing htask =>
    rw [Job.Consistent, htask] at hconsistent
    exact h.moves_landing hj hconsistent.1 htask
  | finishes settlement htask =>
    rw [Job.Consistent, htask] at hconsistent
    exact h.moves_finish hj hconsistent.1 settlement

end

/-- **What an event does.** -/
theorem Sound.moves {e : LifecycleEvent ι ρ κ n τ} (h : s.Sound maxQueued)
    (hs : s.step maxQueued e = some s') : Moves maxQueued s s' := by
  cases e with
  | request r collection kind =>
    simp only [step] at hs
    split at hs
    · cases hs
      unfold request
      split <;> exact h.moves_of_same rfl rfl rfl
    · cases hs
  | read r answer i =>
    simp only [step] at hs
    split at hs
    · rename_i hn
      exact some.inj hs ▸ h.moves_requestRead hn
    · cases hs
  | wake i =>
    obtain ⟨job, hj, hwent⟩ := went_of_wake hs
    exact h.moves_of_went hj hwent
  | draft i x =>
    rcases went_of_draft hs with ⟨-, rfl⟩ | ⟨job, hj, hwent⟩
    · exact h.moves_of_same rfl rfl rfl
    · exact h.moves_of_went hj hwent
  | land i x =>
    rcases went_of_land hs with ⟨-, rfl⟩ | ⟨job, hj, hwent⟩
    · exact h.moves_of_same rfl rfl rfl
    · exact h.moves_of_went hj hwent
  | onTaskDone i => exact h.moves_onTaskDone hs
  | cancelTask i => exact some.inj hs ▸ h.moves_cancelTasks _
  | cancelTicket i =>
    refine some.inj hs ▸ h.moves_updateJob _ (fun _ _ => rfl) (fun job hj => ?_) fun _ _ => le_rfl
    exact h.consistent i job hj
  | close => exact some.inj hs ▸ h.moves_of_same rfl rfl rfl
  | drain =>
    cases hs
    -- what is closed is of no account to what moves
    cases h.moves_cancelTasks fun _ => true with
    | stays granted hsl hgran hflt hkey hconsistent hrem =>
      exact .stays granted hsl hgran hflt hkey hconsistent hrem
    | givesUp i job job' hj hopen hsl hjs hc hk hr hcons hf hfl hrem =>
      exact .givesUp i job job' hj hopen hsl hjs hc hk hr hcons hf hfl hrem
    | admits i collection kind hn hw hopen hfull hsl hjs hfl =>
      exact .admits i collection kind hn hw hopen hfull hsl hjs hfl

end Events

/-! ### What follows from it -/

section Follows

variable {maxQueued : ℕ} {s s' : Lifecycle ι ρ κ} {i j : ι} {job : Job κ}

theorem Sound.init (maxQueued : ℕ) : ({} : Lifecycle ι ρ κ).Sound maxQueued where
  slot := ⟨.nil, .nil, fun _ => rfl, fun _ hn => (by cases hn), by simp⟩
  room := Nat.zero_le _
  ranked := by simp
  owned := by simp [GenerationSlot.Has]
  placed := fun i job hj => (by cases hj)
  consistent := fun i job hj => (by cases hj)
  once := fun i job hj => (by cases hj)
  inFlight := by simp
  single := fun i j job job' hj => (by cases hj)

theorem Sound.released_of_finished (h : s.Sound maxQueued) (hj : s.jobs i = some job)
    (hfin : job.finished = true) : job.released = true := by
  have hconsistent := h.consistent i job hj
  unfold Job.Consistent at hconsistent
  split at hconsistent <;> simp_all

theorem Sound.not_has_of_released (h : s.Sound maxQueued) (hj : s.jobs i = some job)
    (hrel : job.released = true) : ¬s.slot.Has i := by
  intro hhas
  obtain ⟨first, hfst, hopen⟩ := h.owned i hhas
  obtain rfl := some.inj (hj.symm.trans hfst)
  rw [hrel] at hopen
  cases hopen

/-- **Who is between its grant and its release** is the holder of the slot. -/
theorem Sound.holds_iff (h : s.Sound maxQueued) : s.Holds i ↔ s.slot.holder = some i := by
  constructor
  · rintro ⟨job, hj, hopen, hd⟩
    rcases h.placed i job hj hopen (by simp [hd]) with hho | ⟨entry, hent, rfl⟩
    · exact hho
    · exact absurd hd (h.slot.waits entry hent)
  · intro hho
    obtain ⟨job, hj, hopen⟩ := h.owned i (Or.inl hho)
    exact ⟨job, hj, hopen, h.slot.done i hho⟩

/-- **Who waits** is in the queue, and its future is pending. -/
theorem Sound.waits_iff (h : s.Sound maxQueued) :
    s.Waits i ↔ s.slot.granted i = .pending ∧ ∃ entry ∈ s.slot.waiting, entry.granted = i := by
  constructor
  · rintro ⟨job, hj, hopen, hpen⟩
    refine ⟨hpen, ?_⟩
    rcases h.placed i job hj hopen (by simp [hpen]) with hho | hwt
    · rw [h.slot.done i hho] at hpen
      cases hpen
    · exact hwt
  · rintro ⟨hpen, hwt⟩
    obtain ⟨job, hj, hopen⟩ := h.owned i (Or.inr hwt)
    exact ⟨job, hj, hopen, hpen⟩

variable [DecidableEq ι] [DecidableEq κ]

/-- **The slot passes** to a request that finds it free, or to the first of those who wait. -/
theorem Sound.passes (h : s.Sound maxQueued) (hmvs : Moves maxQueued s s')
    (hho : s'.slot.holder = some j) (hnot : s.slot.holder ≠ some j) :
    (s.slot.holder = none ∧ s.jobs j = none) ∨
      ∃ entry ∈ s.slot.waiting, entry.granted = j ∧ s.slot.granted j = .pending ∧
        ∀ entry' ∈ s.slot.waiting, s.slot.granted entry'.granted = .pending → entry.Le entry' := by
  cases hmvs with
  | stays granted hsl =>
    rw [hsl] at hho
    exact absurd hho hnot
  | givesUp i job job' hj hopen hsl =>
    rw [hsl] at hho
    exact Or.inr (h.slot.passes hho hnot)
  | admits i collection kind hn hw hcls hfull hsl =>
    rw [hsl] at hho
    obtain ⟨hfr, rfl⟩ := GenerationSlot.holder_reserve hho hnot
    exact Or.inl ⟨hfr, hn⟩

theorem Moves.remaining_le (hmvs : Moves maxQueued s s') (hjob : s.jobs j = some job) :
    s'.remaining j ≤ s.remaining j := by
  cases hmvs with
  | stays granted hsl hgran hflt hkey hconsistent hrem => exact hrem j
  | givesUp i first job' hfst hopen hsl hjs hc hk hr hcons hf hfl hrem =>
    by_cases hj : j = i
    · subst hj
      simpa [remaining, hjs, hfst] using hrem
    · simp [remaining, hjs, update_of_ne hj]
  | admits i collection kind hn hw hcls hfull hsl hjs =>
    have hne : j ≠ i := by
      rintro rfl
      rw [hn] at hjob
      cases hjob
    simp [remaining, hjs, update_of_ne hne]

theorem Moves.jobs_none (hmvs : Moves maxQueued s s') (hcls : s.closed = true)
    (hn : s.jobs j = none) : s'.jobs j = none := by
  cases hmvs with
  | stays granted hsl hgran hflt hk =>
    have heq := hk j
    rw [hn] at heq
    simpa using heq
  | givesUp i first job' hfst hopen hsl hjs =>
    have hne : j ≠ i := by
      rintro rfl
      rw [hn] at hfst
      cases hfst
    rw [hjs, update_of_ne hne, hn]
  | admits i collection kind hfr hw hopen =>
    rw [hcls] at hopen
    cases hopen

/-! ### Tasks go on -/

omit [DecidableEq ι] [DecidableEq κ] in
theorem remaining_of_some (hj : s.jobs i = some job) :
    s.remaining i = job.task.remaining := by
  rw [remaining, hj, elim_some]

omit [DecidableEq κ] in
theorem remaining_updateJob_task (s : Lifecycle ι ρ κ) (i : ι) (t : TaskState) :
    (s.updateJob i fun job => { job with task := t }).remaining i ≤ t.remaining := by
  cases hj : s.jobs i with
  | none => simp [remaining, updateJob, hj]
  | some job => simp [remaining, updateJob, hj]

theorem remaining_finish (s : Lifecycle ι ρ κ) (i : ι) (settlement : GenerationSettlement) :
    (s.finish i settlement).remaining i = s.remaining i := by
  cases hj : s.jobs i with
  | none => simp [finish, hj]
  | some job =>
    cases hopen : job.finished with
    | true => simp [finish, hj, hopen]
    | false =>
      obtain ⟨-, -, hjs⟩ := finish_of_unfinished hj hopen settlement
      simp [remaining, hjs, hj, Job.over]

theorem Went.remaining_lt (hj : s.jobs i = some job) (hwent : s.Went i job s') :
    s'.remaining i < s.remaining i := by
  rw [remaining_of_some hj]
  cases hwent with
  | moves task hlt => exact (s.remaining_updateJob_task i task).trans_lt hlt
  | endDraft settlement hlt => exact (remaining_updateJob_task _ i .ended).trans_lt hlt
  | landing htask =>
    exact (remaining_updateJob_task _ i .landing).trans_lt (by rw [htask]; decide)
  | finishes settlement htask =>
    exact (remaining_updateJob_task _ i .ended).trans_lt (by rw [htask]; decide)

/-- **An await that ends** is one step of the task. -/
theorem remaining_lt_of_endsAwait [DecidableEq ρ] {e : LifecycleEvent ι ρ κ n τ}
    (he : e.EndsAwait i) (hs : s.step maxQueued e = some s') :
    s'.remaining i < s.remaining i := by
  cases e with
  | wake k =>
    obtain rfl : k = i := he
    obtain ⟨job, hj, hwent⟩ := went_of_wake hs
    exact hwent.remaining_lt hj
  | draft k x =>
    obtain ⟨rfl, hx⟩ := he
    obtain ⟨job, hj, hwent⟩ := (went_of_draft hs).resolve_left fun h => hx h.1
    exact hwent.remaining_lt hj
  | land k x =>
    obtain ⟨rfl, hx⟩ := he
    obtain ⟨job, hj, hwent⟩ := (went_of_land hs).resolve_left fun h => hx h.1
    exact hwent.remaining_lt hj
  | onTaskDone k =>
    obtain rfl : k = i := he
    simp only [step, onTaskDone] at hs
    split_ifs at hs with htask
    obtain ⟨job, hj, htask⟩ := map_eq_some_iff.mp htask
    rw [remaining_of_some hj, htask]
    cases hs
    rw [remaining_finish]
    exact (s.remaining_updateJob_task k _).trans_lt (by decide)
  | _ => exact absurd he id

/-- A task that does not wait for the slot can go on. -/
theorem Sound.canGoOn_of_unfinished (h : s.Sound maxQueued) (hj : s.jobs i = some job)
    (hopen : job.finished = false) (hwt : ¬s.Waits i) : s.CanGoOn i := by
  have hconsistent := h.consistent i job hj
  have htaskOf : (s.jobs i).map Job.task = some job.task := by rw [hj, map_some]
  cases htask : job.task with
  | created mustCancel =>
    rw [htask] at htaskOf
    refine Or.inl ?_
    unfold wake
    cases mustCancel with
    | true => exact ⟨_, by rw [htaskOf]⟩
    | false =>
      cases s.slot.granted i <;> exact ⟨_, by rw [htaskOf]⟩
  | waiting mustCancel =>
    rw [htask] at htaskOf
    rw [Job.Consistent, htask] at hconsistent
    refine Or.inl ?_
    unfold wake
    cases hgran : s.slot.granted i with
    | pending => exact absurd ⟨job, hj, hconsistent.2, hgran⟩ hwt
    | done => cases mustCancel <;> exact ⟨_, by rw [htaskOf]⟩
    | cancelled => exact ⟨_, by rw [htaskOf]⟩
  | drafting =>
    rw [htask] at htaskOf
    refine Or.inr (Or.inl fun x => ?_)
    cases x <;> exact ⟨_, if_pos htaskOf⟩
  | landing =>
    rw [htask] at htaskOf
    refine Or.inr (Or.inr (Or.inl fun x => ?_))
    cases x <;> exact ⟨_, if_pos htaskOf⟩
  | ended =>
    rw [htask] at htaskOf
    exact Or.inr (Or.inr (Or.inr ⟨_, by rw [onTaskDone, if_pos htaskOf]⟩))
  | gone =>
    rw [Job.Consistent, htask, hopen] at hconsistent
    cases hconsistent.1

/-- **As long as a job is unfinished**, some task can go on: its own, or that of the holder for
which it waits. -/
theorem Sound.exists_canGoOn (h : s.Sound maxQueued) (hj : s.jobs i = some job)
    (hopen : job.finished = false) : ∃ k, s.CanGoOn k := by
  by_cases hwt : s.Waits i
  · obtain ⟨-, entry, hent, -⟩ := h.waits_iff.mp hwt
    cases hho : s.slot.holder with
    | none => exact absurd (h.slot.idle hho ▸ hent) not_mem_nil
    | some k =>
      obtain ⟨first, hfst, hunr⟩ := h.owned k (Or.inl hho)
      refine ⟨k, h.canGoOn_of_unfinished hfst ?_ fun hwt => ?_⟩
      · by_contra hfin
        have hrel := h.released_of_finished hfst (by simpa using hfin)
        rw [hunr] at hrel
        cases hrel
      · obtain ⟨hpen, -⟩ := h.waits_iff.mp hwt
        rw [h.slot.done k hho] at hpen
        cases hpen
  · exact ⟨i, h.canGoOn_of_unfinished hj hopen hwt⟩

end Follows

theorem closed_step [DecidableEq ι] [DecidableEq ρ] [DecidableEq κ] {maxQueued : ℕ}
    {s s' : Lifecycle ι ρ κ} {e : LifecycleEvent ι ρ κ n τ}
    (hs : s.step maxQueued e = some s') (hcls : s.closed = true) : s'.closed = true := by
  have hfin (s : Lifecycle ι ρ κ) (i : ι) (settlement : GenerationSettlement) :
      (s.finish i settlement).closed = s.closed := by
    unfold finish
    split
    · rfl
    · split_ifs <;> rfl
  have hwent {i : ι} {job : Job κ} (hwent : s.Went i job s') : s'.closed = true := by
    cases hwent with
    | moves | landing => exact hcls
    | endDraft | finishes => exact (hfin _ _ _).trans hcls
  cases e with
  | request r collection kind =>
    simp only [step, request] at hs
    split at hs
    · split at hs <;> exact some.inj hs ▸ hcls
    · cases hs
  | read r answer i =>
    simp only [step, requestRead, refusedWithoutReading, hcls, if_true] at hs
    split at hs
    · split at hs <;> exact some.inj hs ▸ hcls
    · cases hs
  | wake i =>
    obtain ⟨job, -, hgone⟩ := went_of_wake hs
    exact hwent hgone
  | draft i x =>
    rcases went_of_draft hs with ⟨-, rfl⟩ | ⟨job, -, hgone⟩
    · exact hcls
    · exact hwent hgone
  | land i x =>
    rcases went_of_land hs with ⟨-, rfl⟩ | ⟨job, -, hgone⟩
    · exact hcls
    · exact hwent hgone
  | onTaskDone i =>
    simp only [step, onTaskDone] at hs
    split_ifs at hs
    exact some.inj hs ▸ (hfin _ _ _).trans hcls
  | cancelTask i => exact some.inj hs ▸ hcls
  | cancelTicket i => exact some.inj hs ▸ hcls
  | close => exact some.inj hs ▸ rfl
  | drain => exact some.inj hs ▸ rfl

end Lifecycle

/-! ### The turns -/

/-- What is wanted of the slot, the queue and the jobs of a state, and of what an event may do to
them. -/
structure Lifecycle.Orderly [DecidableEq ι] [DecidableEq ρ] [DecidableEq κ] (n : ℕ) (τ : Type)
    (maxQueued : ℕ) (s : Lifecycle ι ρ κ) : Prop where
  exclusive : ∀ i j, s.Holds i → s.Holds j → i = j
  bounded : s.slot.waiting.length ≤ maxQueued ∧ (s.slot.waiting.map Waiter.granted).Nodup ∧
    ∀ i, s.Waits i → ∃ entry ∈ s.slot.waiting, entry.granted = i
  ranked : ∀ entry ∈ s.slot.waiting, entry.arrival < s.slot.arrival ∧
    ∃ job, s.jobs entry.granted = some job ∧ entry.rank = slotRank job.kind
  passes : ∀ (e : LifecycleEvent ι ρ κ n τ) s' j, s.step maxQueued e = some s' → s'.Holds j →
    ¬s.Holds j → (s.jobs j = none ∧ ∀ i, ¬s.Waits i) ∨
      ∃ entry ∈ s.slot.waiting, entry.granted = j ∧ s.Waits j ∧
        ∀ entry' ∈ s.slot.waiting, s.Waits entry'.granted → entry.Le entry'
  busy : ∀ i, s.Waits i → ∃ j, s.Holds j
  inFlight : ∀ c, c ∈ s.inFlight ↔
    ∃ i job, s.jobs i = some job ∧ job.collection = c ∧ job.finished = false
  single : ∀ i j job job', s.jobs i = some job → s.jobs j = some job' →
    job.finished = false → job'.finished = false → job.collection = job'.collection → i = j
  finished : ∀ i job, s.jobs i = some job → job.finishes ≤ 1 ∧
    (job.finished = true ↔ job.finishes = 1) ∧ (job.finished = true → ¬s.slot.Has i) ∧
    (s.remaining i = 0 → job.finishes = 1)
  goesOn : ∀ i job, s.jobs i = some job → job.finished = false → ∃ k, s.CanGoOn k
  nearer : ∀ (e : LifecycleEvent ι ρ κ n τ) s' i, s.step maxQueued e = some s' →
    (s.jobs i).isSome → s'.remaining i ≤ s.remaining i ∧
      (e.EndsAwait i → s'.remaining i < s.remaining i)
  closed : ∀ (e : LifecycleEvent ι ρ κ n τ) s', s.closed = true → s.step maxQueued e = some s' →
    s'.closed = true ∧ ∀ i, s.jobs i = none → s'.jobs i = none

variable [DecidableEq ι] [DecidableEq ρ] [DecidableEq κ] {maxQueued : ℕ} {s : Lifecycle ι ρ κ}

/-- **What holds of the slot, the jobs and the collections in flight** holds in every state of a
run. -/
theorem Lifecycle.sound_of_run {es : List (LifecycleEvent ι ρ κ n τ)}
    (hrun : run (Lifecycle.step maxQueued) {} es = some s) : s.Sound maxQueued :=
  run_invariant (fun _ _ _ h hs => h.of_moves (h.moves hs)) (.init maxQueued) hrun

/-- **The generations take turns**, whatever happens on the event loop. -/
theorem orderly_of_reachable {es : List (LifecycleEvent ι ρ κ n τ)}
    (hrun : run (Lifecycle.step maxQueued) {} es = some s) : s.Orderly n τ maxQueued := by
  have h := Lifecycle.sound_of_run hrun
  constructor
  case exclusive =>
    intro i j hi hj
    exact some.inj ((h.holds_iff.mp hi).symm.trans (h.holds_iff.mp hj))
  case bounded => exact ⟨h.room, h.slot.nodup, fun i hi => (h.waits_iff.mp hi).2⟩
  case ranked => exact h.ranked
  case passes =>
    intro e s' j hs hj hnot
    have h' := h.of_moves (h.moves hs)
    rcases h.passes (h.moves hs) (h'.holds_iff.mp hj) fun hho =>
      hnot (h.holds_iff.mpr hho) with ⟨hfr, hn⟩ | ⟨entry, hent, heq, hpen, hleast⟩
    · refine Or.inl ⟨hn, fun i hwt => ?_⟩
      obtain ⟨-, entry, hent, -⟩ := h.waits_iff.mp hwt
      exact not_mem_nil (h.slot.idle hfr ▸ hent)
    · refine Or.inr ⟨entry, hent, heq, h.waits_iff.mpr ⟨hpen, entry, hent, heq⟩,
        fun entry' hent' hwt => hleast entry' hent' (h.waits_iff.mp hwt).1⟩
  case busy =>
    intro i hwt
    obtain ⟨-, entry, hent, -⟩ := h.waits_iff.mp hwt
    cases hho : s.slot.holder with
    | none => exact absurd (h.slot.idle hho ▸ hent) not_mem_nil
    | some j => exact ⟨j, h.holds_iff.mpr hho⟩
  case inFlight => exact h.inFlight
  case single => exact h.single
  case finished =>
    intro i job hjob
    have honce := h.once i job hjob
    refine ⟨?_, ?_, fun hfin => ?_, fun hgone => ?_⟩
    · rw [honce]
      split_ifs <;> omega
    · cases hfin : job.finished <;> simp [honce, hfin]
    · exact h.not_has_of_released hjob (h.released_of_finished hjob hfin)
    · cases hfin : job.finished with
      | true => rw [honce, hfin, if_pos rfl]
      | false =>
        have hleft := h.remaining_pos hjob hfin
        rw [Lifecycle.remaining_of_some hjob] at hgone
        omega
  case goesOn => exact fun i job hjob hopen => h.exists_canGoOn hjob hopen
  case nearer =>
    intro e s' i hs hsm
    obtain ⟨job, hjob⟩ := isSome_iff_exists.mp hsm
    exact ⟨(h.moves hs).remaining_le hjob, fun he => Lifecycle.remaining_lt_of_endsAwait he hs⟩
  case closed =>
    intro e s' hcls hs
    exact ⟨Lifecycle.closed_step hs hcls, fun i hn =>
      (h.moves hs).jobs_none hcls hn⟩

/-! ### A run with a queue -/

/-- Three collections ask, the third of them for its describe job; and the first run ends. -/
def describeOvertakes : List (LifecycleEvent ℕ ℕ String 1 ℕ) :=
  [.request 0 "first" .backfill, .read 0 (.ok (some (.bare "small"))) 0,
    .request 1 "second" .backfill, .read 1 (.ok (some (.bare "small"))) 1,
    .request 2 "third" .describe, .read 2 (.ok (some (.bare "small"))) 2,
    .wake 0, .wake 1, .wake 2, .draft 0 .drafts]

/-- The describe job has its turn before the one that came before it. -/
theorem orderly_describeOvertakes : ∃ s : Lifecycle ℕ ℕ String,
    run (Lifecycle.step 2) {} describeOvertakes = some s ∧ s.slot.holder = some 2 ∧
      s.slot.waiting.map Waiter.granted = [1] ∧ s.inFlight = {"first", "second", "third"} ∧
      s.Orderly 1 ℕ 2 := by
  obtain ⟨s, hs, hho, hwa, hflt⟩ :
      ∃ s ∈ run (Lifecycle.step 2) ({} : Lifecycle ℕ ℕ String) describeOvertakes,
        s.slot.holder = some 2 ∧ s.slot.waiting.map Waiter.granted = [1] ∧
          s.inFlight = {"first", "second", "third"} := by
    decide +kernel
  exact ⟨s, hs, hho, hwa, hflt, orderly_of_reachable hs⟩

end ArchonSearch.Descriptions
