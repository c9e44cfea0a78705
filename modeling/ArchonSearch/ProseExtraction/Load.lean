import ArchonSearch.Lib.Loading
import ArchonSearch.Lib.Run

/-!
# Loading the prose model

A call of `load` that finds neither the model nor a latched failure registers `_load_event` and has
the model constructed in a thread, or waits for the event that is registered. Nothing suspends
under `_load_lock`, which is therefore never contended: the loop, up to where the call suspends,
is one step. The *loader region* of a call goes from its registration to its `finally`.

The thread of a loader that was cancelled or ran out of time runs on. The registrations and the
model stay in order whatever it does (`Inv`), but the latch does not: a model that it places after
a failure was latched makes `load` return, and so does one that it placed before. The latch holds
exactly as long as neither happens (`singleFlight_iff`).
-/

namespace ArchonSearch.ProseExtraction

open Lib Option Function

/-! ### Calls and their threads -/

structure Failure where
  exception : ℕ
  /-- It is an `Exception`, and not a mere `BaseException`. -/
  latches : Bool
  deriving DecidableEq

/-- `_load_sync`, in the thread of a loader. -/
inductive Thread where
  | absent
  | queued
  /-- It has found no model, and asks for `_sync_lock`. -/
  | asking
  | constructing
  | ended : Option Failure → Thread
  deriving DecidableEq

inductive Outcome where
  | returned
  | raised (exception : ℕ)
  /-- `ProseExtractionLoadTimeoutError`. -/
  | waitTimeout
  | cancelled
  deriving DecidableEq

inductive Phase where
  | absent
  | waiting : (event : ℕ) → Phase
  | loading : (event : ℕ) → Phase
  | done : Outcome → Phase
  deriving DecidableEq

/-- A `ProseExtractionBackend`, the calls of its `load`, and the thread of each. -/
structure State where
  /-- `_model`, by the thread that has placed it. -/
  model : Option ℕ := none
  loadCount : ℕ := 0
  /-- The instance in `_latched_load_failure`. -/
  latch : Option ℕ := none
  loadEvent : Option ℕ := none
  isSet : ℕ → Bool := fun _ => false
  events : ℕ := 0
  syncLock : Option ℕ := none
  phase : ℕ → Phase := fun _ => .absent
  thread : ℕ → Thread := fun _ => .absent

inductive Event where
  | load : (call : ℕ) → Event
  /-- A thread starts, and looks at `_model`. -/
  | start : (call : ℕ) → Event
  /-- A thread gets `_sync_lock`. -/
  | enter : (call : ℕ) → Event
  | place : (call : ℕ) → Event
  | fail : (call : ℕ) → Failure → Event
  | finish : (call : ℕ) → Event
  /-- `wait_for` raises this `TimeoutError`, or `to_thread` what the executor has raised. -/
  | timeout : (call exception : ℕ) → Event
  | cancel : (call : ℕ) → Event
  | wake : (call : ℕ) → Event

/-! ### Steps -/

namespace State

variable (s : State) (i : ℕ)

def setPhase (phase : Phase) : State := { s with phase := update s.phase i phase }

def setThread (thread : Thread) : State := { s with thread := update s.thread i thread }

/-- The loop of `load`, up to a suspension of the call. -/
def lookUp : State :=
  match s.model, s.latch, s.loadEvent with
  | some _, _, _ => s.setPhase i (.done .returned)
  | none, some exception, _ => s.setPhase i (.done (.raised exception))
  | none, none, some event => s.setPhase i (.waiting event)
  | none, none, none =>
    { (s.setPhase i (.loading s.events)).setThread i .queued with
      loadEvent := some s.events, events := s.events + 1 }

/-- The future of a thread is cancelled, which a thread that has started does not notice. -/
def abandonThread : State := if s.thread i = .queued then s.setThread i .absent else s

/-- The `finally` of the loader region. -/
def leave (event : ℕ) (outcome : Outcome) : State :=
  { s.setPhase i (.done outcome) with
    loadEvent := none, isSet := update s.isSet event true }

end State

def step (s : State) : Event → Option State
  | .load i => if s.phase i = .absent then some (s.lookUp i) else none
  | .start i =>
    if s.thread i = .queued then
      some (s.setThread i (if s.model.isSome then .ended none else .asking))
    else none
  | .enter i =>
    if s.thread i = .asking ∧ s.syncLock = none then
      if s.model.isSome then some (s.setThread i (.ended none))
      else some { s.setThread i .constructing with syncLock := some i }
    else none
  | .place i =>
    if s.thread i = .constructing then
      some { s.setThread i (.ended none) with
        model := some i, loadCount := s.loadCount + 1, syncLock := none }
    else none
  | .fail i failure =>
    if s.thread i = .constructing then
      some { s.setThread i (.ended (some failure)) with syncLock := none }
    else none
  | .finish i =>
    match s.phase i, s.thread i with
    | .loading event, .ended none => some (s.leave i event .returned)
    | .loading event, .ended (some failure) =>
      let latch := if failure.latches then some failure.exception else s.latch
      some ({ s with latch := latch }.leave i event (.raised failure.exception))
    | _, _ => none
  | .timeout i exception =>
    match s.phase i with
    | .loading event =>
      some ({ s.abandonThread i with latch := some exception }.leave i event (.raised exception))
    | .waiting _ => some (s.setPhase i (.done .waitTimeout))
    | _ => none
  | .cancel i =>
    match s.phase i with
    | .loading event => some ((s.abandonThread i).leave i event .cancelled)
    | .waiting _ => some (s.setPhase i (.done .cancelled))
    | _ => none
  | .wake i =>
    match s.phase i with
    | .waiting event => if s.isSet event then some (s.lookUp i) else none
    | _ => none

/-! ### In order -/

def State.Loading (s : State) (i : ℕ) : Prop := ∃ event, s.phase i = .loading event

/-- **The model is loaded once**: one loader, one placement, and nobody waits for nothing. -/
structure State.SingleFlight (s : State) : Prop where
  placedOnce : s.loadCount ≤ 1
  placed : s.model.isSome = true ↔ s.loadCount = 1
  alone : ∀ i j, s.Loading i → s.Loading j → i = j
  registered : s.loadEvent ≠ none ↔ ∃ i, s.Loading i
  awaited : (∀ i, ¬s.Loading i) → ∀ i event, s.phase i = .waiting event → s.isSet event = true

/-- Once a failure is latched the model is not loaded, and a call raises that very instance. -/
def Latches (es : List Event) : Prop :=
  ∀ before later s exception, es = before ++ later → run step {} before = some s →
    s.latch = some exception → ∀ mid after t, later = mid ++ after → run step s mid = some t →
      t.model = none ∧ ∀ i, (t.lookUp i).phase i = .done (.raised exception)

def Event.places : Event → Bool
  | .place _ => true
  | _ => false

def State.latches (s : State) : Event → Bool
  | .finish i =>
    match s.thread i with
    | .ended (some failure) => failure.latches
    | _ => false
  | .timeout i _ =>
    match s.phase i with
    | .loading _ => true
    | _ => false
  | _ => false

/-- No model is placed once a failure is latched, and no failure latched once a model is placed. -/
def KeepsLatch (s : State) (e : Event) : Prop :=
  (e.places = true → s.latch = none) ∧ (s.latches e = true → s.model = none)

instance (s : State) (e : Event) : Decidable (KeepsLatch s e) := inferInstanceAs (Decidable (_ ∧ _))

/-! ### Registrations -/

namespace Phase

/-- The one registration there may be is made by a call in its loader region. -/
def loads : Phase → Option (Unit × ℕ)
  | .loading event => some ((), event)
  | _ => none

def waits : Phase → Option (Unit × ℕ)
  | .waiting event => some ((), event)
  | _ => none

variable {p : Phase} {event : ℕ}

theorem loads_eq_some : p.loads = some ((), event) ↔ p = .loading event := by
  cases p <;> simp [loads]

theorem loads_eq_none (h : ∀ event, p ≠ .loading event) : p.loads = none :=
  Option.eq_none_iff_forall_ne_some.mpr fun _ hloads => h _ (loads_eq_some.mp hloads)

end Phase

/-- `_load_event` is the event of the one call that is in its loader region. -/
structure Registered (loadEvent latch : Option ℕ) (isSet : ℕ → Bool) (phase : ℕ → Phase) : Prop
    extends Lib.Registered Phase.loads Phase.waits (fun _ => loadEvent) isSet phase where
  unlatched : loadEvent ≠ none → latch = none

namespace Registered

variable {loadEvent latch latch' : Option ℕ} {isSet : ℕ → Bool} {phase : ℕ → Phase} {i event : ℕ}

theorem loading_iff (h : Registered loadEvent latch isSet phase) :
    loadEvent = some event ↔ ∃ i, phase i = .loading event := by
  simpa only [Phase.loads_eq_some] using h.table_iff () event

/-- A call that is not in its loader region does not go into it. -/
theorem update (h : Registered loadEvent latch isSet phase) {p : Phase}
    (hbef : ∀ event, phase i ≠ .loading event) (haft : p.loads = none)
    (hwa : ∀ k event, p.waits = some (k, event) → isSet event = true ∨ loadEvent = some event) :
    Registered loadEvent latch isSet (update phase i p) :=
  ⟨h.toRegistered.update (haft.trans (Phase.loads_eq_none hbef).symm) hwa, h.unlatched⟩

theorem register (h : Registered none none isSet phase)
    (hbef : ∀ event, phase i ≠ .loading event) (event : ℕ) :
    Registered (some event) none isSet (Function.update phase i (.loading event)) :=
  ⟨h.toRegistered.register (Phase.loads_eq_none hbef) rfl rfl rfl fun _ => (if_pos rfl).symm,
    fun _ => rfl⟩

/-- The loader leaves its region, whether or not it latches a failure. -/
theorem leave (h : Registered loadEvent latch isSet phase) (hi : phase i = .loading event)
    (outcome : Outcome) : Registered none latch' (Function.update isSet event true)
      (Function.update phase i (.done outcome)) :=
  ⟨h.toRegistered.leave (Phase.loads_eq_some.mpr hi) rfl rfl fun _ => (if_pos rfl).symm, absurd rfl⟩

end Registered

/-! ### The model -/

/-- The model is placed once, by a thread that has `_sync_lock` and has looked again. -/
structure Placed (model : Option ℕ) (loadCount : ℕ) (syncLock : Option ℕ) (thread : ℕ → Thread) :
    Prop where
  count : loadCount = if model.isSome then 1 else 0
  constructing : ∀ i, thread i = .constructing → syncLock = some i ∧ model = none

namespace Placed

variable {model syncLock : Option ℕ} {loadCount : ℕ} {thread : ℕ → Thread} {i : ℕ} {t : Thread}

theorem update (h : Placed model loadCount syncLock thread) (ht : t ≠ .constructing) :
    Placed model loadCount syncLock (update thread i t) := by
  refine ⟨h.count, fun j hj => ?_⟩
  by_cases hji : j = i
  · rw [hji, update_self] at hj
    exact absurd hj ht
  · rw [update_of_ne hji] at hj
    exact h.constructing j hj

theorem enter (h : Placed none loadCount none thread) (i : ℕ) :
    Placed none loadCount (some i) (Function.update thread i .constructing) := by
  refine ⟨h.count, fun j hj => ?_⟩
  by_cases hji : j = i
  · exact ⟨congrArg some hji.symm, rfl⟩
  · rw [update_of_ne hji] at hj
    cases (h.constructing j hj).1

theorem not_constructing (h : Placed model loadCount syncLock thread)
    (hi : thread i = .constructing) (result : Option Failure) (j : ℕ) :
    Function.update thread i (.ended result) j ≠ .constructing := by
  by_cases hji : j = i
  · rw [hji, update_self]
    exact Thread.noConfusion
  · rw [update_of_ne hji]
    intro hj
    have hl := (h.constructing j hj).1.symm.trans (h.constructing i hi).1
    exact hji (some.inj hl)

end Placed

/-! ### Every step -/

structure Inv (s : State) : Prop where
  registered : Registered s.loadEvent s.latch s.isSet s.phase
  placed : Placed s.model s.loadCount s.syncLock s.thread

variable {s t : State} {e : Event} {es : List Event} {i : ℕ}

namespace Inv

theorem init : Inv {} where
  registered := ⟨⟨fun _ _ => iff_of_false nofun nofun, nofun, nofun⟩, absurd rfl⟩
  placed := ⟨rfl, nofun⟩

theorem lookUp (h : Inv s) (hi : ∀ event, s.phase i ≠ .loading event) : Inv (s.lookUp i) := by
  obtain ⟨hreg, hplcd⟩ := h
  unfold State.lookUp
  split
  · exact ⟨hreg.update hi rfl nofun, hplcd⟩
  · exact ⟨hreg.update hi rfl nofun, hplcd⟩
  · next event _ _ hevent =>
    refine ⟨hreg.update hi rfl ?_, hplcd⟩
    rintro _ _ ⟨⟩
    exact Or.inr hevent
  · next hmod hlat hevent =>
    rw [hlat, hevent] at hreg
    refine ⟨?_, hplcd.update nofun⟩
    have hw := hreg.register hi s.events
    rwa [← hlat] at hw

theorem abandonThread (h : Inv s) : Inv (s.abandonThread i) := by
  unfold State.abandonThread
  split_ifs
  · exact ⟨h.registered, h.placed.update nofun⟩
  · exact h

theorem phase_abandonThread : (s.abandonThread i).phase = s.phase := by
  unfold State.abandonThread
  split_ifs <;> rfl

variable {event : ℕ}

theorem leave (h : Inv s) (hi : s.phase i = .loading event) (latch : Option ℕ)
    (outcome : Outcome) : Inv ({ s with latch := latch }.leave i event outcome) :=
  ⟨h.registered.leave hi outcome, h.placed⟩

theorem outside (h : Inv s) (hi : s.phase i = .waiting event) (outcome : Outcome) :
    Inv (s.setPhase i (.done outcome)) :=
  ⟨h.registered.update (fun _ => by rw [hi]; exact Phase.noConfusion) rfl nofun, h.placed⟩

end Inv

theorem lookUp_model : (s.lookUp i).model = s.model := by
  unfold State.lookUp
  split <;> rfl

theorem lookUp_latch : (s.lookUp i).latch = s.latch := by
  unfold State.lookUp
  split <;> rfl

theorem abandonThread_model : (s.abandonThread i).model = s.model := by
  unfold State.abandonThread
  split_ifs <;> rfl

theorem abandonThread_latch : (s.abandonThread i).latch = s.latch := by
  unfold State.abandonThread
  split_ifs <;> rfl

/-- What a step does to the model and to the latch: nothing, or a model is placed, or a loader
latches a failure. -/
def Latched (s : State) (e : Event) (t : State) : Prop :=
  (t.model = s.model ∧ t.latch = s.latch ∧ KeepsLatch s e) ∨
    (t.model ≠ none ∧ t.latch = s.latch ∧ (KeepsLatch s e ↔ s.latch = none)) ∨
    (t.model = s.model ∧ t.latch ≠ none ∧ (KeepsLatch s e ↔ s.model = none) ∧ ∃ i, s.Loading i)

/-- **Every step keeps the registrations and the model in order**, and seldom touches the latch. -/
theorem Inv.step (h : Inv s) (hs : step s e = some t) : Inv t ∧ Latched s e t := by
  cases e with
  | load i =>
    obtain ⟨hi, rfl⟩ := of_guard hs
    exact ⟨h.lookUp fun _ => by rw [hi]; exact Phase.noConfusion,
      Or.inl ⟨lookUp_model, lookUp_latch, nofun, nofun⟩⟩
  | start i =>
    simp only [ProseExtraction.step] at hs
    split_ifs at hs
    all_goals
      cases hs
      exact ⟨⟨h.registered, h.placed.update nofun⟩, Or.inl ⟨rfl, rfl, nofun, nofun⟩⟩
  | enter i =>
    simp only [ProseExtraction.step] at hs
    split_ifs at hs with hi hmod
    · cases hs
      exact ⟨⟨h.registered, h.placed.update nofun⟩, Or.inl ⟨rfl, rfl, nofun, nofun⟩⟩
    · cases hs
      have hplcd := h.placed
      have hn : s.model = none := not_isSome_iff_eq_none.mp hmod
      rw [hn, hi.2] at hplcd
      have hent := hplcd.enter i
      rw [← hn] at hent
      exact ⟨⟨h.registered, hent⟩, Or.inl ⟨rfl, rfl, nofun, nofun⟩⟩
  | place i =>
    obtain ⟨hi, rfl⟩ := of_guard hs
    have hcnt := h.placed.count
    rw [(h.placed.constructing i hi).2] at hcnt
    refine ⟨⟨h.registered, congrArg (· + 1) hcnt, fun j hj => ?_⟩, Or.inr (Or.inl
      ⟨some_ne_none i, rfl, fun hkp => hkp.1 rfl, fun hn => ⟨fun _ => hn, nofun⟩⟩)⟩
    exact absurd hj (h.placed.not_constructing hi _ j)
  | fail i failure =>
    obtain ⟨hi, rfl⟩ := of_guard hs
    refine ⟨⟨h.registered, h.placed.count, fun j hj => ?_⟩, Or.inl ⟨rfl, rfl, nofun, nofun⟩⟩
    exact absurd hj (h.placed.not_constructing hi _ j)
  | finish i =>
    simp only [ProseExtraction.step] at hs
    split at hs
    · next hi he =>
      cases hs
      exact ⟨h.leave hi s.latch _, Or.inl ⟨rfl, rfl, nofun, by simp [State.latches, he]⟩⟩
    · next event failure hi he =>
      cases hs
      refine ⟨h.leave hi _ _, ?_⟩
      cases hlats : failure.latches with
      | false => exact Or.inl ⟨rfl, rfl, nofun, by simp [State.latches, he, hlats]⟩
      | true =>
        refine Or.inr (Or.inr ⟨rfl, some_ne_none _, ?_, i, event, hi⟩)
        simp [KeepsLatch, Event.places, State.latches, he, hlats]
    · cases hs
  | timeout i exception =>
    simp only [ProseExtraction.step] at hs
    split at hs
    · next event hi =>
      cases hs
      refine ⟨h.abandonThread.leave (by rwa [phase_abandonThread]) _ _, Or.inr (Or.inr
        ⟨abandonThread_model, some_ne_none exception, ?_, i, event, hi⟩)⟩
      simp [KeepsLatch, Event.places, State.latches, hi]
    · next hi =>
      cases hs
      exact ⟨h.outside hi _, Or.inl ⟨rfl, rfl, nofun, by simp [State.latches, hi]⟩⟩
    · cases hs
  | cancel i =>
    simp only [ProseExtraction.step] at hs
    split at hs
    · next hi =>
      cases hs
      exact ⟨h.abandonThread.leave (by rwa [phase_abandonThread]) _ _,
        Or.inl ⟨abandonThread_model, abandonThread_latch, nofun, nofun⟩⟩
    · next hi =>
      cases hs
      exact ⟨h.outside hi _, Or.inl ⟨rfl, rfl, nofun, nofun⟩⟩
    · cases hs
  | wake i =>
    simp only [ProseExtraction.step] at hs
    split at hs
    · next hi =>
      obtain ⟨-, rfl⟩ := of_guard hs
      exact ⟨h.lookUp fun _ => by rw [hi]; exact Phase.noConfusion,
        Or.inl ⟨lookUp_model, lookUp_latch, nofun, nofun⟩⟩
    · cases hs

theorem Inv.singleFlight (h : Inv s) : s.SingleFlight := by
  have hevent {i : ℕ} : ∀ event, s.phase i = .loading event → s.loadEvent = some event :=
    fun event hi => h.registered.loading_iff.mpr ⟨i, hi⟩
  have hcnt := h.placed.count
  refine ⟨?_, ?_, ?_, ⟨fun hs => ?_, ?_⟩, fun hn i event hi => ?_⟩
  · rw [hcnt]
    split_ifs <;> omega
  · rw [hcnt]
    split_ifs with hmod
    · exact iff_of_true hmod rfl
    · exact iff_of_false hmod nofun
  · rintro i j ⟨event, hi⟩ ⟨event', hj⟩
    obtain rfl := some.inj ((hevent event hi).symm.trans (hevent event' hj))
    exact h.registered.unique i j () event event
      (Phase.loads_eq_some.mpr hi) (Phase.loads_eq_some.mpr hj)
  · obtain ⟨event, hs⟩ := ne_none_iff_exists'.mp hs
    obtain ⟨i, hi⟩ := h.registered.loading_iff.mp hs
    exact ⟨i, event, hi⟩
  · rintro ⟨i, event, hi⟩
    rw [hevent event hi]
    exact some_ne_none event
  · refine (h.registered.awaited i () event (congrArg Phase.waits hi)).resolve_right fun hs => ?_
    obtain ⟨j, hj⟩ := h.registered.loading_iff.mp hs
    exact hn j ⟨event, hj⟩

/-! ### The latch -/

/-- **A latched failure stays latched**, since no call is in its loader region any more. -/
theorem latch_of_step (h : Inv s) {exception : ℕ} (hlat : s.latch = some exception)
    (hs : step s e = some t) : t.latch = some exception := by
  rcases (h.step hs).2 with ⟨-, heq, -⟩ | ⟨-, heq, -⟩ | ⟨-, -, -, i, event, hi⟩
  · rw [heq, hlat]
  · rw [heq, hlat]
  · have hevent : s.loadEvent ≠ none := by
      rw [h.registered.loading_iff.mpr ⟨i, hi⟩]
      exact some_ne_none event
    cases hlat.symm.trans (h.registered.unlatched hevent)

/-- The latch and the model exclude each other after a step exactly if it keeps the latch. -/
theorem keepsLatch_iff (h : s.latch = none ∨ s.model = none) (hlatc : Latched s e t) :
    KeepsLatch s e ↔ t.latch = none ∨ t.model = none := by
  rcases hlatc with ⟨hmod, hlat, hkp⟩ | ⟨hmod, hlat, hiff⟩ | ⟨hmod, hlat, hiff, -⟩
  · rw [hmod, hlat]
    exact iff_of_true hkp h
  · rw [hiff, hlat]
    exact ⟨Or.inl, fun h => h.resolve_right hmod⟩
  · rw [hiff, hmod]
    exact ⟨Or.inr, fun h => h.resolve_left hlat⟩

/-! ### Every run -/

theorem inv_of_run (hr : run step {} es = some s) : Inv s :=
  run_invariant (fun _ _ _ h hs => (h.step hs).1) Inv.init hr

/-- The latch holds exactly in the runs in which no state has both a model and a latched failure. -/
theorem latches_iff : Latches es ↔ ∀ before after s, es = before ++ after →
    run step {} before = some s → s.latch = none ∨ s.model = none := by
  constructor
  · intro h before after s hes hbef
    rcases hlat : s.latch with _ | exception
    · exact Or.inl rfl
    · exact Or.inr (h before after s exception hes hbef hlat [] after s rfl rfl).1
  intro h before later s exception hes hbef hlat mid after t hlater hmid
  have hk : Inv t ∧ t.latch = some exception :=
    run_invariant (I := fun s => Inv s ∧ s.latch = some exception)
      (fun _ _ _ hI hs => ⟨(hI.1.step hs).1, latch_of_step hI.1 hI.2 hs⟩)
      ⟨inv_of_run hbef, hlat⟩ hmid
  have hr : run step {} (before ++ mid) = some t := by
    rw [run_append, hbef]
    exact hmid
  have hmod : t.model = none := by
    refine (h (before ++ mid) after t (by simp [hes, hlater]) hr).resolve_left ?_
    rw [hk.2]
    exact some_ne_none exception
  refine ⟨hmod, fun i => ?_⟩
  simp [State.lookUp, hmod, hk.2, State.setPhase]

/-- **The load is single-flight in every state, and the latch holds exactly as long as no model is
placed beside it.** -/
theorem singleFlight_iff (hrun : run step {} es = some s) :
    ((∀ before after t, es = before ++ after → run step {} before = some t → t.SingleFlight) ∧
      Latches es) ↔ Along step KeepsLatch {} es := by
  rw [latches_iff]
  constructor
  · rintro ⟨-, hlats⟩
    refine along_iff.mpr fun before e after t hes hbef => ?_
    rw [hes, run_append, hbef] at hrun
    obtain ⟨t', hs, -⟩ := (run_cons_eq_some step).mp hrun
    refine (keepsLatch_iff (hlats before (e :: after) t hes hbef)
      ((inv_of_run hbef).step hs).2).mpr ?_
    exact hlats (before ++ [e]) after t' (by simp [hes])
      ((run_concat_eq_some step).mpr ⟨t, hbef, hs⟩)
  · intro hkp
    refine ⟨fun _ _ _ _ hbef => (inv_of_run hbef).singleFlight, fun before after t hes hbef => ?_⟩
    have hk : Inv t ∧ (t.latch = none ∨ t.model = none) :=
      run_invariant_along (I := fun s => Inv s ∧ (s.latch = none ∨ s.model = none))
        (fun _ _ _ hC h hs => ⟨(h.1.step hs).1, (keepsLatch_iff h.2 (h.1.step hs).2).mp hC⟩)
        (hes ▸ hkp).of_append ⟨Inv.init, Or.inl rfl⟩ hbef
    exact hk.2

/-- The first call is cancelled and its thread goes on; the second waits for `_sync_lock` in
vain and finds the model of the first. -/
def cancelledLoader : List Event :=
  [.load 0, .load 1, .start 0, .enter 0, .cancel 0, .wake 1, .start 1, .place 0, .enter 1,
    .finish 1, .load 2]

theorem singleFlight_iff_cancelledLoader : ∃ s, run step {} cancelledLoader = some s ∧
    s.SingleFlight ∧ Latches cancelledLoader := by
  have hkp : Along step KeepsLatch {} cancelledLoader := by decide +kernel
  have hr : run step {} cancelledLoader = some _ := rfl
  have hall := (singleFlight_iff hr).mpr hkp
  exact ⟨_, hr, hall.1 cancelledLoader [] _ rfl hr, hall.2⟩

/-- **The latch does not hold**: the time of the loader is up, and its thread places the model after
that, which makes the next call return. -/
theorem loads_after_failure : ¬∀ es s, run step {} es = some s → Latches es := by
  intro h
  have hlats := h [.load 0, .start 0, .enter 0, .timeout 0 0, .place 0] _ rfl
  have hn := hlats [.load 0, .start 0, .enter 0, .timeout 0 0] [.place 0] _ 0 rfl rfl rfl
    [.place 0] [] _ rfl rfl
  cases hn.1

end ArchonSearch.ProseExtraction
