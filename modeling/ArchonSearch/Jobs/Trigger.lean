import ArchonSearch.Jobs.Maintenance
import ArchonSearch.Lib.Run

/-!
# The trigger loop

`MaintenanceLoop._trigger_loop` waits for its event, or for the interval to elapse, runs a pass and
clears the event. `POST /maintenance/trigger` sets the event and answers `triggered`, unless the
event is set already: then it answers `already_triggered`, and the pass that was asked for before
serves both.

The event is thus to be set while a pass runs that was triggered, and clear while one runs that the
timer has started. A trigger that comes during a pass of the second kind is accepted, and the loop
clears it at the end of that pass, which began before it. `Unhurried` excludes this, and then no
accepted trigger is lost (`notLost_of_unhurried`).

Nothing in the loop catches what a pass raises, so the loop goes on exactly as long as every pass
returns (`maintained_iff`); when a pass returns is the subject of `ArchonSearch.Jobs.Maintenance`.
-/

namespace ArchonSearch.Jobs.Trigger

open Lib Maintenance List Option

inductive Phase where
  | waiting
  | running
  | ended
  deriving DecidableEq

structure State where
  phase : Phase
  triggerEvent : Bool
  clock : ℕ
  (acceptedAt startedAt ranSince : Option ℕ)

def State.init : State := ⟨.waiting, false, 0, none, none, none⟩

inductive Event where
  /-- `POST /maintenance/trigger`. -/
  | trigger
  | wake
  | timeout
  | passEnd : Env → Event

inductive TriggerStatus where
  /-- `triggered`: the request is accepted. -/
  | triggered
  | alreadyTriggered

namespace State

variable (s : State)

/-- `trigger_maintenance`. -/
def triggerMaintenance : TriggerStatus × State :=
  if s.triggerEvent then (.alreadyTriggered, { s with clock := s.clock + 1 })
  else
    (.triggered,
      { s with triggerEvent := true, clock := s.clock + 1, acceptedAt := some s.clock })

def start : State :=
  { s with phase := .running, clock := s.clock + 1, startedAt := some s.clock }

def finish : State :=
  { s with
    phase := .waiting, triggerEvent := false, clock := s.clock + 1, ranSince := s.startedAt }

def fail : State := { s with phase := .ended, clock := s.clock + 1 }

end State

def step (c : Config) (s : State) : Event → Option State
  | .trigger => some s.triggerMaintenance.2
  | .wake => if s.phase = .waiting ∧ s.triggerEvent then some s.start else none
  | .timeout => if s.phase = .waiting ∧ 0 < c.intervalHours then some s.start else none
  | .passEnd e =>
    if s.phase = .running then
      match (runOnePass c e).result with
      | .ok _ => some s.finish
      | .error _ => some s.fail
    else none

variable {c : Config} {e : Env} {ev : Event} {s s' : State}

/-! ### The steps -/

theorem step_wake : step c s .wake = some s' ↔
    (s.phase = .waiting ∧ s.triggerEvent = true) ∧ s' = s.start := by
  rw [step, ite_none_right_eq_some, some.injEq, eq_comm (a := s.start)]

theorem step_timeout : step c s .timeout = some s' ↔
    (s.phase = .waiting ∧ 0 < c.intervalHours) ∧ s' = s.start := by
  rw [step, ite_none_right_eq_some, some.injEq, eq_comm (a := s.start)]

/-- A pass that ends has returned or raised, and which of them is a matter of its calls. -/
theorem step_passEnd : step c s (.passEnd e) = some s' ↔ s.phase = .running ∧
    (Spared c e ∧ s' = s.finish ∨ ¬Spared c e ∧ s' = s.fail) := by
  rw [step, ← returns_runOnePass_iff, Calls.Returns]
  by_cases hr : s.phase = .running
  · rw [if_pos hr]
    cases (runOnePass c e).result <;> simp [hr, eq_comm]
  · rw [if_neg hr]
    simp [hr]

/-! ### The passes of a run -/

theorem phase_start : s.start.phase ≠ .ended := show Phase.running ≠ .ended by decide

theorem phase_finish : s.finish.phase ≠ .ended := show Phase.waiting ≠ .ended by decide

theorem phase_triggerMaintenance : s.triggerMaintenance.2.phase = s.phase := by
  rw [State.triggerMaintenance]
  split_ifs <;> rfl

/-- The end of the loop is the end of a pass that raises. -/
theorem ended_step (hs : step c s ev = some s') (h : s.phase ≠ .ended) :
    s'.phase ≠ .ended ↔ ∀ e, ev = .passEnd e → Spared c e := by
  cases ev with
  | trigger =>
    cases hs
    exact iff_of_true (phase_triggerMaintenance.trans_ne h) (by rintro _ ⟨⟩)
  | wake =>
    obtain ⟨-, rfl⟩ := step_wake.mp hs
    exact iff_of_true phase_start (by rintro _ ⟨⟩)
  | timeout =>
    obtain ⟨-, rfl⟩ := step_timeout.mp hs
    exact iff_of_true phase_start (by rintro _ ⟨⟩)
  | passEnd e =>
    obtain ⟨-, ⟨hspar, rfl⟩ | ⟨hrais, rfl⟩⟩ := step_passEnd.mp hs
    · refine iff_of_true phase_finish ?_
      rintro _ ⟨⟩
      exact hspar
    · exact iff_of_false (fun hc => hc rfl) fun hc => hrais (hc e rfl)

theorem ended_of_ended (hs : step c s ev = some s') (h : s.phase = .ended) :
    s'.phase = .ended := by
  cases ev with
  | trigger =>
    cases hs
    exact phase_triggerMaintenance.trans h
  | wake => exact absurd (h.symm.trans (step_wake.mp hs).1.1) (by decide)
  | timeout => exact absurd (h.symm.trans (step_timeout.mp hs).1.1) (by decide)
  | passEnd e => exact absurd (h.symm.trans (step_passEnd.mp hs).1) (by decide)

theorem ended_run : ∀ {es : List Event} {s t : State}, run (step c) s es = some t →
    s.phase = .ended → t.phase = .ended := fun hr h =>
  run_invariant (I := fun s => s.phase = .ended) (fun _ _ _ h hs => ended_of_ended hs h) h hr

/-- **The loop has ended if and only if one of its passes has raised.** -/
theorem alive_iff : ∀ {es : List Event} {s t : State}, run (step c) s es = some t →
    s.phase ≠ .ended → (t.phase ≠ .ended ↔ ∀ e, .passEnd e ∈ es → Spared c e)
  | [], s, t, hr, h => by
    cases hr
    exact iff_of_true h fun _ he => absurd he not_mem_nil
  | ev :: es, s, t, hr, h => by
    obtain ⟨s', hs, hrs⟩ := (run_cons_eq_some _).mp hr
    have hfst := ended_step hs h
    by_cases halive : s'.phase = .ended
    · refine iff_of_false (fun ht => ht (ended_run hrs halive)) fun hall => ?_
      refine hfst.mpr (fun e he => ?_) halive
      exact hall e (he ▸ mem_cons_self)
    · rw [alive_iff hrs halive]
      constructor
      · intro hall e he
        rcases mem_cons.mp he with he | he
        · exact hfst.mp halive e he.symm
        · exact hall e he
      · exact fun hall e he => hall e (mem_cons_of_mem _ he)

/-! ### No trigger is lost -/

/-- **What was accepted is served.** A loop that waits with its event clear has run a pass that
started after the latest accepted trigger. -/
def NotLost (s : State) : Prop :=
  s.phase = .waiting → s.triggerEvent = false → ∀ t ∈ s.acceptedAt, ∃ p ∈ s.ranSince, t < p

/-- No trigger is accepted while a pass of the timer runs. -/
def Unhurried (s : State) : Event → Prop
  | .trigger => s.phase = .running → s.triggerEvent = true
  | _ => True

instance (s : State) (ev : Event) : Decidable (Unhurried s ev) := by
  unfold Unhurried
  split <;> infer_instance

structure Served (s : State) : Prop where
  accepted_lt : ∀ t ∈ s.acceptedAt, t < s.clock
  started : s.phase = .running → ∃ p ∈ s.startedAt, ∀ t ∈ s.acceptedAt, t < p
  notLost : NotLost s

theorem served_init : Served State.init :=
  ⟨by simp [State.init], fun h => absurd h (by decide),
    fun _ _ _ ht => absurd ht (by simp [State.init])⟩

/-- A pass that starts comes after every trigger so far. -/
theorem Served.start (h : Served s) : Served s.start where
  accepted_lt t ht := Nat.lt_succ_of_lt (h.accepted_lt t ht)
  started _ := ⟨s.clock, rfl, h.accepted_lt⟩
  notLost hwa := absurd hwa (show Phase.running ≠ .waiting by decide)

/-- A pass that returns has served what came before it. -/
theorem Served.finish (h : Served s) (hr : s.phase = .running) : Served s.finish where
  accepted_lt t ht := Nat.lt_succ_of_lt (h.accepted_lt t ht)
  started hph := absurd hph (show Phase.waiting ≠ .running by decide)
  notLost _ _ t ht := by
    obtain ⟨p, hp, hlt⟩ := h.started hr
    exact ⟨p, hp, hlt t ht⟩

/-- A trigger that is accepted outside a pass will be seen. -/
theorem Served.triggerMaintenance (h : Served s)
    (hunh : s.phase = .running → s.triggerEvent = true) : Served s.triggerMaintenance.2 := by
  rw [State.triggerMaintenance]
  by_cases hst : s.triggerEvent = true
  · rw [if_pos hst]
    exact ⟨fun t ht => Nat.lt_succ_of_lt (h.accepted_lt t ht), h.started, h.notLost⟩
  · rw [if_neg hst]
    refine ⟨?_, fun hr => absurd (hunh hr) hst, fun _ hclear => by cases hclear⟩
    rintro t ⟨⟩
    exact Nat.lt_succ_self s.clock

theorem served_step (hunh : Unhurried s ev) (h : Served s) (hs : step c s ev = some s') :
    Served s' := by
  cases ev with
  | trigger =>
    cases hs
    exact h.triggerMaintenance hunh
  | wake =>
    obtain ⟨-, rfl⟩ := step_wake.mp hs
    exact h.start
  | timeout =>
    obtain ⟨-, rfl⟩ := step_timeout.mp hs
    exact h.start
  | passEnd e =>
    obtain ⟨hr, ⟨-, rfl⟩ | ⟨-, rfl⟩⟩ := step_passEnd.mp hs
    · exact h.finish hr
    · exact ⟨fun t ht => Nat.lt_succ_of_lt (h.accepted_lt t ht),
        fun hph => absurd hph (show Phase.ended ≠ .running by decide),
        fun hph => absurd hph (show Phase.ended ≠ .waiting by decide)⟩

/-- **No accepted trigger is lost, as long as none is accepted while a pass of the timer runs.** -/
theorem notLost_of_unhurried {es : List Event} (hunhurried : Along (step c) Unhurried .init es)
    (hrun : run (step c) .init es = some s) : NotLost s :=
  (run_invariant_along (fun _ _ _ hC h hs => served_step hC h hs) hunhurried served_init
    hrun).notLost

/-! ### Examples of runs -/

def byHand : Config := ⟨0, [], true, true, 24, false⟩

def hourly : Config := { byHand with intervalHours := 1 }

def quiet : Env where
  now := 0
  stateExists := .ok false
  stateJson := .error .osError
  listCollections := .ok []
  getAllCollectionsMeta := .ok []
  drainCommunitiesPendingRebuild := .ok ()
  pruneVersions _ := .ok ()
  runFailedIngestRetry health := (.ok (), health)
  writeState := .ok ()

def fullDisk : Env := { quiet with writeState := .error .osError }

/-- A pass of the timer, and a trigger after it, which is served. -/
theorem notLost_hourly : NotLost ⟨.waiting, false, 5, some 2, some 3, some 3⟩ := by
  have hr : run (step hourly) .init [.timeout, .passEnd quiet, .trigger, .wake,
      .passEnd quiet] = some ⟨.waiting, false, 5, some 2, some 3, some 3⟩ := rfl
  exact notLost_of_unhurried (by decide) hr

/-- A trigger that comes during the first pass of the timer is accepted, and no pass follows. -/
theorem lost_hourly : ∃ s, run (step hourly) .init [.timeout, .trigger, .passEnd quiet] = some s ∧
    s.acceptedAt = some 1 ∧ ¬NotLost s := by
  refine ⟨⟨.waiting, false, 3, some 1, some 0, some 0⟩, rfl, rfl, fun h => ?_⟩
  obtain ⟨p, hp, hlt⟩ := h rfl rfl 1 rfl
  cases hp
  exact absurd hlt (by decide)

/-! ### Every failure is survived -/

/-- **The loop goes on**: it lives, and both ways to start a pass work. -/
structure Maintained (c : Config) (es : List Event) (s : State) : Prop where
  alive : s.phase ≠ .ended
  trigger : s.phase = .waiting → ∃ s₁ s₂, step c s .trigger = some s₁ ∧
    step c s₁ .wake = some s₂ ∧ s₂.phase = .running
  timeout : s.phase = .waiting → 0 < c.intervalHours →
    ∃ s', step c s .timeout = some s' ∧ s'.phase = .running
  complete : ∀ e visits, .passEnd e ∈ es → e.listCollections = .ok visits →
    (runOnePass c e).made = [.loadState, .listCollections] ++ listedCalls c visits

theorem triggerEvent_triggerMaintenance : s.triggerMaintenance.2.triggerEvent = true := by
  rw [State.triggerMaintenance]
  split_ifs with h
  · exact h
  · rfl

/-- **The loop survives a run if and only if none of its passes meets a failure outside the
boundaries.** -/
theorem maintained_iff {es : List Event} (hrun : run (step c) .init es = some s) :
    Maintained c es s ↔ ∀ e, .passEnd e ∈ es → Spared c e := by
  have halive := alive_iff hrun (show Phase.waiting ≠ .ended by decide)
  refine ⟨fun h => halive.mp h.alive, fun h => ⟨halive.mpr h, fun hwa => ?_,
    fun hwa hhours => ?_, fun e visits he hlist => (makes_runOnePass (h e he) hlist).2⟩⟩
  · exact ⟨_, _, rfl, step_wake.mpr
      ⟨⟨phase_triggerMaintenance.trans hwa, triggerEvent_triggerMaintenance⟩, rfl⟩, rfl⟩
  · exact ⟨_, step_timeout.mpr ⟨⟨hwa, hhours⟩, rfl⟩, rfl⟩

theorem maintained_byHand : Maintained byHand [.trigger, .wake, .passEnd quiet]
    ⟨.waiting, false, 3, some 0, some 1, some 1⟩ := by
  refine (maintained_iff (c := byHand) rfl).mpr fun e he => ?_
  rw [← returns_runOnePass_iff]
  simp only [mem_cons, reduceCtorEq, Event.passEnd.injEq, not_mem_nil, or_false, false_or] at he
  exact he ▸ ⟨_, rfl⟩

/-- A full disk ends the loop: no later trigger starts a pass. -/
theorem not_maintained_fullDisk : ∃ s,
    run (step byHand) .init [.trigger, .wake, .passEnd fullDisk] = some s ∧
      ¬Maintained byHand [.trigger, .wake, .passEnd fullDisk] s ∧
      step byHand s.triggerMaintenance.2 .wake = none := by
  refine ⟨⟨.ended, true, 3, some 0, some 1, none⟩, rfl, fun h => h.alive rfl, rfl⟩

end ArchonSearch.Jobs.Trigger
