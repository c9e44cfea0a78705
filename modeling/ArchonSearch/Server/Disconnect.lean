import ArchonSearch.Lib.Run

/-!
# Cancelling a request on disconnect

`CancelOnDisconnectMiddleware` runs the application as a task beside a watcher of the connection,
and waits for the first of them to end. The request itself, the *outer* task, may be cancelled at
any of its awaits, any number of times: at a `gather` it is told only when the task that is awaited
has ended, and at `await app_task` the cancellation goes to the application.

When the outer task has ended, so have the other two, and it has cancelled the application only for
a reason (`safe_of_run`). It ends as the application has ended, unless it was cancelled: then an
exception of the application is logged, or is but the context of the cancellation
(`exception_lost`).
-/

namespace ArchonSearch.Server.Disconnect

open Lib

/-! ### The three tasks -/

inductive Outcome where
  | returned
  | raised (exception : ℕ)
  | cancelled
  deriving DecidableEq

inductive App where
  | running
  | ended : Outcome → App
  deriving DecidableEq

/-- `watch_connection`. -/
inductive Watcher where
  /-- In `body_read.wait`. -/
  | waiting
  | reading
  | disconnected : (early : Bool) → Watcher
  /-- `receive` has raised, or was cancelled by somebody else. -/
  | failed : Outcome → Watcher
  | cancelled
  deriving DecidableEq

def App.done : App → Bool
  | .running => false
  | .ended _ => true

def Watcher.done : Watcher → Bool
  | .waiting | .reading => false
  | _ => true

inductive Outer where
  /-- `asyncio.wait`. -/
  | waiting
  /-- `_cancel_and_wait(app_task)`, with what comes after it. -/
  | stopping : (next : Outcome) → Outer
  /-- `await app_task`. -/
  | awaitingApp
  /-- `_cancel_and_wait(app_task)`, after a `CancelledError`. -/
  | handling
  /-- `_cancel_and_wait(watcher)`, with how the task is to end. -/
  | closing : Outcome → Outer
  | finished : Outcome → Outer
  deriving DecidableEq

structure State where
  app : App := .running
  watcher : Watcher := .waiting
  outer : Outer := .waiting
  bodyRead : Bool := false
  responseComplete : Bool := false
  /-- `app_task.cancel` was called while the application ran. -/
  appTold : Bool := false
  watcherTold : Bool := false
  /-- A `CancelledError` is raised in the outer task when it is resumed. -/
  pending : Bool := false
  outerCancelled : Bool := false

inductive Event where
  | appReceive : (last : Bool) → Event
  | appSend : (last : Bool) → Event
  | appEnd : Outcome → Event
  | watcherStart
  | watcherReceive : (disconnect : Bool) → Event
  | watcherFail : Outcome → Event
  | watcherCancelled
  /-- `Task.cancel` of the outer task. -/
  | cancel
  | resume

/-! ### Steps -/

namespace State

variable (s : State)

/-- `app_task.cancel`. -/
def tellApp : State := { s with appTold := s.appTold || !s.app.done }

/-- `watcher.cancel`, and the `gather`. -/
def close (outcome : Outcome) : State :=
  { s with outer := .closing outcome, watcherTold := s.watcherTold || !s.watcher.done }

/-- `except asyncio.CancelledError`. -/
def handle : State := { s.tellApp with outer := .handling, pending := false }

/-- The `await app_task` of an application that has ended so. -/
def take : Outcome → State
  | .cancelled => s.handle
  | outcome => s.close outcome

/-- `asyncio.wait` returns while the application runs. -/
def watcherFirst : Option State :=
  match s.watcher with
  | .waiting | .reading => none
  | .failed outcome => some { s.tellApp with outer := .stopping outcome }
  | .cancelled => some { s.tellApp with outer := .stopping .cancelled }
  | .disconnected _ =>
    if s.responseComplete then some { s with outer := .awaitingApp }
    else some { s.tellApp with outer := .stopping .returned }

def resume : Option State :=
  match s.outer, s.app with
  | .waiting, .running => if s.pending then some s.handle else s.watcherFirst
  | .waiting, .ended outcome | .awaitingApp, .ended outcome =>
    if s.pending then some s.handle else some (s.take outcome)
  | .stopping next, .ended _ => if s.pending then some s.handle else some (s.take next)
  | .handling, .ended _ => some ({ s with pending := false }.close .cancelled)
  | .closing outcome, _ =>
    if s.watcher.done then
      some { s with outer := .finished (if s.pending then .cancelled else outcome) }
    else none
  | _, _ => none

/-- `Task.cancel` of the outer task, which passes it on to what is awaited. -/
def cancel : State :=
  match s.outer with
  | .waiting => { s with pending := true }
  | .awaitingApp => { s.tellApp with pending := s.app.done }
  | .stopping _ | .handling => { s.tellApp with pending := true }
  | .closing _ => { s with pending := true, watcherTold := s.watcherTold || !s.watcher.done }
  | .finished _ => s

end State

def step (s : State) : Event → Option State
  | .appReceive last =>
    if s.app.done then none else some { s with bodyRead := s.bodyRead || last }
  | .appSend last =>
    if s.app.done then none else some { s with responseComplete := s.responseComplete || last }
  | .appEnd outcome => if s.app.done then none else some { s with app := .ended outcome }
  | .watcherStart =>
    if s.watcher = .waiting ∧ s.bodyRead = true then some { s with watcher := .reading } else none
  | .watcherReceive disconnect =>
    if s.watcher = .reading then
      some (if disconnect then { s with watcher := .disconnected !s.responseComplete } else s)
    else none
  | .watcherFail outcome =>
    if s.watcher = .reading ∧ outcome ≠ .returned then some { s with watcher := .failed outcome }
    else none
  | .watcherCancelled =>
    if s.watcherTold ∧ s.watcher.done = false then some { s with watcher := .cancelled } else none
  | .cancel =>
    match s.outer with
    | .finished _ => none
    | _ => some { s.cancel with outerCancelled := true }
  | .resume => s.resume

/-! ### Safety -/

def State.Excused (s : State) : Prop :=
  s.watcher = .disconnected true ∨ (∃ outcome, s.watcher = .failed outcome) ∨
    s.outerCancelled = true

/-- **What holds when the middleware ends**, and before. -/
structure State.Safe (s : State) : Prop where
  done : ∀ outcome, s.outer = .finished outcome → s.app.done = true ∧ s.watcher.done = true
  excused : s.appTold = true → s.Excused
  propagates : ∀ outcome exception, s.outer = .finished outcome →
    s.app = .ended (.raised exception) → s.appTold = false → s.outerCancelled = false →
      outcome = .raised exception
  reads : s.watcher = .reading → s.bodyRead = true

/-- What the application has ended with is what the outer task ends with, or it was cancelled. -/
def State.Follows (s : State) (outcome : Outcome) : Prop :=
  s.appTold = true ∨ s.outerCancelled = true ∨ s.app = .ended outcome

def State.InOrder (s : State) : Prop :=
  match s.outer with
  | .waiting | .awaitingApp => True
  | .stopping _ => s.appTold = true
  | .handling => s.Follows .cancelled
  | .closing outcome => s.app.done = true ∧ s.Follows outcome
  | .finished outcome => s.app.done = true ∧ s.watcher.done = true ∧ s.Follows outcome

structure Inv (s : State) : Prop where
  inOrder : s.InOrder
  excused : s.appTold = true → s.Excused
  pending : s.pending = true → s.outerCancelled = true
  late : s.watcher = .disconnected false → s.responseComplete = true
  uncancelled : s.watcher = .cancelled → s.watcherTold = true
  closing : s.watcherTold = true → (∃ outcome, s.outer = .closing outcome) ∨
    ∃ outcome, s.outer = .finished outcome
  reads : s.watcher = .reading → s.bodyRead = true

variable {s t : State} {e : Event} {es : List Event} {outcome : Outcome}

/-- What is in order stays so while the outer task is suspended. -/
theorem State.InOrder.mono (h : s.InOrder) (hout : t.outer = s.outer)
    (htold : s.appTold = true → t.appTold = true)
    (hcand : s.outerCancelled = true → t.outerCancelled = true)
    (happ : ∀ outcome, s.app = .ended outcome → t.app = .ended outcome)
    (hwat : s.watcher.done = true → t.watcher.done = true) : t.InOrder := by
  have hd (h : s.app.done = true) : t.app.done = true := by
    rcases hs : s.app with _ | outcome
    · rw [hs] at h
      cases h
    · rw [happ outcome hs]
      rfl
  have hfol {outcome : Outcome} (h : s.Follows outcome) : t.Follows outcome :=
    h.imp htold (Or.imp hcand (happ outcome))
  unfold State.InOrder at h ⊢
  rw [hout]
  split at h
  · trivial
  · trivial
  · exact htold h
  · exact hfol h
  · exact ⟨hd h.1, hfol h.2⟩
  · exact ⟨hd h.1, hwat h.2.1, hfol h.2.2⟩

namespace Inv

theorem init : Inv {} := ⟨trivial, nofun, nofun, nofun, nofun, nofun, nofun⟩

/-- The watcher is told only when the outer task is about to end. -/
theorem untold (h : Inv s) (hclos : ∀ outcome, s.outer ≠ .closing outcome)
    (hfin : ∀ outcome, s.outer ≠ .finished outcome) : s.watcherTold = false := by
  by_contra htold
  rcases h.closing (Bool.not_eq_false _ ▸ htold) with ⟨outcome, ho⟩ | ⟨outcome, ho⟩
  · exact hclos outcome ho
  · exact hfin outcome ho

/-- The outer task tells the application, and is suspended. -/
theorem tell (h : Inv s) (hopen : s.watcherTold = false)
    (hexc : s.app.done = false → s.Excused) {outer : Outer} {pending : Bool}
    (hpen : pending = true → s.outerCancelled = true)
    (hord : State.InOrder { s.tellApp with outer := outer, pending := pending }) :
    Inv { s.tellApp with outer := outer, pending := pending } where
  inOrder := hord
  excused htold := by
    rcases Bool.or_eq_true_iff.mp htold with htold | hr
    · exact h.excused htold
    · exact hexc (by simpa using hr)
  pending := hpen
  late := h.late
  uncancelled := h.uncancelled
  closing htold := absurd htold (by simp [State.tellApp, hopen])
  reads := h.reads

theorem handle (h : Inv s) (hopen : s.watcherTold = false)
    (hwhy : s.outerCancelled = true ∨ s.app.done = true ∧ s.Follows .cancelled) :
    Inv s.handle := by
  refine h.tell hopen (fun hr => ?_) nofun ?_
  · rcases hwhy with hcand | ⟨hd, -⟩
    · exact Or.inr (Or.inr hcand)
    · exact absurd (hr.symm.trans hd) nofun
  · rcases hwhy with hcand | ⟨-, htold | hcand | happ⟩
    · exact Or.inr (Or.inl hcand)
    · exact Or.inl (by simp [State.tellApp, htold])
    · exact Or.inr (Or.inl hcand)
    · exact Or.inr (Or.inr happ)

theorem close (h : Inv s) (hd : s.app.done = true) (hfol : s.Follows outcome) :
    Inv (s.close outcome) where
  inOrder := ⟨hd, hfol⟩
  excused := h.excused
  pending := h.pending
  late := h.late
  uncancelled hwat := Bool.or_eq_true_iff.mpr (Or.inl (h.uncancelled hwat))
  closing _ := Or.inl ⟨outcome, rfl⟩
  reads := h.reads

theorem take (h : Inv s) (hopen : s.watcherTold = false) (hd : s.app.done = true)
    (hfol : s.Follows outcome) : Inv (s.take outcome) := by
  cases outcome with
  | returned => exact h.close hd hfol
  | raised exception => exact h.close hd hfol
  | cancelled => exact h.handle hopen (Or.inr ⟨hd, hfol⟩)

/-- The watcher has ended first: it gives a reason to cancel, or the response is complete. -/
theorem watcherFirst (h : Inv s) (happ : s.app = .running) (hopen : s.watcherTold = false)
    (hfst : s.watcherFirst = some t) : Inv t := by
  have htell (outer : Outcome) (hexc : s.Excused) :
      Inv { s.tellApp with outer := .stopping outer } := by
    refine h.tell hopen (fun _ => hexc) h.pending ?_
    show s.tellApp.appTold = true
    simp [State.tellApp, happ, App.done]
  unfold State.watcherFirst at hfst
  split at hfst
  · cases hfst
  · cases hfst
  · next outcome hwat =>
    cases hfst
    exact htell outcome (Or.inr (Or.inl ⟨outcome, hwat⟩))
  · next hwat => exact absurd (hopen.symm.trans (h.uncancelled hwat)) nofun
  · next early hwat =>
    split_ifs at hfst with hcom
    · cases hfst
      exact ⟨trivial, h.excused, h.pending, h.late, h.uncancelled,
        fun htold => absurd (hopen.symm.trans htold) nofun, h.reads⟩
    · cases hfst
      refine htell .returned (Or.inl ?_)
      cases early with
      | true => exact hwat
      | false => exact absurd (h.late hwat) hcom

theorem resume (h : Inv s) (hres : s.resume = some t) : Inv t := by
  have he {outcome : Outcome} (happ : s.app = .ended outcome) : s.app.done = true := by
    rw [happ]
    rfl
  have hord := h.inOrder
  unfold State.InOrder at hord
  unfold State.resume at hres
  split at hres
  · next hout happ =>
    have hopen := h.untold (by simp [hout]) (by simp [hout])
    split_ifs at hres with hpen
    · cases hres
      exact h.handle hopen (Or.inl (h.pending hpen))
    · exact h.watcherFirst happ hopen hres
  · next outcome hout happ =>
    have hopen := h.untold (by simp [hout]) (by simp [hout])
    split_ifs at hres with hpen
    · cases hres
      exact h.handle hopen (Or.inl (h.pending hpen))
    · cases hres
      exact h.take hopen (he happ) (Or.inr (Or.inr happ))
  · next outcome hout happ =>
    have hopen := h.untold (by simp [hout]) (by simp [hout])
    split_ifs at hres with hpen
    · cases hres
      exact h.handle hopen (Or.inl (h.pending hpen))
    · cases hres
      exact h.take hopen (he happ) (Or.inr (Or.inr happ))
  · next next _ hout happ =>
    have hopen := h.untold (by simp [hout]) (by simp [hout])
    simp only [hout] at hord
    split_ifs at hres with hpen
    · cases hres
      exact h.handle hopen (Or.inl (h.pending hpen))
    · cases hres
      exact h.take hopen (he happ) (Or.inl hord)
  · next hout happ =>
    simp only [hout] at hord
    cases hres
    have h' : Inv { s with pending := false } :=
      ⟨h.inOrder, h.excused, nofun, h.late, h.uncancelled, h.closing, h.reads⟩
    exact h'.close (he happ) hord
  · next outcome hout =>
    simp only [hout] at hord
    have hfin {outcome : Outcome} (hwat : s.watcher.done = true)
        (hfol : s.Follows outcome) : Inv { s with outer := .finished outcome } :=
      ⟨⟨hord.1, hwat, hfol⟩, h.excused, h.pending, h.late, h.uncancelled,
        fun _ => Or.inr ⟨outcome, rfl⟩, h.reads⟩
    split_ifs at hres with hwat hpen
    · cases hres
      exact hfin hwat (Or.inr (Or.inl (h.pending hpen)))
    · cases hres
      exact hfin hwat hord.2
  · cases hres

/-- A cancellation of the outer task is a reason for what it brings about. -/
theorem cancel (h : Inv s) (hfin : ∀ outcome, s.outer ≠ .finished outcome) :
    Inv { s.cancel with outerCancelled := true } := by
  have h' : Inv { s with outerCancelled := true } :=
    ⟨h.inOrder.mono rfl id (fun _ => rfl) (fun _ => id) id,
      fun htold => (h.excused htold).imp_right (Or.imp_right fun _ => rfl), fun _ => rfl, h.late,
      h.uncancelled, h.closing, h.reads⟩
  have htell {pending : Bool} (hopen : s.watcherTold = false) :
      Inv { State.tellApp { s with outerCancelled := true } with pending := pending } :=
    h'.tell hopen (fun _ => Or.inr (Or.inr rfl)) (fun _ => rfl)
      (h'.inOrder.mono rfl (fun htold => Bool.or_eq_true_iff.mpr (Or.inl htold))
        id (fun _ => id) id)
  unfold State.cancel
  split
  · exact ⟨h'.inOrder, h'.excused, fun _ => rfl, h.late, h.uncancelled, h.closing, h.reads⟩
  · next hout => exact htell (h.untold (by simp [hout]) (by simp [hout]))
  · next next hout => exact htell (h.untold (by simp [hout]) (by simp [hout]))
  · next hout => exact htell (h.untold (by simp [hout]) (by simp [hout]))
  · next outcome hout =>
    exact ⟨h'.inOrder, h'.excused, fun _ => rfl, h.late,
      fun hwat => Bool.or_eq_true_iff.mpr (Or.inl (h.uncancelled hwat)),
      fun _ => Or.inl ⟨outcome, hout⟩, h.reads⟩
  · next outcome hout => exact absurd hout (hfin outcome)

theorem watch (h : Inv s) (hr : s.watcher.done = false) {watcher : Watcher}
    (hlate : watcher = .disconnected false → s.responseComplete = true)
    (hunc : watcher = .cancelled → s.watcherTold = true)
    (hreads : watcher = .reading → s.bodyRead = true) : Inv { s with watcher := watcher } := by
  refine ⟨h.inOrder.mono rfl id id (fun _ => id) fun hd => ?_, fun htold => ?_, h.pending, hlate,
    hunc, h.closing, hreads⟩
  · cases hr.symm.trans hd
  · rcases h.excused htold with hwat | ⟨outcome, hwat⟩ | hcand
    · rw [hwat] at hr
      cases hr
    · rw [hwat] at hr
      cases hr
    · exact Or.inr (Or.inr hcand)

/-- **Every step keeps the tasks in order.** -/
theorem step (h : Inv s) (hs : step s e = some t) : Inv t := by
  cases e with
  | appReceive last =>
    simp only [Disconnect.step] at hs
    split_ifs at hs
    cases hs
    refine ⟨h.inOrder, h.excused, h.pending, h.late, h.uncancelled, h.closing, fun hrd => ?_⟩
    exact Bool.or_eq_true_iff.mpr (Or.inl (h.reads hrd))
  | appSend last =>
    simp only [Disconnect.step] at hs
    split_ifs at hs
    cases hs
    refine ⟨h.inOrder, h.excused, h.pending, fun hlate => ?_, h.uncancelled, h.closing, h.reads⟩
    exact Bool.or_eq_true_iff.mpr (Or.inl (h.late hlate))
  | appEnd outcome =>
    simp only [Disconnect.step] at hs
    split_ifs at hs with hr
    cases hs
    have hord : State.InOrder { s with app := .ended outcome } :=
      h.inOrder.mono rfl id id (fun _ happ => by simp [happ, App.done] at hr) id
    exact ⟨hord, h.excused, h.pending, h.late, h.uncancelled, h.closing, h.reads⟩
  | watcherStart =>
    obtain ⟨hready, rfl⟩ := of_guard hs
    exact h.watch (by rw [hready.1]; rfl) nofun nofun fun _ => hready.2
  | watcherReceive disconnect =>
    simp only [Disconnect.step] at hs
    split_ifs at hs with hrd hdis
    · cases hs
      refine h.watch (by rw [hrd]; rfl) (fun hlate => ?_) nofun nofun
      simpa using hlate
    · cases hs
      exact h
  | watcherFail outcome =>
    obtain ⟨hrd, rfl⟩ := of_guard hs
    exact h.watch (by rw [hrd.1]; rfl) nofun nofun nofun
  | watcherCancelled =>
    obtain ⟨htold, rfl⟩ := of_guard hs
    exact h.watch htold.2 nofun (fun _ => htold.1) nofun
  | cancel =>
    simp only [Disconnect.step] at hs
    split at hs
    · cases hs
    · next hfin =>
      cases hs
      exact h.cancel hfin
  | resume => exact h.resume hs

theorem safe (h : Inv s) : s.Safe := by
  have hord := h.inOrder
  unfold State.InOrder at hord
  refine ⟨fun outcome hout => ?_, h.excused, fun outcome exception hout happ htold hcand => ?_,
    h.reads⟩
  · simp only [hout] at hord
    exact ⟨hord.1, hord.2.1⟩
  · simp only [hout] at hord
    rcases hord.2.2 with htold' | hcand' | heq
    · cases htold.symm.trans htold'
    · cases hcand.symm.trans hcand'
    · exact App.ended.inj (heq.symm.trans happ)

end Inv

/-- **No request outlives its client**, and none is cancelled that the client waits for, in whatever
order the tasks take their steps. -/
theorem safe_of_run (hrun : run step {} es = some s) : s.Safe :=
  (run_invariant (fun _ _ _ h hs => h.step hs) Inv.init hrun).safe

/-- The client disconnects while the application works; the outer task is cancelled twice while it
waits for the application to end. -/
def cancelledTwice : List Event :=
  [.appReceive true, .watcherStart, .watcherReceive true, .resume, .cancel, .cancel,
    .appEnd .cancelled, .resume, .resume, .resume]

theorem safe_of_run_cancelledTwice :
    ∃ s, run step {} cancelledTwice = some s ∧ s.outer = .finished .cancelled ∧ s.Safe := by
  have hr : run step {} cancelledTwice = some _ := rfl
  exact ⟨_, hr, rfl, safe_of_run hr⟩

/-- **An exception of the application is lost**: it is to be raised when the watcher has ended, and
the outer task is cancelled until then. -/
theorem exception_lost : ¬∀ es s, run step {} es = some s →
    ∀ outcome exception, s.outer = .finished outcome → s.app = .ended (.raised exception) →
      s.appTold = false → outcome = .raised exception := by
  intro h
  have hlost := h [.appEnd (.raised 0), .resume, .cancel, .watcherCancelled, .resume] _ rfl
    .cancelled 0 rfl rfl rfl
  cases hlost

end ArchonSearch.Server.Disconnect
