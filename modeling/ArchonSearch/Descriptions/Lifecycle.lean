import ArchonSearch.Descriptions.Programs
import ArchonSearch.Descriptions.Slot

/-!
# The requests and tasks of the generations

What `DescriptionLifecycle` does on the event loop, over all collections: it answers requests, runs
a task for each request that it accepts, and ends those tasks when it shuts down. An event
(`LifecycleEvent`) is what happens between two awaits of one of its functions, or a call from
outside: a cancellation, or the end of the service.

A task waits for its future, drafts while it holds the slot, and lands what it has drafted. What
the awaits of a draft and of a landing answer is left open, and so is their number; an answer may
be an exception, or a cancellation. A task that is cancelled before its first step never runs,
and what there is to clean up is left to its callback.
-/

namespace ArchonSearch.Descriptions

variable {ι ρ κ : Type} {n : ℕ} {τ : Type}

/-! ### States -/

/-- `RequestOutcome`. -/
inductive RequestOutcome where
  | accepted
  | alreadyRunning
  | refusedManual
  | notRequired
  | queueFull
  | closed
  | unreadable

inductive Ticket where
  | pending
  | settled : GenerationSettlement → Ticket
  | cancelled

/-- `if not settled.done(): settled.set_result(…)`. -/
def Ticket.settle (settlement : GenerationSettlement) : Ticket → Ticket
  | .pending => .settled settlement
  | ticket => ticket

/-- `settled.cancel()`. -/
def Ticket.cancel : Ticket → Ticket
  | .pending => .cancelled
  | ticket => ticket

inductive TaskState where
  | created (mustCancel : Bool)
  /-- At `await job.granted`; whether it is to be cancelled when it wakes up. -/
  | waiting (mustCancel : Bool)
  /-- At an await of `_draft`, with the slot. -/
  | drafting
  /-- At an await of `_land`. -/
  | landing
  | ended
  | gone
  deriving DecidableEq

/-- `_Job`, with its task. -/
structure Job (κ : Type) where
  collection : κ
  kind : GenerationKind
  settled : Ticket := .pending
  finished : Bool := false
  task : TaskState := .created false
  released : Bool := false
  finishes : ℕ := 0

inductive Request (ι κ : Type) where
  | unmade
  | reading : κ → GenerationKind → Request ι κ
  | resolved : RequestOutcome → GenerationSettlement → Request ι κ
  | accepted : ι → Request ι κ
  | cancelled

/-- `DescriptionLifecycle`, with the requests that have been made. -/
structure Lifecycle (ι ρ κ : Type) where
  slot : GenerationSlot ι := {}
  inFlight : Finset κ := ∅
  closed : Bool := false
  /-- Whether the `_last_attempt` was `ok`. -/
  lastAttempt : Option Bool := none
  /-- The jobs, and those of `_tasks` among them whose task is not gone. -/
  jobs : ι → Option (Job κ) := fun _ => none
  requests : ρ → Request ι κ := fun _ => .unmade

/-- `_SLOT_RANK`. -/
def slotRank : GenerationKind → ℕ
  | .describe => 0
  | .ingest => 1
  | .backfill => 2

/-- `_OUTCOME_OF_REFUSAL`. -/
def outcomeOfRefusal : GenerationResult → RequestOutcome
  | .refusedManual => .refusedManual
  | _ => .notRequired

namespace Lifecycle

variable [DecidableEq ι] [DecidableEq ρ] [DecidableEq κ]

/-! ### Jobs -/

def updateJob (s : Lifecycle ι ρ κ) (i : ι) (f : Job κ → Job κ) : Lifecycle ι ρ κ :=
  { s with jobs := Function.update s.jobs i ((s.jobs i).map f) }

/-- `_slot.release(job.granted)`. -/
def release (s : Lifecycle ι ρ κ) (i : ι) : Lifecycle ι ρ κ :=
  { s.updateJob i fun job => { job with released := true } with slot := s.slot.release i }

/-- `_finish`. -/
def finish (s : Lifecycle ι ρ κ) (i : ι) (settlement : GenerationSettlement) : Lifecycle ι ρ κ :=
  match s.jobs i with
  | none => s
  | some job =>
    if job.finished then s
    else
      let finished := { s with inFlight := s.inFlight.erase job.collection }.release i
      { finished.updateJob i fun job =>
          { job with
            finished := true
            settled := job.settled.settle settlement
            finishes := job.finishes + 1 } with
        lastAttempt :=
          if settlement.result = .generated ∨ settlement.result = .failed then
            some (settlement.result = .generated)
          else s.lastAttempt }

def endTask (s : Lifecycle ι ρ κ) (i : ι) : Lifecycle ι ρ κ :=
  s.updateJob i fun job => { job with task := .ended }

/-- `_draft` returns or raises, and what it settles ends the task. -/
def endDraft (s : Lifecycle ι ρ κ) (i : ι) (settlement : GenerationSettlement) :
    Lifecycle ι ρ κ :=
  ((s.release i).finish i settlement).endTask i

/-! ### Requests -/

def answer (s : Lifecycle ι ρ κ) (r : ρ) (request : Request ι κ) : Lifecycle ι ρ κ :=
  { s with requests := Function.update s.requests r request }

/-- `_refused_without_reading`. -/
def refusedWithoutReading (s : Lifecycle ι ρ κ) (collection : κ) :
    Option (RequestOutcome × GenerationSettlement) :=
  if s.closed then some (.closed, shutdown)
  else if collection ∈ s.inFlight then
    some (.alreadyRunning, ⟨.alreadyRunning, none, none⟩)
  else none

/-- The settlement of `_queue_full`. -/
def queueFull (maxQueued : ℕ) : GenerationKind → GenerationSettlement
  | .describe =>
    ⟨.failed, some s!"the generation queue is full ({maxQueued} waiting); try again later", none⟩
  | _ => ⟨.dropped, none, none⟩

/-- `_admit`, for a job that is new. -/
def admitJob (maxQueued : ℕ) (s : Lifecycle ι ρ κ) (r : ρ) (i : ι) (collection : κ)
    (kind : GenerationKind) : Lifecycle ι ρ κ :=
  if s.slot.isFull maxQueued then s.answer r (.resolved .queueFull (queueFull maxQueued kind))
  else
    { s.answer r (.accepted i) with
      slot := s.slot.reserve i (slotRank kind)
      inFlight := insert collection s.inFlight
      jobs := Function.update s.jobs i (some { collection := collection, kind := kind }) }

/-- `request_generation` up to the read of the row. -/
def request (s : Lifecycle ι ρ κ) (r : ρ) (collection : κ) (kind : GenerationKind) :
    Lifecycle ι ρ κ :=
  match s.refusedWithoutReading collection with
  | some (outcome, settlement) => s.answer r (.resolved outcome settlement)
  | none => s.answer r (.reading collection kind)

/-- `request_generation` from the answer of the read on. -/
def requestRead (maxQueued : ℕ) (s : Lifecycle ι ρ κ) (r : ρ) (i : ι) (collection : κ)
    (kind : GenerationKind) :
    Except Raised (Option (CollectionMeta n τ)) → Lifecycle ι ρ κ
  | .error .cancelled => s.answer r .cancelled
  | .error (.error typeName) =>
    s.answer r (.resolved .unreadable
      ⟨.failed, some s!"the collection could not be read ({typeName})", none⟩)
  | .ok found =>
    match s.refusedWithoutReading collection with
    | some (outcome, settlement) => s.answer r (.resolved outcome settlement)
    | none =>
      match found with
      | none => s.answer r (.resolved .notRequired ⟨.notRequired, none, none⟩)
      | some row =>
        match refusal kind row with
        | some refused => s.answer r (.resolved (outcomeOfRefusal refused) ⟨refused, none, none⟩)
        | none => s.admitJob maxQueued r i collection kind

/-! ### Tasks -/

def wake (s : Lifecycle ι ρ κ) (i : ι) : Option (Lifecycle ι ρ κ) :=
  let moves (task : TaskState) := some (s.updateJob i fun job => { job with task := task })
  match (s.jobs i).map Job.task with
  | some (.created true) => some (s.endTask i)
  | some (.created false) =>
    match s.slot.granted i with
    | .done => moves .drafting
    | .pending => moves (.waiting false)
    | .cancelled => some (s.endDraft i shutdown)
  | some (.waiting mustCancel) =>
    match s.slot.granted i, mustCancel with
    | .pending, _ => none
    | .done, false => moves .drafting
    | .done, true => some (s.endDraft i shutdown)
    | .cancelled, _ => some (s.endDraft i shutdown)
  | _ => none

inductive DraftStep where
  | goesOn
  | settles : GenerationSettlement → DraftStep
  | drafts
  | raises : Raised → DraftStep

/-- What `_run` settles when an await has raised. -/
def settlementOf : Raised → GenerationSettlement
  | .error typeName => ⟨.failed, some s!"unexpected {typeName}", none⟩
  | .cancelled => shutdown

def draft (s : Lifecycle ι ρ κ) (i : ι) (x : DraftStep) : Option (Lifecycle ι ρ κ) :=
  if (s.jobs i).map Job.task = some .drafting then
    match x with
    | .goesOn => some s
    | .settles settlement => some (s.endDraft i settlement)
    | .drafts => some ((s.release i).updateJob i fun job => { job with task := .landing })
    | .raises e => some (s.endDraft i (settlementOf e))
  else none

inductive LandStep where
  | goesOn
  | settles : GenerationSettlement → LandStep
  | raises : Raised → LandStep

def land (s : Lifecycle ι ρ κ) (i : ι) (x : LandStep) : Option (Lifecycle ι ρ κ) :=
  if (s.jobs i).map Job.task = some .landing then
    match x with
    | .goesOn => some s
    | .settles settlement => some ((s.finish i settlement).endTask i)
    | .raises e => some ((s.finish i (settlementOf e)).endTask i)
  else none

/-- `_on_task_done`. -/
def onTaskDone (s : Lifecycle ι ρ κ) (i : ι) : Option (Lifecycle ι ρ κ) :=
  if (s.jobs i).map Job.task = some .ended then
    some ((s.updateJob i fun job => { job with task := .gone }).finish i shutdown)
  else none

/-! ### Cancellations -/

/-- `task.cancel()`: a task that waits for a future that is pending cancels it, and any other is
cancelled at its next step; at another await, what that await raises is left to it. -/
def cancelled (granted : Granted) (job : Job κ) : Job κ :=
  match job.task with
  | .created _ => { job with task := .created true }
  | .waiting mustCancel =>
    { job with task := .waiting (mustCancel || decide (granted ≠ .pending)) }
  | _ => job

def grantedAfter (granted : Granted) : Option (Job κ) → Granted
  | some job =>
    match job.task with
    | .waiting _ => granted.cancel
    | _ => granted
  | none => granted

def cancelTasks (s : Lifecycle ι ρ κ) (which : ι → Bool) : Lifecycle ι ρ κ :=
  { s with
    jobs := fun i =>
      if which i then (s.jobs i).map (cancelled (s.slot.granted i)) else s.jobs i
    slot := { s.slot with
      granted := fun i =>
        if which i then grantedAfter (s.slot.granted i) (s.jobs i) else s.slot.granted i } }

end Lifecycle

/-! ### Events -/

inductive LifecycleEvent (ι ρ κ : Type) (n : ℕ) (τ : Type) where
  | request : ρ → κ → GenerationKind → LifecycleEvent ι ρ κ n τ
  | read : ρ → Except Raised (Option (CollectionMeta n τ)) → ι → LifecycleEvent ι ρ κ n τ
  | wake : ι → LifecycleEvent ι ρ κ n τ
  | draft : ι → Lifecycle.DraftStep → LifecycleEvent ι ρ κ n τ
  | land : ι → Lifecycle.LandStep → LifecycleEvent ι ρ κ n τ
  | onTaskDone : ι → LifecycleEvent ι ρ κ n τ
  | cancelTask : ι → LifecycleEvent ι ρ κ n τ
  | cancelTicket : ι → LifecycleEvent ι ρ κ n τ
  | close
  /-- `drain`: close, and cancel every task. -/
  | drain

def Lifecycle.step [DecidableEq ι] [DecidableEq ρ] [DecidableEq κ] (maxQueued : ℕ)
    (s : Lifecycle ι ρ κ) : LifecycleEvent ι ρ κ n τ → Option (Lifecycle ι ρ κ)
  | .request r collection kind =>
    match s.requests r with
    | .unmade => some (s.request r collection kind)
    | _ => none
  | .read r answer i =>
    match s.requests r, s.jobs i with
    | .reading collection kind, none =>
      some (s.requestRead maxQueued r i collection kind answer)
    | _, _ => none
  | .wake i => s.wake i
  | .draft i x => s.draft i x
  | .land i x => s.land i x
  | .onTaskDone i => s.onTaskDone i
  | .cancelTask i => some (s.cancelTasks fun j => decide (j = i))
  | .cancelTicket i =>
    some (s.updateJob i fun job => { job with settled := job.settled.cancel })
  | .close => some { s with closed := true }
  | .drain => some ({ s with closed := true }.cancelTasks fun _ => true)

end ArchonSearch.Descriptions
