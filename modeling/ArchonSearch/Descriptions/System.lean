import ArchonSearch.Descriptions.Guarded

/-!
# The writers of a row side by side

Any number of calls run against the metadata row of one collection, its lock, and what the process
keeps in memory beside it: the version of the description, the run in flight, the failure that
could not be stored. An event gives one call the answer to the operation it asks for (`step`);
every operation is an event of its own, so whatever can happen between two awaits can happen
between two events.

The state also keeps a history that no call looks at: what the row was when a run last read it,
whether it has been changed since, and how the runs have ended.

The lock, the copies that its holder works on and that history hang together (`Inv`), in every
state that can be reached (`Reachable.coherent`).
-/

namespace ArchonSearch.Descriptions

open Lib Async Function

variable {ι : Type} {n : ℕ} {τ : Type}

/-! ### States -/

structure Ended (ι : Type) where
  run : ι
  result : GenerationResult
  (asked wrote : Bool)
  deriving DecidableEq

/-- The row, its lock, and what the process keeps beside them. -/
structure World (ι : Type) (n : ℕ) (τ : Type) where
  row : Option (CollectionMeta n τ)
  holder : Option ι
  /-- `description_version`. -/
  version : ℕ
  /-- The collection is in `_in_flight`, and for which run. -/
  inFlight : Option ι
  /-- `job.version`, of each run. -/
  jobVersion : ι → Option ℕ
  /-- `_unstored_failures` at the collection. -/
  unstoredFailure : Option ℕ
  call : ι → Option (Call n τ)
  owed : ℕ
  started : ι → Option (ExpectedState τ)
  overtaken : ι → Bool
  readAt : ι → ℕ
  (asked wrote : ι → Bool)
  settled : ι → Option GenerationResult
  ended : List (Ended ι)

abbrev State (ι : Type) (n : ℕ) (τ : Type) : Type := World ι n τ × (ι → Program n τ Unit)

def World.init (row : Option (CollectionMeta n τ)) : World ι n τ where
  row := row
  holder := none
  version := 0
  inFlight := none
  jobVersion _ := none
  unstoredFailure := none
  call _ := none
  owed := 0
  started _ := none
  overtaken _ := false
  readAt _ := 0
  asked _ := false
  wrote _ := false
  settled _ := none
  ended := []

def State.init (row : Option (CollectionMeta n τ)) : State ι n τ := (.init row, fun _ => .ret ())

def World.changes (w : World ι n τ) : ℕ := w.version + w.owed

/-! ### Operations -/

inductive Reply (n : ℕ) (τ : Type) where
  | done
  | raises : Raised → Reply n τ
  | timedOut
  | flag : Bool → Reply n τ
  | vectors : List (Store.Centroid.Vec n) → Reply n τ
  | number : ℕ → Reply n τ
  | time : τ → Reply n τ
  | generated : DescriptionOutcome → Reply n τ

section Operations

variable [DecidableEq ι] [DecidableEq τ]

def World.reads (w : World ι n τ) (i : ι) : World ι n τ :=
  { w with
    started := update w.started i (some (described w.row))
    overtaken := update w.overtaken i false
    readAt := update w.readAt i w.changes
    wrote := update w.wrote i false }

omit [DecidableEq ι] in
def World.replaceRow (w : World ι n τ) (row : Option (CollectionMeta n τ)) : World ι n τ :=
  { w with
    row := row
    overtaken := fun j => w.overtaken j || decide (described row ≠ described w.row) }

def World.write (w : World ι n τ) (i : ι) (counted : Bool) (row : CollectionMeta n τ) :
    World ι n τ :=
  if counted then
    { w.replaceRow (some row) with owed := w.owed + 1, wrote := update w.wrote i true }
  else w.replaceRow (some row)

omit [DecidableEq ι] [DecidableEq τ] in
/-- `_remember_unstored_failure`: an entry that is not current is dropped, and one is made for
the run. -/
def World.remember (w : World ι n τ) (i : ι) : World ι n τ :=
  { w with
    unstoredFailure := (w.jobVersion i).or (w.unstoredFailure.filter fun v => v = w.version) }

omit [DecidableEq τ] in
/-- `_finish`. -/
def World.finish (w : World ι n τ) (i : ι) (settlement : GenerationSettlement) : World ι n τ :=
  { w with
    inFlight := none
    settled := update w.settled i (some settlement.result)
    ended := ⟨i, settlement.result, w.asked i, w.wrote i⟩ :: w.ended }

def World.exec (i : ι) (op : Op n τ) (reply : Reply n τ) (w : World ι n τ) :
    Option (Except Raised (Ans op) × World ι n τ) :=
  match op, reply with
  | .readRow, .raises e => some (.error e, w.reads i)
  | .generate, .raises e => some (.error e, { w with asked := update w.asked i true })
  | op, .raises e => if op.mayRaise e then some (.error e, w) else none
  | .getCollectionMeta, .done => some (.ok w.row, w)
  | .readRow, .done => some (.ok w.row, w.reads i)
  | .readMetaUnlocked, .done => some (.ok w.row, w)
  | .acquire, .done =>
    if w.holder = none then some (.ok true, { w with holder := some i }) else none
  | .acquire, .timedOut => some (.ok false, w)
  | .release, .done => some (.ok (), { w with holder := none })
  | .merge counted row, .done => some (.ok (), w.write i counted row.stored)
  | .bumpDescriptionVersion, .done =>
    some (.ok (), { w with version := w.version + 1, owed := w.owed - 1 })
  | .deleteLegacy, .done => some (.ok (), w)
  | .deleteRow, .done => some (.ok (), { w.replaceRow none with owed := w.owed + 1 })
  | .embedOne _ _, .flag storable => some (.ok storable, w)
  | .readVectors, .vectors vectors => some (.ok vectors, w)
  | .count, .number number => some (.ok number, w)
  | .writeChunks, .done => some (.ok (), w)
  | .jobIsActive, .flag active => some (.ok active, w)
  | .now, .time now => some (.ok now, w)
  | .granted, .done => some (.ok (), w)
  | .generate, .generated outcome =>
    some (.ok outcome, { w with asked := update w.asked i true })
  | .takeVersion, .done =>
    some (.ok (), { w with jobVersion := update w.jobVersion i (some w.version) })
  | .versionHolds, .done => some (.ok (decide (w.jobVersion i = some w.version)), w)
  | .rememberUnstoredFailure, .done => some (.ok (), w.remember i)
  | .finish settlement, .done => some (.ok (), w.finish i settlement)
  | _, _ => none

/-! ### Events -/

/-- A call begins, or an operation of it is answered. -/
inductive Event (ι : Type) (n : ℕ) (τ : Type) where
  | start : ι → Call n τ → Event ι n τ
  | step : ι → Reply n τ → Event ι n τ
  | otherFailure

section
omit [DecidableEq τ]

def World.accept (w : World ι n τ) (i : ι) (call : Call n τ) : World ι n τ :=
  { w with
    call := update w.call i (some call)
    inFlight := if IsRun (some call) then some i else w.inFlight }

@[simp] theorem World.accept_call_self (w : World ι n τ) (i : ι) (call : Call n τ) :
    (w.accept i call).call i = some call :=
  update_self ..

theorem World.accept_call_of_ne (w : World ι n τ) {i j : ι} (hj : j ≠ i) (call : Call n τ) :
    (w.accept i call).call j = w.call j :=
  update_of_ne hj ..

end

omit [DecidableEq ι] [DecidableEq τ] in
/-- `_remember_unstored_failure` for another collection: an entry that is not current is
dropped. -/
def World.forget (w : World ι n τ) : World ι n τ :=
  { w with unstoredFailure := w.unstoredFailure.filter fun v => v = w.version }

/-- The state an event leads to. A generation is accepted only if none of the collection is in
flight. -/
def step (defaultModel : String) (s : State ι n τ) : Event ι n τ → Option (State ι n τ)
  | .start i call =>
    if s.1.call i = none ∧ (IsRun (some call) → s.1.inFlight = none) then
      some (s.1.accept i call, update s.2 i (call.program defaultModel))
    else none
  | .step i reply => advance World.exec s i reply
  | .otherFailure => some (s.1.forget, s.2)

end Operations

end ArchonSearch.Descriptions
