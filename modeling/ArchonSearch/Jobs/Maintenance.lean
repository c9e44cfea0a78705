import Mathlib.Algebra.Ring.Int.Defs
import ArchonSearch.Lib.Calls
import ArchonSearch.Py.Json

/-!
# One maintenance pass

`MaintenanceLoop._run_one_pass` reads its state file, asks the store for the collections, runs its
steps for each of them, then the steps of the pass as a whole, and writes the state file. Nearly
every call has an `except Exception` of its own: a step that fails leaves a mark in the health
entry of its collection, and the pass goes on.

The calls outside every such boundary are few, and they are what this module is about. Reading the
state file catches `OSError` and `JSONDecodeError` around `read_text`, but neither what `exists`
raises before it nor a text that is not UTF-8; what the file says about a collection is used as an
object without a look at it; two sums of times can leave the calendar; and the final write is not
caught at all. `Spared` excludes these, and a pass returns exactly then (`returns_runOnePass_iff`).
Under the same condition every step runs for every collection, and so does every step of the pass,
whatever the others answer (`makes_runOnePass`).
-/

namespace ArchonSearch.Jobs.Maintenance

open Lib Py List Calls

/-! ### What is called -/

inductive Exc where
  /-- An `OSError`. -/
  | osError
  /-- A `json.JSONDecodeError`. -/
  | jsonDecodeError
  /-- Any other one; a `UnicodeDecodeError` is neither of these. -/
  | other

structure Info where
  name : String
  /-- `namespace`. -/
  ns : String

/-- `f"{ns}/{col}"`. -/
def Info.key (info : Info) : String := info.ns ++ "/" ++ info.name

structure Meta where
  info : Info
  (chunkCount mutationsSinceRecompute : ℤ)

/-- A policy, as seen by the pass: it works on the health entry of the collection, which keeps
what was done to it when the policy raises. -/
abbrev Policy (α : Type) := Row → Except Exc α × Row

/-- The policies of a collection with a label and a failure text of their own, in their order. -/
inductive PolicyName where
  | ftsOptimize
  | orphanCleanup
  | expiredChunkPruning
  | graphGc

def PolicyName.label : PolicyName → String
  | .ftsOptimize => "fts_optimize"
  | .orphanCleanup => "orphan_cleanup"
  | .expiredChunkPruning => "expired_chunk_pruning"
  | .graphGc => "graph_gc"

/-- `_policy_failed_detail`. -/
def PolicyName.failedDetail (p : PolicyName) : String :=
  p.label ++ " failed; see the server log for details"

structure Visit where
  info : Info
  getCollectionMeta : Except Exc (Option Meta)
  (runFtsOptimize runOrphanCleanup runExpiredChunkPruning : Policy Unit)
  /-- `_run_collection_graph_gc`, with the count of stale mentions. -/
  runCollectionGraphGc : Policy ℤ
  /-- `_consume_completed_rebuild`, which looks into a dictionary of the loop. -/
  consumeCompletedRebuild : Bool

inductive VersionedStore where
  | search
  | graph

structure Env where
  /-- `datetime.now`, in microseconds since the first day of the calendar. -/
  now : ℕ
  /-- `_state_file.exists()`. -/
  stateExists : Except Exc Bool
  /-- `json.loads` of the text of the state file. -/
  stateJson : Except Exc Json
  /-- `list_collections`, with what the later calls for each collection answer. -/
  listCollections : Except Exc (List Visit)
  getAllCollectionsMeta : Except Exc (List Meta)
  drainCommunitiesPendingRebuild : Except Exc Unit
  /-- `prune_versions` of a store. -/
  pruneVersions : VersionedStore → Except Exc Unit
  /-- `_run_failed_ingest_retry`, which works on the health entries. -/
  runFailedIngestRetry : Json → Except Exc Unit × Json
  /-- `ensure_private_dir` and `atomic_write_json` for the state file. -/
  writeState : Except Exc Unit

structure Config where
  intervalHours : ℕ
  exclude : List String
  (pruneExpiredChunks graphGc : Bool)
  versionRetentionHours : ℕ
  hasGraphStore : Bool

/-- `_is_excluded`. -/
def Config.isExcluded (c : Config) (info : Info) : Bool :=
  c.exclude.any fun pattern =>
    if pattern.toList.contains '/' then pattern == info.key else pattern == info.name

/-- `_graph_gc_active`. -/
def Config.graphGcActive (c : Config) : Bool := c.hasGraphStore && c.graphGc

/-- The stores of `_run_version_cleanup`. -/
def Config.versionedStores (c : Config) : List VersionedStore :=
  if c.hasGraphStore then [.search, .graph] else [.search]

/-! ### The state file -/

/-- The content of the state file; the times are in microseconds, as `now` is. -/
structure PassState where
  (lastRunAt nextRunAt collectionHealth lastExpiredPrunedAt lastGraphGcAt : Json)
  staleMentionCount : Json

/-- `_EMPTY_STATE`. -/
def emptyState : PassState := ⟨.null, .null, .obj [], .null, .null, .int 0⟩

/-- `_EMPTY_HEALTH_ENTRY`. -/
def emptyHealthEntry : Row :=
  [("fts_optimized_at", .null), ("orphans_removed_last_run", .int 0), ("last_retry_at", .null),
    ("last_error", .null), ("meta_chunk_count", .int 0),
    ("expired_chunks_removed_last_run", .int 0), ("communities_invalidated", .bool false)]

def stateOf (raw : Row) : PassState where
  lastRunAt := raw.getD "last_run_at" .null
  nextRunAt := raw.getD "next_run_at" .null
  collectionHealth := raw.getD "collection_health" (.obj [])
  lastExpiredPrunedAt := raw.getD "last_expired_pruned_at" .null
  lastGraphGcAt := raw.getD "last_graph_gc_at" .null
  staleMentionCount := raw.getD "stale_mention_count" (.int 0)

/-- `_load_state`. -/
def loadState (e : Env) : Except Exc PassState :=
  match e.stateExists with
  | .error exc => .error exc
  | .ok false => .ok emptyState
  | .ok true =>
    match e.stateJson with
    | .error .other => .error .other
    | .error _ => .ok emptyState
    | .ok (.obj raw) => .ok (stateOf raw)
    | .ok _ => .ok emptyState

/-- `health.get(key, dict(_EMPTY_HEALTH_ENTRY))`, used as a dictionary. -/
def healthEntry (health : Json) (key : String) : Except Exc Row :=
  match health with
  | .obj entries =>
    match Row.getD entries key (.obj emptyHealthEntry) with
    | .obj entry => .ok entry
    | _ => .error .other
  | _ => .error .other

/-- `health[key] = entry`. -/
def setHealthEntry (health : Json) (key : String) (entry : Row) : Json :=
  match health with
  | .obj entries => .obj (Row.set entries key (.obj entry))
  | other => other

/-! ### Times -/

/-- The hours that a `timedelta` holds at most. -/
def maxTimedeltaHours : ℕ := 23999999999

/-- `datetime.max`. -/
def maxDatetime : ℕ := 315537897599999999

/-- `timedelta(hours=hours)`, in microseconds. -/
def timedelta (hours : ℕ) : Except Exc ℕ :=
  if hours ≤ maxTimedeltaHours then .ok (hours * 3600000000) else .error .other

/-- `next_run_at`. -/
def nextRunAt (c : Config) (now : ℕ) : Except Exc Json :=
  if c.intervalHours = 0 then .ok .null
  else do
    let delta ← timedelta c.intervalHours
    if now + delta ≤ maxDatetime then .ok (.int (now + delta)) else .error .other

/-! ### The pass -/

inductive Call where
  | loadState
  | listCollections
  | getCollectionMeta : Info → Call
  | policy : PolicyName → Info → Call
  | consumeCompletedRebuild : Info → Call
  | getAllCollectionsMeta
  | drainCommunitiesPendingRebuild
  | pruneVersions : VersionedStore → Call
  | runFailedIngestRetry
  | saveState

abbrev Pass := Calls Call Exc

/-- A policy within its boundary: a failure becomes the `last_error` of the entry. -/
def runPolicy (name : PolicyName) (info : Info) (policy : Policy Unit) (entry : Row) :
    Pass Row := do
  let answer ← attempt (call (.policy name info) (policy entry).1)
  match answer with
  | .ok _ => pure (policy entry).2
  | .error _ => pure ((policy entry).2.set "last_error" (.str name.failedDetail))

def counts : Except Exc (Option Meta) → ℤ × ℤ
  | .ok (some m) => (m.chunkCount, m.mutationsSinceRecompute)
  | _ => (0, 0)

/-- The health entry, after the graph was looked after; and the stale mentions that were found. -/
def runGraphPolicy (c : Config) (v : Visit) (entry : Row) : Pass (Row × List ℤ) :=
  if c.graphGcActive then do
    let answer ← attempt (call (.policy .graphGc v.info) (v.runCollectionGraphGc entry).1)
    match answer with
    | .ok n => pure ((v.runCollectionGraphGc entry).2, [n])
    | .error _ =>
      pure ((v.runCollectionGraphGc entry).2.set "last_error"
        (.str PolicyName.graphGc.failedDetail), [])
  else do
    let consumed ← call (.consumeCompletedRebuild v.info) (.ok v.consumeCompletedRebuild)
    pure (if consumed then entry.set "communities_invalidated" (.bool false) else entry, [])

/-- What is done for one listed collection, given the health entries and the stale counts so
far. -/
def visit (c : Config) (acc : Json × List ℤ) (v : Visit) : Pass (Json × List ℤ) :=
  if c.isExcluded v.info then pure acc
  else do
    let entry ← compute (healthEntry acc.1 v.info.key)
    let entry := entry.set "last_error" .null
    let answer ← attempt (call (.getCollectionMeta v.info) v.getCollectionMeta)
    let entry := (entry.set "meta_chunk_count" (.int (counts answer).1)).set
      "mutations_since_recompute" (.int (counts answer).2)
    let entry ← runPolicy .ftsOptimize v.info v.runFtsOptimize entry
    let entry ← runPolicy .orphanCleanup v.info v.runOrphanCleanup entry
    let entry ← runPolicy .expiredChunkPruning v.info v.runExpiredChunkPruning entry
    let (entry, stale) ← runGraphPolicy c v entry
    pure (setHealthEntry acc.1 v.info.key entry, acc.2 ++ stale)

/-- The health entries of the collections without a table; an entry that cannot be used ends the
loop, and those before it stay. -/
def backfill (c : Config) (visited : List String) : List Meta → Json → Json
  | [], health => health
  | m :: ms, health =>
    if m.info.key ∈ visited ∨ c.isExcluded m.info then backfill c visited ms health
    else
      match healthEntry health m.info.key with
      | .error _ => health
      | .ok entry =>
        let entry := ((entry.set "last_error" .null).set "meta_chunk_count"
          (.int m.chunkCount)).set "mutations_since_recompute" (.int m.mutationsSinceRecompute)
        backfill c visited ms (setHealthEntry health m.info.key entry)

/-- `_run_version_cleanup`. -/
def runVersionCleanup (c : Config) (e : Env) : Pass Unit := do
  let _ ← compute (timedelta c.versionRetentionHours)
  foldEach (fun _ store => do
    let _ ← attempt (call (.pruneVersions store) (e.pruneVersions store))
    pure ()) () c.versionedStores

def runListed (c : Config) (e : Env) (state : PassState) (next : Json) (visits : List Visit) :
    Pass PassState := do
  let (health, stale) ← foldEach (visit c) (state.collectionHealth, []) visits
  let answer ← attempt (call .getAllCollectionsMeta e.getAllCollectionsMeta)
  let health := match answer with
    | .ok all => backfill c (visits.map fun v => v.info.key) all health
    | .error _ => health
  let _ ← attempt (call .drainCommunitiesPendingRebuild e.drainCommunitiesPendingRebuild)
  runVersionCleanup c e
  let _ ← attempt (call .runFailedIngestRetry (e.runFailedIngestRetry health).1)
  let new : PassState :=
    { lastRunAt := .int e.now
      nextRunAt := next
      collectionHealth := (e.runFailedIngestRetry health).2
      lastExpiredPrunedAt :=
        if c.pruneExpiredChunks then .int e.now else state.lastExpiredPrunedAt
      lastGraphGcAt := if c.graphGcActive then .int e.now else state.lastGraphGcAt
      staleMentionCount := if c.graphGcActive then .int stale.sum else state.staleMentionCount }
  call .saveState e.writeState
  pure new

/-- `_run_one_pass`; it returns the state that it has saved, if it came to that. -/
def runOnePass (c : Config) (e : Env) : Pass (Option PassState) := do
  let state ← call .loadState (loadState e)
  let next ← compute (nextRunAt c e.now)
  let answer ← attempt (call .listCollections e.listCollections)
  match answer with
  | .error _ => pure none
  | .ok visits =>
    let new ← runListed c e state next visits
    pure (some new)

/-! ### What a pass needs -/

def Legible (c : Config) (health : Json) (visits : List Visit) : Prop :=
  ∀ v ∈ visits, c.isExcluded v.info = false → ∃ entry, healthEntry health v.info.key = .ok entry

/-- Nothing raises outside of the `except` blocks of the pass. -/
structure Spared (c : Config) (e : Env) : Prop where
  /-- `exists` answers. -/
  stateExists : ∃ b, e.stateExists = .ok b
  stateJson : e.stateExists = .ok true → e.stateJson ≠ .error .other
  nextRunAt : c.intervalHours ≠ 0 →
    c.intervalHours ≤ maxTimedeltaHours ∧ e.now + c.intervalHours * 3600000000 ≤ maxDatetime
  legible : ∀ state visits, loadState e = .ok state → e.listCollections = .ok visits →
    Legible c state.collectionHealth visits
  versionRetentionHours : ∀ visits, e.listCollections = .ok visits →
    c.versionRetentionHours ≤ maxTimedeltaHours
  writeState : ∀ visits, e.listCollections = .ok visits → e.writeState = .ok ()

variable {c : Config} {e : Env}

theorem loadState_eq_ok_iff : (∃ state, loadState e = .ok state) ↔
    (∃ b, e.stateExists = .ok b) ∧ (e.stateExists = .ok true → e.stateJson ≠ .error .other) := by
  rw [loadState]
  cases hexis : e.stateExists with
  | error exc => simp
  | ok b =>
    cases b with
    | false => simp
    | true =>
      rcases e.stateJson with (_ | _ | _) | (_ | _ | _ | _ | _ | _ | _) <;> simp

theorem timedelta_eq_ok_iff {hours : ℕ} :
    (∃ delta, timedelta hours = .ok delta) ↔ hours ≤ maxTimedeltaHours := by
  rw [timedelta]
  split_ifs with h <;> simp [h]

theorem nextRunAt_eq_ok_iff : (∃ next, nextRunAt c e.now = .ok next) ↔ (c.intervalHours ≠ 0 →
    c.intervalHours ≤ maxTimedeltaHours ∧ e.now + c.intervalHours * 3600000000 ≤ maxDatetime) := by
  rw [nextRunAt, timedelta]
  by_cases hz : c.intervalHours = 0
  · simp [hz]
  · rw [if_neg hz]
    by_cases hhours : c.intervalHours ≤ maxTimedeltaHours
    · simp only [if_pos hhours, bind, Except.bind]
      split_ifs with hmax <;> simp [hz, hhours, hmax]
    · simp [bind, Except.bind, hz, hhours]

/-! ### The health entries -/

section Health

variable {health : Json} {key : String}

/-- An entry that was used and written back leaves the other entries alone. -/
theorem healthEntry_setHealthEntry (h : ∃ old, healthEntry health key = .ok old) (entry : Row)
    (key' : String) : healthEntry (setHealthEntry health key entry) key' =
      if key' = key then .ok entry else healthEntry health key' := by
  obtain ⟨old, hold⟩ := h
  cases health with
  | obj entries =>
    simp only [setHealthEntry, healthEntry, Row.getD_set]
    split_ifs <;> rfl
  | _ => cases hold

theorem exists_healthEntry_set (h : ∃ old, healthEntry health key = .ok old) (entry : Row)
    (key' : String) : (∃ new, healthEntry (setHealthEntry health key entry) key' = .ok new) ↔
      ∃ old, healthEntry health key' = .ok old := by
  rw [healthEntry_setHealthEntry h]
  split_ifs with hk
  · subst hk
    exact iff_of_true ⟨entry, rfl⟩ h
  · exact Iff.rfl

theorem legible_set_iff {visits : List Visit} (h : ∃ old, healthEntry health key = .ok old)
    (entry : Row) : Legible c (setHealthEntry health key entry) visits ↔ Legible c health visits :=
  forall₂_congr fun v _ => imp_congr_right fun _ => exists_healthEntry_set h entry v.info.key

end Health

/-! ### One collection -/

def visitCalls (c : Config) (v : Visit) : List Call :=
  if c.isExcluded v.info then []
  else
    [.getCollectionMeta v.info, .policy .ftsOptimize v.info, .policy .orphanCleanup v.info,
      .policy .expiredChunkPruning v.info,
      if c.graphGcActive then .policy .graphGc v.info else .consumeCompletedRebuild v.info]

/-- **A policy neither ends the pass nor keeps the next one from running.** -/
theorem makes_runPolicy (name : PolicyName) (info : Info) (policy : Policy Unit) (entry : Row) :
    (runPolicy name info policy entry).Makes [.policy name info] := by
  refine (makes_attempt rfl).bind (m := []) fun answer _ => ?_
  cases answer
  · exact makes_pure _
  · exact makes_pure _

theorem makes_runGraphPolicy (v : Visit) (entry : Row) : (runGraphPolicy c v entry).Makes
    [if c.graphGcActive then .policy .graphGc v.info else .consumeCompletedRebuild v.info] := by
  rw [runGraphPolicy]
  split_ifs
  · refine (makes_attempt rfl).bind (m := []) fun answer _ => ?_
    cases answer
    · exact makes_pure _
    · exact makes_pure _
  · exact (makes_call ⟨_, rfl⟩).bind (m := []) fun _ _ => makes_pure _

variable {acc : Json × List ℤ} {v : Visit}

theorem makes_visit
    (h : c.isExcluded v.info = false → ∃ entry, healthEntry acc.1 v.info.key = .ok entry) :
    (visit c acc v).Makes (visitCalls c v) := by
  by_cases hexc : c.isExcluded v.info = true
  · rw [visit, visitCalls, if_pos hexc, if_pos hexc]
    exact makes_pure acc
  · rw [visit, visitCalls, if_neg hexc, if_neg hexc]
    have hent := h (Bool.eq_false_iff.mpr hexc)
    refine (makes_compute hent).bind (l := []) fun entry _ => ?_
    refine (makes_attempt rfl).bind (l := [_]) fun answer _ => ?_
    refine (makes_runPolicy _ _ _ _).bind (l := [_]) fun _ _ => ?_
    refine (makes_runPolicy _ _ _ _).bind (l := [_]) fun _ _ => ?_
    refine (makes_runPolicy _ _ _ _).bind (l := [_]) fun _ _ => ?_
    exact (makes_runGraphPolicy _ _).bind (l := [_]) (m := []) fun _ _ => makes_pure _

variable {acc' : Json × List ℤ}

theorem health_of_visit
    (h : (visit c acc v).result = .ok acc') : c.isExcluded v.info = true ∧ acc' = acc ∨
      c.isExcluded v.info = false ∧ (∃ old, healthEntry acc.1 v.info.key = .ok old) ∧
        ∃ entry, acc'.1 = setHealthEntry acc.1 v.info.key entry := by
  rw [visit] at h
  split_ifs at h with hexc
  · exact .inl ⟨hexc, (Except.ok.inj h).symm⟩
  · obtain ⟨old, hold, h⟩ := result_bind_eq_ok h
    obtain ⟨_, -, h⟩ := result_bind_eq_ok h
    obtain ⟨_, -, h⟩ := result_bind_eq_ok h
    obtain ⟨_, -, h⟩ := result_bind_eq_ok h
    obtain ⟨_, -, h⟩ := result_bind_eq_ok h
    obtain ⟨p, -, h⟩ := result_bind_eq_ok h
    exact .inr ⟨Bool.eq_false_iff.mpr hexc, ⟨old, hold⟩, p.1,
      congrArg Prod.fst (Except.ok.inj h).symm⟩

variable {visits : List Visit}

/-- A visit leaves the entries as usable as they were. -/
theorem legible_of_visit
    (h : (visit c acc v).result = .ok acc') : Legible c acc'.1 visits ↔ Legible c acc.1 visits := by
  obtain ⟨-, rfl⟩ | ⟨-, hold, entry, hacc⟩ := health_of_visit h
  · exact Iff.rfl
  · rw [hacc]
    exact legible_set_iff hold entry

/-- **The calls of every collection are made, whatever they answer.** -/
theorem makes_visits (h : Legible c acc.1 visits) :
    (foldEach (visit c) acc visits).Makes (visits.flatMap (visitCalls c)) := by
  refine makes_foldEach (I := fun acc visits => Legible c acc.1 visits) ?_ h
  intro acc v rest hleg
  refine ⟨makes_visit (hleg v mem_cons_self), fun acc' hacc' => ?_⟩
  exact (legible_of_visit hacc').mpr fun w hw => hleg w (mem_cons_of_mem v hw)

theorem legible_of_returns : ∀ {visits : List Visit} {acc : Json × List ℤ},
    (foldEach (visit c) acc visits).Returns → Legible c acc.1 visits
  | [], _, _ => fun v hv => absurd hv not_mem_nil
  | v :: visits, acc, h => by
    obtain ⟨acc', hacc', hrs⟩ := returns_bind_iff.mp h
    have hleg := (legible_of_visit hacc').mp (legible_of_returns hrs)
    intro w hw hexc
    rcases mem_cons.mp hw with rfl | hw
    · obtain ⟨htrue, -⟩ | ⟨-, hold, -⟩ := health_of_visit hacc'
      · exact absurd htrue (Bool.eq_false_iff.mp hexc)
      · exact hold
    · exact hleg w hw hexc

/-! ### The pass -/

def listedCalls (c : Config) (visits : List Visit) : List Call :=
  visits.flatMap (visitCalls c) ++ [.getAllCollectionsMeta, .drainCommunitiesPendingRebuild] ++
    c.versionedStores.map .pruneVersions ++ [.runFailedIngestRetry, .saveState]

theorem makes_runVersionCleanup (h : c.versionRetentionHours ≤ maxTimedeltaHours) :
    (runVersionCleanup c e).Makes (c.versionedStores.map .pruneVersions) := by
  refine (makes_compute (timedelta_eq_ok_iff.mpr h)).bind (l := []) fun _ _ => ?_
  rw [map_eq_flatMap]
  refine makes_foldEach (I := fun _ _ => True) (fun _ store _ _ => ⟨?_, fun _ _ => trivial⟩)
    trivial
  exact (makes_attempt rfl).bind (l := [_]) (m := []) fun _ _ => makes_pure ()

variable {state : PassState} {next : Json}

theorem makes_runListed
    (hleg : Legible c state.collectionHealth visits)
    (hret : c.versionRetentionHours ≤ maxTimedeltaHours) (hw : e.writeState = .ok ()) :
    (runListed c e state next visits).Makes (listedCalls c visits) := by
  rw [listedCalls, append_assoc, append_assoc]
  refine (makes_visits hleg).bind fun acc _ => ?_
  refine (makes_attempt rfl).bind (l := [_]) fun answer _ => ?_
  refine (makes_attempt rfl).bind (l := [_]) fun _ _ => ?_
  refine (makes_runVersionCleanup hret).bind fun _ _ => ?_
  refine (makes_attempt rfl).bind (l := [_]) fun _ _ => ?_
  exact (makes_call ⟨(), hw⟩).bind (m := []) fun _ _ => makes_pure _

theorem spared_of_returns_runListed
    (h : (runListed c e state next visits).Returns) :
    Legible c state.collectionHealth visits ∧ c.versionRetentionHours ≤ maxTimedeltaHours ∧
      e.writeState = .ok () := by
  obtain ⟨acc, hacc, h⟩ := returns_bind_iff.mp h
  obtain ⟨_, -, h⟩ := returns_bind_iff.mp h
  obtain ⟨_, -, h⟩ := returns_bind_iff.mp h
  obtain ⟨_, hclean, h⟩ := returns_bind_iff.mp h
  obtain ⟨_, -, h⟩ := returns_bind_iff.mp h
  obtain ⟨_, hw, -⟩ := returns_bind_iff.mp h
  obtain ⟨delta, hdel, -⟩ := result_bind_eq_ok hclean
  exact ⟨legible_of_returns ⟨acc, hacc⟩, timedelta_eq_ok_iff.mp ⟨delta, hdel⟩, hw⟩

/-- **A pass returns if and only if nothing outside the boundaries raises.** -/
theorem returns_runOnePass_iff : (runOnePass c e).Returns ↔ Spared c e := by
  constructor
  · intro h
    obtain ⟨state, hl, h⟩ := returns_bind_iff.mp h
    obtain ⟨next, hx, h⟩ := returns_bind_iff.mp h
    rw [returns_attempt_bind_iff] at h
    obtain ⟨hexis, hjson⟩ := loadState_eq_ok_iff.mp ⟨state, hl⟩
    have hlis (visits) (hlist : e.listCollections = .ok visits) :
        Legible c state.collectionHealth visits ∧
          c.versionRetentionHours ≤ maxTimedeltaHours ∧ e.writeState = .ok () := by
      rw [show (call Call.listCollections e.listCollections).result = .ok visits from hlist] at h
      obtain ⟨new, hw, -⟩ := returns_bind_iff.mp h
      exact spared_of_returns_runListed ⟨new, hw⟩
    refine ⟨hexis, hjson, nextRunAt_eq_ok_iff.mp ⟨next, hx⟩, fun state' visits hl' hlist => ?_,
      fun visits hlist => (hlis visits hlist).2.1, fun visits hlist => (hlis visits hlist).2.2⟩
    obtain rfl : state = state' := Except.ok.inj (hl.symm.trans hl')
    exact (hlis visits hlist).1
  · intro h
    obtain ⟨state, hl⟩ := loadState_eq_ok_iff.mpr ⟨h.stateExists, h.stateJson⟩
    obtain ⟨next, hx⟩ := nextRunAt_eq_ok_iff.mpr h.nextRunAt
    refine returns_bind_iff.mpr ⟨state, hl, returns_bind_iff.mpr ⟨next, hx, ?_⟩⟩
    rw [returns_attempt_bind_iff]
    cases hlist : e.listCollections with
    | error exc => exact returns_pure none
    | ok visits =>
      have hmak : (runListed c e state next visits).Makes (listedCalls c visits) :=
        makes_runListed (h.legible state visits hl hlist) (h.versionRetentionHours visits hlist)
          (h.writeState visits hlist)
      obtain ⟨new, hw⟩ := hmak.1
      exact returns_bind_iff.mpr ⟨new, hw, returns_pure _⟩

/-- **Once the collections are listed, every step of every collection and every step of the pass
is run, whatever the steps answer.** -/
theorem makes_runOnePass (h : Spared c e)
    (hlist : e.listCollections = .ok visits) :
    (runOnePass c e).Makes ([.loadState, .listCollections] ++ listedCalls c visits) := by
  obtain ⟨state, hl⟩ := loadState_eq_ok_iff.mpr ⟨h.stateExists, h.stateJson⟩
  refine (makes_call ⟨state, hl⟩).bind (l := [_]) fun state' hstate' => ?_
  refine (makes_compute (nextRunAt_eq_ok_iff.mpr h.nextRunAt)).bind (l := []) fun next _ => ?_
  refine (makes_attempt rfl).bind (l := [_]) fun answer hans => ?_
  obtain rfl : Except.ok visits = answer := hlist.symm.trans (Except.ok.inj hans)
  rw [← append_nil (listedCalls c visits)]
  exact (makes_runListed (h.legible state' visits hstate' hlist)
    (h.versionRetentionHours visits hlist) (h.writeState visits hlist)).bind fun _ _ => makes_pure _

end ArchonSearch.Jobs.Maintenance
