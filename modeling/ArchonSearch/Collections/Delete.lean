import Mathlib.Data.Fintype.Defs
import ArchonSearch.Lib.Run

/-!
# Deleting a collection

`DELETE /collections/{name}` runs against any number of writers of the collection. It holds the
collection lock from its check on, so what it relies on is that every writer that may still create
the table or the meta row is seen by the check: an ingest and a retry hold the lock until their job
is `RUNNING`, the other jobs are created under it, and a writer without a job registers under it.
The calls of a writer come in any order, so the model has every run of the code and more.

The finalizing step of a maintenance pass is seen by nobody. When it recomputes the row because
expired chunks were pruned it does so with `force`, and a forced recompute that first reads the row
after the `DELETE` has deleted it takes the collection for a new one and writes a row
(`resurrected_by_prune`). A config-only collection, on the other hand, is answered for without a
look at the table, which the failed first ingest of it may have left.

In every run in which these two do not happen, no cancellation of the retries fails, and no MCP
ingest registers after the answer, a collection that was deleted stays deleted: `gone_of_quiet`.
-/

namespace ArchonSearch.Collections

open Lib Option

/-! ### The state -/

/-- What a writer of the collection is. -/
inductive Kind where
  | ingest
  | retry
  | reindex
  | metadataReindex
  | communityRebuild
  | importJob
  | mcp
  | sync
  | prune
  | sweep
  deriving DecidableEq

def Kind.ingests : Kind → Bool
  | ingest | retry | reindex | importJob | mcp | sync => true
  | metadataReindex | communityRebuild | prune | sweep => false

inductive Phase where
  | absent
  /-- It has started and is not seen yet: a retry that waits for the lock, an MCP ingest
  or a sync that has not registered. -/
  | waiting
  /-- It holds the lock, and its job is `PENDING`. -/
  | holding
  | active (scan : Option Bool)
  | unlisted (scan : Option Bool)
  | ended
  deriving DecidableEq

/-- `find_active_collection_job` or `has_active_writer` finds the writer. -/
def Phase.isActive : Phase → Bool
  | active _ => true
  | _ => false

/-- `remove_collection`, by what it does next. -/
inductive DeletePhase where
  | idle
  | requested (seen : Bool)
  | locked (seen : Bool)
  | checked (hasMeta : Bool)
  /-- The config is edited; it `was` there or not. -/
  | edited (hasMeta was : Bool)
  | dropped
  | retriesCancelled
  | answered (deleted : Bool)
  deriving DecidableEq

open DeletePhase

inductive Holder (W : Type*) where
  | delete
  | writer : W → Holder W

/-- What exists of the collection, and how far each call is. -/
structure State (W : Type*) where
  (table rows hasMeta configured : Bool)
  lock : Option (Holder W)
  phase : W → Phase
  /-- The retries that are `CANCELLED`. -/
  cancelled : W → Bool
  delete : DeletePhase

inductive Call where
  | ensureCollection
  /-- `ingest_chunks`; if the table is missing the claim it has made is released or not. -/
  | ingestChunks (released : Bool)
  | updateRow
  /-- The first half of `recompute_collection_meta`: the row and the vectors are read. -/
  | recomputeRead (force : Bool)
  | recomputeWrite
  /-- `drop_collection`, of an import that overwrites. -/
  | dropCollection
  /-- `delete_collection_meta`, of an import that overwrites. -/
  | deleteCollectionMeta

/-- A step of a writer, or of the `DELETE`. -/
inductive Event (W : Type*) where
  | start : W → Event W
  | enter : W → Event W
  | claim : W → (granted : Bool) → Event W
  | call : W → Call → Event W
  | finish : W → Event W
  /-- The next thing the `DELETE` does, and whether it succeeds. -/
  | delete : (ok : Bool) → Event W

/-! ### Steps -/

variable {W : Type*} [DecidableEq W] (kind : W → Kind)

def State.goto (s : State W) (w : W) (p : Phase) : State W :=
  { s with phase := Function.update s.phase w p }

/-- A writer starts, before the `DELETE` is requested. A job is created under the lock. -/
def start (s : State W) (w : W) : Option (State W) :=
  if s.delete = .idle ∧ s.phase w = .absent then
    match kind w with
    | .ingest =>
      if s.lock = none then some { s.goto w .holding with lock := some (.writer w) } else none
    | .reindex | .metadataReindex | .communityRebuild =>
      if s.lock = none ∧ s.hasMeta = true then some (s.goto w (.active none)) else none
    | .importJob => some (s.goto w (.active none))
    | .retry | .mcp | .sync => some (s.goto w .waiting)
    | .prune | .sweep => some (s.goto w (.unlisted none))
  else none

/-- A writer that waits gets the lock. A registration releases it at once, and a sync then
skips a collection that is not configured any more. -/
def enter (s : State W) (w : W) : Option (State W) :=
  if s.phase w = .waiting ∧ s.lock = none then
    match kind w with
    | .retry => some { s.goto w .holding with lock := some (.writer w) }
    | .mcp => some (s.goto w (.active none))
    | .sync => some (s.goto w (if s.configured then .active none else .ended))
    | _ => none
  else none

/-- A writer that holds the lock turns its job `RUNNING`, unless it was cancelled, and
releases the lock. -/
def claim (s : State W) (w : W) (granted : Bool) : Option (State W) :=
  if s.phase w = .holding then
    some { s.goto w (if granted && !s.cancelled w then .active none else .ended) with lock := none }
  else none

/-- `recompute_collection_meta`, up to the lock: what the scan has found, or none where it
returns early. -/
def recomputeRead (s : State W) (force : Bool) : Option Bool :=
  if !s.rows && !(force || s.hasMeta) then none else some s.hasMeta

/-- `recompute_collection_meta` under the lock: whether there is a row afterwards. -/
def recomputeWrite (s : State W) (existing : Bool) : Bool :=
  if !s.hasMeta && existing then s.hasMeta else true

def callActive (s : State W) (w : W) (scan : Option Bool) : Call → Option (State W)
  | .ensureCollection => if (kind w).ingests then some { s with table := true } else none
  | .ingestChunks released =>
    if (kind w).ingests ∧ s.lock = none then
      if s.table then some { s with rows := true, hasMeta := true }
      else some { s with hasMeta := s.hasMeta || !released }
    else none
  | .updateRow => if s.lock = none then some s else none
  | .recomputeRead force =>
    if (kind w).ingests ∧ scan = none then some (s.goto w (.active (recomputeRead s force)))
    else none
  | .recomputeWrite =>
    match scan with
    | some existing =>
      if s.lock = none then
        some { s.goto w (.active none) with hasMeta := recomputeWrite s existing }
      else none
    | none => none
  | .dropCollection =>
    if kind w = .importJob ∧ s.lock = none then some { s with table := false, rows := false }
    else none
  | .deleteCollectionMeta =>
    if kind w = .importJob ∧ s.lock = none then some { s with hasMeta := false } else none

/-- A call of the finalizing step of a maintenance pass; it recomputes with `force` when
chunks were pruned. -/
def callUnlisted (s : State W) (w : W) (scan : Option Bool) : Call → Option (State W)
  | .updateRow => if s.lock = none then some s else none
  | .recomputeRead force =>
    if scan = none ∧ force = decide (kind w = .prune) then
      some (s.goto w (.unlisted (recomputeRead s force)))
    else none
  | .recomputeWrite =>
    match scan with
    | some existing =>
      if s.lock = none then
        some { s.goto w (.unlisted none) with hasMeta := recomputeWrite s existing }
      else none
    | none => none
  | _ => none

def call (s : State W) (w : W) (c : Call) : Option (State W) :=
  match s.phase w with
  | .active scan => callActive kind s w scan c
  | .unlisted scan => callUnlisted kind s w scan c
  | _ => none

def finish (s : State W) (w : W) : Option (State W) :=
  match s.phase w with
  | .waiting | .active _ | .unlisted _ => some (s.goto w .ended)
  | _ => none

/-- `cancel_ingest_retries`: a failed write changes nothing. -/
def cancelRetries (s : State W) (ok : Bool) : W → Bool := fun w =>
  s.cancelled w || (ok && decide (kind w = .retry ∧ s.phase w = .waiting))

def answer (s : State W) (deleted : Bool) : State W :=
  { s with lock := none, delete := .answered deleted }

/-- The next thing that `remove_collection` does. -/
def delete [Fintype W] (s : State W) (ok : Bool) : Option (State W) :=
  match s.delete with
  | .idle =>
    -- a collection without a row is visible while it is configured
    if ok && (s.hasMeta || s.configured) then some { s with delete := .requested s.hasMeta }
    else some { s with delete := .answered false }
  | .requested seen =>
    if ok then
      if s.lock = none then some { s with lock := some .delete, delete := .locked seen } else none
    else some { s with delete := .answered false }
  | .locked seen =>
    if ok && (seen || s.hasMeta || s.configured) && decide (∀ w, (s.phase w).isActive = false) then
      some { s with delete := .checked (seen || s.hasMeta) }
    else some (answer s false)
  | .checked hasMeta =>
    if ok then some { s with configured := false, delete := .edited hasMeta s.configured }
    else some (answer s false)
  | .edited false _ => some (answer { s with cancelled := cancelRetries kind s ok } true)
  | .edited true was =>
    if ok then some { s with table := false, rows := false, delete := .dropped }
    else some (answer { s with configured := was } false)
  | .dropped =>
    some { s with cancelled := cancelRetries kind s ok, delete := .retriesCancelled }
  | .retriesCancelled =>
    if ok then some (answer { s with hasMeta := false } true) else some (answer s false)
  | .answered _ => none

def step [Fintype W] (s : State W) : Event W → Option (State W)
  | .start w => start kind s w
  | .enter w => enter kind s w
  | .claim w granted => claim s w granted
  | .call w c => call kind s w c
  | .finish w => finish s w
  | .delete ok => delete kind s ok

/-! ### What has to hold -/

/-- Neither the table nor the metadata row exists. -/
def State.Gone (s : State W) : Prop := s.table = false ∧ s.hasMeta = false

def NoRetryWaits (s : State W) : Prop := ∀ w, kind w = .retry → s.phase w ≠ .waiting

/-- The conditions on what the `DELETE` does: a collection without a row has no table when
it answers, and the retries that wait are cancelled. -/
def QuietDelete (s : State W) (ok : Bool) : DeletePhase → Prop
  | .edited false _ => s.table = false ∧ (ok = true ∨ NoRetryWaits kind s)
  | .dropped => ok = true ∨ NoRetryWaits kind s
  | .idle | .requested _ | .locked _ | .checked _ | .edited true _ | .retriesCancelled
  | .answered _ => True

/-- The conditions on a step: a recompute that nobody sees reads a row that is there, or
returns early, and an MCP ingest registers before the answer. -/
def Quiet (s : State W) : Event W → Prop
  | .call w (.recomputeRead force) =>
    (s.phase w).isActive = true ∨ s.hasMeta = true ∨ recomputeRead s force = none
  | .enter w => kind w = .mcp → s.delete ≠ .answered true
  | .delete ok => QuietDelete kind s ok s.delete
  | _ => True

namespace DeletePhase

/-- How far the `DELETE` has come: it holds the lock from 1 to 5, has found no writer from
2 on, has edited the config from 3 on, has dropped the table from 4 on and has cancelled
the retries from 5 on. One that has failed is back at the start. -/
def progress : DeletePhase → ℕ
  | idle | requested _ | answered false => 0
  | locked _ => 1
  | checked _ => 2
  | edited _ _ => 3
  | dropped => 4
  | retriesCancelled => 5
  | answered true => 6

def NoMeta : DeletePhase → Prop
  | checked false | edited false _ | answered true => True
  | _ => False

variable {d : DeletePhase}

theorem NoMeta.two_le_progress (h : d.NoMeta) : 2 ≤ d.progress := by
  rcases d with _ | _ | _ | (_ | _) | ⟨_ | _, _⟩ | _ | _ | (_ | _) <;>
    first | exact h.elim | simp [progress]

/-- A `DELETE` that is past its check and does not hold the lock has answered. -/
theorem eq_answered (h : 2 ≤ d.progress) (hl : ¬d.progress ≤ 5) :
    d = .answered true := by
  rcases d with _ | _ | _ | _ | _ | _ | _ | (_ | _) <;> simp [progress] at h hl ⊢

end DeletePhase

structure Inv (s : State W) : Prop where
  holding : ∀ w, s.phase w = .holding → s.lock = some (.writer w)
  /-- The `DELETE` too. -/
  lock : 1 ≤ s.delete.progress → s.delete.progress ≤ 5 → s.lock = some .delete
  inactive : 2 ≤ s.delete.progress → ∀ w, (s.phase w).isActive = false
  retries : 2 ≤ s.delete.progress → ∀ w, s.phase w = .holding → kind w = .retry
  configured : 3 ≤ s.delete.progress → s.configured = false
  table : 4 ≤ s.delete.progress → s.table = false
  cancelled : 5 ≤ s.delete.progress → ∀ w, kind w = .retry →
    s.phase w = .waiting ∨ s.phase w = .holding → s.cancelled w = true
  noMeta : s.delete.NoMeta → s.hasMeta = false
  scans : ∀ w, s.phase w ≠ .unlisted (some false)

/-! ### One step -/

section Steps

variable {kind} {s s' : State W}

omit [DecidableEq W] in
/-- While the lock is free, a `DELETE` that is past its check has answered. -/
theorem Inv.eq_answered (h : Inv kind s) (hl : s.lock = none) (hp : 2 ≤ s.delete.progress) :
    s.delete = .answered true := by
  refine DeletePhase.eq_answered hp fun hle => ?_
  have hh := h.lock (by omega) hle
  rw [hl] at hh
  cases hh

variable {w : W}

/-- A writer moves to a point at which it does not hold the lock. -/
theorem Inv.goto (h : Inv kind s) {p : Phase} (hho : p ≠ .holding)
    (hwa : p ≠ .waiting ∨ ¬5 ≤ s.delete.progress)
    (hact : p.isActive = false ∨ ¬2 ≤ s.delete.progress)
    (hscan : p ≠ .unlisted (some false)) : Inv kind (s.goto w p) where
  holding w' hw' := by
    by_cases hne : w' = w
    · subst hne
      exact absurd (by simpa [State.goto] using hw') hho
    · exact h.holding w' (by simpa [State.goto, hne] using hw')
  lock := h.lock
  inactive hp w' := by
    by_cases hne : w' = w
    · subst hne
      simpa [State.goto] using hact.resolve_right (not_not.mpr hp)
    · simpa [State.goto, hne] using h.inactive hp w'
  retries hp w' hw' := by
    by_cases hne : w' = w
    · subst hne
      exact absurd (by simpa [State.goto] using hw') hho
    · exact h.retries hp w' (by simpa [State.goto, hne] using hw')
  configured := h.configured
  table := h.table
  cancelled hp w' hk hw' := by
    by_cases hne : w' = w
    · subst hne
      simp only [State.goto, Function.update_self] at hw'
      rcases hw' with hw' | hw'
      · exact absurd hp (hwa.resolve_left (not_not.mpr hw'))
      · exact absurd hw' hho
    · exact h.cancelled hp w' hk (by simpa [State.goto, hne] using hw')
  noMeta := h.noMeta
  scans w' := by
    by_cases hne : w' = w
    · subst hne
      simpa [State.goto] using hscan
    · simpa [State.goto, hne] using h.scans w'

theorem Inv.goto_holding (h : Inv kind s) (hl : s.lock = none)
    (hret : kind w = .retry ∧ s.phase w = .waiting ∨ ¬2 ≤ s.delete.progress) :
    Inv kind { s.goto w .holding with lock := some (.writer w) } where
  holding w' hw' := by
    by_cases hne : w' = w
    · rw [hne]
    · have hh := h.holding w' (by simpa [State.goto, hne] using hw')
      rw [hl] at hh
      cases hh
  lock hle hle' := by
    have hh := h.lock hle hle'
    rw [hl] at hh
    cases hh
  inactive hp w' := by
    by_cases hne : w' = w
    · simp [State.goto, hne, Phase.isActive]
    · simpa [State.goto, hne] using h.inactive hp w'
  retries hp w' hw' := by
    by_cases hne : w' = w
    · rw [hne]
      exact (hret.resolve_right (not_not.mpr hp)).1
    · exact h.retries hp w' (by simpa [State.goto, hne] using hw')
  configured := h.configured
  table := h.table
  cancelled hp w' hk hw' := by
    by_cases hne : w' = w
    · subst hne
      have hp' : 2 ≤ s.delete.progress := le_trans (by decide) hp
      exact h.cancelled hp w' hk (Or.inl (hret.resolve_right (not_not.mpr hp')).2)
    · exact h.cancelled hp w' hk (by simpa [State.goto, hne] using hw')
  noMeta := h.noMeta
  scans w' := by
    by_cases hne : w' = w
    · simp [State.goto, hne]
    · simpa [State.goto, hne] using h.scans w'

omit [DecidableEq W] in
theorem Inv.change (h : Inv kind s) (hps : ¬2 ≤ s.delete.progress) (table rows hasMeta : Bool) :
    Inv kind { s with table := table, rows := rows, hasMeta := hasMeta } :=
  ⟨h.holding, h.lock, h.inactive, h.retries, h.configured,
    fun hp => absurd (le_trans (by decide) hp) hps, h.cancelled,
    fun hn => absurd hn.two_le_progress hps, h.scans⟩

theorem Inv.start (h : Inv kind s) (hs : start kind s w = some s') : Inv kind s' := by
  unfold Collections.start at hs
  by_cases hidle : s.delete = .idle ∧ s.phase w = .absent
  case neg =>
    rw [if_neg hidle] at hs
    cases hs
  rw [if_pos hidle] at hs
  have hp : ¬2 ≤ s.delete.progress := by rw [hidle.1]; decide
  have hlate : ¬5 ≤ s.delete.progress := by rw [hidle.1]; decide
  cases hk : kind w <;> simp only [hk] at hs
  case ingest =>
    obtain ⟨hl, rfl⟩ := of_guard hs
    exact h.goto_holding hl (Or.inr hp)
  case reindex | metadataReindex | communityRebuild =>
    obtain ⟨hmeta, rfl⟩ := of_guard hs
    exact h.goto (by simp) (Or.inr hlate) (Or.inr hp) (by simp)
  all_goals
    cases hs
    exact h.goto (by simp) (Or.inr hlate) (Or.inr hp) (by simp)

theorem Inv.enter (h : Inv kind s) (hq : Quiet kind s (.enter w))
    (hs : enter kind s w = some s') : Inv kind s' := by
  unfold Collections.enter at hs
  by_cases hwa : s.phase w = .waiting ∧ s.lock = none
  case neg =>
    rw [if_neg hwa] at hs
    cases hs
  rw [if_pos hwa] at hs
  obtain ⟨hwaiti, hl⟩ := hwa
  cases hk : kind w <;> simp only [hk] at hs
  case retry =>
    cases hs
    exact h.goto_holding hl ((em _).imp_left fun _ => ⟨hk, hwaiti⟩)
  case mcp =>
    cases hs
    refine h.goto (by simp) (Or.inl (by simp)) (Or.inr fun hp => ?_) (by simp)
    exact hq hk (h.eq_answered hl hp)
  case sync =>
    cases hs
    cases hconf : s.configured with
    | false => exact h.goto (by simp) (Or.inl (by simp)) (Or.inl rfl) (by simp)
    | true =>
      -- the entry is only there before the config is edited, or after a failure
      refine h.goto (by simp) (Or.inl (by simp)) (Or.inr fun hp => ?_) (by simp)
      have hedit := h.configured (by rw [h.eq_answered hl hp]; decide)
      rw [hconf] at hedit
      cases hedit
  all_goals cases hs

omit [DecidableEq W] in
/-- A writer that holds the lock keeps the `DELETE` from its check, unless it has answered. -/
theorem Inv.eq_answered_of_holding (h : Inv kind s) (hw : s.phase w = .holding)
    (hp : 1 ≤ s.delete.progress) : s.delete = .answered true := by
  have hl : ¬s.delete.progress ≤ 5 := by
    intro hle
    have hh := h.lock hp hle
    rw [h.holding w hw] at hh
    cases hh
  exact DeletePhase.eq_answered (by omega) hl

theorem Inv.release (h : Inv kind s) (hw : s.phase w = .holding) {p : Phase}
    (hp : p = .ended ∨ p = .active none ∧ ¬2 ≤ s.delete.progress) :
    Inv kind { s.goto w p with lock := none } := by
  have hgoto : Inv kind (s.goto w p) := by
    rcases hp with rfl | ⟨rfl, hps⟩
    · exact h.goto (by simp) (Or.inl (by simp)) (Or.inl rfl) (by simp)
    · exact h.goto (by simp) (Or.inl (by simp)) (Or.inr hps) (by simp)
  refine ⟨fun w' hw' => ?_, fun hle hle' => ?_, hgoto.inactive, hgoto.retries, hgoto.configured,
    hgoto.table, hgoto.cancelled, hgoto.noMeta, hgoto.scans⟩
  · have hh : s.lock = some (.writer w') := hgoto.holding w' hw'
    rw [h.holding w hw] at hh
    obtain rfl := Holder.writer.inj (some.inj hh)
    have hp' : p = .holding := by simpa [State.goto] using hw'
    rcases hp with rfl | ⟨rfl, -⟩ <;> cases hp'
  · have hansd := h.eq_answered_of_holding hw hle
    have hle'' : s.delete.progress ≤ 5 := hle'
    rw [hansd] at hle''
    exact absurd hle'' (by decide)

theorem Inv.claim (h : Inv kind s) {granted : Bool}
    (hs : claim s w granted = some s') : Inv kind s' := by
  unfold Collections.claim at hs
  by_cases hw : s.phase w = .holding
  case neg =>
    rw [if_neg hw] at hs
    cases hs
  rw [if_pos hw] at hs
  cases hs
  refine h.release hw ?_
  cases hclaim : granted && !s.cancelled w with
  | false => exact Or.inl rfl
  | true =>
    -- were the `DELETE` past its check, the writer would be a retry, and cancelled
    refine Or.inr ⟨rfl, fun hp => ?_⟩
    have hansd := h.eq_answered_of_holding hw (by omega)
    have hcand := h.cancelled (by rw [hansd]; decide) w (h.retries hp w hw) (Or.inr hw)
    simp [hcand] at hclaim

theorem Inv.finish (h : Inv kind s) (hs : finish s w = some s') : Inv kind s' := by
  unfold Collections.finish at hs
  have he : Inv kind (s.goto w .ended) :=
    h.goto (by simp) (Or.inl (by simp)) (Or.inl rfl) (by simp)
  cases hph : s.phase w <;> simp only [hph] at hs
  case waiting | active | unlisted =>
    cases hs
    exact he
  all_goals cases hs

variable {c : Call} {scan : Option Bool}

theorem Inv.callActive (h : Inv kind s)
    (hw : s.phase w = .active scan) (hs : callActive kind s w scan c = some s') :
    Inv kind s' := by
  have hp : ¬2 ≤ s.delete.progress := by
    intro hp
    have hinac := h.inactive hp w
    rw [hw] at hinac
    cases hinac
  have hgoto : ∀ scan', Inv kind (s.goto w (.active scan')) := fun scan' =>
    h.goto (by simp) (Or.inl (by simp)) (Or.inr hp) (by simp)
  cases c with
  | ensureCollection =>
    obtain ⟨-, rfl⟩ := of_guard hs
    exact h.change hp true s.rows s.hasMeta
  | ingestChunks released =>
    simp only [Collections.callActive] at hs
    split_ifs at hs
    · cases hs
      exact h.change hp s.table true true
    · cases hs
      exact h.change hp s.table s.rows _
  | updateRow =>
    obtain ⟨-, rfl⟩ := of_guard hs
    exact h
  | recomputeRead force =>
    obtain ⟨-, rfl⟩ := of_guard hs
    exact hgoto _
  | recomputeWrite =>
    cases scan with
    | none => cases hs
    | some existing =>
      simp only [Collections.callActive] at hs
      by_cases hl : s.lock = none
      case neg =>
        rw [if_neg hl] at hs
        cases hs
      rw [if_pos hl] at hs
      cases hs
      exact (hgoto none).change hp s.table s.rows _
  | dropCollection =>
    obtain ⟨-, rfl⟩ := of_guard hs
    exact h.change hp false false s.hasMeta
  | deleteCollectionMeta =>
    obtain ⟨-, rfl⟩ := of_guard hs
    exact h.change hp s.table s.rows false

theorem Inv.callUnlisted (h : Inv kind s)
    (hw : s.phase w = .unlisted scan) (hq : Quiet kind s (.call w c))
    (hs : callUnlisted kind s w scan c = some s') : Inv kind s' := by
  have hgoto : ∀ scan', scan' ≠ some false → Inv kind (s.goto w (.unlisted scan')) :=
    fun scan' hscan' => h.goto (by simp) (Or.inl (by simp)) (Or.inl rfl) (by simpa using hscan')
  cases c with
  | updateRow =>
    obtain ⟨-, rfl⟩ := of_guard hs
    exact h
  | recomputeRead force =>
    obtain ⟨-, rfl⟩ := of_guard hs
    refine hgoto _ ?_
    rcases hq with hact | hmeta | hn
    · rw [hw] at hact
      cases hact
    · rw [recomputeRead, hmeta]
      split_ifs <;> simp
    · rw [hn]
      simp
  | recomputeWrite =>
    cases scan with
    | none => cases hs
    | some existing =>
      obtain ⟨-, rfl⟩ := of_guard hs
      -- the scan has seen a row, so the write leaves a dropped collection dropped
      have hexg : existing = true := by
        cases existing with
        | true => rfl
        | false => exact absurd hw (h.scans w)
      have heq : Collections.recomputeWrite s existing = s.hasMeta := by
        rw [Collections.recomputeWrite, hexg]
        cases s.hasMeta <;> rfl
      rw [heq]
      exact hgoto none (by simp)
  | ensureCollection | ingestChunks _ | dropCollection | deleteCollectionMeta => cases hs

theorem Inv.call (h : Inv kind s) (hq : Quiet kind s (.call w c))
    (hs : call kind s w c = some s') : Inv kind s' := by
  unfold Collections.call at hs
  cases hw : s.phase w <;> simp only [hw] at hs
  case active scan => exact h.callActive hw hs
  case unlisted scan => exact h.callUnlisted hw hq hs
  all_goals cases hs

section
omit [DecidableEq W]

/-- No writer holds the lock that the `DELETE` holds. -/
theorem Inv.not_holding (h : Inv kind s) (hle : 1 ≤ s.delete.progress)
    (hle' : s.delete.progress ≤ 5) (w : W) : s.phase w ≠ .holding := by
  intro hw
  have hh := h.lock hle hle'
  rw [h.holding w hw] at hh
  cases hh

/-- The `DELETE` answers that it has failed. -/
theorem Inv.answer_false (h : Inv kind s) (hl : ∀ w, s.phase w ≠ .holding) (configured : Bool) :
    Inv kind (answer { s with configured := configured } false) where
  holding w hw := absurd hw (hl w)
  lock hle := absurd hle (by simp [answer, progress])
  inactive hle := absurd hle (by simp [answer, progress])
  retries hle := absurd hle (by simp [answer, progress])
  configured hle := absurd hle (by simp [answer, progress])
  table hle := absurd hle (by simp [answer, progress])
  cancelled hle := absurd hle (by simp [answer, progress])
  noMeta hn := hn.elim
  scans := h.scans

/-- The `DELETE` gets the lock, or fails before it has it. -/
theorem Inv.early (h : Inv kind s) {lock : Option (Holder W)} {d : DeletePhase}
    (hd : lock = s.lock ∧ d.progress = 0 ∨ s.lock = none ∧ lock = some .delete ∧ d.progress = 1) :
    Inv kind { s with lock := lock, delete := d } := by
  have hlt : ¬2 ≤ d.progress := by omega
  refine ⟨fun w hw => ?_, fun hle _ => ?_, fun hle => absurd hle hlt, fun hle => absurd hle hlt,
    fun hle => absurd (le_trans (by decide) hle) hlt,
    fun hle => absurd (le_trans (by decide) hle) hlt,
    fun hle => absurd (le_trans (by decide) hle) hlt,
    fun hn => absurd hn.two_le_progress hlt, h.scans⟩
  · have hh := h.holding w hw
    rcases hd with ⟨rfl, -⟩ | ⟨hfr, -⟩
    · exact hh
    · rw [hfr] at hh
      cases hh
  · rcases hd with ⟨-, hz⟩ | ⟨-, rfl, -⟩
    · exact absurd (hz ▸ hle) (by decide)
    · rfl

/-- The `DELETE` goes on under the lock, or answers that it has succeeded: no writer is seen
and none holds the lock, so only what it has done itself is to be shown. -/
theorem Inv.advance (h : Inv kind s) (hnot : ∀ w, s.phase w ≠ .holding)
    (hinac : ∀ w, (s.phase w).isActive = false) {t : State W} (hph : t.phase = s.phase)
    (hl : t.delete.progress ≤ 5 → t.lock = some .delete)
    (hconf : 3 ≤ t.delete.progress → t.configured = false)
    (htab : 4 ≤ t.delete.progress → t.table = false)
    (hcand : 5 ≤ t.delete.progress → ∀ w, kind w = .retry → s.phase w = .waiting →
      t.cancelled w = true)
    (hnoMeta : t.delete.NoMeta → t.hasMeta = false) : Inv kind t where
  holding w hw := absurd (hph ▸ hw) (hnot w)
  lock _ := hl
  inactive _ w := by
    rw [hph]
    exact hinac w
  retries _ w hw := absurd (hph ▸ hw) (hnot w)
  configured := hconf
  table := htab
  cancelled hle w hk hw := by
    rw [hph] at hw
    exact hcand hle w hk (hw.resolve_right (hnot w))
  noMeta := hnoMeta
  scans w := by
    rw [hph]
    exact h.scans w

theorem cancelRetries_eq_true {ok : Bool} (hq : ok = true ∨ NoRetryWaits kind s)
    (hk : kind w = .retry) (hw : s.phase w = .waiting) : cancelRetries kind s ok w = true := by
  rcases hq with rfl | hn
  · simp [cancelRetries, hk, hw]
  · exact absurd hw (hn w hk)

theorem Inv.delete [Fintype W] (h : Inv kind s) {ok : Bool} (hq : Quiet kind s (.delete ok))
    (hs : delete kind s ok = some s') : Inv kind s' := by
  unfold Collections.delete at hs
  have hq : QuietDelete kind s ok s.delete := hq
  have hl := h.lock
  have hnot := h.not_holding
  have hinac := h.inactive
  have hconf := h.configured
  have htab := h.table
  have hcand := h.cancelled
  have hnoMeta := h.noMeta
  cases hd : s.delete <;> simp only [hd, progress] at *
  case idle =>
    split_ifs at hs <;> cases hs
    · exact h.early (Or.inl ⟨rfl, rfl⟩)
    · exact h.early (Or.inl ⟨rfl, rfl⟩)
  case requested seen =>
    split_ifs at hs with hok hfr <;> cases hs
    · exact h.early (Or.inr ⟨hfr, rfl, rfl⟩)
    · exact h.early (Or.inl ⟨rfl, rfl⟩)
  case locked seen =>
    have hnot := hnot (by decide) (by decide)
    split_ifs at hs with hcheck <;> cases hs
    · simp only [Bool.and_eq_true, decide_eq_true_eq] at hcheck
      refine h.advance hnot hcheck.2 rfl (fun _ => hl (by decide) (by decide))
        (fun hle => absurd hle (by simp [progress]))
        (fun hle => absurd hle (by simp [progress]))
        (fun hle => absurd hle (by simp [progress])) fun hn => ?_
      cases hmeta : s.hasMeta with
      | false => rfl
      | true =>
        simp only [hmeta, Bool.or_true] at hn
        exact hn.elim
    · exact h.answer_false hnot s.configured
  case checked hasMeta =>
    have hnot := hnot (by decide) (by decide)
    split_ifs at hs <;> cases hs
    · refine h.advance hnot (hinac (by decide)) rfl (fun _ => hl (by decide) (by decide))
        (fun _ => rfl) (fun hle => absurd hle (by simp [progress]))
        (fun hle => absurd hle (by simp [progress])) fun hn => ?_
      cases hasMeta with
      | false => exact hnoMeta trivial
      | true => exact hn.elim
    · exact h.answer_false hnot s.configured
  case edited hasMeta was =>
    have hnot := hnot (by decide) (by decide)
    cases hasMeta with
    | false =>
      cases hs
      exact h.advance hnot (hinac (by decide)) rfl
        (fun hle => absurd hle (by simp [answer, progress]))
        (fun _ => hconf (by decide)) (fun _ => hq.1)
        (fun _ w hk hw => cancelRetries_eq_true hq.2 hk hw) fun _ => hnoMeta trivial
    | true =>
      simp only at hs
      split_ifs at hs <;> cases hs
      · exact h.advance hnot (hinac (by decide)) rfl (fun _ => hl (by decide) (by decide))
          (fun _ => hconf (by decide)) (fun _ => rfl)
          (fun hle => absurd hle (by simp [progress])) False.elim
      · exact h.answer_false hnot was
  case dropped =>
    cases hs
    exact h.advance (hnot (by decide) (by decide)) (hinac (by decide)) rfl
      (fun _ => hl (by decide) (by decide)) (fun _ => hconf (by decide))
      (fun _ => htab (by decide))
      (fun _ w hk hw => cancelRetries_eq_true hq hk hw) False.elim
  case retriesCancelled =>
    have hnot := hnot (by decide) (by decide)
    split_ifs at hs <;> cases hs
    · exact h.advance hnot (hinac (by decide)) rfl
        (fun hle => absurd hle (by simp [answer, progress]))
        (fun _ => hconf (by decide)) (fun _ => htab (by decide))
        (fun _ w hk hw => hcand (by decide) w hk (Or.inl hw)) fun _ => rfl
    · exact h.answer_false hnot s.configured
  case answered deleted => cases hs

end

/-- **One event keeps the invariant.** -/
theorem Inv.step [Fintype W] (h : Inv kind s) {e : Event W} (hq : Quiet kind s e)
    (hs : step kind s e = some s') : Inv kind s' := by
  cases e with
  | start w => exact h.start hs
  | enter w => exact h.enter hq hs
  | claim w granted => exact h.claim hs
  | call w c => exact h.call hq hs
  | finish w => exact h.finish hs
  | delete ok => exact h.delete hq hs

end Steps

/-! ### Deleted collections -/

/-- Nothing has begun. -/
structure Init (s : State W) : Prop where
  phase : ∀ w, s.phase w = .absent
  delete : s.delete = .idle

omit [DecidableEq W] in
theorem Init.inv {s : State W} (h : Init s) : Inv kind s where
  holding w hw := by rw [h.phase w] at hw; cases hw
  lock hle := absurd hle (by simp [h.delete, progress])
  inactive hle := absurd hle (by simp [h.delete, progress])
  retries hle := absurd hle (by simp [h.delete, progress])
  configured hle := absurd hle (by simp [h.delete, progress])
  table hle := absurd hle (by simp [h.delete, progress])
  cancelled hle := absurd hle (by simp [h.delete, progress])
  noMeta hn := by rw [h.delete] at hn; exact hn.elim
  scans w := by rw [h.phase w]; simp

variable {kind}

/-- **A deleted collection stays deleted.** In every run whose steps meet the conditions,
and with any number of writers that start before the `DELETE`, neither the table nor the
meta row exists in any state after the answer that it was deleted. -/
theorem gone_of_quiet [Fintype W] {s s' : State W} {events : List (Event W)} (hinit : Init s)
    (hquiet : Along (step kind) (Quiet kind) s events) (hrun : run (step kind) s events = some s')
    (hdeleted : s'.delete = .answered true) : s'.Gone := by
  have hinv : Inv kind s' :=
    run_invariant_along (fun _ _ _ hq h hs => h.step hq hs) hquiet (hinit.inv kind) hrun
  refine ⟨hinv.table ?_, hinv.noMeta ?_⟩
  · simp [hdeleted, progress]
  · rw [hdeleted]
    trivial

/-! ### Two runs -/

instance (kind : W → Kind) [Fintype W] (s : State W) : Decidable (NoRetryWaits kind s) :=
  inferInstanceAs (Decidable (∀ w, kind w = .retry → s.phase w ≠ .waiting))

instance (kind : W → Kind) [Fintype W] (s : State W) (ok : Bool) (d : DeletePhase) :
    Decidable (QuietDelete kind s ok d) := by
  unfold QuietDelete
  split <;> infer_instance

instance (kind : W → Kind) [Fintype W] (s : State W) (e : Event W) :
    Decidable (Quiet kind s e) := by
  unfold Quiet
  split <;> infer_instance

def sampleKind : Bool → Kind
  | false => .retry
  | true => .prune

def sampleState : State Bool where
  table := true
  rows := true
  hasMeta := true
  configured := true
  lock := none
  phase _ := .absent
  cancelled _ := false
  delete := .idle

/-- The `DELETE`, without a failure. -/
def deletes : List (Event Bool) := List.replicate 7 (.delete true)

/-- A run in which the recompute has read the row before the `DELETE`, and a retry waits. -/
def sampleEvents : List (Event Bool) :=
  [.start false, .start true, .call true (.recomputeRead true)] ++ deletes ++
    [.enter false, .claim false true, .call true .recomputeWrite]

/-- The retry is cancelled, and the row is not written back. -/
theorem gone_of_quiet_sampleEvents :
    ∃ s, run (step sampleKind) sampleState sampleEvents = some s ∧
      s.delete = .answered true ∧ s.Gone := by
  have hq : Along (step sampleKind) (Quiet sampleKind) sampleState sampleEvents := by decide
  exact ⟨_, rfl, rfl, gone_of_quiet ⟨fun _ => rfl, rfl⟩ hq rfl rfl⟩

/-- The recompute of a pruned collection reads the row after the `DELETE`, finds none, and
writes one. -/
theorem resurrected_by_prune :
    ∃ s, run (step sampleKind) sampleState
        ([.start true] ++ deletes ++
          [.call true (.recomputeRead true), .call true .recomputeWrite]) = some s ∧
      s.delete = .answered true ∧ s.hasMeta = true ∧ ¬s.Gone := by
  refine ⟨_, rfl, rfl, rfl, fun h => ?_⟩
  cases h.2

end ArchonSearch.Collections
