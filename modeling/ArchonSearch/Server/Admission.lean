import Mathlib.Algebra.Order.Group.Int
import ArchonSearch.Lib.Run

/-!
# The slot and the lock of an ingest

`POST /ingest` and `POST /collections` reserve a slot, acquire the lock of the collection, create
the job, and hand both to the task that they start. The slot is given back by a done-callback of the
task, the lock by its `finally`.

A task that is cancelled before its first step never comes to its `finally`. In every run in which
no task is that has a lock, the slots and the locks are those of the requests and tasks that live
(`locks_safe_of_run`); otherwise a lock may stay locked for good (`lock_leaked`).
-/

namespace ArchonSearch.Server.Admission

open Lib Function List Option

inductive Endpoint where
  | ingest
  | addCollection
  deriving DecidableEq

structure IngestSlot where
  /-- `_admission` is not `None`. -/
  held : Bool := true
  attached : Bool := false

/-- Where a request is, or the task that it has started. -/
inductive Pc (L : Type) where
  /-- The handler, at an await before it acquires the lock. -/
  | working
  | waiting (lock : L)
  /-- The handler, without the lock: it refuses the request. -/
  | refusing
  /-- `acquire_collection_lock_or_503` has returned the lock. -/
  | holding (lock : L)
  /-- The task, before its first step. -/
  | created (heldLock : Option L)
  | running (ownedLock : Option L)
  /-- The task, before its callbacks. -/
  | ended
  | over
  deriving DecidableEq

def Pc.lock {L : Type} : Pc L → Option L
  | holding lock => some lock
  | created lock | running lock => lock
  | _ => none

inductive Holder (O : Type) where
  | request : ℕ → Holder O
  | other : O → Holder O
  deriving DecidableEq

structure Request (L O : Type) where
  endpoint : Endpoint
  slot : IngestSlot := {}
  pc : Pc L := .working
  /-- The lock that the handler has acquired. -/
  preAcquired : Option L := none
  /-- Who held the lock, each time that the handler or the task released it. -/
  released : List (Option (Holder O)) := []

/-- What all requests share. -/
structure Shared (L O : Type) where
  active : ℤ
  /-- Who has acquired the lock, if it is `locked()`. -/
  holder : L → Option (Holder O)

structure State (L O : Type) where
  shared : Shared L O
  /-- `[ingest].max_concurrent_tasks`. -/
  limit : ℤ
  requests : List (Request L O) := []
  /-- The count and the limit, at each successful reservation. -/
  reserved : List (ℤ × ℤ) := []

/-- What one request does, or its task. -/
inductive Action (L : Type) where
  /-- It refuses, raises or is cancelled. -/
  | leave
  | wait : L → Action L
  /-- `acquire` returns; whether the job is created. -/
  | acquire : L → (creates : Bool) → Action L
  /-- A timeout, or a cancellation. -/
  | giveUp
  /-- `acquire_collection_lock_or_503` returns `None`. -/
  | goWithout : (creates : Bool) → Action L
  /-- `_rollback_add` has come to its end, or was cancelled. -/
  | rolledBack
  | start
  | cancelUnstarted
  /-- The lock is released before the dispatch. -/
  | dispatch
  | finish
  | callbacks

inductive Event (L O : Type) where
  | post : Endpoint → Event L O
  | configure : (limit : ℤ) → Event L O
  | request : (i : ℕ) → Action L → Event L O
  | otherAcquires : O → L → Event L O
  | otherReleases : O → L → Event L O

variable {L O : Type} [DecidableEq L]

/-! ### Steps -/

namespace Request

variable (r : Request L O) (s : Shared L O)

/-- `IngestSlot.release`. -/
def releaseSlot : Request L O × Shared L O :=
  if r.slot.held then ({ r with slot.held := false }, { s with active := s.active - 1 })
  else (r, s)

/-- `release_unless_attached`, with which a handler ends. -/
def leave : Request L O × Shared L O :=
  let (r, s) := if r.slot.attached then (r, s) else r.releaseSlot s
  ({ r with pc := .over }, s)

/-- The lock is released, if it is locked. -/
def releaseLock (pc : Pc L) : Request L O × Shared L O :=
  match r.pc.lock with
  | none => ({ r with pc := pc }, s)
  | some lock =>
    if (s.holder lock).isSome then
      ({ r with pc := pc, released := s.holder lock :: r.released },
        { s with holder := update s.holder lock none })
    else ({ r with pc := pc }, s)

/-- `_track_background_task`. -/
def track : Request L O :=
  { r with slot.attached := true, pc := .created r.pc.lock }

def acquire (i : ℕ) (lock : L) : Request L O × Shared L O :=
  ({ r with pc := .holding lock, preAcquired := some lock },
    { s with holder := update s.holder lock (some (.request i)) })

/-- The handler with the lock. Where there is no job, `add_collection` still has to roll back. -/
def proceed (creates : Bool) : Request L O × Shared L O :=
  match creates, r.endpoint with
  | true, _ => (r.track, s)
  | false, .ingest =>
    let (r, s) := r.releaseLock s .refusing
    r.leave s
  | false, .addCollection => (r, s)

def step (i : ℕ) : Action L → Option (Request L O × Shared L O)
  | .leave => if r.pc = .working ∨ r.pc = .refusing then some (r.leave s) else none
  | .wait lock => if r.pc = .working then some ({ r with pc := .waiting lock }, s) else none
  | .acquire lock creates =>
    if (r.pc = .working ∨ r.pc = .waiting lock) ∧ s.holder lock = none then
      let (r, s) := r.acquire s i lock
      some (r.proceed s creates)
    else none
  | .giveUp =>
    match r.pc with
    | .waiting _ => some ({ r with pc := .refusing }, s)
    | _ => none
  | .goWithout creates =>
    if r.pc = .working ∧ r.endpoint = .ingest then
      some (if creates then (r.track, s) else r.leave s)
    else none
  | .rolledBack =>
    match r.pc with
    | .holding _ =>
      let (r, s) := r.releaseLock s .refusing
      some (r.leave s)
    | _ => none
  | .start =>
    match r.pc with
    | .created lock => some ({ r with pc := .running lock }, s)
    | _ => none
  -- the body of the coroutine does not run, and so neither does its `finally`
  | .cancelUnstarted =>
    match r.pc with
    | .created _ => some ({ r with pc := .ended }, s)
    | _ => none
  | .dispatch =>
    match r.pc with
    | .running _ => some (r.releaseLock s (.running none))
    | _ => none
  | .finish =>
    match r.pc with
    | .running _ => some (r.releaseLock s .ended)
    | _ => none
  | .callbacks =>
    if r.pc = .ended then
      let (r, s) := r.releaseSlot s
      some ({ r with pc := .over }, s)
    else none

end Request

/-- `IngestAdmission.reserve`, and the request that has the slot. -/
def State.reserve (s : State L O) (endpoint : Endpoint) : State L O :=
  if s.limit ≤ s.shared.active then s
  else
    { s with
      shared.active := s.shared.active + 1
      requests := s.requests ++ [{ endpoint := endpoint }]
      reserved := (s.shared.active + 1, s.limit) :: s.reserved }

def step [DecidableEq O] (s : State L O) : Event L O → Option (State L O)
  | .post endpoint => some (s.reserve endpoint)
  | .configure limit => some { s with limit := limit }
  | .request i action =>
    s.requests[i]?.bind fun r => (r.step s.shared i action).map fun (r, shared) =>
      { s with requests := s.requests.set i r, shared := shared }
  | .otherAcquires o lock =>
    if s.shared.holder lock = none then
      some { s with shared.holder := update s.shared.holder lock (some (.other o)) }
    else none
  | .otherReleases o lock =>
    if s.shared.holder lock = some (.other o) then
      some { s with shared.holder := update s.shared.holder lock none }
    else none

/-- No request has come. -/
structure State.IsStart (s : State L O) : Prop where
  active : s.shared.active = 0
  requests : s.requests = []
  reserved : s.reserved = []
  holder : ∀ lock i, s.shared.holder lock ≠ some (.request i)

/-! ### Safety -/

/-- The slot and the lock of the `i`-th request, and of its task. -/
structure Request.Ok (i : ℕ) (r : Request L O) (s : Shared L O) : Prop where
  /-- It has its slot until it is over. -/
  held : r.slot.held = decide (r.pc ≠ .over)
  /-- It has the lock as long as the code says. -/
  holder : ∀ lock, s.holder lock = some (.request i) ↔ r.pc.lock = some lock
  /-- The lock is released when it has it no more, once, and by itself. -/
  released : r.released = if r.pc.lock = r.preAcquired then [] else [some (.request i)]

/-- **Slots and locks are accounted for**, in all requests. -/
structure State.Safe (s : State L O) : Prop where
  active : s.shared.active = s.requests.countP fun r => r.slot.held
  reserved : ∀ entry ∈ s.reserved, entry.1 ≤ entry.2
  ok : ∀ i (r : Request L O), s.requests[i]? = some r → r.Ok i s.shared

/-- No task that has a lock is cancelled before its first step. -/
def State.Keeps (s : State L O) : Event L O → Prop
  | .request i .cancelUnstarted => ∀ r, s.requests[i]? = some r → r.pc.lock = none
  | _ => True

/-! ### The invariant -/

def Pc.beforeLock : Pc L → Bool
  | working | waiting _ => true
  | _ => false

/-- A task has been started. -/
def Pc.inTask : Pc L → Bool
  | .created _ | .running _ | .ended | .over => true
  | _ => false

structure Request.Sound (i : ℕ) (r : Request L O) (s : Shared L O) : Prop extends r.Ok i s where
  unattached : r.slot.attached = true → r.pc.inTask = true
  fresh : r.pc.beforeLock = true → r.preAcquired = none
  mine : ∀ lock, r.pc.lock = some lock → r.preAcquired = some lock

def Request.slots (r : Request L O) : ℤ := if r.slot.held then 1 else 0

/-- The `i`-th request moves on, and leaves the others their slots and locks. -/
structure Moves (i : ℕ) (p q : Request L O × Shared L O) : Prop where
  sound : q.1.Sound i q.2
  active : q.2.active - q.1.slots = p.2.active - p.1.slots
  others : ∀ j, j ≠ i → ∀ lock,
    q.2.holder lock = some (.request j) ↔ p.2.holder lock = some (.request j)

variable {i : ℕ} {r : Request L O} {s : Shared L O} {p q u : Request L O × Shared L O} {pc : Pc L}
  {lock : L} {creates : Bool}

theorem Moves.trans (h : Moves i p q) (h' : Moves i q u) : Moves i p u where
  sound := h'.sound
  active := h'.active.trans h.active
  others j hj lock := (h'.others j hj lock).trans (h.others j hj lock)

namespace Request.Sound

theorem refl (h : r.Sound i s) : Moves i (r, s) (r, s) := ⟨h, rfl, fun _ _ _ => Iff.rfl⟩

theorem goto (h : r.Sound i s) (hl : pc.lock = r.pc.lock) (hli : r.pc ≠ .over)
    (hli' : pc ≠ .over) (htask : r.pc.inTask = true → pc.inTask = true)
    (hfr : pc.beforeLock = true → r.pc.beforeLock = true) :
    Moves i (r, s) ({ r with pc := pc }, s) := by
  refine ⟨⟨⟨?_, fun lock => ?_, ?_⟩, fun hatt => htask (h.unattached hatt),
    fun hbef => h.fresh (hfr hbef), fun lock ho => h.mine lock (hl ▸ ho)⟩, rfl,
    fun _ _ _ => Iff.rfl⟩
  · rw [h.held, decide_eq_true hli, decide_eq_true hli']
  · rw [hl]
    exact h.holder lock
  · rw [hl]
    exact h.released

/-- A free lock is acquired. -/
theorem acquire (h : r.Sound i s) (hbef : r.pc.beforeLock = true)
    (hfr : s.holder lock = none) : Moves i (r, s) (r.acquire s i lock) := by
  have hn : r.pc.lock = none ∧ r.pc ≠ .over ∧ r.pc.inTask = false := by
    cases hpc : r.pc <;> simp_all [Pc.beforeLock, Pc.lock, Pc.inTask]
  refine ⟨⟨⟨?_, fun lock' => ?_, ?_⟩, fun hatt => ?_, nofun, fun _ => id⟩, rfl,
    fun j hj lock' => ?_⟩
  · rw [Request.acquire, h.held, decide_eq_true hn.2.1]
    rfl
  · by_cases heq : lock' = lock
    · simp [Request.acquire, heq, Pc.lock]
    · have hsa := h.holder lock'
      rw [hn.1] at hsa
      simpa [Request.acquire, heq, Pc.lock, Ne.symm heq] using hsa
  · have hrel := h.released
    rw [hn.1, h.fresh hbef, if_pos rfl] at hrel
    rw [Request.acquire, hrel]
    exact (if_pos rfl).symm
  · cases (h.unattached hatt).symm.trans hn.2.2
  · by_cases heq : lock' = lock
    · simp [Request.acquire, heq, hfr, hj.symm]
    · simp [Request.acquire, heq]

/-- Its own lock is released. -/
theorem releaseLock (h : r.Sound i s) (hl : pc.lock = none) (hli : r.pc ≠ .over)
    (hli' : pc ≠ .over) (htask : r.pc.inTask = true → pc.inTask = true)
    (hfr : pc.beforeLock = false) : Moves i (r, s) (r.releaseLock s pc) := by
  cases ho : r.pc.lock with
  | none =>
    rw [Request.releaseLock, ho]
    refine h.goto (hl.trans ho.symm) hli hli' htask fun hbef => ?_
    cases hbef.symm.trans hfr
  | some lock =>
    have hho := (h.holder lock).mpr ho
    simp only [Request.releaseLock, ho, hho, isSome_some, if_true]
    refine ⟨⟨⟨?_, fun lock' => ?_, ?_⟩, fun hatt => htask (h.unattached hatt),
      fun hbef => ?_, fun lock' ho' => ?_⟩, rfl, fun j hj lock' => ?_⟩
    · rw [h.held, decide_eq_true hli, decide_eq_true hli']
    · by_cases heq : lock' = lock
      · simp [heq, hl]
      · have hsa := h.holder lock'
        rw [ho, some_inj] at hsa
        simpa [heq, hl, Ne.symm heq] using hsa
    · have hrel := h.released
      rw [ho, h.mine lock ho, if_pos rfl] at hrel
      simp [hrel, hl, h.mine lock ho]
    · cases hbef.symm.trans hfr
    · cases hl.symm.trans ho'
    · by_cases heq : lock' = lock
      · simp [heq, hho, hj.symm]
      · simp [heq]

/-- The slot is released, and that is the end. -/
theorem finish (h : r.Sound i s) (hl : r.pc.lock = none) (hli : r.pc ≠ .over) :
    Moves i (r, s) ({ (r.releaseSlot s).1 with pc := .over }, (r.releaseSlot s).2) := by
  have hh : r.slot.held = true := h.held.trans (decide_eq_true hli)
  have hrel := h.released
  rw [hl] at hrel
  simp only [releaseSlot, hh, if_true]
  refine ⟨⟨⟨rfl, fun lock => ?_, hrel⟩, fun _ => rfl, nofun, nofun⟩, ?_, fun _ _ _ => Iff.rfl⟩
  · rw [h.holder lock, hl]
    rfl
  · simp [slots, hh]

theorem leave (h : r.Sound i s) (hl : r.pc.lock = none) (htask : r.pc.inTask = false) :
    Moves i (r, s) (r.leave s) := by
  have hunat : r.slot.attached ≠ true := fun hatt => by
    cases (h.unattached hatt).symm.trans htask
  rw [Request.leave, if_neg hunat]
  refine h.finish hl fun hover => ?_
  rw [hover] at htask
  cases htask

theorem track (h : r.Sound i s) (hli : r.pc ≠ .over) : Moves i (r, s) (r.track, s) := by
  refine ⟨⟨⟨?_, h.holder, h.released⟩, fun _ => rfl, nofun, h.mine⟩, rfl, fun _ _ _ => Iff.rfl⟩
  exact h.held.trans (decide_eq_true hli)

/-- A handler without a job releases the lock, and leaves. -/
theorem rollBack (h : r.Sound i s) (hpc : r.pc = .holding lock) : Moves i (r, s)
    ((r.releaseLock s .refusing).1.leave (r.releaseLock s .refusing).2) := by
  have hrel : Moves i (r, s) (r.releaseLock s .refusing) :=
    h.releaseLock rfl (by simp [hpc]) nofun (by simp [hpc, Pc.inTask]) rfl
  have hpc' : (r.releaseLock s .refusing).1.pc = .refusing := by
    unfold Request.releaseLock
    split
    · rfl
    · split_ifs <;> rfl
  exact hrel.trans (Sound.leave hrel.sound (congrArg Pc.lock hpc') (congrArg Pc.inTask hpc'))

theorem proceed (h : r.Sound i s) (hpc : r.pc = .holding lock) :
    Moves i (r, s) (r.proceed s creates) := by
  have hli : r.pc ≠ .over := by simp [hpc]
  unfold Request.proceed
  split
  · exact h.track hli
  · exact h.rollBack hpc
  · exact h.refl

theorem step {a : Action L} (h : r.Sound i s) (hs : r.step s i a = some p)
    (hkp : a = .cancelUnstarted → r.pc.lock = none) : Moves i (r, s) p := by
  cases a with
  | leave =>
    obtain ⟨hpc, rfl⟩ := of_guard hs
    rcases hpc with hpc | hpc
    · exact h.leave (by rw [hpc]; rfl) (by rw [hpc]; rfl)
    · exact h.leave (by rw [hpc]; rfl) (by rw [hpc]; rfl)
  | wait lock =>
    obtain ⟨hpc, rfl⟩ := of_guard hs
    exact h.goto (by rw [hpc]; rfl) (by simp [hpc]) nofun (by simp [hpc, Pc.inTask])
      (by simp [hpc, Pc.beforeLock])
  | acquire lock creates =>
    obtain ⟨hpc, rfl⟩ := of_guard hs
    have hbef : r.pc.beforeLock = true := by
      rcases hpc.1 with hpc | hpc <;> rw [hpc] <;> rfl
    have hacq := h.acquire hbef hpc.2
    exact hacq.trans (Sound.proceed hacq.sound rfl)
  | giveUp =>
    simp only [Request.step] at hs
    split at hs <;> cases hs
    next hpc =>
      exact h.goto (by rw [hpc]; rfl) (by simp [hpc]) nofun (by simp [hpc, Pc.inTask]) nofun
  | goWithout creates =>
    simp only [Request.step] at hs
    split_ifs at hs with hpc hcrs <;> cases hs
    · exact h.track (by simp [hpc.1])
    · exact h.leave (by rw [hpc.1]; rfl) (by rw [hpc.1]; rfl)
  | rolledBack =>
    simp only [Request.step] at hs
    split at hs <;> cases hs
    next hpc => exact h.rollBack hpc
  | start =>
    simp only [Request.step] at hs
    split at hs <;> cases hs
    next hpc => exact h.goto (by rw [hpc]; rfl) (by simp [hpc]) nofun (fun _ => rfl) nofun
  | cancelUnstarted =>
    simp only [Request.step] at hs
    split at hs <;> cases hs
    next hpc =>
      exact h.goto (hkp rfl).symm (by simp [hpc]) nofun (fun _ => rfl) nofun
  | dispatch =>
    simp only [Request.step] at hs
    split at hs <;> cases hs
    next hpc => exact h.releaseLock rfl (by simp [hpc]) nofun (fun _ => rfl) rfl
  | finish =>
    simp only [Request.step] at hs
    split at hs <;> cases hs
    next hpc => exact h.releaseLock rfl (by simp [hpc]) nofun (fun _ => rfl) rfl
  | callbacks =>
    obtain ⟨hpc, rfl⟩ := of_guard hs
    exact h.finish (by rw [hpc]; rfl) (by simp [hpc])

end Request.Sound

/-! ### Runs -/

/-- The slots and locks of all requests are accounted for. -/
structure State.Inv (s : State L O) : Prop where
  active : s.shared.active = s.requests.countP fun r => r.slot.held
  reserved : ∀ entry ∈ s.reserved, entry.1 ≤ entry.2
  sound : ∀ i (r : Request L O), s.requests[i]? = some r → r.Sound i s.shared
  created : ∀ i lock, s.shared.holder lock = some (.request i) → i < s.requests.length

variable {s t : State L O} {e : Event L O} {events : List (Event L O)}

theorem State.IsStart.inv (h : s.IsStart) : s.Inv where
  active := by rw [h.active, h.requests]; rfl
  reserved entry hent := by rw [h.reserved] at hent; cases hent
  sound i r hr := by rw [h.requests] at hr; cases hr
  created i lock hho := absurd hho (h.holder lock i)

namespace State.Inv

theorem request {i : ℕ} {r : Request L O} {p : Request L O × Shared L O} (h : s.Inv)
    (hr : s.requests[i]? = some r) (hmvs : Moves i (r, s.shared) p) :
    State.Inv { s with requests := s.requests.set i p.1, shared := p.2 } := by
  obtain ⟨hi, rfl⟩ := List.getElem?_eq_some_iff.mp hr
  refine ⟨?_, h.reserved, fun j r' hr' => ?_, fun j lock hho => ?_⟩
  · have hact := hmvs.active
    have hcnt := h.active
    have hpos : s.requests[i].slot.held = true →
        0 < s.requests.countP fun r => r.slot.held := fun hh =>
      countP_pos_iff.mpr ⟨_, getElem_mem hi, hh⟩
    simp only [Request.slots] at hact
    rw [countP_set hi]
    cases hh : s.requests[i].slot.held <;> cases hh' : p.1.slot.held <;>
      simp only [hh, hh', if_true, Bool.false_eq_true, if_false, forall_const] at hact hpos ⊢ <;>
      omega
  · by_cases hj : i = j
    · subst hj
      rw [getElem?_set_self hi] at hr'
      exact some.inj hr' ▸ hmvs.sound
    · rw [getElem?_set_ne hj] at hr'
      have hsd := h.sound j r' hr'
      refine { hsd with holder := fun lock => ?_ }
      exact (hmvs.others j (Ne.symm hj) lock).trans (hsd.holder lock)
  · rw [length_set]
    by_cases hj : j = i
    · exact hj ▸ hi
    · exact h.created j lock ((hmvs.others j hj lock).mp hho)

/-- Somebody else acquires a free lock, or releases his own. -/
theorem other {lock : L} {holder : Option (Holder O)} (h : s.Inv)
    (hold : ∀ i, s.shared.holder lock ≠ some (.request i)) (hw : ∀ i, holder ≠ some (.request i)) :
    State.Inv { s with shared.holder := update s.shared.holder lock holder } := by
  have hsa (i : ℕ) (lock' : L) : update s.shared.holder lock holder lock' =
      some (.request i) ↔ s.shared.holder lock' = some (.request i) := by
    by_cases heq : lock' = lock
    · subst heq
      rw [update_self]
      exact iff_of_false (hw i) (hold i)
    · rw [update_of_ne heq]
  refine ⟨h.active, h.reserved, fun i r hr => ?_, fun i lock' => ?_⟩
  · have hsd := h.sound i r hr
    exact { hsd with holder := fun lock' => (hsa i lock').trans (hsd.holder lock') }
  · exact fun hho => h.created i lock' ((hsa i lock').mp hho)

theorem reserve (h : s.Inv) (endpoint : Endpoint) : (s.reserve endpoint).Inv := by
  unfold State.reserve
  split_ifs with hfull
  · exact h
  refine ⟨?_, fun entry hent => ?_, fun i r hr => ?_, fun i lock hho => ?_⟩
  · rw [countP_append, h.active]
    rfl
  · rcases mem_cons.mp hent with rfl | hent
    · show s.shared.active + 1 ≤ s.limit
      omega
    · exact h.reserved entry hent
  · by_cases hi : i < s.requests.length
    · rw [getElem?_append_left hi] at hr
      exact { h.sound i r hr with }
    · have hl : i = s.requests.length := by
        have hlt := (List.getElem?_eq_some_iff.mp hr).1
        simp at hlt
        omega
      subst hl
      simp at hr
      subst hr
      refine ⟨⟨rfl, fun lock => iff_of_false (fun hho => ?_) nofun, rfl⟩,
        nofun, fun _ => rfl, nofun⟩
      exact hi (h.created _ lock hho)
  · have hlt := h.created i lock hho
    simp
    omega

theorem step [DecidableEq O] (h : s.Inv) (hkp : s.Keeps e)
    (hs : Admission.step s e = some t) : t.Inv := by
  cases e with
  | post endpoint =>
    cases hs
    exact h.reserve endpoint
  | configure limit =>
    cases hs
    exact { h with }
  | request i action =>
    obtain ⟨r, hr, hmap⟩ := bind_eq_some_iff.mp hs
    obtain ⟨p, hp, rfl⟩ := map_eq_some_iff.mp hmap
    refine h.request hr ((h.sound i r hr).step hp fun hact => ?_)
    subst hact
    exact hkp r hr
  | otherAcquires o lock =>
    obtain ⟨hfr, rfl⟩ := of_guard hs
    exact h.other (by simp [hfr]) nofun
  | otherReleases o lock =>
    obtain ⟨hmine, rfl⟩ := of_guard hs
    exact h.other (by simp [hmine]) nofun

end State.Inv

/-- **No slot and no lock is leaked** in a run in which no task that has a lock is cancelled before
its first step. -/
theorem locks_safe_of_run [DecidableEq O] (hstart : s.IsStart)
    (hkeeps : Along step State.Keeps s events)
    (hrun : run step s events = some t) : t.Safe := by
  have hinv : t.Inv := run_invariant_along (fun _ _ _ hkeeps h hs => h.step hkeeps hs) hkeeps
    hstart.inv hrun
  exact ⟨hinv.active, hinv.reserved, fun i r hr => (hinv.sound i r hr).toOk⟩

def idle : State ℕ ℕ where
  shared := { active := 0, holder := fun _ => none }
  limit := 1

theorem isStart_idle : idle.IsStart := ⟨rfl, rfl, rfl, nofun⟩

/-- A request hands the lock over, and another one is refused while the task runs. -/
def handedOver : List (Event ℕ ℕ) :=
  [.post .ingest, .request 0 (.acquire 7 true), .post .addCollection, .request 0 .start,
    .request 0 .finish, .request 0 .callbacks]

theorem locks_safe_of_run_handedOver : ∃ t, run step idle handedOver = some t ∧
    t.shared.active = 0 ∧ t.shared.holder 7 = none ∧ t.Safe := by
  have hr : run step idle handedOver = some _ := rfl
  have hkp : Along step State.Keeps idle handedOver := by
    simp [Along, handedOver, State.Keeps]
  exact ⟨_, hr, rfl, rfl, locks_safe_of_run isStart_idle hkp hr⟩

/-- **A lock is leaked**: the task is cancelled before its first step, and nobody has the lock that
is locked. -/
theorem lock_leaked : ¬∀ (events : List (Event ℕ ℕ)) (t : State ℕ ℕ),
    run step idle events = some t → t.Safe := by
  intro h
  have hsafe := h [.post .ingest, .request 0 (.acquire 7 true), .request 0 .cancelUnstarted,
    .request 0 .callbacks] _ rfl
  have hrel := (hsafe.ok 0 _ rfl).released
  cases hrel

end ArchonSearch.Server.Admission
