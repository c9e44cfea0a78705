import Mathlib.Data.List.Basic
import Mathlib.Data.Set.Subsingleton

/-!
# The lock of an event loop

`asyncio.Lock` as the standard library implements it. The lock is a flag and a queue of waiters,
each with a future of its own. `acquire` takes a free lock at once when nobody who is still
interested waits, and otherwise appends a future and suspends. `release` clears the flag and
resolves the future of the *first* waiter; that waiter sets the flag only when the event loop
resumes it, so there is a time at which the lock is free and promised. A waiter may be cancelled
before or after its future is resolved, and takes itself out of the queue only when it is resumed.

The callers are named by an arbitrary type. `Lock.Sound` ties the lock to the callers suspended in
`acquire` and to the ones that hold it: at most one of the latter. Every operation preserves it.
-/

namespace ArchonSearch.Lib

open List

/-- The future of a waiter, together with the cancellation its task may still have
to be told of. -/
inductive Waiter where
  | pending
  /-- `set_result(True)`, and the task has not run since. -/
  | woken
  /-- As `woken`, and the task has been cancelled meanwhile: the future is done and
  stays so, and the task is resumed with a `CancelledError`. -/
  | wokenCancelled
  | cancelled
  deriving DecidableEq

def Waiter.isWoken : Waiter → Bool
  | .woken | .wokenCancelled => true
  | .pending | .cancelled => false

/-- `Task.cancel` of a task suspended on the future, for a timeout too. -/
def Waiter.cancel : Waiter → Waiter
  | .pending => .cancelled
  | .woken => .wokenCancelled
  | .wokenCancelled => .wokenCancelled
  | .cancelled => .cancelled

@[simp] theorem Waiter.isWoken_cancel (w : Waiter) : w.cancel.isWoken = w.isWoken := by
  cases w <;> rfl

/-- `asyncio.Lock`: `_locked` and `_waiters`, a waiter being named by the caller
whose future it is. -/
structure Lock (ι : Type*) where
  locked : Bool
  /-- `_waiters`, an empty one for `None`. -/
  waiters : List (ι × Waiter)

namespace Lock

variable {ι : Type*}

/-- `asyncio.Lock()`. -/
def new : Lock ι := ⟨false, []⟩

/-- `_wake_up_first`. -/
def wakeUpFirst (l : Lock ι) : Lock ι :=
  match l.waiters with
  | (i, .pending) :: ws => { l with waiters := (i, .woken) :: ws }
  | _ => l

/-- `acquire`, up to where it returns or suspends: whether it has returned. -/
def acquire (l : Lock ι) (i : ι) : Lock ι × Bool :=
  if !l.locked && l.waiters.all (fun w => w.2 = .cancelled) then
    ({ l with locked := true }, true)
  else
    ({ l with waiters := l.waiters ++ [(i, .pending)] }, false)

/-- `release`, of a lock that is held. -/
def release (l : Lock ι) : Lock ι := wakeUpFirst { l with locked := false }

/-- The task of the caller `i`, suspended in `acquire`, is cancelled. -/
def cancel [DecidableEq ι] (l : Lock ι) (i : ι) : Lock ι :=
  { l with waiters := l.waiters.map fun w => if w.1 = i then (w.1, w.2.cancel) else w }

/-- `_waiters.remove(fut)`. -/
def removeWaiter [DecidableEq ι] (l : Lock ι) (i : ι) : Lock ι :=
  { l with waiters := l.waiters.filter fun w => w.1 ≠ i }

/-- The rest of `acquire` once the future of `i` is done: whether it returns
(otherwise it raises `CancelledError`). A future that is not done does not resume
anybody. -/
def resume [DecidableEq ι] (l : Lock ι) (i : ι) : Option (Lock ι × Bool) :=
  match l.waiters.lookup i with
  | none | some .pending => none
  | some .woken => some ({ removeWaiter l i with locked := true }, true)
  | some .wokenCancelled | some .cancelled =>
    let l' := removeWaiter l i
    some (if l'.locked then l' else l'.wakeUpFirst, false)

/-! ### Soundness -/

@[simp] theorem wakeUpFirst_locked (l : Lock ι) : l.wakeUpFirst.locked = l.locked := by
  unfold wakeUpFirst
  split <;> rfl

@[simp] theorem wakeUpFirst_keys (l : Lock ι) :
    l.wakeUpFirst.waiters.map Prod.fst = l.waiters.map Prod.fst := by
  unfold wakeUpFirst
  split
  next hw => simp [hw]
  next => rfl

@[simp] theorem wakeUpFirst_tail (l : Lock ι) :
    l.wakeUpFirst.waiters.tail = l.waiters.tail := by
  unfold wakeUpFirst
  split
  next hw => simp [hw]
  next => rfl

/-- The lock agrees with the callers `Q` suspended in `acquire` and the callers `H`
that have returned from it and not released. -/
structure Sound (l : Lock ι) (Q H : Set ι) : Prop where
  mem_queue : ∀ i, i ∈ l.waiters.map Prod.fst ↔ i ∈ Q
  woken_first : ∀ w ∈ l.waiters.tail, w.2.isWoken = false
  not_woken : l.locked = true → ∀ w ∈ l.waiters, w.2.isWoken = false
  locked : ∀ i ∈ H, l.locked = true
  unique : H.Subsingleton

theorem sound_new : Sound (new : Lock ι) ∅ ∅ where
  mem_queue i := by simp [new]
  woken_first w hw := by simp [new] at hw
  not_woken h := by simp [new] at h
  locked i hi := hi.elim
  unique := Set.subsingleton_empty

namespace Sound

variable {l : Lock ι} {Q H : Set ι} {i : ι}

theorem holders_eq_empty (h : Sound l Q H) (hl : l.locked = false) : H = ∅ := by
  rw [Set.eq_empty_iff_forall_notMem]
  intro j hj
  have hloc := h.locked j hj
  rw [hl] at hloc
  cases hloc

theorem idle (h : Sound l Q H) (hl : l.locked = false) (hw : l.waiters = []) :
    Q = ∅ ∧ H = ∅ := by
  refine ⟨?_, h.holders_eq_empty hl⟩
  rw [Set.eq_empty_iff_forall_notMem]
  intro j hj
  have hm := (h.mem_queue j).mpr hj
  simp [hw] at hm

theorem wakeUpFirst (h : Sound l Q H) (hl : l.locked = false) : Sound l.wakeUpFirst Q H where
  mem_queue j := by rw [wakeUpFirst_keys]; exact h.mem_queue j
  woken_first w hw := h.woken_first w (by rwa [wakeUpFirst_tail] at hw)
  not_woken hloc := by
    rw [wakeUpFirst_locked, hl] at hloc
    cases hloc
  locked j hj := by rw [wakeUpFirst_locked]; exact h.locked j hj
  unique := h.unique

/-- **`acquire` on its fast path**: the caller becomes the holder. -/
theorem acquire_now (h : Sound l Q H) (ha : (l.acquire i).2 = true) :
    Sound (l.acquire i).1 Q (insert i H) := by
  unfold Lock.acquire at ha ⊢
  split
  next hfr =>
    rw [Bool.and_eq_true, Bool.not_eq_true', all_eq_true] at hfr
    refine ⟨h.mem_queue, h.woken_first, ?_, fun _ _ => rfl, ?_⟩
    · -- the waiters it overtakes are cancelled, none of them is promised anything
      intro _ w hw
      have hc : w.2 = .cancelled := by simpa using hfr.2 w hw
      rw [hc]
      rfl
    · rw [h.holders_eq_empty hfr.1, insert_empty_eq]
      exact Set.subsingleton_singleton
  next hbusy => simp [hbusy] at ha

/-- **`acquire` that suspends**: the caller joins the queue. -/
theorem acquire_wait (h : Sound l Q H) (ha : (l.acquire i).2 = false) :
    Sound (l.acquire i).1 (insert i Q) H := by
  unfold Lock.acquire at ha ⊢
  split
  next hfr => simp [hfr] at ha
  next =>
    refine ⟨?_, ?_, ?_, h.locked, h.unique⟩
    · intro j
      have hj := h.mem_queue j
      simp only [map_append, map_cons, map_nil, mem_append, mem_singleton, Set.mem_insert_iff, hj]
      exact or_comm
    · intro w hw
      cases hws : l.waiters with
      | nil => simp [hws] at hw
      | cons w₀ ws =>
        simp only [hws, cons_append, tail_cons, mem_append, mem_singleton] at hw
        rcases hw with hw | rfl
        · exact h.woken_first w (by simpa [hws] using hw)
        · rfl
    · intro hloc w hw
      rcases mem_append.mp hw with hw | hw
      · exact h.not_woken hloc w hw
      · obtain rfl := mem_singleton.mp hw
        rfl

/-- **`release`** leaves nobody inside. -/
theorem release (h : Sound l Q H) : Sound l.release Q ∅ := by
  refine Sound.wakeUpFirst ⟨h.mem_queue, h.woken_first, ?_, fun _ hj => hj.elim,
    Set.subsingleton_empty⟩ rfl
  intro hloc
  cases hloc

/-- **A cancellation** changes neither the queue nor the promises. -/
theorem cancel [DecidableEq ι] (h : Sound l Q H) (i : ι) : Sound (l.cancel i) Q H := by
  have hwok : ∀ w : ι × Waiter,
      (if w.1 = i then (w.1, w.2.cancel) else w).2.isWoken = w.2.isWoken := by
    intro w
    split <;> simp
  have hk : (Prod.fst ∘ fun w : ι × Waiter => if w.1 = i then (w.1, w.2.cancel) else w)
      = Prod.fst := by
    funext w
    simp only [Function.comp_apply]
    split <;> rfl
  refine ⟨?_, ?_, ?_, h.locked, h.unique⟩
  · intro j
    simp only [Lock.cancel, map_map, hk]
    exact h.mem_queue j
  · intro w hw
    simp only [Lock.cancel, ← map_tail, mem_map] at hw
    obtain ⟨w₀, hw₀, rfl⟩ := hw
    rw [hwok]
    exact h.woken_first w₀ hw₀
  · intro hloc w hw
    simp only [Lock.cancel, mem_map] at hw
    obtain ⟨w₀, hw₀, rfl⟩ := hw
    rw [hwok]
    exact h.not_woken hloc w₀ hw₀

theorem removeWaiter [DecidableEq ι] (h : Sound l Q H) (i : ι) :
    Sound (l.removeWaiter i) (Q \ {i}) H := by
  refine ⟨?_, ?_, ?_, h.locked, h.unique⟩
  · intro j
    have hj := h.mem_queue j
    simp only [Lock.removeWaiter, mem_map, mem_filter, decide_eq_true_eq,
      Set.mem_sdiff, Set.mem_singleton_iff, ← hj]
    constructor
    · rintro ⟨w, ⟨hw, hne⟩, rfl⟩
      exact ⟨⟨w, hw, rfl⟩, hne⟩
    · rintro ⟨⟨w, hw, rfl⟩, hne⟩
      exact ⟨w, ⟨hw, hne⟩, rfl⟩
  · intro w hw
    refine h.woken_first w ?_
    cases hws : l.waiters with
    | nil => simp [Lock.removeWaiter, hws] at hw
    | cons w₀ ws =>
      simp only [Lock.removeWaiter, hws, filter_cons] at hw
      split at hw
      next => exact (mem_filter.mp hw).1
      next => exact (mem_filter.mp (mem_of_mem_tail hw)).1
  · intro hloc w hw
    exact h.not_woken hloc w (mem_filter.mp hw).1

/-- A promised lock is free, and nobody else is promised it. -/
theorem promised [DecidableEq ι] (h : Sound l Q H) {st : Waiter} (hi : (i, st) ∈ l.waiters)
    (hst : st.isWoken = true) :
    l.locked = false ∧ ∀ w ∈ (l.removeWaiter i).waiters, w.2.isWoken = false := by
  refine ⟨?_, ?_⟩
  · by_contra hloc
    have hnot := h.not_woken (by simpa using hloc) _ hi
    rw [hst] at hnot
    cases hnot
  intro w hw
  obtain ⟨hw, hne⟩ := mem_filter.mp hw
  refine h.woken_first w ?_
  cases hws : l.waiters with
  | nil => simp [hws] at hw
  | cons w₀ ws =>
    rw [hws] at hw hi
    -- the promised waiter is the first one, so the others are the tail
    have hfst : w₀ = (i, st) := by
      rcases mem_cons.mp hi with hi | hi
      · exact hi.symm
      · have hnot := h.woken_first (i, st) (by simpa [hws] using hi)
        rw [hst] at hnot
        cases hnot
    rcases mem_cons.mp hw with rfl | hw
    · simp [hfst] at hne
    · exact hw

/-- **`acquire` resumed**: it returns to the caller promised the lock, who becomes
the holder, or raises, and in both cases the caller has left the queue. -/
theorem resume [DecidableEq ι] (h : Sound l Q H) {l' : Lock ι} {b : Bool}
    (hr : l.resume i = some (l', b)) :
    Sound l' (Q \ {i}) (if b then insert i H else H) := by
  unfold Lock.resume at hr
  split at hr
  next => cases hr
  next => cases hr
  next hst =>
    obtain ⟨rfl, rfl⟩ := by simpa using hr
    have hm : (i, Waiter.woken) ∈ l.waiters := by
      obtain ⟨ws, ws', hws, -⟩ := lookup_eq_some_iff.mp hst
      simp [hws]
    obtain ⟨hfr, hoth⟩ := h.promised hm rfl
    have hrem := h.removeWaiter i
    refine ⟨hrem.mem_queue, hrem.woken_first, fun _ => hoth, fun _ _ => rfl, ?_⟩
    rw [if_pos rfl, h.holders_eq_empty hfr, insert_empty_eq]
    exact Set.subsingleton_singleton
  all_goals
    obtain ⟨rfl, rfl⟩ := by simpa using hr
    have hrem := h.removeWaiter i
    split
    next => exact hrem
    next hfr => exact hrem.wakeUpFirst (by simpa using hfr)

end Sound

end Lock

end ArchonSearch.Lib
