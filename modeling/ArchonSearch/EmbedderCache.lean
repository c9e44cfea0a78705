import ArchonSearch.Lib.AsyncLock
import ArchonSearch.Lib.Loading
import ArchonSearch.Lib.Keyed
import ArchonSearch.Lib.Run

/-!
# The cache of embedders

`EmbedderCache` keeps the embedders that were used last. A call of `get_or_load` that finds no
embedder registers an event for its model and has the embedder made in a thread; a call that finds
an event waits for it, outside the lock, and starts again. The *loader region* of a call goes from
its registration to the `finally` that takes the registration back and sets the event, and in
between the call may be suspended in the thread or in the lock, and be cancelled there.

Everything that is done under the lock is done at once, so a step goes from one suspension of a call
to its next. `Registered` says that the registrations are those of the calls in their loader
regions, one each, and that a call waits for an event that is set or registered; `Kept` says what
holds of the cache itself. Together they hold in every state of every run (`intact_of_run`), whether
or not the lock is contended.

A preload is a number of calls that go on to warm the embedder up.
-/

namespace ArchonSearch.EmbedderCache

open Lib List Option Function

/-! ### Calls -/

inductive Outcome where
  /-- `get_or_load` has returned this embedder. -/
  | returned : (embedder : ℕ) → Outcome
  /-- `EmbedderNotReadyError`. -/
  | notReady
  /-- What `make_embedder` has raised. -/
  | failed
  /-- `_load_and_warm` has returned. -/
  | warmed : Bool → Outcome
  /-- `CancelledError`. -/
  | cancelled
  deriving DecidableEq

inductive Phase where
  | absent
  /-- In `acquire`, at the start of the loop. -/
  | looking
  /-- In `event.wait`. -/
  | waiting : (event : ℕ) → Phase
  | building : (event : ℕ) → Phase
  /-- In `acquire`, with an embedder to be stored. -/
  | storing : (event embedder : ℕ) → Phase
  | releasing : (embedder : ℕ) → Phase
  /-- In the `embed` of a warm-up. -/
  | embedding : (embedder : ℕ) → Phase
  /-- In `acquire`, after a warm-up that failed. -/
  | dropping
  /-- Somebody else, in `acquire`. -/
  | queueing
  | holding
  | done : Outcome → Phase
  deriving DecidableEq

/-- The event that a call has registered and not taken back: it is in its loader region. -/
def Phase.regionEvent : Phase → Option ℕ
  | .building event | .storing event _ => some event
  | _ => none

/-- The call is suspended in `acquire`. -/
def Phase.asks : Phase → Bool
  | .looking | .storing _ _ | .dropping | .queueing => true
  | _ => false

structure Call where
  /-- `model_name`. -/
  model : String
  /-- It is a `_load_and_warm` of a preload. -/
  warmUp : Bool
  phase : Phase
  /-- It was cancelled outside `acquire`, and has not been resumed since. -/
  cancelled : Bool := false

/-- What an `EmbedderCache` is made with. -/
structure Config where
  maxSize : ℕ
  preloaded : Dict String ℕ

/-- An `EmbedderCache` and the calls to it. -/
structure State where
  /-- `_cache`, the least recently used first. -/
  (cache loading : Dict String ℕ)
  lock : Lock ℕ
  /-- `event.is_set()`. -/
  isSet : ℕ → Bool
  events : ℕ
  /-- `embedder.is_warm`. -/
  warm : ℕ → Bool
  call : ℕ → Call

inductive Event where
  /-- `get_or_load` is called. -/
  | getOrLoad (call : ℕ) (model : String)
  /-- A preload starts its `_load_and_warm` of a model. -/
  | preload (call : ℕ) (model : String)
  | ask (call : ℕ)
  | yield (call : ℕ)
  /-- `Task.cancel`, of a call that is suspended. -/
  | cancel (call : ℕ)
  /-- A call that was cancelled outside `acquire` is resumed. -/
  | raise (call : ℕ)
  /-- A call in `acquire` is resumed. -/
  | resume (call : ℕ)
  | wake (call : ℕ)
  | timeout (call : ℕ)
  /-- `make_embedder` returns an embedder, or raises. -/
  | built (call : ℕ) (embedder : Option ℕ)
  /-- `release_model_memory` returns or raises. -/
  | released (call : ℕ)
  /-- The `embed` of a warm-up returns or raises. -/
  | embedded (call : ℕ) (ok : Bool)
  | warms (embedder : ℕ)

/-! ### The cache -/

section Cache

variable (config : Config)

/-- `model_name in self._pinned`. -/
def isPinned (model : String) : Bool := (Dict.get config.preloaded model).isSome

/-- `self._cache[model] = embedder` and `move_to_end`. -/
def putLast (cache : Dict String ℕ) (model : String) (embedder : ℕ) : Dict String ℕ :=
  (cache.erase model).insert (model, embedder)

/-- `unpinned`. -/
def unpinned (cache : Dict String ℕ) : List (String × ℕ) :=
  cache.items.filter fun entry => !isPinned config entry.1

def victims (cache : Dict String ℕ) : List (String × ℕ) :=
  (unpinned config cache).take ((unpinned config cache).length - config.maxSize)

def evict (cache : Dict String ℕ) : Dict String ℕ :=
  cache.filter fun entry => !(victims config cache).contains entry

end Cache

/-! ### What a call does between two suspensions -/

namespace State

variable (config : Config) (s : State) (i : ℕ)

def setPhase (phase : Phase) : State :=
  { s with call := update s.call i { s.call i with phase := phase, cancelled := false } }

/-- `get_or_load` returns; a preload warms the embedder up. -/
def returns (embedder : ℕ) : State :=
  if (s.call i).warmUp then s.setPhase i (.embedding embedder)
  else s.setPhase i (.done (.returned embedder))

/-- `get_or_load` raises; a preload skips the model. -/
def raises (outcome : Outcome) : State :=
  if (s.call i).warmUp then s.setPhase i (.done (.warmed false))
  else s.setPhase i (.done outcome)

/-- The `finally` of the loader region. -/
def clear (model : String) : State :=
  match Dict.get s.loading model with
  | none => s
  | some event =>
    { s with
      loading := s.loading.erase model
      isSet := update s.isSet event true }

def unlock : State := { s with lock := s.lock.release }

def lookUp : State :=
  let model := (s.call i).model
  match Dict.get s.cache model with
  | some embedder => { s with cache := putLast s.cache model embedder }.unlock.returns i embedder
  | none =>
    match Dict.get s.loading model with
    | some event => s.unlock.setPhase i (.waiting event)
    | none =>
      { s with
        loading := s.loading.insert (model, s.events)
        events := s.events + 1 }.unlock.setPhase i (.building s.events)

/-- A new embedder is stored, the registration is taken back, and the memory of what was evicted
is released. -/
def store (embedder : ℕ) : State :=
  let model := (s.call i).model
  let cache := putLast s.cache model embedder
  let stored := ({ s with cache := evict config cache }.unlock).clear model
  if (victims config cache).any fun entry => s.warm entry.2 then
    stored.setPhase i (.releasing embedder)
  else stored.returns i embedder

/-- After a warm-up that failed: what is cached for the model is dropped if it is cold and not
pinned. -/
def dropCold : State :=
  let model := (s.call i).model
  let cold : Bool := (Dict.get s.cache model).any fun embedder => !s.warm embedder
  let cache := if cold && !isPinned config model then s.cache.erase model else s.cache
  { s with cache := cache }.unlock.setPhase i (.done (.warmed false))

def locked (phase : Phase) : State :=
  match phase with
  | .looking => s.lookUp i
  | .storing _ embedder => s.store config i embedder
  | .dropping => s.dropCold config i
  | _ => s.setPhase i .holding

/-- `async with self._lock`. -/
def acquire (phase : Phase) : State :=
  let (lock, returned) := s.lock.acquire i
  if returned then { s with lock := lock }.locked config i phase
  else { s with lock := lock }.setPhase i phase

/-- `CancelledError` is raised where the call is suspended. -/
def abandon : State :=
  if (s.call i).phase.regionEvent.isSome then
    (s.clear (s.call i).model).setPhase i (.done .cancelled)
  else s.setPhase i (.done .cancelled)

def mark : State :=
  { s with call := update s.call i { s.call i with cancelled := true } }

def start (model : String) (warmUp : Bool) (phase : Phase) : Option State :=
  if (s.call i).phase = .absent then
    some ({ s with call := update s.call i ⟨model, warmUp, .absent, false⟩ }.acquire config i phase)
  else none

def step : Event → Option State
  | .getOrLoad i model => s.start config i model false .looking
  | .preload i model => s.start config i model true .looking
  | .ask i => s.start config i "" false .queueing
  | .yield i => if (s.call i).phase = .holding then some (s.unlock.setPhase i .absent) else none
  | .cancel i =>
    match (s.call i).phase with
    | .looking | .storing _ _ | .dropping | .queueing => some { s with lock := s.lock.cancel i }
    | .waiting _ | .building _ | .releasing _ | .embedding _ => some (s.mark i)
    | .absent | .holding | .done _ => none
  | .raise i => if (s.call i).cancelled then some (s.abandon i) else none
  | .resume i =>
    if (s.call i).phase.asks then
      (s.lock.resume i).map fun (lock, returned) =>
        if returned then { s with lock := lock }.locked config i (s.call i).phase
        else { s with lock := lock }.abandon i
    else none
  | .wake i =>
    match (s.call i).phase with
    | .waiting event =>
      if s.isSet event && !(s.call i).cancelled then some (s.acquire config i .looking) else none
    | _ => none
  | .timeout i =>
    match (s.call i).phase with
    | .waiting _ => if (s.call i).cancelled then none else some (s.raises i .notReady)
    | _ => none
  | .built i embedder =>
    match (s.call i).phase with
    | .building event =>
      if (s.call i).cancelled then none
      else
        match embedder with
        | some embedder => some (s.acquire config i (.storing event embedder))
        | none => some ((s.clear (s.call i).model).raises i .failed)
    | _ => none
  | .released i =>
    match (s.call i).phase with
    | .releasing embedder =>
      if (s.call i).cancelled then none else some (s.returns i embedder)
    | _ => none
  | .embedded i ok =>
    match (s.call i).phase with
    | .embedding _ =>
      if (s.call i).cancelled then none
      else if ok then some (s.setPhase i (.done (.warmed true)))
      else some (s.acquire config i .dropping)
    | _ => none
  | .warms embedder => some { s with warm := update s.warm embedder true }

end State

def init (config : Config) (warm : ℕ → Bool) : State where
  cache := config.preloaded
  loading := Keyed.empty
  lock := .new
  isSet _ := false
  events := 0
  warm := warm
  call _ := ⟨"", false, .absent, false⟩

/-! ### Registrations -/

namespace Call

/-- What a call in its loader region has registered. -/
def loads (c : Call) : Option (String × ℕ) :=
  c.phase.regionEvent.map fun event => (c.model, event)

def waits (c : Call) : Option (String × ℕ) :=
  match c.phase with
  | .waiting event => some (c.model, event)
  | _ => none

variable {c : Call} {model : String} {event : ℕ}

theorem loads_eq_some :
    c.loads = some (model, event) ↔ c.model = model ∧ c.phase.regionEvent = some event := by
  simp [loads, and_comm]

theorem loads_eq_none : c.loads = none ↔ c.phase.regionEvent = none := by simp [loads]

theorem waits_eq_some :
    c.waits = some (model, event) ↔ c.model = model ∧ c.phase = .waiting event := by
  unfold waits
  split
  · next event' hph => simp [hph]
  · next hph => exact iff_of_false nofun fun h => hph _ h.2

theorem waits_eq_none (h : ∀ event, c.phase ≠ .waiting event) : c.waits = none :=
  Option.eq_none_iff_forall_ne_some.mpr fun _ hwt => h _ (waits_eq_some.mp hwt).2

end Call

/-! ### The cache -/

/-- Pinned models stay, and the others fit. -/
structure Kept (config : Config) (cache : Dict String ℕ) : Prop where
  pinned : ∀ model, isPinned config model = true → (Dict.get cache model).isSome = true
  bounded : (unpinned config cache).length ≤ config.maxSize

namespace Kept

variable {config : Config} {cache : Dict String ℕ} {model : String} {embedder : ℕ}

theorem preloaded : Kept config config.preloaded where
  pinned _ h := h
  bounded := by
    have hn : unpinned config config.preloaded = [] := by
      refine filter_eq_nil_iff.mpr fun entry hent => ?_
      have hs : Dict.get config.preloaded entry.1 = some entry.2 :=
        Dict.get_eq_some_iff.mpr hent
      rw [isPinned, hs]
      exact Bool.false_ne_true
    rw [hn]
    exact Nat.zero_le _

theorem unpinned_erase : unpinned config (cache.erase model) =
    (unpinned config cache).filter fun entry => entry.1 ≠ model := filter_comm _ _ _

theorem unpinned_putLast : unpinned config (putLast cache model embedder) =
    (unpinned config cache).filter (fun entry => entry.1 ≠ model) ++
      [(model, embedder)].filter fun entry => !isPinned config entry.1 := by
  have his : (putLast cache model embedder).items =
      (cache.erase model).items ++ [(model, embedder)] := by
    refine Keyed.items_insert_of_notMem fun hm => ?_
    obtain ⟨entry, hent, hk⟩ := List.mem_map.mp hm
    exact (Keyed.mem_erase.mp hent).2 hk
  rw [unpinned, his, filter_append, ← unpinned_erase]
  rfl

theorem pinned_putLast (h : ∀ model, isPinned config model = true →
    (Dict.get cache model).isSome = true) (other : String)
    (hoth : isPinned config other = true) :
    (Dict.get (putLast cache model embedder) other).isSome = true := by
  rw [putLast, Dict.get_insert, Dict.get_erase]
  split_ifs
  · rfl
  · exact h other hoth

/-- **A hit** moves an entry to the end. -/
theorem hit (h : Kept config cache) (hg : Dict.get cache model = some embedder) :
    Kept config (putLast cache model embedder) where
  pinned := pinned_putLast h.pinned
  bounded := by
    refine le_trans ?_ h.bounded
    rw [unpinned_putLast, length_append]
    cases hpin : isPinned config model with
    | true =>
      have hn : [(model, embedder)].filter (fun entry => !isPinned config entry.1) = [] := by
        simp [hpin]
      rw [hn]
      exact length_filter_le _ _
    | false =>
      have hm : (model, embedder) ∈ unpinned config cache :=
        mem_filter.mpr ⟨Dict.get_eq_some_iff.mp hg, by simp [hpin]⟩
      have hlt : ((unpinned config cache).filter fun entry => entry.1 ≠ model).length <
          (unpinned config cache).length :=
        length_filter_lt_length_iff_exists.mpr ⟨_, hm, by simp⟩
      have hone := length_filter_le (fun entry => !isPinned config entry.1) [(model, embedder)]
      rw [length_singleton] at hone
      omega

/-- What is left of a list without its first elements but so many. -/
theorem length_filter_notMem_take (l : List (String × ℕ)) (n : ℕ) :
    (l.filter fun entry => !(l.take (l.length - n)).contains entry).length ≤ n := by
  have hsplit := congrArg (List.filter fun entry => !(l.take (l.length - n)).contains entry)
    (take_append_drop (l.length - n) l)
  have hfst : (l.take (l.length - n)).filter
      (fun entry => !(l.take (l.length - n)).contains entry) = [] := by
    refine filter_eq_nil_iff.mpr fun entry hent => ?_
    simp [hent]
  rw [filter_append, hfst, nil_append] at hsplit
  rw [← hsplit]
  refine (length_filter_le _ _).trans ?_
  rw [length_drop]
  omega

/-- **A new embedder is stored**, and what is too much is evicted. -/
theorem stored (h : Kept config cache) : Kept config (evict config (putLast cache model embedder))
    where
  pinned other hoth := by
    have hisSome : (Dict.get (putLast cache model embedder) other).isSome = true :=
      pinned_putLast h.pinned other hoth
    obtain ⟨found, hfnd⟩ := isSome_iff_exists.mp hisSome
    have hm : (other, found) ∈ evict config (putLast cache model embedder) := by
      refine Keyed.mem_filter.mpr ⟨Dict.get_eq_some_iff.mp hfnd, ?_⟩
      rw [Bool.not_eq_true', ← Bool.not_eq_true, contains_iff_mem]
      -- the victims are not pinned
      intro hvic
      have hunp := (mem_filter.mp (mem_of_mem_take hvic)).2
      rw [hoth] at hunp
      cases hunp
    rw [Dict.get_eq_some_iff.mpr hm]
    rfl
  bounded := by
    generalize putLast cache model embedder = cache'
    have hevict : unpinned config (evict config cache') = (unpinned config cache').filter
        fun entry => !(victims config cache').contains entry := filter_comm _ _ _
    rw [hevict, victims]
    exact length_filter_notMem_take _ _

/-- **A model that is not pinned** is dropped. -/
theorem dropped (h : Kept config cache) (hpin : isPinned config model = false) :
    Kept config (cache.erase model) where
  pinned other hoth := by
    rw [Dict.get_erase, if_neg]
    · exact h.pinned other hoth
    · rintro rfl
      rw [hpin] at hoth
      cases hoth
  bounded := by
    rw [unpinned_erase]
    exact (length_filter_le _ _).trans h.bounded

end Kept

/-! ### What is kept by every step -/

/-- **The invariant.** -/
structure Inv (config : Config) (s : State) : Prop where
  registered : Registered Call.loads Call.waits (Dict.get s.loading) s.isSet s.call
  kept : Kept config s.cache

section Steps

variable {config : Config} {s : State} {i : ℕ} {phase : Phase}

def Phase.IsPlain (phase : Phase) : Prop :=
  phase.regionEvent = none ∧ ∀ event, phase ≠ .waiting event

theorem returns_eq (s : State) (i embedder : ℕ) :
    ∃ phase : Phase, s.returns i embedder = s.setPhase i phase ∧ phase.IsPlain := by
  unfold State.returns
  split_ifs
  · exact ⟨_, rfl, rfl, fun _ h => by cases h⟩
  · exact ⟨_, rfl, rfl, fun _ h => by cases h⟩

theorem raises_eq (s : State) (i : ℕ) (outcome : Outcome) :
    ∃ phase : Phase, s.raises i outcome = s.setPhase i phase ∧ phase.IsPlain := by
  unfold State.raises
  split_ifs
  · exact ⟨_, rfl, rfl, fun _ h => by cases h⟩
  · exact ⟨_, rfl, rfl, fun _ h => by cases h⟩

namespace Inv

theorem setLock (h : Inv config s) (lock : Lock ℕ) : Inv config { s with lock := lock } :=
  ⟨h.registered, h.kept⟩

/-- A call goes on within its loader region, or outside. -/
theorem setPhase (h : Inv config s) (hreg : phase.regionEvent = (s.call i).phase.regionEvent)
    (hwa : ∀ event, phase = .waiting event → s.isSet event = true ∨
      Dict.get s.loading (s.call i).model = some event) : Inv config (s.setPhase i phase) :=
  ⟨h.registered.update (by simp [Call.loads, hreg]) fun _ _ hwt => by
    obtain ⟨rfl, hph⟩ := Call.waits_eq_some.mp hwt
    exact hwa _ hph, h.kept⟩

/-- A call outside its loader region does something else. -/
theorem plain (h : Inv config s) (hn : (s.call i).phase.regionEvent = none)
    (hpl : phase.IsPlain) : Inv config (s.setPhase i phase) :=
  h.setPhase (hpl.1.trans hn.symm) fun event hph => absurd hph (hpl.2 event)

variable {event : ℕ}

/-- **A call leaves its loader region.** -/
theorem leave (h : Inv config s) (hevent : (s.call i).phase.regionEvent = some event)
    (hpl : phase.IsPlain) : Inv config ((s.clear (s.call i).model).setPhase i phase) := by
  have hloads := Call.loads_eq_some.mpr ⟨rfl, hevent⟩
  unfold State.clear
  rw [(h.registered.table_iff _ event).mpr ⟨i, hloads⟩]
  exact ⟨h.registered.leave hloads (Call.loads_eq_none.mpr hpl.1)
    (Call.waits_eq_none hpl.2) (Dict.get_erase _ _), h.kept⟩

/-- **The start of the loop.** -/
theorem lookUp (h : Inv config s) (hn : (s.call i).phase.regionEvent = none) :
    Inv config (s.lookUp i) := by
  unfold State.lookUp
  dsimp only
  split
  · next embedder hg =>
    obtain ⟨phase, heq, hpl⟩ := returns_eq
      ({ s with cache := putLast s.cache (s.call i).model embedder }.unlock) i embedder
    rw [heq]
    have hhit : Inv config ({ s with cache := putLast s.cache (s.call i).model embedder }.unlock) :=
      ⟨h.registered, h.kept.hit hg⟩
    exact hhit.plain hn hpl
  · split
    · next event hg =>
      refine (h.setLock _).setPhase hn.symm fun event' hph => ?_
      cases hph
      exact Or.inr hg
    · next hfr =>
      exact ⟨h.registered.register (Call.loads_eq_none.mpr hn) hfr rfl rfl fun _ =>
        Dict.get_insert .., h.kept⟩

/-- **An embedder is stored.** -/
theorem store (h : Inv config s) (hevent : (s.call i).phase.regionEvent = some event)
    (embedder : ℕ) : Inv config (s.store config i embedder) := by
  have hsto : Inv config ({ s with
      cache := evict config (putLast s.cache (s.call i).model embedder) }.unlock) :=
    ⟨h.registered, h.kept.stored⟩
  unfold State.store
  dsimp only
  split_ifs
  · exact hsto.leave hevent ⟨rfl, fun _ hph => by cases hph⟩
  · obtain ⟨phase, heq, hpl⟩ := returns_eq ((({ s with
      cache := evict config (putLast s.cache (s.call i).model embedder) } : State).unlock).clear
        (s.call i).model) i embedder
    rw [heq]
    exact hsto.leave hevent hpl

/-- **A cold embedder is dropped.** -/
theorem dropCold (h : Inv config s) (hn : (s.call i).phase.regionEvent = none) :
    Inv config (s.dropCold config i) := by
  unfold State.dropCold
  dsimp only
  split_ifs with hcold
  · have hpin : isPinned config (s.call i).model = false := by
      simpa using (Bool.and_eq_true_iff.mp hcold).2
    have hd : Inv config ({ s with cache := s.cache.erase (s.call i).model }.unlock) :=
      ⟨h.registered, h.kept.dropped hpin⟩
    exact hd.plain hn ⟨rfl, fun _ hph => by cases hph⟩
  · exact (h.setLock _).plain hn ⟨rfl, fun _ hph => by cases hph⟩

/-- **What a call does under the lock.** -/
theorem locked (h : Inv config s) (hasks : phase.asks = true)
    (hreg : phase.regionEvent = (s.call i).phase.regionEvent) :
    Inv config (s.locked config i phase) := by
  cases phase with
  | looking => exact h.lookUp hreg.symm
  | storing event embedder => exact h.store hreg.symm embedder
  | dropping => exact h.dropCold hreg.symm
  | queueing => exact h.plain hreg.symm ⟨rfl, fun _ hph => by cases hph⟩
  | _ => cases hasks

theorem acquire (h : Inv config s) (hasks : phase.asks = true)
    (hreg : phase.regionEvent = (s.call i).phase.regionEvent) :
    Inv config (s.acquire config i phase) := by
  unfold State.acquire
  dsimp only
  split_ifs
  · exact (h.setLock _).locked hasks hreg
  · refine (h.setLock _).setPhase hreg fun event hph => ?_
    rw [hph] at hasks
    cases hasks

/-- **A cancellation** is raised. -/
theorem abandon (h : Inv config s) : Inv config (s.abandon i) := by
  have hpl : (Phase.done .cancelled).IsPlain := ⟨rfl, fun _ hph => by cases hph⟩
  unfold State.abandon
  split_ifs with hreg
  · obtain ⟨event, hevent⟩ := isSome_iff_exists.mp hreg
    exact h.leave hevent hpl
  · exact h.plain (not_isSome_iff_eq_none.mp hreg) hpl

variable {s' : State}

/-- **A new call.** -/
theorem start (h : Inv config s) {model : String} {warmUp : Bool}
    (hasks : phase.asks = true) (hn : phase.regionEvent = none)
    (hs : s.start config i model warmUp phase = some s') : Inv config s' := by
  obtain ⟨habs, rfl⟩ := of_guard hs
  have hc : Inv config
      { s with call := update s.call i ⟨model, warmUp, .absent, false⟩ } := by
    exact ⟨h.registered.update (by simp [Call.loads, habs, Phase.regionEvent]) nofun, h.kept⟩
  refine hc.acquire hasks ?_
  change _ = (update s.call i ⟨model, warmUp, .absent, false⟩ i).phase.regionEvent
  rw [update_self, hn]
  rfl

/-- **One step.** -/
theorem step {e : Event} (h : Inv config s) (hs : s.step config e = some s') :
    Inv config s' := by
  cases e with
  | getOrLoad i model => exact h.start rfl rfl hs
  | preload i model => exact h.start rfl rfl hs
  | ask i => exact h.start rfl rfl hs
  | yield i =>
    obtain ⟨hph, rfl⟩ := of_guard hs
    refine (h.setLock _).plain ?_ ⟨rfl, fun _ hph => by cases hph⟩
    exact (congrArg Phase.regionEvent hph).trans rfl
  | cancel i =>
    have hmar : Inv config (s.mark i) :=
      ⟨h.registered.update rfl (h.registered.awaited i), h.kept⟩
    simp only [State.step] at hs
    cases hph : (s.call i).phase with
    -- in `acquire` the lock is told, elsewhere the call is marked
    | looking | storing _ _ | dropping | queueing =>
      rw [hph] at hs
      cases hs
      exact h.setLock _
    | waiting _ | building _ | releasing _ | embedding _ =>
      rw [hph] at hs
      cases hs
      exact hmar
    | absent | holding | done _ =>
      rw [hph] at hs
      cases hs
  | raise i =>
    obtain ⟨-, rfl⟩ := of_guard hs
    exact h.abandon
  | resume i =>
    simp only [State.step] at hs
    split_ifs at hs with hasks
    obtain ⟨⟨lock, returned⟩, -, rfl⟩ := map_eq_some_iff.mp hs
    split_ifs
    · exact (h.setLock lock).locked hasks rfl
    · exact (h.setLock lock).abandon
  | wake i =>
    simp only [State.step] at hs
    split at hs
    · next event hph =>
      obtain ⟨-, rfl⟩ := of_guard hs
      exact h.acquire rfl (by rw [hph]; rfl)
    · cases hs
  | timeout i =>
    simp only [State.step] at hs
    split at hs
    · next event hph =>
      split_ifs at hs
      cases hs
      obtain ⟨phase, heq, hpl⟩ := raises_eq s i .notReady
      rw [heq]
      exact h.plain (by rw [hph]; rfl) hpl
    · cases hs
  | built i embedder =>
    simp only [State.step] at hs
    split at hs
    · next event hph =>
      have hevent : (s.call i).phase.regionEvent = some event := by rw [hph]; rfl
      split_ifs at hs
      cases embedder with
      | some embedder =>
        cases hs
        exact h.acquire rfl hevent.symm
      | none =>
        cases hs
        obtain ⟨phase, heq, hpl⟩ := raises_eq (s.clear (s.call i).model) i .failed
        rw [heq]
        exact h.leave hevent hpl
    · cases hs
  | released i =>
    simp only [State.step] at hs
    split at hs
    · next embedder hph =>
      split_ifs at hs
      cases hs
      obtain ⟨phase, heq, hpl⟩ := returns_eq s i embedder
      rw [heq]
      exact h.plain (by rw [hph]; rfl) hpl
    · cases hs
  | embedded i ok =>
    simp only [State.step] at hs
    split at hs
    · next embedder hph =>
      split_ifs at hs
      · cases hs
        exact h.plain (by rw [hph]; rfl) ⟨rfl, fun _ hph => by cases hph⟩
      · cases hs
        exact h.acquire rfl (by rw [hph]; rfl)
    · cases hs
  | warms embedder =>
    cases hs
    exact ⟨h.registered, h.kept⟩

end Inv

end Steps

/-! ### Every run -/

def State.Loads (s : State) (i : ℕ) (model : String) : Prop :=
  (s.call i).model = model ∧ (s.call i).phase.regionEvent.isSome = true

/-- **The cache and its registrations are as they should be.** -/
structure Intact (config : Config) (s : State) : Prop where
  registered : ∀ model, (Dict.get s.loading model).isSome = true → ∃ i, s.Loads i model ∧
    ∀ j, s.Loads j model → j = i
  loading : ∀ i model, s.Loads i model → (Dict.get s.loading model).isSome = true
  awaited : ∀ i event, (s.call i).phase = .waiting event →
    s.isSet event = true ∨ ∃ j, s.Loads j (s.call i).model ∧
      (s.call j).phase.regionEvent = some event
  oneLoader : ∀ i j model, s.Loads i model → s.Loads j model → i = j
  pinned : ∀ model, isPinned config model = true → (Dict.get s.cache model).isSome = true
  bounded : s.lock.locked = false → (unpinned config s.cache).length ≤ config.maxSize

theorem inv_init (config : Config) (warm : ℕ → Bool) : Inv config (init config warm) where
  registered := by
    exact ⟨fun _ _ => iff_of_false nofun nofun, nofun, nofun⟩
  kept := Kept.preloaded

theorem loads_iff (s : State) (i : ℕ) (model : String) :
    s.Loads i model ↔ ∃ event, (s.call i).loads = some (model, event) := by
  simp [State.Loads, Call.loads_eq_some, isSome_iff_exists]

theorem Inv.oneLoader {config : Config} {s : State} (h : Inv config s) {i j : ℕ} {model : String}
    (hi : s.Loads i model) (hj : s.Loads j model) : i = j := by
  obtain ⟨_, hi⟩ := (loads_iff s i model).mp hi
  obtain ⟨_, hj⟩ := (loads_iff s j model).mp hj
  exact h.registered.unique _ _ _ _ _ hi hj

theorem Inv.intact {config : Config} {s : State} (h : Inv config s) : Intact config s where
  registered model hs := by
    obtain ⟨event, hl⟩ := isSome_iff_exists.mp hs
    obtain ⟨i, hi⟩ := (h.registered.table_iff model event).mp hl
    have hloads := (loads_iff s i model).mpr ⟨event, hi⟩
    exact ⟨i, hloads, fun j hj => h.oneLoader hj hloads⟩
  loading i model hi := by
    obtain ⟨event, hevent⟩ := (loads_iff s i model).mp hi
    rw [(h.registered.table_iff model event).mpr ⟨i, hevent⟩]
    rfl
  awaited i event hi := by
    refine (h.registered.awaited i _ event (Call.waits_eq_some.mpr ⟨rfl, hi⟩)).imp_right
      fun hl => ?_
    obtain ⟨j, hj⟩ := (h.registered.table_iff _ event).mp hl
    exact ⟨j, (loads_iff s j _).mpr ⟨event, hj⟩, (Call.loads_eq_some.mp hj).2⟩
  oneLoader _ _ _ hi hj := h.oneLoader hi hj
  pinned := h.kept.pinned
  bounded _ := h.kept.bounded

/-- **The cache stays intact**, whatever calls are made, however they load, and wherever they are
cancelled. -/
theorem intact_of_run (config : Config) (warm : ℕ → Bool) {events : List Event} {s : State}
    (h : run (State.step config) (init config warm) events = some s) : Intact config s :=
  (run_invariant (fun _ _ _ => Inv.step) (inv_init config warm) h).intact

/-- Two calls for one model. The first is cancelled while somebody else has the lock; the second
has waited for it, and loads the model instead. -/
theorem intact_sample : ∃ s, run (State.step ⟨1, Keyed.ofList [("default", 0)]⟩)
    (init ⟨1, Keyed.ofList [("default", 0)]⟩ fun _ => true)
    [.getOrLoad 0 "m", .preload 1 "m", .ask 2, .built 0 (some 1), .cancel 0, .yield 2, .resume 0,
      .wake 1, .built 1 (some 2), .embedded 1 true] = some s ∧
    Intact ⟨1, Keyed.ofList [("default", 0)]⟩ s := by
  exact (isSome_iff_exists.mp (by decide)).imp fun s hs => ⟨hs, intact_of_run _ _ hs⟩

end ArchonSearch.EmbedderCache
