import Mathlib.Order.Nat
import ArchonSearch.Keys.Store

/-!
# The read cache of the key store

`KeyStore.load` parses `keys.json` again only when its signature – modification
time, size, inode – differs from the one the cached records were stored under. The
signature is taken *before* the read, and the file may be replaced in between by
any process, so a load can cache a content under the signature of an older one.
What makes that harmless is that a signature, once replaced, does not come back:
the entry can then never be hit.

Time is counted in publications. `history i` is what the path held after the `i`-th replacement,
and a call spans the publications from the one current at its start to the one current at its end.
The steps of any number of calls are interleaved with replacements and with the cache drops of the
mutations (`step`).

Under `NotReused` every load returns the records of a content published during the call
(`load_returns_published`). Asking only that distinct contents have distinct signatures is not
enough (`load_stale_after_restore`): a file moved away and moved back brings its signature with it,
and a load that straddled the excursion has cached the other content under it.
-/

namespace ArchonSearch.Keys.Cache

open Lib Option

/-! ### Published contents -/

/-- `_FileSignature`: what `stat` tells about the file. -/
structure FileSignature where
  /-- `st_mtime_ns`. -/
  mtimeNs : ℤ
  /-- `st_size`. -/
  size : ℕ
  /-- `st_ino`. -/
  inode : ℕ
  deriving DecidableEq

/-- What the path of `keys.json` holds: nothing, or a file with its signature and
its content. -/
abbrev Published (β : Type*) := Option (FileSignature × β)

variable {β : Type*}

/-- `_file_signature`, of a path that can be stat'ed. -/
def signature (p : Published β) : Option FileSignature := p.map Prod.fst

def content (p : Published β) : Option β := p.map Prod.snd

variable (parse : β → Option (List KeyRecord))

def keysFile (c : Option β) : KeysFile :=
  match c with
  | none => .missing
  | some c =>
    match parse c with
    | none => .unreadable
    | some rs => .records rs

def recordsOf (p : Published β) : List KeyRecord := (keysFile parse (content p)).load

theorem recordsOf_congr {p q : Published β} (h : content p = content q) :
    recordsOf parse p = recordsOf parse q := by
  unfold recordsOf
  rw [h]

/-! ### Calls and events -/

/-- Where a call of `load` stands. `start` and `stop` count publications. -/
inductive LoadPc where
  | idle
  | started : (start : ℕ) → LoadPc
  | statted : (start : ℕ) → Option FileSignature → LoadPc
  | reading : (start : ℕ) → Option FileSignature → LoadPc
  | parsed : (start : ℕ) → Option FileSignature → List KeyRecord → LoadPc
  | returned : (start stop : ℕ) → List KeyRecord → LoadPc

/-- One atomic step of somebody; calls of `load` are named by `ι`. -/
inductive Event (ι β : Type*) where
  /-- `load` is called. -/
  | call : ι → Event ι β
  /-- `self._path.stat()` answers. -/
  | stat : ι → Event ι β
  /-- `self._path.stat()` raises `OSError`. -/
  | statError : ι → Event ι β
  | compare : ι → Event ι β
  /-- `read_bytes` and the parse of what it returned. -/
  | read : ι → Event ι β
  /-- `read_bytes` raises an `OSError` other than a missing file. -/
  | readError : ι → Event ι β
  /-- The cache is set and `load` returns. -/
  | finish : ι → Event ι β
  /-- `_write` of this instance drops the cache, before its own replacement. -/
  | dropCache
  | publish : Published β → Event ι β

/-- The system: the file with its past, the cache of one `KeyStore` and the calls
of its `load`. -/
structure State (ι β : Type*) where
  history : ℕ → Published β
  clock : ℕ
  cache : Option (FileSignature × List KeyRecord)
  loads : ι → LoadPc

def State.file {ι : Type*} (s : State ι β) : Published β := s.history s.clock

variable {ι : Type*} [DecidableEq ι]

/-- The state in which a call has moved on to `pc`. -/
def State.setLoad (s : State ι β) (l : ι) (pc : LoadPc) : State ι β :=
  { s with loads := Function.update s.loads l pc }

/-- The steps of `load`, and of what happens around it. -/
def step (s : State ι β) : Event ι β → Option (State ι β)
  | .call l =>
    match s.loads l with
    | .idle => some (s.setLoad l (.started s.clock))
    | .returned .. => some (s.setLoad l (.started s.clock))
    | _ => none
  | .stat l =>
    match s.loads l with
    | .started start => some (s.setLoad l (.statted start (signature s.file)))
    | _ => none
  | .statError l =>
    match s.loads l with
    | .started start => some (s.setLoad l (.statted start none))
    | _ => none
  | .compare l =>
    match s.loads l with
    | .statted start sig =>
      match sig, s.cache with
      | some g, some (g', rs) =>
        if g' = g then some (s.setLoad l (.returned start s.clock rs))
        else some (s.setLoad l (.reading start sig))
      | _, _ => some (s.setLoad l (.reading start sig))
    | _ => none
  | .read l =>
    match s.loads l with
    | .reading start sig =>
      match loadForUpdate (keysFile parse (content s.file)) with
      | .ok rs => some (s.setLoad l (.parsed start sig rs))
      | .error _ => some (s.setLoad l (.parsed start sig []))
    | _ => none
  | .readError l =>
    match s.loads l with
    | .reading start _ => some (s.setLoad l (.returned start s.clock []))
    | _ => none
  | .finish l =>
    match s.loads l with
    | .parsed start sig rs =>
      let cache := match sig with
        | some g => some (g, rs)
        | none => s.cache
      some { s.setLoad l (.returned start s.clock rs) with cache := cache }
    | _ => none
  | .dropCache => some { s with cache := none }
  | .publish p =>
    some { s with history := Function.update s.history (s.clock + 1) p, clock := s.clock + 1 }

/-- A `KeyStore` just constructed, on a path holding `p`. -/
def State.init (p : Published β) : State ι β where
  history := fun _ => p
  clock := 0
  cache := none
  loads := fun _ => .idle

/-! ### Signatures -/

def DistinctSignatures (s : State ι β) : Prop :=
  ∀ k ≤ s.clock, ∀ i ≤ s.clock, signature (s.history i) = signature (s.history k) →
    signature (s.history k) ≠ none → content (s.history i) = content (s.history k)

/-- A signature is not published again once another content, or none, has replaced
its own. -/
def NotReused (s : State ι β) : Prop :=
  ∀ k ≤ s.clock, ∀ j ≤ k, ∀ i ≤ j, signature (s.history i) = signature (s.history k) →
    signature (s.history k) ≠ none → content (s.history j) = content (s.history k)

instance [DecidableEq β] (s : State ι β) : Decidable (DistinctSignatures s) :=
  inferInstanceAs (Decidable (∀ k ≤ s.clock, ∀ i ≤ s.clock, _ → _ → _ = _))

instance [DecidableEq β] (s : State ι β) : Decidable (NotReused s) :=
  @Nat.decidableBallLE s.clock _ fun k _ => @Nat.decidableBallLE k _ fun j _ =>
    @Nat.decidableBallLE j _ fun _ _ => inferInstance

/-! ### The invariant -/

/-- A cached entry pairs the signature of one publication with the records of the
same or a later one. -/
def CacheOk (history : ℕ → Published β) (clock : ℕ) :
    Option (FileSignature × List KeyRecord) → Prop
  | none => True
  | some (g, rs) => ∃ i j, i ≤ j ∧ j ≤ clock ∧ signature (history i) = some g ∧
      rs = recordsOf parse (history j)

/-- What a call knows at each of its points: the signature it holds is that of a
publication since its start, and so are the records. -/
def PcOk (history : ℕ → Published β) (clock : ℕ) : LoadPc → Prop
  | .idle => True
  | .started start => start ≤ clock
  | .statted start sig | .reading start sig =>
    start ≤ clock ∧ ∀ g, sig = some g → ∃ i, start ≤ i ∧ i ≤ clock ∧ signature (history i) = some g
  | .parsed start sig rs =>
    ∃ j, start ≤ j ∧ j ≤ clock ∧ rs = recordsOf parse (history j) ∧
      ∀ g, sig = some g → ∃ i, start ≤ i ∧ i ≤ j ∧ signature (history i) = some g
  | .returned start stop rs =>
    stop ≤ clock ∧ ∃ j, start ≤ j ∧ j ≤ stop ∧ rs = recordsOf parse (history j)

def Sound (s : State ι β) : Prop :=
  CacheOk parse s.history s.clock s.cache ∧ ∀ l, PcOk parse s.history s.clock (s.loads l)

section Publish

variable {history history' : ℕ → Published β} {clock clock' : ℕ}
  (hle : clock ≤ clock') (hold : ∀ i, i ≤ clock → history' i = history i)

include hle hold

variable {parse}

theorem CacheOk.mono {cache : Option (FileSignature × List KeyRecord)}
    (h : CacheOk parse history clock cache) : CacheOk parse history' clock' cache := by
  rcases cache with - | ⟨g, rs⟩
  · trivial
  · obtain ⟨i, j, hij, hj, hg, hrs⟩ := h
    refine ⟨i, j, hij, hj.trans hle, ?_, ?_⟩
    · rw [hold i (hij.trans hj)]
      exact hg
    · rw [hold j hj]
      exact hrs

theorem PcOk.mono {pc : LoadPc} (h : PcOk parse history clock pc) :
    PcOk parse history' clock' pc := by
  cases pc with
  | idle => trivial
  | started start => exact Nat.le_trans h hle
  | statted start sig | reading start sig =>
    refine ⟨h.1.trans hle, fun g hg => ?_⟩
    obtain ⟨i, hsi, hi, hgi⟩ := h.2 g hg
    refine ⟨i, hsi, hi.trans hle, ?_⟩
    rw [hold i hi]
    exact hgi
  | parsed start sig rs =>
    obtain ⟨j, hsj, hj, hrs, hsig⟩ := h
    refine ⟨j, hsj, hj.trans hle, ?_, fun g hg => ?_⟩
    · rw [hold j hj]
      exact hrs
    · obtain ⟨i, hsi, hij, hgi⟩ := hsig g hg
      refine ⟨i, hsi, hij, ?_⟩
      rw [hold i (hij.trans hj)]
      exact hgi
  | returned start stop rs =>
    obtain ⟨hstop, j, hsj, hj, hrs⟩ := h
    refine ⟨hstop.trans hle, j, hsj, hj, ?_⟩
    rw [hold j (hj.trans hstop)]
    exact hrs

end Publish

variable {parse} {s : State ι β}

/-- Moving one call to a sound point keeps the system sound. -/
theorem Sound.setLoad (h : Sound parse s) {l : ι} {pc : LoadPc}
    (hpc : PcOk parse s.history s.clock pc) : Sound parse (s.setLoad l pc) := by
  refine ⟨h.1, fun l' => ?_⟩
  by_cases hl : l' = l
  · subst hl
    simpa [State.setLoad] using hpc
  · simpa [State.setLoad, hl] using h.2 l'

section
omit [DecidableEq ι]

/-- **A cache hit returns the records of a publication of the call.** The entry
was stored under a signature seen at `i` with the records of some `j ≥ i`, and the
call has seen the signature at some `k`. If `j` lies before the call, it lies
between `i` and `k`, so its content is that of `k`. -/
theorem hit_of_notReused (hnot : NotReused s) {g : FileSignature}
    {rs : List KeyRecord} (hcac : CacheOk parse s.history s.clock (some (g, rs))) {start k : ℕ}
    (hk : start ≤ k) (hkc : k ≤ s.clock) (hg : signature (s.history k) = some g) :
    ∃ j, start ≤ j ∧ j ≤ s.clock ∧ rs = recordsOf parse (s.history j) := by
  obtain ⟨i, j, hij, hj, hgi, hrs⟩ := hcac
  rcases Nat.le_total start j with hsj | hjs
  · exact ⟨j, hsj, hj, hrs⟩
  · refine ⟨k, hk, hkc, ?_⟩
    rw [hrs]
    have hne : signature (s.history k) ≠ none := by
      rw [hg]
      exact some_ne_none g
    exact recordsOf_congr parse (hnot k hkc j (hjs.trans hk) i hij (hgi.trans hg.symm) hne)

theorem load_of_error {file : KeysFile} {e : KeyStoreError} (h : loadForUpdate file = .error e) :
    file.load = [] := by
  cases file <;> simp_all [loadForUpdate, KeysFile.load]

theorem update_history_of_le (s : State ι β) (p : Published β) {i : ℕ} (hi : i ≤ s.clock) :
    Function.update s.history (s.clock + 1) p i = s.history i := by
  have hne : i ≠ s.clock + 1 := by omega
  simp [hne]

end

variable {e : Event ι β} {s' : State ι β}

/-- One step keeps the system sound, except for a failing read. -/
theorem sound_step (hrd : ∀ l, e ≠ .readError l)
    (hnot : NotReused s) (h : Sound parse s) (hs : step parse s e = some s') : Sound parse s' := by
  cases e with
  | call l =>
    have hs' : s' = s.setLoad l (.started s.clock) := by
      simp only [step] at hs
      split at hs <;> simp_all
    subst hs'
    exact h.setLoad (Nat.le_refl _)
  | stat l =>
    simp only [step] at hs
    split at hs
    · rename_i start hl
      cases hs
      have hpc := h.2 l
      rw [hl] at hpc
      exact h.setLoad ⟨hpc, fun g hg => ⟨s.clock, hpc, Nat.le_refl _, hg⟩⟩
    · cases hs
  | statError l =>
    simp only [step] at hs
    split at hs
    · rename_i start hl
      cases hs
      have hpc := h.2 l
      rw [hl] at hpc
      exact h.setLoad ⟨hpc, fun g hg => by cases hg⟩
    · cases hs
  | compare l =>
    simp only [step] at hs
    split at hs
    · rename_i start sig hl
      have hpc := h.2 l
      rw [hl] at hpc
      split at hs
      · rename_i g g' rs hcac
        split_ifs at hs with hgg
        · -- the hit
          cases hs
          subst hgg
          obtain ⟨k, hsk, hkc, hgk⟩ := hpc.2 g' rfl
          have hc := h.1
          rw [hcac] at hc
          exact h.setLoad ⟨Nat.le_refl _, hit_of_notReused hnot hc hsk hkc hgk⟩
        · cases hs
          exact h.setLoad hpc
      · cases hs
        exact h.setLoad hpc
    · cases hs
  | read l =>
    simp only [step] at hs
    split at hs
    · rename_i start sig hl
      have hpc := h.2 l
      rw [hl] at hpc
      split at hs
      · rename_i rs hrs
        cases hs
        exact h.setLoad ⟨s.clock, hpc.1, Nat.le_refl _, (load_of_loadForUpdate hrs).symm, hpc.2⟩
      · rename_i err herr
        cases hs
        exact h.setLoad ⟨s.clock, hpc.1, Nat.le_refl _, (load_of_error herr).symm, hpc.2⟩
    · cases hs
  | readError l => exact absurd rfl (hrd l)
  | finish l =>
    simp only [step] at hs
    split at hs
    · rename_i start sig rs hl
      have hpc := h.2 l
      rw [hl] at hpc
      obtain ⟨j, hsj, hj, hrs, hsig⟩ := hpc
      cases hs
      have hret : PcOk parse s.history s.clock (.returned start s.clock rs) :=
        ⟨Nat.le_refl _, j, hsj, hj, hrs⟩
      refine ⟨?_, (h.setLoad hret).2⟩
      cases sig with
      | none => exact h.1
      | some g =>
        obtain ⟨i, -, hij, hgi⟩ := hsig g rfl
        exact ⟨i, j, hij, hj, hgi, hrs⟩
    · cases hs
  | dropCache =>
    cases hs
    exact ⟨trivial, h.2⟩
  | publish p =>
    cases hs
    have hold := fun i hi => update_history_of_le s p (i := i) hi
    exact ⟨h.1.mono (Nat.le_succ _) hold, fun l => (h.2 l).mono (Nat.le_succ _) hold⟩

theorem history_step (hs : step parse s e = some s') :
    s.clock ≤ s'.clock ∧ ∀ i, i ≤ s.clock → s'.history i = s.history i := by
  have heq : s'.clock = s.clock ∧ s'.history = s.history →
      s.clock ≤ s'.clock ∧ ∀ i, i ≤ s.clock → s'.history i = s.history i :=
    fun h => ⟨h.1.ge, fun i _ => by rw [h.2]⟩
  cases e with
  | publish p =>
    cases hs
    exact ⟨Nat.le_succ _, fun i hi => update_history_of_le s p hi⟩
  | _ =>
    refine heq ?_
    simp only [step] at hs
    repeat' split at hs
    all_goals
      first
        | cases hs
          exact ⟨rfl, rfl⟩
        | cases hs

/-- What is not reused at the end of a step was not reused before it. -/
theorem NotReused.of_step (h : NotReused s')
    (hs : step parse s e = some s') : NotReused s := by
  obtain ⟨hle, hold⟩ := history_step hs
  intro k hk j hjk i hij
  have hreuse := h k (hk.trans hle) j hjk i hij
  rwa [hold i ((hij.trans hjk).trans hk), hold j (hjk.trans hk), hold k hk] at hreuse

/-- Every state reached without a failing read and without a reused signature is
sound. -/
theorem sound_of_run {p : Published β} {es : List (Event ι β)} {s : State ι β}
    (hread : ∀ l, Event.readError l ∉ es) (hrun : run (step parse) (State.init p) es = some s)
    (hnot : NotReused s) : Sound parse s := by
  have hall : Along (step parse) (fun _ e => ∀ l, e ≠ .readError l) (State.init p) es :=
    along_of_forall fun e he l hel => hread l (hel ▸ he)
  have hinv := run_invariant_along (I := fun s => NotReused s → Sound parse s)
    (fun s e s' hC ih hs hnot' => sound_step hC (hnot'.of_step hs) (ih (hnot'.of_step hs)) hs)
    hall (fun _ => ⟨trivial, fun _ => trivial⟩) hrun
  exact hinv hnot

variable (parse)

/-- **Every load returns the records of a content published during the call.** In
particular a key that is revoked, or gone, in every publication from some point
before the call on is not among the active records it returns. -/
theorem load_returns_published {p : Published β} {es : List (Event ι β)} {s : State ι β}
    (hread : ∀ l, Event.readError l ∉ es) (hrun : run (step parse) (State.init p) es = some s)
    (hnot : NotReused s) {l : ι} {start stop : ℕ} {rs : List KeyRecord}
    (hl : s.loads l = .returned start stop rs) :
    (∃ i, start ≤ i ∧ i ≤ stop ∧ rs = recordsOf parse (s.history i)) ∧
      ∀ keyId since, since ≤ start →
        (∀ i, since ≤ i → i ≤ stop → ∀ r ∈ recordsOf parse (s.history i),
          r.id = some keyId → r.status = .revoked) →
        ∀ r ∈ rs, r.id = some keyId → r.status = .revoked := by
  have hpc := (sound_of_run hread hrun hnot).2 l
  rw [hl] at hpc
  obtain ⟨-, i, hsi, his, hrs⟩ := hpc
  refine ⟨⟨i, hsi, his, hrs⟩, fun keyId since hsin hrev r hr hid => ?_⟩
  exact hrev i (hsin.trans hsi) his r (hrs ▸ hr) hid

/-! ### A file that is moved away and back -/

def sampleRecord : KeyRecord where
  id := some "k"
  tokenHash := "h"
  ns := "default"
  createdAt := 0

def sampleRevoked : Published (List KeyRecord) :=
  some (⟨100, 40, 1⟩, [{ sampleRecord with status := .revoked }])

def sampleActive : Published (List KeyRecord) := some (⟨90, 38, 2⟩, [sampleRecord])

def straddle : List (Event Bool (List KeyRecord)) :=
  [.call false, .stat false, .compare false, .publish sampleActive, .read false, .finish false]

def reload : List (Event Bool (List KeyRecord)) :=
  [.call true, .stat true, .compare true]

def restoreRun : List (Event Bool (List KeyRecord)) :=
  straddle ++ .publish sampleRevoked :: reload

/-- The two sample loads, with a file that was never there before published between
them. -/
def replaceRun : List (Event Bool (List KeyRecord)) :=
  straddle ++ .publish (some (⟨110, 40, 3⟩, [{ sampleRecord with status := .revoked }])) ::
    (reload ++ [.read true, .finish true])

/-- **Distinct signatures for distinct contents are not enough.** The second load
starts and ends with the revoked file in place, and returns the key as active. -/
theorem load_stale_after_restore :
    ∃ (es : List (Event Bool (List KeyRecord))) (s : State Bool (List KeyRecord)),
      (∀ l, Event.readError l ∉ es) ∧ run (step some) (State.init sampleRevoked) es = some s ∧
        DistinctSignatures s ∧ ∃ start stop rs, s.loads true = .returned start stop rs ∧
          ¬∃ i, start ≤ i ∧ i ≤ stop ∧ rs = recordsOf some (s.history i) := by
  refine ⟨restoreRun, _, ?_, rfl, ?_, 2, 2, [sampleRecord], rfl, ?_⟩
  · simp [restoreRun, straddle, reload]
  · decide
  · rintro ⟨i, hi, hi', hrs⟩
    obtain rfl : i = 2 := Nat.le_antisymm hi' hi
    exact absurd hrs (by decide)

/-- Where the file in place is a new one, the second load reads it. -/
theorem load_returns_published_replaced :
    ∃ s, run (step some) (State.init sampleRevoked) replaceRun = some s ∧
      s.loads true = .returned 2 2 [{ sampleRecord with status := .revoked }] ∧
      ∃ i, 2 ≤ i ∧ i ≤ 2 ∧
        [{ sampleRecord with status := .revoked }] = recordsOf some (s.history i) := by
  refine ⟨_, rfl, rfl, ?_⟩
  have hrd : ∀ l, Event.readError l ∉ replaceRun := by
    simp [replaceRun, straddle, reload]
  exact (load_returns_published some (p := sampleRevoked) hrd rfl (by decide) (l := true) rfl).1

end ArchonSearch.Keys.Cache
