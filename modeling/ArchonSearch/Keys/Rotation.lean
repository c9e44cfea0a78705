import ArchonSearch.Py.Str
import ArchonSearch.Lib.Contiguous
import ArchonSearch.Keys.Store

/-!
# Rotating the default key

`rotate_and_persist_default_key` changes three places: the key file, `keys.json` and the key the
server holds in memory. It writes them in that order, in a task of its own: the caller waits for it
behind `asyncio.shield`, so cancelling the caller does not stop it, and a cancelled caller keeps the
rotation lock until it has ended.

The machine below runs any number of rotations that share one `KeyStore`. A step is what happens
between two suspension points, and a cancellation of the caller may fall between any two steps. A
rotation that has ended carries, as a ghost, the three places as they were when it took the lock and
as they were when it gave it back. The other mutations of the `KeyStore`, which have nothing to do
with the key file, are left out.

These are equal, or differ in all three places, or – when the write of `keys.json` failed – in the
key file alone (`rotation_atomic`).
-/

namespace ArchonSearch.Keys.Rotation

open Lib Function List Option

/-! ### The places and the callers -/

structure Places where
  keyFile : Option String
  /-- `keys.json`. -/
  keysFile : KeysFile
  published : String

/-- What a caller of `rotate_and_persist_default_key` passes. -/
structure Caller where
  graceSeconds : ℤ
  /-- Whether `read_current_token` returns the published key. -/
  readsPublished : Bool
  /-- Whether `publish_new_token` sets the published key. -/
  publishes : Bool

/-- `MAX_ROTATE_GRACE_SECONDS`. -/
def maxRotateGraceSeconds : ℤ := 100 * 365 * 24 * 60 * 60

/-- `validate_rotation_grace`. -/
def validateRotationGrace (graceSeconds : ℤ) : Bool :=
  0 ≤ graceSeconds && graceSeconds ≤ maxRotateGraceSeconds

/-- `validate_current_token`. -/
def validateCurrentToken (token : String) : Bool := token != "" && Py.strip token != ""

/-- The payload of `_write_key_file`. -/
def keyFileContent (token : String) : String := "ARCHON_SEARCH_API_KEY=" ++ token ++ "\n"

inductive RotationError where
  /-- `KeyRotationInputError`. -/
  | input
  /-- `read_current_token` raised. -/
  | readFailed
  /-- `BlankCurrentKeyError`. -/
  | blankCurrentKey
  /-- `KeyStoreUnreadableError`. -/
  | unreadable
  /-- `KeyFileWriteError`. -/
  | keyFileWrite
  /-- `RotationIncompleteError`. -/
  | incomplete
  /-- `CancelledError`. -/
  | cancelled

abbrev Result := Except RotationError RotationOutcome

/-- Where the task running `_commit_rotation` stands. -/
inductive CommitPc where
  | created
  | writing : (newToken : String) → CommitPc
  | written : (newToken : String) → CommitPc
  /-- `keys.json` records the new token. -/
  | recorded : (newToken : String) → RotationOutcome → CommitPc
  | ended : Result → CommitPc

inductive Phase where
  | idle
  /-- Waiting for `rotation_lock`. -/
  | waiting
  | locked
  | validated : (current : String) → Phase
  /-- The commit task exists; the caller waits for it, and `cancelled` tells whether it
  does so in `_finish_cancelled_rotation`. -/
  | committing : (current : String) → (cancelled : Bool) → CommitPc → Phase
  /-- Over: the places when the lock was taken and given back, if it was; how the commit
  task ended, if there was one; what the caller received. -/
  | done : Option (Places × Places) → (commit : Option Result) → Result → Phase

inductive Part where
  | readCurrent (current : String)
  | writeFile (newToken : String)
  /-- `record_rotation` runs. -/
  | record (current newToken : String)
  | publish (newToken : String)

/-! ### The machine -/

/-- What the rotations named by `R` share. -/
structure Shared (R : Type*) where
  places : Places
  /-- Who holds `rotation_lock`. -/
  holder : Option R
  atAcquire : Places
  log : List (R × Part)

structure State (R : Type*) where
  shared : Shared R
  phase : R → Phase

/-- The values `record_rotation` draws. -/
structure Draw where
  /-- `datetime.now(UTC)`. -/
  now : ℤ
  (graceId newKeyId : String)

inductive Event (R : Type*) where
  /-- `rotate_and_persist_default_key` is called. -/
  | call : R → Event R
  | acquire : R → Event R
  /-- `read_current_token` returns. -/
  | readCurrent : R → (token : String) → Event R
  /-- `read_current_token` raises. -/
  | readFailed : R → Event R
  /-- `verify_readable`, and the creation of the commit task. -/
  | verify : R → Event R
  | startWrite : R → (newToken : String) → Event R
  | endWrite : R → WriteOutcome → Event R
  /-- `record_rotation`, with the outcome of its write. -/
  | record : R → Draw → WriteOutcome → Event R
  /-- `publish_new_token`; the commit task returns. -/
  | publish : R → Event R
  | cancel : R → Event R
  | wake : R → Event R

section Machine

variable {R : Type*} [DecidableEq R]

/-- The state in which a rotation has moved on to `p`. -/
def State.setPhase (s : State R) (r : R) (p : Phase) : State R :=
  { s with phase := update s.phase r p }

def Shared.act (sh : Shared R) (r : R) (part : Part) (places : Places) : Shared R :=
  { sh with places := places, log := sh.log ++ [(r, part)] }

def State.leave (s : State R) (r : R) (commit : Option Result) (result : Result) : State R where
  shared := { s.shared with holder := none }
  phase := update s.phase r (.done (some (s.shared.atAcquire, s.shared.places)) commit result)

variable (hashToken : String → String) (caller : R → Caller)

/-- The call of `record_rotation` in `_commit_rotation`. -/
def rotationCall (r : R) (current newToken : String) (draw : Draw) : RotationCall where
  currentToken := current
  graceSeconds := (caller r).graceSeconds
  newToken := newToken
  now := draw.now
  graceId := draw.graceId
  newKeyId := draw.newKeyId

/-- The steps of `rotate_and_persist_default_key` and `_commit_rotation`. -/
def step (s : State R) : Event R → Option (State R)
  | .call r =>
    match s.phase r with
    | .idle =>
      if validateRotationGrace (caller r).graceSeconds then some (s.setPhase r .waiting)
      else some (s.setPhase r (.done none none (.error .input)))
    | _ => none
  | .acquire r =>
    match s.phase r, s.shared.holder with
    | .waiting, none =>
      some { s.setPhase r .locked with
        shared := { s.shared with holder := some r, atAcquire := s.shared.places } }
    | _, _ => none
  | .readCurrent r token =>
    match s.phase r with
    | .locked =>
      if (caller r).readsPublished = true ∧ token ≠ s.shared.places.published then none
      else
        let s := { s with shared := s.shared.act r (.readCurrent token) s.shared.places }
        if validateCurrentToken token then some (s.setPhase r (.validated token))
        else some (s.leave r none (.error .blankCurrentKey))
    | _ => none
  | .readFailed r =>
    match s.phase r with
    | .locked => some (s.leave r none (.error .readFailed))
    | _ => none
  | .verify r =>
    match s.phase r with
    | .validated current =>
      match loadForUpdate s.shared.places.keysFile with
      | .error _ => some (s.leave r none (.error .unreadable))
      | .ok _ => some (s.setPhase r (.committing current false .created))
    | _ => none
  | .startWrite r newToken =>
    match s.phase r with
    | .committing current c .created =>
      some (s.setPhase r (.committing current c (.writing newToken)))
    | _ => none
  | .endWrite r outcome =>
    match s.phase r with
    | .committing current c (.writing newToken) =>
      let write (places : Places) : State R :=
        { s with shared := s.shared.act r (.writeFile newToken) places }
      match outcome with
      | .failedBeforeReplace =>
        some ((write s.shared.places).setPhase r
          (.committing current c (.ended (.error .keyFileWrite))))
      | _ =>
        some ((write { s.shared.places with keyFile := some (keyFileContent newToken) }).setPhase r
          (.committing current c (.written newToken)))
    | _ => none
  | .record r draw outcome =>
    match s.phase r with
    | .committing current c (.written newToken) =>
      let recorded := recordRotation hashToken outcome (rotationCall caller r current newToken draw)
        s.shared.places.keysFile
      let s := { s with
        shared := s.shared.act r (.record current newToken)
          { s.shared.places with keysFile := recorded.1 } }
      match recorded.2 with
      | .error _ => some (s.setPhase r (.committing current c (.ended (.error .incomplete))))
      | .ok result =>
        if result.newToken = newToken then
          some (s.setPhase r (.committing current c (.recorded newToken result)))
        else some (s.setPhase r (.committing current c (.ended (.error .incomplete))))
    | _ => none
  | .publish r =>
    match s.phase r with
    | .committing current c (.recorded newToken result) =>
      let s := if (caller r).publishes then
          { s with
            shared := s.shared.act r (.publish newToken)
              { s.shared.places with published := newToken } }
        else s
      some (s.setPhase r (.committing current c (.ended (.ok result))))
    | _ => none
  | .cancel r =>
    match s.phase r with
    | .waiting => some (s.setPhase r (.done none none (.error .cancelled)))
    | .locked => some (s.leave r none (.error .cancelled))
    | .validated _ => some (s.leave r none (.error .cancelled))
    | .committing current _ commit => some (s.setPhase r (.committing current true commit))
    | _ => none
  | .wake r =>
    match s.phase r with
    | .committing _ c (.ended result) =>
      some (s.leave r (some result) (if c then .error .cancelled else result))
    | _ => none

def State.init (places : Places) : State R where
  shared := { places := places, holder := none, atAcquire := places, log := [] }
  phase := fun _ => .idle

end Machine

section Invariant

variable {R : Type*} (hashToken : String → String) (caller : R → Caller)

/-! ### What holds of a rotation at each of its points -/

/-- The places after a complete rotation from `old`. -/
def allNew (r : R) (old : Places) (call : RotationCall) : Places where
  keyFile := some (keyFileContent call.newToken)
  keysFile := .records (rotated hashToken call old.keysFile.load)
  published := if (caller r).publishes then call.newToken else old.published

/-- A rotation that reads the published key has read the one of `old`. -/
def CurrentOk (r : R) (old : Places) (current : String) : Prop :=
  (caller r).readsPublished = true → current = old.published

def Committed (r : R) (old new : Places) : Result → Prop
  | .ok result => ∃ call : RotationCall, new = allNew hashToken caller r old call ∧
      result.newToken = call.newToken ∧ CurrentOk caller r old call.currentToken
  | .error .keyFileWrite => new = old
  | .error .incomplete => ∃ newToken call outcome e,
      recordRotation hashToken outcome call old.keysFile = (old.keysFile, .error e) ∧
        new = { old with keyFile := some (keyFileContent newToken) }
  | .error _ => False

def CommitOk (r : R) (old new : Places) : CommitPc → Prop
  | .created => new = old
  | .writing _ => new = old
  | .written newToken => new = { old with keyFile := some (keyFileContent newToken) }
  | .recorded newToken result => ∃ call : RotationCall, call.newToken = newToken ∧
      result.newToken = newToken ∧ CurrentOk caller r old call.currentToken ∧
        new = { allNew hashToken caller r old call with published := old.published }
  | .ended result => Committed hashToken caller r old new result

def DoneOk (r : R) : Option (Places × Places) → Option Result → Result → Prop
  | none, _, _ => True
  | some (old, new), none, result => new = old ∧ ∃ e, result = .error e
  | some (old, new), some commit, result =>
    Committed hashToken caller r old new commit ∧ (result = commit ∨ result = .error .cancelled)

/-- What holds of a rotation, given what all of them share: it holds the lock between
`acquire` and its end, and it has left no trace before. -/
def PhaseOk (r : R) (sh : Shared R) : Phase → Prop
  | .idle | .waiting => sh.holder ≠ some r ∧ ∀ e ∈ sh.log, e.1 ≠ r
  | .locked => sh.holder = some r ∧ sh.places = sh.atAcquire
  | .validated current => sh.holder = some r ∧ sh.places = sh.atAcquire ∧
      CurrentOk caller r sh.atAcquire current
  | .committing current _ commit => sh.holder = some r ∧ CurrentOk caller r sh.atAcquire current ∧
      CommitOk hashToken caller r sh.atAcquire sh.places commit
  | .done span commit result => sh.holder ≠ some r ∧ DoneOk hashToken caller r span commit result

variable {hashToken caller} {r : R} {p : Phase} {sh : Shared R}

/-- A rotation that does not hold the lock is not concerned by what the others do. -/
theorem PhaseOk.outside {sh' : Shared R}
    (h : PhaseOk hashToken caller r sh p) (hne : sh.holder ≠ some r) (hne' : sh'.holder ≠ some r)
    (hlog : ∀ e ∈ sh'.log, e.1 = r → e ∈ sh.log) : PhaseOk hashToken caller r sh' p := by
  cases p with
  | idle | waiting => exact ⟨hne', fun e he hr => h.2 e (hlog e he hr) hr⟩
  | locked | validated | committing => exact absurd h.1 hne
  | done => exact ⟨hne', h.2⟩

/-- One rotation moves on while no other holds the lock. -/
theorem phaseOk_update [DecidableEq R] {sh' : Shared R} {phase : R → Phase}
    (h : ∀ r', PhaseOk hashToken caller r' sh (phase r')) (hne : ∀ r' ≠ r, sh.holder ≠ some r')
    (hne' : ∀ r' ≠ r, sh'.holder ≠ some r') (hlog : ∀ e ∈ sh'.log, e.1 ≠ r → e ∈ sh.log)
    (hp : PhaseOk hashToken caller r sh' p) (r' : R) :
    PhaseOk hashToken caller r' sh' (update phase r p r') := by
  by_cases hr : r' = r
  · subst hr
    simpa using hp
  · rw [update_of_ne hr]
    exact (h r').outside (hne r' hr) (hne' r' hr) fun e he her => hlog e he fun h' => hr (her ▸ h')

/-! ### What holds of the trace -/

def Part.published : Part → String → String
  | .publish newToken, _ => newToken
  | _, key => key

/-- The published key after a trace that started with `key` published. -/
def publishedAfter (key : String) (log : List (R × Part)) : String :=
  log.foldl (fun key e => e.2.published key) key

theorem publishedAfter_append (key : String) (log : List (R × Part)) (e : R × Part) :
    publishedAfter key (log ++ [e]) = e.2.published (publishedAfter key log) := by
  simp [publishedAfter]

variable (caller)

/-- The trace of the rotations, which started with `key` published. -/
structure LogOk (key : String) (sh : Shared R) : Prop where
  contiguous : Contiguous Prod.fst sh.log
  holder : ∀ r, sh.holder = some r →
    (∀ e ∈ sh.log, e.1 ≠ r) ∨ ∃ e, sh.log.getLast? = some e ∧ e.1 = r
  published : sh.places.published = publishedAfter key sh.log
  records : ∀ pre post r current newToken, sh.log = pre ++ (r, .record current newToken) :: post →
    (caller r).readsPublished = true → current = publishedAfter key pre

variable {caller} {places : Places} {part : Part}

theorem LogOk.act {key : String} (h : LogOk caller key sh) (hr : sh.holder = some r)
    (hpub : places.published = part.published sh.places.published)
    (hrec : ∀ current newToken, part = .record current newToken →
      (caller r).readsPublished = true → current = sh.places.published) :
    LogOk caller key (sh.act r part places) where
  contiguous := by
    rcases h.holder r hr with hn | ⟨e, he, her⟩
    · exact h.contiguous.append_of_notMem hn
    · exact h.contiguous.append_of_getLast? he her
  holder r' hr' := by
    obtain rfl : r = r' := some.inj (hr.symm.trans hr')
    exact Or.inr ⟨(r, part), by simp [Shared.act], rfl⟩
  published := by
    rw [Shared.act, publishedAfter_append, ← h.published]
    exact hpub
  records pre post r' current newToken heq hreads := by
    rcases eq_nil_or_concat post with rfl | ⟨post', x, rfl⟩
    · obtain ⟨hpre, hl⟩ := append_inj' heq rfl
      obtain ⟨rfl, rfl⟩ := Prod.mk.inj (singleton_inj.mp hl)
      rw [← hpre, ← h.published]
      exact hrec current newToken rfl hreads
    · have heq' : sh.log ++ [(r, part)] =
          (pre ++ (r', .record current newToken) :: post') ++ [x] := by
        simpa [Shared.act] using heq
      exact h.records pre post' r' current newToken (append_inj' heq' rfl).1 hreads

/-- Giving the lock back, or taking it, leaves the trace. -/
theorem LogOk.setHolder {key : String} (h : LogOk caller key sh)
    {holder : Option R} {atAcquire : Places}
    (hho : ∀ r, holder = some r → ∀ e ∈ sh.log, e.1 ≠ r) :
    LogOk caller key { sh with holder := holder, atAcquire := atAcquire } where
  contiguous := h.contiguous
  holder r hr := Or.inl (hho r hr)
  published := h.published
  records := h.records

/-! ### One step -/

variable (hashToken caller)

/-- The invariant of the rotations, which started with `key` published. -/
structure Inv (key : String) (s : State R) : Prop where
  phase : ∀ r, PhaseOk hashToken caller r s.shared (s.phase r)
  log : LogOk caller key s.shared

variable {hashToken caller} [DecidableEq R] {key : String} {s : State R}

/-- A rotation moves on without touching what is shared. -/
theorem Inv.setPhase (h : Inv hashToken caller key s)
    (hp : PhaseOk hashToken caller r s.shared p) : Inv hashToken caller key (s.setPhase r p) where
  phase r' := by
    by_cases hr : r' = r
    · subst hr
      simpa [State.setPhase] using hp
    · simpa [State.setPhase, hr] using h.phase r'
  log := h.log

/-- The holder of the lock reads or writes, and moves on. -/
theorem Inv.act (h : Inv hashToken caller key s) (hr : s.shared.holder = some r)
    (hpub : places.published = part.published s.shared.places.published)
    (hrec : ∀ current newToken, part = .record current newToken →
      (caller r).readsPublished = true → current = s.shared.places.published)
    (hp : PhaseOk hashToken caller r (s.shared.act r part places) p) :
    Inv hashToken caller key
      { shared := s.shared.act r part places, phase := update s.phase r p } where
  phase := by
    have hne : ∀ r' ≠ r, s.shared.holder ≠ some r' :=
      fun r' hr' h' => hr' (some.inj (h'.symm.trans hr))
    refine phaseOk_update h.phase hne hne (fun e he her => ?_) hp
    rcases mem_append.mp he with he | he
    · exact he
    · exact absurd (congrArg Prod.fst (mem_singleton.mp he)) her
  log := h.log.act hr hpub hrec

variable {commit : Option Result} {result : Result}

theorem Inv.leave (h : Inv hashToken caller key s) (hr : s.shared.holder = some r)
    (hd : DoneOk hashToken caller r (some (s.shared.atAcquire, s.shared.places)) commit result) :
    Inv hashToken caller key (s.leave r commit result) where
  phase := by
    refine phaseOk_update h.phase (fun r' hr' h' => hr' (some.inj (h'.symm.trans hr)))
      (fun r' _ h' => nomatch h') (fun e he _ => he) ⟨(fun h' => nomatch h'), hd⟩
  log := h.log.setHolder fun r' hr' => nomatch hr'

variable {s' : State R}

theorem inv_acquire (h : Inv hashToken caller key s)
    (hs : step hashToken caller s (.acquire r) = some s') : Inv hashToken caller key s' := by
  simp only [step] at hs
  split at hs
  · rename_i hl hn
    have hp := h.phase r
    rw [hl] at hp
    cases hs
    refine ⟨?_, h.log.setHolder fun r' hr' => ?_⟩
    · exact phaseOk_update h.phase (fun r' _ h' => by rw [hn] at h'; cases h')
        (fun r' hr' h' => hr' (some.inj h').symm) (fun e he _ => he) ⟨rfl, rfl⟩
    · cases hr'
      exact hp.2
  · cases hs

/-- The holder reads the current key, and goes on if it is one. -/
theorem inv_readCurrent {token : String} (h : Inv hashToken caller key s)
    (hs : step hashToken caller s (.readCurrent r token) = some s') :
    Inv hashToken caller key s' := by
  simp only [step] at hs
  split at hs
  · rename_i hl
    have hp := h.phase r
    rw [hl] at hp
    split_ifs at hs with hrd hval
    · cases hs
      refine h.act hp.1 rfl (fun _ _ h' => nomatch h') ⟨hp.1, hp.2, fun hreads => ?_⟩
      have htok : token = s.shared.places.published := by
        by_contra hne
        exact hrd ⟨hreads, hne⟩
      rw [htok, hp.2]
      rfl
    · cases hs
      have hrd : Inv hashToken caller key
          { shared := s.shared.act r (.readCurrent token) s.shared.places,
            phase := update s.phase r (s.phase r) } := by
        refine h.act hp.1 rfl (fun _ _ h' => nomatch h') ?_
        rw [hl]
        exact hp
      rw [update_eq_self] at hrd
      exact hrd.leave hp.1 ⟨hp.2, _, rfl⟩
  · cases hs

variable {outcome : WriteOutcome}

theorem inv_endWrite
    (h : Inv hashToken caller key s)
    (hs : step hashToken caller s (.endWrite r outcome) = some s') :
    Inv hashToken caller key s' := by
  simp only [step] at hs
  split at hs
  · rename_i current c newToken hl
    have hp := h.phase r
    rw [hl] at hp
    obtain ⟨hho, hcur, hplcs⟩ := hp
    have hplcs' : s.shared.places = s.shared.atAcquire := hplcs
    split at hs
    · cases hs
      exact h.act hho rfl (fun _ _ h' => nomatch h') ⟨hho, hcur, hplcs⟩
    · cases hs
      refine h.act hho rfl (fun _ _ h' => nomatch h') ⟨hho, hcur, ?_⟩
      simp only [CommitOk, Shared.act, hplcs']
  · cases hs

/-- The rotation is recorded in `keys.json`, or fails to be. -/
theorem inv_record {draw : Draw}
    (h : Inv hashToken caller key s)
    (hs : step hashToken caller s (.record r draw outcome) = some s') :
    Inv hashToken caller key s' := by
  simp only [step] at hs
  split at hs
  · rename_i current c newToken hl
    have hp := h.phase r
    rw [hl] at hp
    obtain ⟨hho, hcur, hwrt⟩ := hp
    have hplcs : s.shared.places =
        { s.shared.atAcquire with keyFile := some (keyFileContent newToken) } := hwrt
    have hf : s.shared.places.keysFile = s.shared.atAcquire.keysFile := by rw [hplcs]
    have hpub : s.shared.places.published = s.shared.atAcquire.published := by rw [hplcs]
    have hrec : ∀ current' newToken', Part.record current newToken = .record current' newToken' →
        (caller r).readsPublished = true → current' = s.shared.places.published := by
      intro current' newToken' heq hreads
      cases heq
      exact (hcur hreads).trans hpub.symm
    rcases recordRotation_cases hashToken outcome s.shared.places.keysFile
      (rotationCall caller r current newToken draw) with ⟨e, he⟩ | ⟨result, htok, hok⟩
    · simp only [he] at hs
      cases hs
      refine h.act hho rfl hrec ⟨hho, hcur, newToken,
        rotationCall caller r current newToken draw, outcome, e, ?_, ?_⟩
      · rw [hf] at he
        exact he
      · exact hplcs
    · have htok' : result.newToken = newToken := htok
      simp only [hok, if_pos htok'] at hs
      cases hs
      refine h.act hho rfl hrec ⟨hho, hcur,
        rotationCall caller r current newToken draw, rfl, htok', hcur, ?_⟩
      simp only [Shared.act, allNew, hplcs]
      rfl
  · cases hs

theorem inv_publish (h : Inv hashToken caller key s)
    (hs : step hashToken caller s (.publish r) = some s') : Inv hashToken caller key s' := by
  simp only [step] at hs
  split at hs
  · rename_i current c newToken result hl
    have hp := h.phase r
    rw [hl] at hp
    obtain ⟨hho, hcur, call, rfl, hres, hc, hplcs⟩ := hp
    split_ifs at hs with hpub
    · cases hs
      refine h.act hho rfl (fun _ _ h' => nomatch h') ⟨hho, hcur, call, ?_, hres, hc⟩
      simp only [Shared.act, hplcs, allNew, if_pos hpub]
    · cases hs
      refine h.setPhase ⟨hho, hcur, call, ?_, hres, hc⟩
      rw [hplcs]
      simp only [allNew, if_neg hpub]
  · cases hs

/-- A caller is cancelled: before the commit task there is nothing to keep, after it the task
goes on. -/
theorem inv_cancel (h : Inv hashToken caller key s)
    (hs : step hashToken caller s (.cancel r) = some s') : Inv hashToken caller key s' := by
  simp only [step] at hs
  have hp := h.phase r
  split at hs
  · rename_i hl
    rw [hl] at hp
    cases hs
    exact h.setPhase ⟨hp.1, trivial⟩
  · rename_i hl
    rw [hl] at hp
    cases hs
    exact h.leave hp.1 ⟨hp.2, _, rfl⟩
  · rename_i current hl
    rw [hl] at hp
    cases hs
    exact h.leave hp.1 ⟨hp.2.1, _, rfl⟩
  · rename_i current c commit hl
    rw [hl] at hp
    cases hs
    exact h.setPhase hp
  · cases hs

theorem inv_step {e : Event R} (h : Inv hashToken caller key s)
    (hs : step hashToken caller s e = some s') : Inv hashToken caller key s' := by
  cases e with
  | call r =>
    simp only [step] at hs
    split at hs
    · rename_i hl
      have hp := h.phase r
      rw [hl] at hp
      split_ifs at hs
      · cases hs
        exact h.setPhase hp
      · cases hs
        exact h.setPhase ⟨hp.1, trivial⟩
    · cases hs
  | acquire r => exact inv_acquire h hs
  | readCurrent r token => exact inv_readCurrent h hs
  | readFailed r =>
    simp only [step] at hs
    split at hs
    · rename_i hl
      have hp := h.phase r
      rw [hl] at hp
      cases hs
      exact h.leave hp.1 ⟨hp.2, _, rfl⟩
    · cases hs
  | verify r =>
    simp only [step] at hs
    split at hs
    · rename_i current hl
      have hp := h.phase r
      rw [hl] at hp
      obtain ⟨hho, hplcs, hcur⟩ := hp
      split at hs
      · cases hs
        exact h.leave hho ⟨hplcs, _, rfl⟩
      · cases hs
        exact h.setPhase ⟨hho, hcur, hplcs⟩
    · cases hs
  | startWrite r newToken =>
    simp only [step] at hs
    split at hs
    · rename_i current c hl
      have hp := h.phase r
      rw [hl] at hp
      cases hs
      exact h.setPhase hp
    · cases hs
  | endWrite r outcome => exact inv_endWrite h hs
  | record r draw outcome => exact inv_record h hs
  | publish r => exact inv_publish h hs
  | cancel r => exact inv_cancel h hs
  | wake r =>
    simp only [step] at hs
    split at hs
    · rename_i current c result hl
      have hp := h.phase r
      rw [hl] at hp
      cases hs
      refine h.leave hp.1 ⟨hp.2.2, ?_⟩
      cases c with
      | true => exact Or.inr rfl
      | false => exact Or.inl rfl
    · cases hs

/-! ### Whole runs -/

variable (hashToken caller)

/-- How a rotation that took the lock with the places `old` may end, leaving them as
`new`: all old; all new, with the published key retired if that is the one it reads; or
only the key file new, because recording the rotation in `keys.json` failed. The caller
learns of the last two unless it was cancelled. -/
def AllOrNothing (r : R) (old new : Places) (commit : Option Result) (result : Result) : Prop :=
  (new = old ∧ ∃ e, result = .error e) ∨
    (∃ call : RotationCall, new = allNew hashToken caller r old call ∧
      CurrentOk caller r old call.currentToken ∧
        ((∃ o, result = .ok o ∧ o.newToken = call.newToken) ∨ result = .error .cancelled)) ∨
    (commit = some (.error .incomplete) ∧
      (result = .error .incomplete ∨ result = .error .cancelled) ∧
        ∃ newToken call outcome e,
          recordRotation hashToken outcome call old.keysFile = (old.keysFile, .error e) ∧
            new = { old with keyFile := some (keyFileContent newToken) })

variable {hashToken caller}

omit [DecidableEq R] in
theorem DoneOk.allOrNothing {old new : Places}
    (h : DoneOk hashToken caller r (some (old, new)) commit result) :
    AllOrNothing hashToken caller r old new commit result := by
  cases commit with
  | none => exact Or.inl h
  | some commit =>
    obtain ⟨hcom, hres⟩ := h
    match commit, hcom with
    | .ok o, ⟨call, hw, hnt, hcur⟩ =>
      refine Or.inr (Or.inl ⟨call, hw, hcur, ?_⟩)
      rcases hres with hok | hcand
      · exact Or.inl ⟨o, hok, hnt⟩
      · exact Or.inr hcand
    | .error .keyFileWrite, hw =>
      refine Or.inl ⟨hw, ?_⟩
      rcases hres with herr | hcand
      · exact ⟨_, herr⟩
      · exact ⟨_, hcand⟩
    | .error .incomplete, hw => exact Or.inr (Or.inr ⟨rfl, hres, hw⟩)

omit [DecidableEq R] in
theorem inv_init (places : Places) :
    Inv hashToken caller places.published (State.init (R := R) places) where
  phase _ := ⟨(fun h => nomatch h), fun _ he => nomatch he⟩
  log :=
    { contiguous := contiguous_nil _
      holder := fun _ h => nomatch h
      published := rfl
      records := by
        intro pre post r current newToken h
        simp [State.init] at h }

/-- The invariant holds in every state that is reached. -/
theorem inv_of_run {es : List (Event R)}
    (hr : run (step hashToken caller) (State.init places) es = some s) :
    Inv hashToken caller places.published s :=
  run_invariant (fun _ _ _ h hs => inv_step h hs) (inv_init places) hr

variable (hashToken caller)

/-- **A rotation is never half-published, and rotations do not interleave.** Whatever
the outcomes of the writes and wherever callers are cancelled, a rotation that took the
lock leaves all places old, all new, or the key file alone new because `keys.json` could
not be written; in the trace of all rotations the entries of each stand together; and a
rotation that reads the published key retires the key that was published last. -/
theorem rotation_atomic (places : Places) (es : List (Event R))
    (hrun : run (step hashToken caller) (State.init places) es = some s) :
    (∀ r old new commit result, s.phase r = .done (some (old, new)) commit result →
      AllOrNothing hashToken caller r old new commit result) ∧
    Contiguous Prod.fst s.shared.log ∧
    ∀ pre post r current newToken,
      s.shared.log = pre ++ (r, .record current newToken) :: post →
        (caller r).readsPublished = true → current = publishedAfter places.published pre := by
  have h := inv_of_run hrun
  refine ⟨fun r old new commit result hr => ?_, h.log.contiguous, h.log.records⟩
  have hp := h.phase r
  rw [hr] at hp
  exact hp.2.allOrNothing

end Invariant

/-! ### Two rotations, the first of them cancelled -/

def sampleCaller (_ : Bool) : Caller where
  graceSeconds := 0
  readsPublished := true
  publishes := true

def samplePlaces : Places where
  keyFile := some (keyFileContent "k0")
  keysFile := .missing
  published := "k0"

/-- The first rotation is cancelled while its key file is written; the second waits for
the lock meanwhile and then runs to its end. -/
def sampleRun : List (Event Bool) :=
  [.call false, .acquire false, .call true, .readCurrent false "k0", .verify false,
    .startWrite false "k1", .cancel false, .endWrite false .failedAfterReplace, .cancel false,
    .record false ⟨1, "g1", "id1"⟩ .written, .publish false, .wake false,
    .acquire true, .readCurrent true "k1", .verify true, .startWrite true "k2",
    .endWrite true .written, .record true ⟨2, "g2", "id2"⟩ .written, .publish true, .wake true]

/-- In the sample run the second rotation retires the key the first one issued, although
the caller of the first never received it. -/
theorem rotation_atomic_cancelled :
    ∃ s, run (step id sampleCaller) (State.init samplePlaces) sampleRun = some s ∧
      s.shared.places.published = "k2" ∧ "k1" = publishedAfter "k0" (s.shared.log.take 6) := by
  refine ⟨_, rfl, rfl, ?_⟩
  exact (rotation_atomic id sampleCaller samplePlaces sampleRun rfl).2.2
    _ [(true, .publish "k2")] true "k1" "k2" rfl rfl

end ArchonSearch.Keys.Rotation
