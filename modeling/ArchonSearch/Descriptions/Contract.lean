import ArchonSearch.Descriptions.Programs

/-!
# What the writers of a row may be trusted with

The contract of the writers (`contract`). A task knows what it has been told: whether it holds the
lock of the collection, the row as it has read it while holding it, and, if it is a generation run,
the values that the row had when the run read it. It may write the row only if it holds the lock
and has read the row since. A write that is not counted as a change of the description leaves the
four values of the description as they are; one that is counted is made by a set, a clear or
an import, or over a row that is not manual, and by a run only over a row with the values that
the run expects.

The functions that leave the description alone keep to it, and leave what is known as it was
(`restores_recomputeCollectionMeta`, `restores_patchCollection` and so on).
-/

namespace ArchonSearch.Descriptions

open Lib Async Option

variable {n : ℕ} {τ : Type}

/-! ### Knowledge -/

/-- What a task knows of the lock: it has it or not, and it has read this row under it. -/
inductive Hold (n : ℕ) (τ : Type) where
  | free
  | held
  | copied (row : Option (CollectionMeta n τ))
  deriving DecidableEq

/-- A read under the lock; only the first one counts. -/
def Hold.see : Hold n τ → Option (CollectionMeta n τ) → Hold n τ
  | .free, _ => .free
  | .held, row => .copied row
  | .copied _, row => .copied row

/-- What a task knows: its call, and what it was told and has done since it began. -/
@[ext] structure Know (n : ℕ) (τ : Type) where
  call : Option (Call n τ)
  hold : Hold n τ := .free
  owes : Bool := false
  took : Bool := false
  fresh : Bool := false
  expects : Option (ExpectedState τ) := none
  asked : Bool := false
  wrote : Bool := false
  remembered : Bool := false
  verdict : Option GenerationResult := none
  finished : Bool := false

/-- The call is a run of the generator. -/
def IsRun : Option (Call n τ) → Prop
  | some (.generation _) => True
  | _ => False

instance (call : Option (Call n τ)) : Decidable (IsRun call) := by
  unfold IsRun
  split <;> infer_instance

/-- What the guard of a run makes of the row it finds. -/
def verdictOver [DecidableEq τ] (e : ExpectedState τ) :
    Option (CollectionMeta n τ) → Option GenerationResult
  | none => some .superseded
  | some row =>
    if row.descriptionSource = some .manual then some .refusedManual
    else if row.described = e then none
    else some .superseded

/-- A run finds that the row is gone. -/
def verdictOfGone : Option (CollectionMeta n τ) → Option GenerationResult
  | none => some .superseded
  | some _ => none

/-- A call that changes the description of the row `m` may make it `row`. -/
def Permits : Option (Call n τ) → CollectionMeta n τ → CollectionMeta n τ → Prop
  | some (.set text), _, row =>
    row.stored.description = some text ∧ row.descriptionSource = some .manual ∧
      row.descriptionStatus = some .ok
  | some call, m, _ => call.IsAuthority ∨ m.descriptionSource ≠ some .manual
  | none, _, _ => False

/-- The row that a write without a description merges has the description that was read. -/
structure Carries (read : Option (CollectionMeta n τ)) (row : CollectionMeta n τ) : Prop where
  paired : (∀ m ∈ read, IsPaired m) → IsPaired row
  described : row.described = Descriptions.described read

/-- The row that a description write merges is one that its call permits, under its guard. -/
structure Changes (k : Know n τ) (m row : CollectionMeta n τ) : Prop where
  paired : IsPaired m → IsPaired row
  permits : Permits k.call m row
  started : IsRun k.call → k.expects.isSome
  expected : ∀ e ∈ k.expects, m.described = e
  verdict : k.verdict = none

/-- How a run may end that nobody has refused. -/
structure SettlesFreely (k : Know n τ) (result : GenerationResult) : Prop where
  failed : result = .failed → k.remembered = true ∨ k.wrote = true
  generated : result = .generated → k.wrote = true
  asked : k.asked = true → result = .failed ∨ result = .generated ∨ result = .shuttingDown

/-- How a run may end. -/
structure MaySettle (k : Know n τ) (result : GenerationResult) : Prop where
  remembered : k.remembered = true → result = .failed
  refused : ∀ refused ∈ k.verdict, result = refused
  free : k.verdict = none → SettlesFreely k result

/-- What a task that knows this much may ask for. -/
def May (k : Know n τ) : Op n τ → Prop
  | .acquire => k.hold = .free
  | .release => k.hold ≠ .free ∧ k.owes = false
  | .readRow => IsRun k.call ∧ k.took = true ∧ k.verdict = none
  | .readMetaUnlocked =>
    k.hold ≠ .free ∧ k.verdict = none ∧ (IsRun k.call → k.expects.isSome) ∧
      ∀ e ∈ k.expects, e.source ≠ some .manual
  | .merge false row => ∃ read, k.hold = .copied read ∧ k.owes = false ∧ Carries read row
  | .merge true row => ∃ m, k.hold = .copied (some m) ∧ k.owes = false ∧ Changes k m row
  | .bumpDescriptionVersion => k.owes = true
  | .deleteRow => k.hold ≠ .free ∧ k.owes = false
  | .takeVersion => k.remembered = false
  | .rememberUnstoredFailure => k.fresh = true
  | .finish settlement => IsRun k.call ∧ MaySettle k settlement.result
  | _ => True

/-- Which operations raise what: what is done between two awaits raises nothing, and the
grant of the slot can only be cancelled. -/
def Op.mayRaise : Op n τ → Raised → Bool
  | .release, _ | .bumpDescriptionVersion, _ | .jobIsActive, _ | .now, _ | .takeVersion, _
  | .versionHolds, _ | .rememberUnstoredFailure, _ | .finish _, _ => false
  | .granted, e => e = .cancelled
  | _, _ => true

/-- What it knows after the answer. -/
def learn [DecidableEq τ] (k : Know n τ) : (op : Op n τ) → Except Raised (Ans op) → Know n τ
  | .acquire, .ok true => { k with hold := .held }
  | .release, _ => { k with hold := .free }
  | .getCollectionMeta, .ok row =>
    { k with
      hold := k.hold.see row
      verdict := k.verdict.or (k.expects.bind fun _ => verdictOfGone row) }
  | .readMetaUnlocked, .ok row =>
    { k with
      hold := k.hold.see row
      verdict := k.verdict.or (k.expects.bind fun e => verdictOver e row) }
  | .merge counted row, .ok _ =>
    { k with hold := .copied (some row.stored), owes := counted, wrote := k.wrote || counted }
  | .bumpDescriptionVersion, _ => { k with owes := false }
  | .deleteRow, .ok _ => { k with hold := .copied none, owes := true }
  | .takeVersion, _ => { k with took := true, fresh := false }
  | .readRow, .ok row =>
    { k with fresh := true, wrote := false, expects := row.map CollectionMeta.described }
  | .readRow, .error _ => { k with fresh := true, wrote := false, expects := none }
  | .generate, _ => { k with asked := true }
  | .rememberUnstoredFailure, _ => { k with remembered := true }
  | .finish _, _ => { k with finished := true }
  | _, _ => k

/-- The contract of the programs: `May`, any answer, `learn`. -/
@[reducible] def contract (n : ℕ) (τ : Type) [DecidableEq τ] : Contract (ops n τ) Raised where
  Know := Know n τ
  May k op := k.finished = false ∧ May k op
  Can _ op r := match r with
    | .ok _ => True
    | .error e => op.mayRaise e = true
  learn := learn

/-- The rule of `except Exception`. -/
theorem wp_attempt {C : Contract (ops n τ) Raised} {α : Type} {p : Program n τ α} {k : C.Know}
    {Q : Except String α → C.Know → Prop} {E : Raised → C.Know → Prop} :
    wp C Q E (attempt p) k ↔
      wp C (fun a k => Q (.ok a) k) (fun e k =>
        match e with
        | .error typeName => Q (.error typeName) k
        | .cancelled => E .cancelled k) p k := by
  unfold attempt
  rw [wp_tryCatch, wp_bind]
  refine iff_of_eq (congrArg (fun E' => wp C _ E' p k) ?_)
  funext e k
  cases e <;> rfl

section Rules

variable [DecidableEq τ] {α : Type} {k : Know n τ} {E : Raised → Know n τ → Prop} {op : Op n τ}

theorem wp_ask {Q : Ans op → Know n τ → Prop}
    (hfin : k.finished = false) (hm : May k op) (hok : ∀ a, Q a (learn k op (.ok a)))
    (herr : ∀ e, op.mayRaise e = true → E e (learn k op (.error e))) :
    wp (contract n τ) Q E (ask op) k :=
  wp_perform ⟨hfin, hm⟩ (fun a _ => hok a) fun e he => herr e he

theorem wp_ask_bind {f : Ans op → Program n τ α} {Q : α → Know n τ → Prop}
    (hfin : k.finished = false) (hm : May k op)
    (hok : ∀ a, wp (contract n τ) Q E (f a) (learn k op (.ok a)))
    (herr : ∀ e, op.mayRaise e = true → E e (learn k op (.error e))) :
    wp (contract n τ) Q E (ask op >>= f) k :=
  wp_bind.mpr (wp_ask hfin hm hok herr)

end Rules

/-! ### Functions outside the runs -/

section Plain

variable [DecidableEq τ] {α : Type} {k : Know n τ}

/-- The task has not ended, and has no lock. -/
structure Know.Idle (k : Know n τ) : Prop where
  hold : k.hold = .free
  owes : k.owes = false
  finished : k.finished = false

/-- It is no run of the generator either, and expects nothing. -/
structure Know.Plain (k : Know n τ) : Prop extends k.Idle where
  expects : k.expects = none
  run : ¬IsRun k.call
  verdict : k.verdict = none

/-- The knowledge inside a hold of the lock that began with `k`. -/
def Within (k k' : Know n τ) : Prop := ∃ h, h ≠ .free ∧ k' = { k with hold := h }

/-- The same without the lock. -/
def Know.unlocked (k : Know n τ) : Know n τ := { k with hold := .free }

/-- The task has the lock, and owes nothing for it. -/
structure Know.Locked (k : Know n τ) : Prop where
  hold : k.hold ≠ .free
  owes : k.owes = false
  finished : k.finished = false

variable {k' : Know n τ}

omit [DecidableEq τ] in
theorem Within.locked (h : Within k k') (hk : k.Idle) : k'.Locked := by
  obtain ⟨hold, hho, rfl⟩ := h
  exact ⟨hho, hk.owes, hk.finished⟩

omit [DecidableEq τ] in
theorem Within.unlocked (h : Within k k') (hk : k.Idle) : k'.unlocked = k := by
  obtain ⟨hold, hho, rfl⟩ := h
  ext1 <;> first | exact hk.hold.symm | rfl

variable {E : Raised → Know n τ → Prop} {Q : α → Know n τ → Prop}

/-- **The rule of the lock.** -/
theorem wp_withLock {busy body : Program n τ α} (hk : k.Idle) (hbusy : wp (contract n τ) Q E busy k)
    (hbody : wp (contract n τ) (fun a k' => k'.Locked ∧ Q a k'.unlocked)
      (fun e k' => k'.Locked ∧ E e k'.unlocked) body { k with hold := .held })
    (herr : ∀ e, E e k) : wp (contract n τ) Q E (withLock busy body) k := by
  refine wp_ask_bind hk.finished hk.hold ?_ fun e _ => herr e
  rintro (_ | _)
  · exact hbusy
  · refine wp_andFinally.mpr (wp_mono hbody ?_ ?_)
    · rintro a k' ⟨hloc, hQ⟩
      exact wp_ask hloc.finished ⟨hloc.hold, hloc.owes⟩ (fun _ => hQ) fun e he => by cases he
    · rintro e k' ⟨hloc, hE⟩
      exact wp_ask hloc.finished ⟨hloc.hold, hloc.owes⟩ (fun _ => hE) fun e he => by cases he

/-- The program ends with the knowledge that it began with, however it ends. -/
def Restores (p : Program n τ α) (k : Know n τ) : Prop :=
  wp (contract n τ) (fun _ k' => k' = k) (fun _ k' => k' = k) p k

/-- The program only learns what the lock is good for. -/
def StaysWithin (p : Program n τ α) (k : Know n τ) (h : Hold n τ) : Prop :=
  wp (contract n τ) (fun _ k' => Within k k') (fun _ k' => Within k k') p { k with hold := h }

theorem restores_withLock {busy body : Program n τ α} (hk : k.Idle) (hbusy : Restores busy k)
    (hbody : StaysWithin body k .held) : Restores (withLock busy body) k :=
  wp_withLock hk hbusy
    (wp_mono hbody (fun _ _ h => ⟨h.locked hk, h.unlocked hk⟩)
      fun _ _ h => ⟨h.locked hk, h.unlocked hk⟩) fun _ => rfl

theorem restores_lockedCollectionMeta {body : Option (CollectionMeta n τ) → Program n τ α}
    (hk : k.Plain) (hbody : ∀ row, StaysWithin (body row) k (.copied row)) :
    Restores (lockedCollectionMeta body) k := by
  refine restores_withLock hk.toIdle rfl ?_
  refine wp_ask_bind hk.finished trivial (fun row => ?_) fun e _ => ⟨.held, by simp, rfl⟩
  have hlearn : learn { k with hold := .held } .getCollectionMeta (.ok row)
      = { k with hold := .copied row } := by
    simp [learn, hk.expects, Hold.see]
  rw [hlearn]
  exact hbody row

variable {row : CollectionMeta n τ} {read : Option (CollectionMeta n τ)}

/-- **A write that leaves the description alone**, and the row is the one written. -/
theorem wp_writeMetaUnlocked_false (hk : k.Idle) (hr : Carries read row) :
    wp (contract n τ) (fun _ k' => k' = { k with hold := .copied (some row.stored) })
      (fun _ k' => Within k k') (writeMetaUnlocked false row) { k with hold := .copied read } := by
  have hlearn : learn { k with hold := .copied read } (.merge false row) (.ok ())
      = { k with hold := .copied (some row.stored) } := by
    ext1 <;> simp [learn, hk.owes]
  refine wp_ask_bind hk.finished ⟨read, rfl, hk.owes, hr⟩ (fun _ => ?_) fun e _ => ?_
  · refine wp_bind.mpr (wp_pure.mpr (wp_ask hk.finished trivial (fun _ => hlearn) fun e _ => ?_))
    exact ⟨_, by simp, hlearn⟩
  · exact ⟨.copied read, by simp, rfl⟩

theorem staysWithin_writeMetaUnlocked (hk : k.Idle) (hr : Carries read row) :
    StaysWithin (writeMetaUnlocked false row) k (.copied read) :=
  wp_mono (wp_writeMetaUnlocked_false hk hr) (fun _ _ h => ⟨_, by simp, h⟩) fun _ _ h => h

section
omit [DecidableEq τ]

/-- A write keeps the description of the row that was read if it keeps the four values, and has
no vector but the one of that row or one of its text. -/
theorem carries_some {m row : CollectionMeta n τ} (hdes : row.described = m.described)
    (hvec : ∀ v, row.descriptionEmbedding = some v →
      m.descriptionEmbedding = some v ∨ orNone m.description = some v.text) :
    Carries (some m) row := by
  refine ⟨fun hm v hv => ?_, hdes⟩
  have htx : orNone row.description = orNone m.description :=
    congrArg ExpectedState.description hdes
  rw [htx]
  rcases hvec v hv with hv | hv
  · exact hm m rfl v hv
  · exact hv

theorem carries_none (hdes : row.described = .blank)
    (hvec : row.descriptionEmbedding = none) : Carries none row := by
  refine ⟨fun _ v hv => ?_, hdes⟩
  rw [hvec] at hv
  cases hv

/-- A write over the row that was read, or over a new one if there is none. -/
theorem carries_getD {fresh row : CollectionMeta n τ}
    (hfr : fresh.described = .blank) (hn : fresh.descriptionEmbedding = none)
    (hdes : row.described = (read.getD fresh).described)
    (hvec : ∀ v, row.descriptionEmbedding = some v →
      (read.getD fresh).descriptionEmbedding = some v ∨
        orNone (read.getD fresh).description = some v.text) :
    Carries read row := by
  cases read with
  | some m => exact carries_some hdes hvec
  | none =>
    refine carries_none (hdes.trans hfr) (eq_none_iff_forall_ne_some.mpr ?_)
    intro v hv
    have htx : orNone fresh.description = none :=
      congrArg ExpectedState.description hfr
    rcases hvec v hv with h | h
    · rw [getD_none, hn] at h
      cases h
    · rw [getD_none, htx] at h
      cases h

end

/-- The operation is always allowed and says nothing. -/
def Neutral (op : Op n τ) : Prop := ∀ k : Know n τ, May k op ∧ ∀ r, learn k op r = k

variable {op : Op n τ} {f : Ans op → Program n τ α}

theorem Neutral.wp_bind (hop : Neutral op) (hk : k.finished = false)
    (hok : ∀ a, wp (contract n τ) Q E (f a) k) (herr : ∀ e, E e k) :
    wp (contract n τ) Q E (ask op >>= f) k := by
  refine wp_ask_bind hk (hop k).1 (fun a => ?_) fun e _ => ?_
  · rw [(hop k).2]
    exact hok a
  · rw [(hop k).2]
    exact herr e

theorem Neutral.wp_ask (hop : Neutral op) {Q : Ans op → Know n τ → Prop} (hk : k.finished = false)
    (hok : ∀ a, Q a k)
    (herr : ∀ e, E e k) : wp (contract n τ) Q E (ask op) k := by
  refine Descriptions.wp_ask hk (hop k).1 (fun a => ?_) fun e _ => ?_
  · rw [(hop k).2]
    exact hok a
  · rw [(hop k).2]
    exact herr e

theorem neutral_readVectors : Neutral (.readVectors : Op n τ) :=
  fun _ => ⟨trivial, fun r => by cases r <;> rfl⟩

theorem neutral_count : Neutral (.count : Op n τ) :=
  fun _ => ⟨trivial, fun r => by cases r <;> rfl⟩

theorem neutral_writeChunks : Neutral (.writeChunks : Op n τ) :=
  fun _ => ⟨trivial, fun r => by cases r <;> rfl⟩

theorem neutral_jobIsActive : Neutral (.jobIsActive : Op n τ) :=
  fun _ => ⟨trivial, fun r => by cases r <;> rfl⟩

theorem neutral_now : Neutral (.now : Op n τ) :=
  fun _ => ⟨trivial, fun r => by cases r <;> rfl⟩

theorem neutral_embedOne {model text : String} : Neutral (.embedOne model text : Op n τ) :=
  fun _ => ⟨trivial, fun r => by cases r <;> rfl⟩

variable {h : Hold n τ}

theorem Neutral.staysWithin_bind (hop : Neutral op)
    (hk : k.Idle) (hh : h ≠ .free) (hf : ∀ a, StaysWithin (f a) k h) :
    StaysWithin (ask op >>= f) k h :=
  hop.wp_bind hk.finished hf fun _ => ⟨h, hh, rfl⟩

theorem staysWithin_pure {a : α} (hh : h ≠ .free) : StaysWithin (pure a) k h := ⟨h, hh, rfl⟩

theorem staysWithin_raise {e : Raised} (hh : h ≠ .free) :
    StaysWithin (raise e : Program n τ α) k h := ⟨h, hh, rfl⟩

/-- A function in the middle of a hold of the lock, whatever it leaves of what was read. -/
theorem StaysWithin.bind {β : Type} {p : Program n τ β} {f : β → Program n τ α}
    (hp : StaysWithin p k h) (hf : ∀ a h', h' ≠ .free → StaysWithin (f a) k h') :
    StaysWithin (p >>= f) k h := by
  refine Async.wp_bind.mpr (wp_mono hp ?_ fun _ _ hk' => hk')
  rintro a k' ⟨h', hh', rfl⟩
  exact hf a h' hh'

theorem staysWithin_readMetaUnlocked_bind {f : Option (CollectionMeta n τ) → Program n τ α}
    (hk : k.Plain) (hh : h ≠ .free) (hf : ∀ row, StaysWithin (f row) k (.copied row)) :
    StaysWithin (ask .readMetaUnlocked >>= f) k h := by
  have hm : May { k with hold := h } .readMetaUnlocked :=
    ⟨hh, hk.verdict, fun hr => absurd hr hk.run, fun e he => by rw [hk.expects] at he; cases he⟩
  refine wp_ask_bind hk.finished hm (fun row => ?_) fun e _ => ?_
  · have hlearn : learn { k with hold := h } .readMetaUnlocked (.ok row)
        = { k with hold := .copied row } := by
      cases h with
      | free => exact absurd rfl hh
      | held => simp [learn, hk.expects, Hold.see]
      | copied read => simp [learn, hk.expects, Hold.see]
    rw [hlearn]
    exact hf row
  · exact ⟨h, hh, rfl⟩

theorem staysWithin_deleteCollectionMeta (hk : k.Plain) (hh : h ≠ .free) :
    StaysWithin deleteCollectionMeta k h := by
  refine wp_ask_bind hk.finished trivial (fun row => ?_) fun e _ => ⟨h, hh, rfl⟩
  have hlearn : learn { k with hold := h } .getCollectionMeta (.ok row)
      = { k with hold := h.see row } := by
    simp [learn, hk.expects]
  rw [hlearn]
  have hsee : h.see row ≠ .free := by
    cases h with
    | free => exact absurd rfl hh
    | held => simp [Hold.see]
    | copied read => simp [Hold.see]
  cases row with
  | none => exact ⟨_, hsee, rfl⟩
  | some m =>
    refine wp_ask_bind hk.finished ⟨hsee, hk.owes⟩ (fun _ => ?_) fun e _ => ⟨_, hsee, rfl⟩
    refine wp_ask hk.finished rfl (fun _ => ?_) fun e he => by cases he
    refine ⟨.copied none, by simp, ?_⟩
    ext1 <;> simp [learn, hk.owes]

/-! ### Their specifications -/

theorem restores_touchLastIndexed (hk : k.Plain) (lastIndexed : τ) :
    Restores (touchLastIndexed lastIndexed) k := by
  refine restores_withLock hk.toIdle rfl ?_
  refine staysWithin_readMetaUnlocked_bind hk (by simp) fun row => ?_
  cases row with
  | none => exact staysWithin_pure (by simp)
  | some m => exact staysWithin_writeMetaUnlocked hk.toIdle (carries_some rfl fun v hv => .inl hv)

omit [DecidableEq τ] in
theorem carries_updateMetaOnAdd (existing : Option (CollectionMeta n τ))
    (batch : List (Store.Centroid.Vec n)) (distinctDocCount : ℕ) (model : String) :
    Carries existing (updateMetaOnAdd existing batch distinctDocCount model) := by
  cases existing with
  | none => exact carries_none rfl rfl
  | some m => exact carries_some rfl fun v hv => .inl hv

theorem restores_ingestChunks (hk : k.Plain) (model : Option String)
    (batch : List (Store.Centroid.Vec n)) (distinctDocCount : ℕ) :
    Restores (ingestChunks model batch distinctDocCount) k := by
  refine restores_withLock hk.toIdle rfl ?_
  refine staysWithin_readMetaUnlocked_bind hk (by simp) fun owned => ?_
  have hcop : (Hold.copied owned : Hold n τ) ≠ .free := by simp
  cases model with
  | none =>
    exact neutral_writeChunks.wp_ask hk.finished (fun _ => ⟨_, hcop, rfl⟩) fun _ => ⟨_, hcop, rfl⟩
  | some model =>
    cases owned with
    | some m =>
      refine neutral_writeChunks.staysWithin_bind hk.toIdle hcop fun _ => ?_
      refine staysWithin_readMetaUnlocked_bind hk hcop fun existing => ?_
      exact staysWithin_writeMetaUnlocked hk.toIdle (carries_updateMetaOnAdd _ _ _ _)
    | none =>
      refine Async.wp_bind.mpr (wp_mono (wp_writeMetaUnlocked_false hk.toIdle
        (carries_none rfl rfl)) ?_ fun _ _ h => h)
      rintro - _ rfl
      refine Async.wp_bind.mpr (wp_tryCatch.mpr ?_)
      refine neutral_writeChunks.wp_ask hk.finished (fun _ => ?_) fun e => ?_
      · exact staysWithin_writeMetaUnlocked hk.toIdle (carries_some rfl fun v hv => .inl hv)
      · refine Async.wp_bind.mpr (wp_attempt.mpr ?_)
        refine wp_mono (staysWithin_deleteCollectionMeta hk (by simp)) (fun _ _ h => h) ?_
        rintro (_ | _) k' hk'
        · exact hk'
        · exact hk'

theorem restores_deleteDocument (hk : k.Plain) :
    Restores (deleteDocument : Program n τ Unit) k := by
  refine restores_withLock hk.toIdle rfl ?_
  refine neutral_readVectors.staysWithin_bind hk.toIdle (by simp) fun deleted => ?_
  refine neutral_writeChunks.staysWithin_bind hk.toIdle (by simp) fun _ => ?_
  split_ifs
  · exact staysWithin_pure (by simp)
  · refine staysWithin_readMetaUnlocked_bind hk (by simp) fun row => ?_
    cases row with
    | none => exact staysWithin_pure (by simp)
    | some m =>
      refine neutral_now.staysWithin_bind hk.toIdle (by simp) fun now => ?_
      exact staysWithin_writeMetaUnlocked hk.toIdle (carries_some rfl fun v hv => .inl hv)

theorem restores_deleteCollection (hk : k.Plain) :
    Restores (deleteCollection : Program n τ Unit) k :=
  restores_withLock hk.toIdle rfl (staysWithin_deleteCollectionMeta hk (by simp))

theorem wp_embed {model text : String} (hk : k.finished = false) :
    wp (contract n τ) (fun vector k' => k' = k ∧ ∀ v ∈ vector, v.text = text)
      (fun _ k' => k' = k) (embed model text) k := by
  refine Async.wp_bind.mpr (wp_attempt.mpr ?_)
  refine neutral_embedOne.wp_ask hk (fun storable => ?_) fun e => ?_
  · cases storable with
    | false => exact ⟨rfl, fun v hv => by cases hv⟩
    | true => exact ⟨rfl, fun v hv => by cases hv; rfl⟩
  · cases e with
    | error typeName => exact ⟨rfl, fun v hv => by cases hv⟩
    | cancelled => rfl

theorem wp_legacyDescriptionVector {defaultModel embedder : String}
    {row : Option (CollectionMeta n τ)} (hk : k.finished = false) :
    wp (contract n τ) (fun vector k' => k' = k ∧ ∀ v ∈ vector, v.text ≠ "") (fun _ k' => k' = k)
      (legacyDescriptionVector defaultModel embedder row) k := by
  have hn : k = k ∧ ∀ v ∈ (none : Option Embedding), v.text ≠ "" :=
    ⟨rfl, fun v hv => by cases hv⟩
  unfold legacyDescriptionVector
  split
  next => exact hn
  next m =>
    split
    next => exact hn
    next text htx =>
      have hne : text ≠ "" := by
        have hm := mem_filter_iff.mp (mem_def.mpr htx)
        simpa using hm.2
      split_ifs
      · exact hn
      · refine wp_mono (wp_embed hk) ?_ fun _ _ h => h
        rintro vector k' ⟨hk', hvec⟩
        exact ⟨hk', fun v hv => by rw [hvec v hv]; exact hne⟩

omit [DecidableEq τ] in
/-- A repaired vector is the one of the row, or one of its text. -/
theorem repairedEmbedding_eq_some {defaultModel embedder : String} {base : CollectionMeta n τ}
    {legacy : Option Embedding} (hleg : ∀ v ∈ legacy, v.text ≠ "") {v : Embedding}
    (hv : repairedEmbedding defaultModel embedder base legacy = some v) :
    base.descriptionEmbedding = some v ∨ orNone base.description = some v.text := by
  unfold repairedEmbedding at hv
  split at hv
  next w hn =>
    obtain ⟨heq, rfl⟩ := of_guard hv
    refine Or.inr ?_
    rw [heq.1]
    simpa [orNone] using hleg w rfl
  next => exact Or.inl hv

theorem restores_recomputeCollectionMeta (hk : k.Plain) (defaultModel embedder : String)
    (force : Bool) : Restores (recomputeCollectionMeta defaultModel embedder force) k := by
  have hsee (row : Option (CollectionMeta n τ)) :
      learn k .getCollectionMeta (.ok row) = k := by
    ext1 <;> simp [learn, hk.hold, hk.expects, Hold.see]
  refine wp_ask_bind hk.finished trivial (fun existing => ?_) fun _ _ => rfl
  rw [hsee]
  split_ifs
  · rfl
  refine neutral_readVectors.wp_bind hk.finished (fun vectors => ?_) fun _ => rfl
  split_ifs
  · rfl
  refine neutral_count.wp_bind hk.finished (fun docCount => ?_) fun _ => rfl
  refine Async.wp_bind.mpr (wp_mono (wp_legacyDescriptionVector hk.finished) ?_ fun _ _ h => h)
  rintro legacy _ ⟨rfl, hleg⟩
  refine restores_lockedCollectionMeta hk fun locked => ?_
  have hloc : (Hold.copied locked : Hold n τ) ≠ .free := by simp
  dsimp only
  split_ifs
  · exact staysWithin_pure hloc
  · exact staysWithin_pure hloc
  · exact staysWithin_writeMetaUnlocked hk.toIdle
      (carries_getD rfl rfl rfl fun v hv => repairedEmbedding_eq_some hleg hv)
  · refine neutral_now.staysWithin_bind hk.toIdle hloc fun now => ?_
    exact staysWithin_writeMetaUnlocked hk.toIdle
      (carries_getD rfl rfl rfl fun v hv => repairedEmbedding_eq_some hleg hv)

/-- The row that `patch_collection` goes on with is, up to fields that are not those of the
description, the one that was read or has been written. -/
def Follows (k : Know n τ) (row : CollectionMeta n τ) (k' : Know n τ) : Prop :=
  ∃ m, k' = { k with hold := .copied (some m) } ∧ row.described = m.described ∧
    row.descriptionEmbedding = m.descriptionEmbedding

omit [DecidableEq τ] in
theorem Follows.within (h : Follows k row k') :
    Within k k' := by
  obtain ⟨m, rfl, -⟩ := h
  exact ⟨_, by simp, rfl⟩

/-- It is written, with no vector or the one it had. -/
theorem Follows.wp_writeMetaUnlocked {row row' : CollectionMeta n τ}
    (h : Follows k row k') (hk : k.Idle) (hdes : row'.described = row.described)
    (hvec : row'.descriptionEmbedding = none ∨
      row'.descriptionEmbedding = row.descriptionEmbedding) :
    wp (contract n τ) (fun _ k' => Follows k row' k') (fun _ k' => Within k k')
      (writeMetaUnlocked false row') k' := by
  obtain ⟨m, rfl, hr, hemb⟩ := h
  have hcar : Carries (some m) row' := by
    refine carries_some (hdes.trans hr) fun v hv => Or.inl ?_
    rcases hvec with hn | heq
    · rw [hn] at hv
      cases hv
    · rwa [heq, hemb] at hv
  refine wp_mono (wp_writeMetaUnlocked_false hk hcar) ?_ fun _ _ h => h
  rintro - _ rfl
  exact ⟨_, rfl, row'.described_stored.symm, rfl⟩

theorem Follows.wp_switchModel (h : Follows k row k')
    (hk : k.Idle) (requested : String) (staleCleared : Bool) :
    wp (contract n τ) (fun row' k' => Follows k row' k') (fun _ k' => Within k k')
      (switchModel row requested staleCleared) k' := by
  have hfin : k'.finished = false := (h.within.locked hk).finished
  unfold switchModel
  split_ifs
  · exact Async.wp_bind.mpr (h.wp_writeMetaUnlocked hk rfl (.inr rfl))
  · exact Async.wp_bind.mpr (wp_pure.mpr (wp_pure.mpr h))
  · exact Async.wp_bind.mpr (h.wp_writeMetaUnlocked hk rfl (.inr rfl))
  · refine neutral_count.wp_bind hfin (fun chunkCount => ?_) fun _ => h.within
    split_ifs
    · exact Async.wp_bind.mpr (h.wp_writeMetaUnlocked hk rfl (.inr rfl))
    · exact Async.wp_bind.mpr (h.wp_writeMetaUnlocked hk rfl (.inl rfl))

theorem Follows.wp_patchTtl (h : Follows k row k')
    (hk : k.Idle) (ttl : Option (Option ℕ)) (staleCleared : Bool) :
    wp (contract n τ) (fun _ k' => Within k k') (fun _ k' => Within k k')
      (patchTtl row ttl staleCleared) k' := by
  unfold patchTtl
  split
  · exact wp_mono (h.wp_writeMetaUnlocked hk rfl (.inr rfl)) (fun _ _ h => h.within) fun _ _ h => h
  · split_ifs
    · exact wp_mono (h.wp_writeMetaUnlocked hk rfl (.inr rfl)) (fun _ _ h => h.within)
        fun _ _ h => h
    · exact h.within

/-- Whether the job named is active, if one is named. -/
theorem wp_ite_jobIsActive {named other : Bool} {Q : Bool → Know n τ → Prop}
    (hk : k.finished = false) (hok : ∀ b, Q b k)
    (herr : ∀ e, E e k) :
    wp (contract n τ) Q E (if named then ask .jobIsActive else pure other) k := by
  split_ifs
  · exact neutral_jobIsActive.wp_ask hk hok herr
  · exact hok other

theorem restores_patchCollection (hk : k.Plain) (model : Option (Option String))
    (ttl : Option (Option ℕ)) : Restores (patchCollection model ttl) k := by
  refine restores_lockedCollectionMeta hk fun row => ?_
  have hloc : (Hold.copied row : Hold n τ) ≠ .free := by simp
  cases row with
  | none => exact staysWithin_raise hloc
  | some row =>
    have hr : Follows k row { k with hold := .copied (some row) } := ⟨row, rfl, rfl, rfl⟩
    have hclear : Follows k { row with reindexJobId := none }
        { k with hold := .copied (some row) } := ⟨row, rfl, rfl, rfl⟩
    cases model with
    | none =>
      refine Async.wp_bind.mpr (wp_ite_jobIsActive hk.finished ?_ fun _ => hr.within)
      rintro (_ | _)
      · exact hclear.wp_patchTtl hk.toIdle ttl true
      · exact hr.wp_patchTtl hk.toIdle ttl false
    | some requested =>
      cases requested with
      | none => exact hr.wp_patchTtl hk.toIdle ttl false
      | some requested =>
        refine Async.wp_bind.mpr (wp_ite_jobIsActive hk.finished ?_ fun _ => hr.within)
        rintro (_ | _)
        · refine Async.wp_bind.mpr (wp_mono (hclear.wp_switchModel hk.toIdle requested _) ?_
            fun _ _ h => h)
          exact fun row' k' hr' => hr'.wp_patchTtl hk.toIdle ttl false
        · exact hr.within

end Plain

end ArchonSearch.Descriptions
