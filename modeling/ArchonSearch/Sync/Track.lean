import ArchonSearch.Sync.Noticed

/-!
# Syncs of one collection beside each other

A file that is deleted from the disk is noticed by its recorded modification time: the next
comparison lists the recorded paths that are not there any more. So a document without a recorded
time is never deleted again. Two syncs of one collection write it one after the other, under its
lock, but an update takes the recorded times along from before it had the lock, and writes them
back as a whole; a full ingest records the files it has passed over or ingested, and no others.

The machine is that of `step`, with the documents that were deleted and not ingested since
(`Tracked.gone`). If no sync begins with an outdated list of files, and every file that was
ingested is still there when its time is sampled, the recorded paths are those of the stored
documents when no sync holds the lock (`keepsTrack_of_orderly`). Two updates that compare before
either begins lose track of a file (`track_lost`).
-/

namespace ArchonSearch.Sync.Edits

open Lib List Option

variable {γ τ χ : Type}

/-! ### The property -/

structure Tracked (γ τ χ : Type) where
  state : State γ τ χ
  gone : List Path

open Tracked

def Tracked.init : Tracked γ τ χ := ⟨State.init, []⟩

def Writer.task : Writer γ τ → Option Task
  | ingesting run => (run.todo.bind List.head?).map (Task.ingest false)
  | applying run => run.todo.head?

def Task.goneAfter (task : Task) (outcome : Outcome) (gone : List Path) : List Path :=
  match task with
  | .delete path =>
    match outcome with
    | .returns | .fails _ => path :: gone
    | .raises _ | .dies _ => gone
  | .ingest _ path =>
    match outcome with
    | .returns => gone.filter (· ≠ path)
    | .fails _ | .raises _ | .dies _ => gone

def Tracked.goneAfter (t : Tracked γ τ χ) : Event γ τ → List Path
  | .finish outcome =>
    match t.state.writer.bind Writer.task with
    | some task => task.goneAfter outcome t.gone
    | none => t.gone
  | _ => t.gone

def Event.isError : Event γ τ → Bool
  | .finish (.raises _) | .finish (.dies _) | .settle false | .die => true
  | _ => false

variable (setup : Setup γ χ) (root : Path)

/-- **No document is lost track of**: recorded as long as stored, and forgotten with it. -/
structure Tracked.KeepsTrack [DecidableEq τ] (t : Tracked γ τ χ) : Prop where
  recorded : ∀ path, chunksIn t.state.rows path ≠ [] → (Dict.get t.state.mtimes path).isSome = true
  forgotten : ∀ path ∈ t.gone, Dict.get t.state.mtimes path = none
  detected : ∀ files activeModel path, chunksIn t.state.rows path ≠ [] →
    path ∉ iterEligibleFiles setup files root →
    path ∈ (checkCollectionChanges setup files root t.state.progress activeModel).deletedPaths

def trackedStep [DecidableEq τ] (t : Tracked γ τ χ) (e : Event γ τ) : Option (Tracked γ τ χ) :=
  (step setup root t.state e).map fun s => ⟨s, t.goneAfter e⟩

/-! ### The condition -/

/-- A sync may take the lock: an update has read the paths that are recorded, and a full ingest
passes over all documents that are stored and over none that was deleted. -/
def Tracked.MayBegin (t : Tracked γ τ χ) : Waiting τ → Prop
  | .loaded resumePaths => (∀ row ∈ t.state.rows, row.1 ∈ resumePaths) ∧
      ∀ path ∈ resumePaths, path ∉ t.gone
  | .read _ _ => True
  | .checked _ fileMtimes _ => ∀ path,
      (Dict.get fileMtimes path).isSome = (Dict.get t.state.mtimes path).isSome

/-- The ingest of a file may end in this way: the file is there, or recorded, when it was ingested;
and when it has failed nothing of it was written, or it is recorded. A full ingest records
nothing before its end. -/
def Tracked.MayFinish (t : Tracked γ τ χ) (writer : Writer γ τ) (path : Path) : Outcome → Prop
  | .returns =>
    match writer with
    | .ingesting _ => True
    | .applying _ => (Dict.get t.state.files path).isSome = true ∨
        (writer.recorded path).isSome = true
  | .fails written => Untouched (chunksRead setup path writer.reading) written ∨
      (writer.recorded path).isSome = true
  | .raises _ | .dies _ => True

def Tracked.MaySettle (t : Tracked γ τ χ) : Writer γ τ → Prop
  | .ingesting run => ∀ path ∈ run.resumePaths ++ run.newPaths,
      (Dict.get t.state.files path).isSome = true
  | .applying _ => True

/-- **What the code relies on**, step by step. -/
def Orderly (t : Tracked γ τ χ) : Event γ τ → Prop
  | .begin i _ => ∀ waiting ∈ t.state.waiting i, t.MayBegin waiting
  | .finish outcome => ∀ writer ∈ t.state.writer, ∀ path ∈ writer.current,
      t.MayFinish setup writer path outcome
  | .settle _ => ∀ writer ∈ t.state.writer, t.MaySettle writer
  | .edit _ _ | .remove _ | .reset | .load _ | .readState _ | .check _ _ | .list | .read | .die =>
    True

/-! ### The invariant -/

structure RecordedBy (rows : Rows χ) (gone : List Path) (recorded : Path → Prop) : Prop where
  stored : ∀ path, chunksIn rows path ≠ [] → recorded path
  gone : ∀ path ∈ gone, ¬ recorded path

def Writer.records : Writer γ τ → Path → Prop
  | ingesting run, path => path ∈ run.resumePaths ++ run.newPaths
  | applying run, path => (Dict.get run.draft.fileMtimes path).isSome = true

def Tracked.Sound (t : Tracked γ τ χ) : Prop :=
  match t.state.writer with
  | none => RecordedBy t.state.rows t.gone fun path => (Dict.get t.state.mtimes path).isSome = true
  | some writer => RecordedBy t.state.rows t.gone writer.records

variable {setup} {root}
variable {t t' : Tracked γ τ χ} {s s' : State γ τ χ} {rows : Rows χ} {gone : List Path}
  {recorded recorded' : Path → Prop} {path : Path} {chunks : List χ} {written : Option ℕ}

theorem sound_of_none (hwr : t.state.writer = none) : t.Sound ↔
    RecordedBy t.state.rows t.gone fun path => (Dict.get t.state.mtimes path).isSome = true := by
  unfold Tracked.Sound
  rw [hwr]

theorem sound_of_some {writer : Writer γ τ} (hwr : t.state.writer = some writer) :
    t.Sound ↔ RecordedBy t.state.rows t.gone writer.records := by
  unfold Tracked.Sound
  rw [hwr]

theorem RecordedBy.congr (h : RecordedBy rows gone recorded)
    (heq : ∀ path, recorded' path ↔ recorded path) : RecordedBy rows gone recorded' :=
  ⟨fun path hp => (heq path).mpr (h.stored path hp),
    fun path hp hrec => h.gone path hp ((heq path).mp hrec)⟩

theorem RecordedBy.delete (h : RecordedBy rows gone recorded)
    (hself : ¬ recorded' path) (hoth : ∀ q, q ≠ path → (recorded' q ↔ recorded q)) :
    RecordedBy (deleteRows rows path) (path :: gone) recorded' := by
  refine ⟨fun q hq => ?_, fun q hq hrec => ?_⟩
  · by_cases hqp : q = path
    · rw [hqp, chunksIn_deleteRows, Function.update_self] at hq
      exact absurd rfl hq
    · rw [chunksIn_deleteRows_of_ne hqp] at hq
      exact (hoth q hqp).mpr (h.stored q hq)
  · rcases mem_cons.mp hq with rfl | hq
    · exact hself hrec
    · by_cases hqp : q = path
      · exact hself (hqp ▸ hrec)
      · exact h.gone q hq ((hoth q hqp).mp hrec)

theorem RecordedBy.write (h : RecordedBy rows gone recorded)
    (hself : recorded' path) (hoth : ∀ q, q ≠ path → (recorded' q ↔ recorded q)) :
    RecordedBy (writeChunks rows path chunks written) (gone.filter (· ≠ path)) recorded' := by
  refine ⟨fun q hq => ?_, fun q hq hrec => ?_⟩
  · by_cases hqp : q = path
    · exact hqp ▸ hself
    · rw [chunksIn_writeChunks_of_ne hqp] at hq
      exact (hoth q hqp).mpr (h.stored q hq)
  · obtain ⟨hq, hqp⟩ := mem_filter.mp hq
    exact h.gone q hq ((hoth q (by simpa using hqp)).mp hrec)

/-- A file is not ingested: nothing of it was written, or it is recorded. -/
theorem RecordedBy.fail (h : RecordedBy rows gone recorded)
    (hwrt : Untouched chunks written ∨ recorded path) :
    RecordedBy (writeChunks rows path chunks written) gone recorded := by
  refine ⟨fun q hq => ?_, h.gone⟩
  rcases hwrt with hunt | hrec
  · rw [writeChunks_of_untouched hunt] at hq
    exact h.stored q hq
  · by_cases hqp : q = path
    · exact hqp ▸ hrec
    · rw [chunksIn_writeChunks_of_ne hqp] at hq
      exact h.stored q hq

/-! ### Steps -/

/-- A step that writes no document, and keeps what is recorded. -/
theorem Tracked.Sound.of_same (h : t.Sound) (hrw : s'.rows = t.state.rows)
    (hn : t.state.writer = none → s'.writer = none ∧ s'.mtimes = t.state.mtimes)
    (hs : ∀ writer, t.state.writer = some writer → ∃ writer', s'.writer = some writer' ∧
      ∀ path, writer'.records path ↔ writer.records path) : Tracked.Sound ⟨s', t.gone⟩ := by
  cases hwr : t.state.writer with
  | none =>
    obtain ⟨hwr', hmts⟩ := hn hwr
    rw [sound_of_none hwr] at h
    rw [sound_of_none hwr', hmts, hrw]
    exact h
  | some writer =>
    obtain ⟨writer', hwr', heq⟩ := hs writer hwr
    rw [sound_of_some hwr] at h
    rw [sound_of_some hwr', hrw]
    exact h.congr heq

theorem rows_fileComplete (run : IngestRun γ) (path : Path) (rest : List Path) :
    (s.fileComplete run path rest).rows = s.rows := by
  unfold State.fileComplete
  dsimp only
  split_ifs <;> rfl

theorem writer_fileComplete (run : IngestRun γ) (path : Path) (rest : List Path) :
    (s.fileComplete run path rest).writer = some (.ingesting { run with
      newPaths := run.newPaths ++ [path], todo := some rest, reading := none }) := by
  unfold State.fileComplete
  dsimp only
  split_ifs <;> rfl

theorem rows_nextTask (run : ApplyRun γ τ) (rest : List Task) (draft : Draft τ) :
    (s.nextTask setup run rest draft).rows = s.rows := by
  unfold State.nextTask
  dsimp only
  split_ifs <;> rfl

theorem writer_nextTask (run : ApplyRun γ τ) (rest : List Task) (draft : Draft τ) :
    (s.nextTask setup run rest draft).writer = some (.applying { run with
      todo := rest, draft := { draft with fileCount := draft.fileCount + 1 },
      reading := none }) := by
  unfold State.nextTask
  dsimp only
  split_ifs <;> rfl

theorem isSome_get_ingested {files : Dict Path (File γ τ)} {draft : Draft τ}
    (h : (Dict.get files path).isSome = true ∨ (Dict.get draft.fileMtimes path).isSome = true)
    (q : Path) : (Dict.get (draft.ingested files path).fileMtimes q).isSome = true ↔
      q = path ∨ (Dict.get draft.fileMtimes q).isSome = true := by
  unfold Draft.ingested
  cases hf : Dict.get files path with
  | none =>
    rw [hf] at h
    have hp := h.resolve_left (by simp)
    constructor
    · exact Or.inr
    · rintro (rfl | hq)
      · exact hp
      · exact hq
  | some file =>
    rw [Dict.get_insert]
    split_ifs with hq
    · exact iff_of_true rfl (Or.inl hq)
    · exact (or_iff_right hq).symm

theorem isSome_get_erase {mtimes : Dict Path τ} {q : Path} (hq : q ≠ path) :
    (Dict.get (mtimes.erase path) q).isSome = (Dict.get mtimes q).isSome := by
  rw [Dict.get_erase, if_neg hq]

theorem readFile_cases (h : s.readFile setup = some s') :
    ∃ (writer : Writer γ τ) (file : File γ τ), s.writer = some writer ∧
      s' = { s with writer := some (writer.setReading file.content) } := by
  obtain ⟨writer, hwr, h⟩ := bind_eq_some_iff.mp h
  obtain ⟨path, -, h⟩ := bind_eq_some_iff.mp h
  obtain ⟨file, -, h⟩ := bind_eq_some_iff.mp h
  split_ifs at h
  exact ⟨writer, file, hwr, (some.inj h).symm⟩

variable {outcome : Outcome}

theorem sound_trackFile {run : IngestRun γ} {rest : List Path} (h : t.Sound)
    (hwr : t.state.writer = some (.ingesting run)) (hok : ∀ w, outcome ≠ .raises w ∧
      outcome ≠ .dies w) (hfin : t.MayFinish setup (.ingesting run) path outcome)
    (hs : t.state.finishFile setup run path rest outcome = some s') :
    Tracked.Sound ⟨s', (Task.ingest false path).goneAfter outcome t.gone⟩ := by
  rw [sound_of_some hwr] at h
  cases outcome with
  | returns =>
    simp only [State.finishFile] at hs
    split_ifs at hs
    cases hs
    rw [sound_of_some (writer_fileComplete _ _ _), rows_fileComplete]
    dsimp only [Task.goneAfter]
    refine h.write ?_ fun q hq => ?_
    · simp [Writer.records]
    · simp [Writer.records, hq]
  | fails w =>
    cases hs
    exact h.fail (hfin.imp_right fun hrec => absurd hrec (by simp [Writer.recorded]))
  | raises w => exact absurd rfl (hok w).1
  | dies w => exact absurd rfl (hok w).2

/-- The deletion of a document, or the ingest of a file, in an update ends. -/
theorem sound_trackTask {run : ApplyRun γ τ} {task : Task} {rest : List Task}
    (h : t.Sound) (hwr : t.state.writer = some (.applying run))
    (htodo : run.todo = task :: rest) (hok : ∀ w, outcome ≠ .raises w ∧ outcome ≠ .dies w)
    (hfin : ∀ path ∈ (Writer.applying run).current, t.MayFinish setup (.applying run) path outcome)
    (hs : t.state.finish setup outcome = some s') :
    Tracked.Sound ⟨s', task.goneAfter outcome t.gone⟩ := by
  rw [sound_of_some hwr] at h
  unfold State.finish at hs
  rw [hwr] at hs
  dsimp only at hs
  rw [htodo] at hs
  cases task with
  | delete path =>
    have hdel : ∀ s'', s'' = State.nextTask setup
        { t.state with rows := deleteRows t.state.rows path } run rest
        { run.draft with
          fileMtimes := run.draft.fileMtimes.erase path
          processedPaths := run.draft.processedPaths.erase path } →
        Tracked.Sound ⟨s'', path :: t.gone⟩ := by
      rintro s'' rfl
      rw [sound_of_some (writer_nextTask _ _ _), rows_nextTask]
      refine h.delete ?_ fun q hq => ?_
      · simp [Writer.records, Dict.get_erase]
      · simp only [Writer.records]
        rw [isSome_get_erase hq]
    cases outcome with
    | returns => exact hdel s' (some.inj hs).symm
    | fails w => exact hdel s' (some.inj hs).symm
    | raises w => exact absurd rfl (hok w).1
    | dies w => exact absurd rfl (hok w).2
  | ingest changed path =>
    have hcur : (Writer.applying run).current = some path := by
      simp only [Writer.current, htodo]
    have hm := hfin path hcur
    cases outcome with
    | returns =>
      simp only [State.finishUpdate] at hs
      split_ifs at hs
      cases hs
      rw [sound_of_some (writer_nextTask _ _ _), rows_nextTask]
      dsimp only [Task.goneAfter]
      refine h.write ?_ fun q hq => ?_
      · exact (isSome_get_ingested hm path).mpr (Or.inl rfl)
      · exact (isSome_get_ingested hm q).trans (or_iff_right hq)
    | fails w =>
      cases hs
      rw [sound_of_some (writer_nextTask _ _ _), rows_nextTask]
      show RecordedBy (writeChunks t.state.rows path _ _) t.gone _
      exact (h.congr fun _ => Iff.rfl).fail hm
    | raises w => exact absurd rfl (hok w).1
    | dies w => exact absurd rfl (hok w).2

theorem sound_settleTracked (h : t.Sound)
    (hst : ∀ writer ∈ t.state.writer, t.MaySettle writer)
    (hs : t.state.settle setup true = some s') : Tracked.Sound ⟨s', t.gone⟩ := by
  unfold State.settle at hs
  cases hwr : t.state.writer with
  | none =>
    rw [hwr] at hs
    cases hs
  | some writer =>
    rw [hwr] at hs
    rw [sound_of_some hwr] at h
    have hm := hst writer hwr
    cases writer with
    | ingesting run =>
      dsimp only at hs
      split_ifs at hs
      cases hs
      refine h.congr fun path => ?_
      constructor
      · intro hsm
        obtain ⟨mtime, hmt⟩ := isSome_iff_exists.mp hsm
        exact (get_mtimesOf hmt).1
      · exact fun hp => isSome_get_mtimesOf hp (hm path hp)
    | applying run =>
      dsimp only at hs
      split_ifs at hs
      cases hs
      exact h

theorem sound_beginTracked {i : ℕ} {activeModel : String} (h : t.Sound)
    (hbeg : ∀ waiting ∈ t.state.waiting i, t.MayBegin waiting)
    (hs : t.state.begin setup i activeModel = some s') : Tracked.Sound ⟨s', t.gone⟩ := by
  unfold State.begin at hs
  split at hs
  · next resumePaths hfr hwa =>
    cases hs
    obtain ⟨hrw, hgone⟩ := hbeg _ hwa
    have heq : ∀ s : State γ τ χ, (s.beginIngest activeModel resumePaths).rows = s.rows ∧
        (s.beginIngest activeModel resumePaths).writer =
          some (.ingesting ⟨activeModel, resumePaths, [], none, none⟩) := by
      intro s
      unfold State.beginIngest
      split_ifs <;> exact ⟨rfl, rfl⟩
    rw [sound_of_some (heq _).2, (heq _).1]
    refine ⟨fun path hp => ?_, fun path hp hrec => ?_⟩
    · obtain ⟨row, hr, rfl⟩ := exists_row_of_chunksIn_ne_nil hp
      exact mem_append_left _ (hrw row hr)
    · simp only [Writer.records, append_nil] at hrec
      exact hgone path hrec hp
  · next changes fileMtimes saves hfr hwa =>
    cases hs
    rw [sound_of_none hfr] at h
    have heq := hbeg _ hwa
    refine h.congr fun path => ?_
    show (Dict.get fileMtimes path).isSome = true ↔ _
    rw [heq path]
  · cases hs

/-- **An orderly step** keeps what is recorded right. -/
theorem sound_trackedStep [DecidableEq τ] {e : Event γ τ} (hord : Orderly setup t e)
    (hok : e.isError = false) (h : t.Sound) (hst : trackedStep setup root t e = some t') :
    t'.Sound := by
  obtain ⟨s', hs', rfl⟩ := map_eq_some_iff.mp hst
  cases e with
  | edit path file =>
    simp only [step, State.edit] at hs'
    split_ifs at hs'
    cases hs'
    exact h.of_same rfl (fun hn => ⟨hn, rfl⟩) fun writer hs => ⟨writer, hs, fun _ => Iff.rfl⟩
  | remove path =>
    cases hs'
    exact h.of_same rfl (fun hn => ⟨hn, rfl⟩) fun writer hs => ⟨writer, hs, fun _ => Iff.rfl⟩
  | reset =>
    cases hs'
    exact h.of_same rfl (fun hn => ⟨hn, mtimes_reset t.state⟩)
      fun writer hs => ⟨writer, hs, fun _ => Iff.rfl⟩
  | load i | readState i =>
    cases hs'
    exact h.of_same rfl (fun hn => ⟨hn, rfl⟩) fun writer hs => ⟨writer, hs, fun _ => Iff.rfl⟩
  | check i activeModel =>
    simp only [step, State.check] at hs'
    split at hs'
    · cases hs'
      exact h.of_same rfl (fun hn => ⟨hn, rfl⟩) fun writer hs => ⟨writer, hs, fun _ => Iff.rfl⟩
    · cases hs'
  | «begin» i activeModel => exact sound_beginTracked h hord hs'
  | list =>
    simp only [step, State.listFiles] at hs'
    split at hs'
    · next run hwr =>
      split_ifs at hs'
      cases hs'
      refine h.of_same rfl (fun hn => absurd (hn.symm.trans hwr) (by simp)) ?_
      intro writer hs
      obtain rfl : writer = .ingesting run := some.inj (hs.symm.trans hwr)
      exact ⟨_, rfl, fun _ => Iff.rfl⟩
    · cases hs'
  | read =>
    obtain ⟨writer, file, hwr, rfl⟩ := readFile_cases hs'
    refine h.of_same rfl (fun hn => absurd (hn.symm.trans hwr) (by simp)) ?_
    intro writer' hs
    obtain rfl : writer' = writer := some.inj (hs.symm.trans hwr)
    refine ⟨_, rfl, fun q => ?_⟩
    cases writer' with
    | ingesting run => exact Iff.rfl
    | applying run => exact Iff.rfl
  | finish outcome =>
    have hnot : ∀ w, outcome ≠ .raises w ∧ outcome ≠ .dies w := by
      intro w
      constructor
      · rintro rfl
        cases hok
      · rintro rfl
        cases hok
    cases hwr : t.state.writer with
    | none =>
      simp only [step, State.finish, hwr] at hs'
      cases hs'
    | some writer =>
      have hm := hord writer hwr
      cases writer with
      | ingesting run =>
        simp only [step, State.finish, hwr] at hs'
        split at hs'
        · next path rest htodo =>
          have hgone : t.goneAfter (.finish outcome) =
              (Task.ingest false path).goneAfter outcome t.gone := by
            simp [goneAfter, hwr, Writer.task, htodo]
          rw [hgone]
          refine sound_trackFile h hwr hnot (hm path ?_) hs'
          simp [Writer.current, htodo]
        · cases hs'
      | applying run =>
        cases htodo : run.todo with
        | nil =>
          simp only [step, State.finish, hwr, htodo] at hs'
          cases hs'
        | cons task rest =>
          have hgone : t.goneAfter (.finish outcome) = task.goneAfter outcome t.gone := by
            simp [goneAfter, hwr, Writer.task, htodo]
          rw [hgone]
          exact sound_trackTask h hwr htodo hnot hm hs'
  | settle complete =>
    cases complete with
    | true => exact sound_settleTracked h hord hs'
    | false => cases hok
  | die => cases hok

/-! ### Runs -/

theorem sound_trackedInit : (init : Tracked γ τ χ).Sound := by
  exact ⟨fun path hp => absurd rfl hp, fun path hp => absurd hp not_mem_nil⟩

/-- When no sync has the lock, what is recorded is what is stored. -/
theorem Tracked.Sound.keepsTrack [DecidableEq τ] (h : t.Sound) (hfr : t.state.writer = none) :
    t.KeepsTrack setup root := by
  rw [sound_of_none hfr] at h
  refine ⟨h.stored, fun path hp => ?_, fun files activeModel path hp hnot => ?_⟩
  · exact not_isSome_iff_eq_none.mp (h.gone path hp)
  · exact mem_deletedPaths.mpr ⟨h.stored path hp, hnot⟩

/-- **No sync loses track of a file where every step is orderly**: whatever files are created,
edited and removed while syncs of the collection run and wait for each other, once none has the
lock every stored document is recorded, and none that was deleted. -/
theorem keepsTrack_of_orderly [DecidableEq τ] {es : List (Event γ τ)}
    (horderly : Along (trackedStep setup root) (Orderly setup) init es)
    (hok : ∀ e ∈ es, e.isError = false)
    (hrun : run (trackedStep setup root) init es = some t)
    (hfree : t.state.writer = none) : t.KeepsTrack setup root := by
  have hboth : Along (trackedStep setup root)
      (fun t e => Orderly setup t e ∧ e.isError = false) init es :=
    horderly.and (along_of_forall hok)
  have hsd : t.Sound := run_invariant_along
    (fun _ _ _ hC h hs => sound_trackedStep hC.1 hC.2 h hs) hboth sound_trackedInit hrun
  exact hsd.keepsTrack hfree

instance Tracked.decidableMayBegin (t : Tracked γ τ χ) :
    (waiting : Waiting τ) → Decidable (t.MayBegin waiting)
  | .loaded _ => inferInstanceAs (Decidable (_ ∧ _))
  | .read _ _ => .isTrue trivial
  | .checked _ fileMtimes _ =>
    decidable_of_iff (∀ path ∈ fileMtimes.items.map Prod.fst ++ t.state.mtimes.items.map Prod.fst,
      (Dict.get fileMtimes path).isSome = (Dict.get t.state.mtimes path).isSome)
      ⟨fun h path => by
        by_cases hpath : path ∈ fileMtimes.items.map Prod.fst ++ t.state.mtimes.items.map Prod.fst
        · exact h path hpath
        · rw [mem_append, not_or] at hpath
          rw [Dict.get_eq_none_iff.mpr hpath.1, Dict.get_eq_none_iff.mpr hpath.2],
        fun h path _ => h path⟩

instance Tracked.decidableMayFinish (t : Tracked γ τ χ) (writer : Writer γ τ) (path : Path) :
    (outcome : Outcome) → Decidable (t.MayFinish setup writer path outcome)
  | .returns => match writer with
    | .ingesting _ => .isTrue trivial
    | .applying _ => inferInstanceAs (Decidable (_ ∨ _))
  | .fails _ => inferInstanceAs (Decidable (_ ∨ _))
  | .raises _ | .dies _ => .isTrue trivial

instance Tracked.decidableMaySettle (t : Tracked γ τ χ) :
    (writer : Writer γ τ) → Decidable (t.MaySettle writer)
  | .ingesting _ => inferInstanceAs (Decidable (∀ path ∈ _ ++ _, _ = true))
  | .applying _ => .isTrue trivial

instance Orderly.decidable (t : Tracked γ τ χ) : (e : Event γ τ) → Decidable (Orderly setup t e)
  | .begin i _ => inferInstanceAs (Decidable (∀ waiting ∈ t.state.waiting i, _))
  | .finish _ => inferInstanceAs (Decidable (∀ writer ∈ t.state.writer, ∀ path ∈ _, _))
  | .settle _ => inferInstanceAs (Decidable (∀ writer ∈ t.state.writer, _))
  | .edit _ _ | .remove _ | .reset | .load _ | .readState _ | .check _ _ | .list | .read | .die =>
    .isTrue trivial

/-- Two files are ingested, and edited one after the other. Of two updates the second has
compared before the first begins; a third one finds a file deleted. -/
def takingTurns : List (Event ℕ ℕ) :=
  [.edit sampleFile ⟨1, 1⟩, .edit ["docs", "b"] ⟨7, 1⟩, .load 0, .begin 0 "", .list, .read,
    .finish .returns, .read, .finish .returns, .settle true, .edit sampleFile ⟨2, 2⟩,
    .readState 1, .check 1 "", .edit ["docs", "b"] ⟨8, 2⟩, .readState 2, .check 2 "",
    .begin 1 "", .read, .finish .returns, .settle true, .begin 2 "", .read, .finish .returns,
    .read, .finish .returns, .settle true, .remove sampleFile, .readState 3, .check 3 "",
    .begin 3 "", .finish .returns, .settle true]

/-- Syncs that take turns keep track of both files. -/
theorem keepsTrack_of_orderly_takingTurns :
    Along (trackedStep sampleSetup sampleRoot) (Orderly sampleSetup) init takingTurns ∧
      ∃ t, run (trackedStep sampleSetup sampleRoot) init takingTurns = some t ∧
        t.gone = [sampleFile] ∧ chunksIn t.state.rows ["docs", "b"] = [8] ∧
        t.KeepsTrack sampleSetup sampleRoot := by
  have hord : Along (trackedStep sampleSetup sampleRoot) (Orderly sampleSetup) init
      takingTurns := by
    decide +kernel
  have hok : ∀ e ∈ takingTurns, e.isError = false := by
    decide +kernel
  obtain ⟨t, ht, hfr, hgone, hchs⟩ :
      ∃ t ∈ run (trackedStep sampleSetup sampleRoot) init takingTurns,
        t.state.writer.isNone = true ∧ t.gone = [sampleFile] ∧
          chunksIn t.state.rows ["docs", "b"] = [8] := by
    decide +kernel
  exact ⟨hord, t, ht, hgone, hchs, keepsTrack_of_orderly hord hok ht (isNone_iff_eq_none.mp hfr)⟩

/-- One file is indexed when another is created: two syncs compare before either begins, and the
first of them sees one more file than the second. -/
def overtaking : List (Event ℕ ℕ) :=
  [.edit sampleFile ⟨1, 1⟩, .load 0, .begin 0 "", .list, .read, .finish .returns, .settle true,
    .edit ["docs", "c"] ⟨3, 1⟩, .readState 2, .check 2 "", .edit ["docs", "b"] ⟨2, 1⟩,
    .readState 1, .check 1 "", .begin 1 "", .read, .finish .returns, .read, .finish .returns,
    .settle true, .begin 2 "", .read, .finish .returns, .settle true]

theorem waiting_overtaking (i : ℕ) :
    ((run (trackedStep sampleSetup sampleRoot) init overtaking).bind fun t =>
      t.state.waiting i) = none := by
  rcases i with _ | _ | _ | i
  · decide +kernel
  · decide +kernel
  · decide +kernel
  · rfl

/-- **The track of a file is lost**: the second of two updates writes back the recorded
modification times that it has read before the first began. -/
theorem track_lost :
    ¬ ∀ (es : List (Event ℕ ℕ)) (t : Tracked ℕ ℕ ℕ),
      run (trackedStep sampleSetup sampleRoot) init es = some t →
      (∀ e ∈ es, e.isError = false) → t.state.writer = none →
      (∀ i, t.state.waiting i = none) → t.KeepsTrack sampleSetup sampleRoot := by
  intro h
  have hok : ∀ e ∈ overtaking, e.isError = false := by
    decide +kernel
  obtain ⟨t, ht, hfr, hchs, hg⟩ :
      ∃ t ∈ run (trackedStep sampleSetup sampleRoot) init overtaking,
        t.state.writer.isNone = true ∧ chunksIn t.state.rows ["docs", "b"] = [2] ∧
          Dict.get t.state.mtimes ["docs", "b"] = none := by
    decide +kernel
  have hwa (i : ℕ) : t.state.waiting i = none := by
    have hn := waiting_overtaking i
    rwa [ht] at hn
  have hkp := h _ t ht hok (isNone_iff_eq_none.mp hfr) hwa
  have hrecd := hkp.recorded ["docs", "b"] (by rw [hchs]; decide)
  rw [hg] at hrecd
  cases hrecd

end ArchonSearch.Sync.Edits
