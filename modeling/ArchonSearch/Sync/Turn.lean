import ArchonSearch.Sync.Condition

/-!
# The turn of a collection

While a sync writes a collection its indexing state is not `DONE`, so that wherever the process
dies the next sync ingests it again. What a sync relies on of a collection that is `DONE` is that
the recorded modification times are right: a file that still has the one that is recorded for it is
stored with its present content (`Recorded`). Both ways to write a collection leave it so, and
bring it in line with its directory, if every ingest returns `ok`: `spec_ingestCollection` and
`spec_applyCollectionChanges`.
-/

namespace ArchonSearch.Sync

open Lib Function Prog List Option

variable {γ τ χ : Type} {setup : Setup γ χ}

/-! ### What is recorded -/

/-- A file that has the recorded modification time is stored with its present content. -/
def Accurate (setup : Setup γ χ) (files : Dict Path (File γ τ)) (mtimes : Dict Path τ)
    (contents : Path → List χ) : Prop :=
  ∀ path file, Dict.get files path = some file → Dict.get mtimes path = some file.mtime →
    contents path = chunksOf setup files path

/-- The modification times of a collection that is `DONE` are right. -/
def Recorded (setup : Setup γ χ) (n : Name) (w : World γ τ χ) : Prop :=
  ∀ progress, (Dict.get w.tables n).isSome = true → Dict.get w.collections n = some progress →
    progress.status = .done → Accurate setup w.files progress.fileMtimes (w.contents n)

/-- A part of a sync: from `P` it comes to `Q`, and wherever it dies the modification times are
right. -/
abbrev Part {α : Type} (setup : Setup γ χ) (n : Name) (P : Session γ τ χ → Prop)
    (p : Prog (Session γ τ χ) α) (Q : α → Session γ τ χ → Prop) : Prop :=
  Spec P p Q fun s => Recorded setup n s.world

/-- A sync that writes the collection `n`, of which `replies` are the calls of the whole
sync. It holds these documents, and if no ingest has failed then `B`. -/
structure Writing (setup : Setup γ χ) (n : Name) (files : Dict Path (File γ τ))
    (replies : List Reply) (contents : Path → List χ) (B : Prop) (s : Session γ τ χ) : Prop where
  files : s.world.files = files
  writer : s.writer = some n
  replies : ∀ reply ∈ s.replies, reply ∈ replies
  /-- The collection is not `DONE`. -/
  progress : ∃ progress, Dict.get s.world.collections n = some progress ∧ progress.status ≠ .done
  contents : s.world.contents n = contents
  failed : s.failed = true ∨ B

/-- A sync that has written the collection `n`. -/
structure Written (setup : Setup γ χ) (n : Name) (files : Dict Path (File γ τ))
    (replies : List Reply) (contents : Path → List χ) (B : Prop) (s : Session γ τ χ) : Prop where
  files : s.world.files = files
  replies : ∀ reply ∈ s.replies, reply ∈ replies
  recorded : Recorded setup n s.world
  contents : s.world.contents n = contents
  failed : s.failed = true ∨ B

variable {n : Name} {files : Dict Path (File γ τ)} {replies : List Reply}
  {contents : Path → List χ} {B B' : Prop} {s : Session γ τ χ}

/-- A collection that is not `DONE` has nothing recorded. -/
theorem Writing.recorded (h : Writing setup n files replies contents B s) :
    Recorded setup n s.world := by
  intro progress _ hg hd
  obtain ⟨progress', hg', hnot⟩ := h.progress
  exact absurd hd (some.inj (hg.symm.trans hg') ▸ hnot)

theorem Writing.mono (h : Writing setup n files replies contents B s) (hB : B → B') :
    Writing setup n files replies contents B' s :=
  { h with failed := h.failed.imp_right hB }

theorem contents_congr {w w' : World γ τ χ} (h : Dict.get w'.tables n = Dict.get w.tables n) :
    w'.contents n = w.contents n := by
  rw [World.contents, World.contents, World.rows, World.rows, h]

/-- What is recorded of a collection depends on the files and on the collection. -/
theorem Recorded.congr {w w' : World γ τ χ} (h : Recorded setup n w) (hfs : w'.files = w.files)
    (hprog : Dict.get w'.collections n = Dict.get w.collections n)
    (htab : Dict.get w'.tables n = Dict.get w.tables n) : Recorded setup n w' := by
  intro progress hs hg hd
  rw [htab] at hs
  rw [hprog] at hg
  rw [hfs, contents_congr htab]
  exact h progress hs hg hd

variable {rest : List Reply} {reply : Reply}

/-- While a call is awaited the collection that is being written stays as it is. -/
theorem Written.await (h : Written setup n files replies contents B s) (hwr : s.writer = some n)
    (hreps : s.replies = reply :: rest) :
    Written setup n files replies contents B (s.await setup reply rest) := by
  have hkp : Keeps setup n s.edits s.world (s.await setup reply rest).world :=
    (elsewhere_await hreps).world
  have htab : Dict.get (s.await setup reply rest).world.tables n = Dict.get s.world.tables n := by
    rw [Session.await, hwr]
    exact get_tables_edits reply.edits
  exact
    { files := hkp.files.trans h.files
      replies := fun r hr => h.replies r (hreps ▸ mem_cons_of_mem reply hr)
      recorded := h.recorded.congr hkp.files hkp.progress htab
      contents := (contents_congr htab).trans h.contents
      failed := h.failed }

theorem Writing.written (h : Writing setup n files replies contents B s) :
    Written setup n files replies contents B s :=
  ⟨h.files, h.replies, h.recorded, h.contents, h.failed⟩

theorem Writing.await (h : Writing setup n files replies contents B s)
    (hreps : s.replies = reply :: rest) :
    Writing setup n files replies contents B (s.await setup reply rest) :=
  { h.written.await h.writer hreps with
    writer := h.writer
    progress := by
      have hels : Elsewhere setup n s (s.await setup reply rest) := elsewhere_await hreps
      rw [hels.world.progress]
      exact h.progress }

/-! ### Calls -/

/-- Work elsewhere is a part that keeps what it leaves. -/
theorem part_of_moves {α : Type} {K : Session γ τ χ → Prop} {p : Prog (Session γ τ χ) α}
    (h : Moves (Elsewhere setup n) p) (hK : ∀ s s', Elsewhere setup n s s' → K s → K s')
    (hrecd : ∀ s, K s → Recorded setup n s.world) : Part setup n K p fun _ => K :=
  (h.preserves hK).mono (fun _ => id) (fun _ _ => id) hrecd

theorem spec_call :
    Part setup n (Writing setup n files replies contents B) (call setup)
      (fun outcome s => Writing setup n files replies contents B s ∧
        ∃ reply ∈ replies, reply.outcome = outcome) := by
  intro s h
  unfold call
  split
  · exact h.recorded
  · rename_i reply rest hreps
    exact ⟨h.await hreps, reply, h.replies reply (hreps ▸ mem_cons_self), rfl⟩

theorem spec_attempt :
    Part setup n (Writing setup n files replies contents B) (attempt setup)
      (fun _ => Writing setup n files replies contents B) := by
  refine spec_call.bind fun outcome => ?_
  cases outcome with
  | dies => exact spec_die fun s h => h.1.recorded
  | _ => exact spec_pure fun s h => h.1

/-- The state of a collection is saved, unless the call dies. -/
theorem spec_save {P Q : Session γ τ χ → Prop} {progress : CollectionProgress τ}
    (hc : Part setup n P (call setup) fun _ => P) (hdies : ∀ s, P s → Recorded setup n s.world)
    (hsave : ∀ s, P s → Q { s with world :=
      { s.world with collections := s.world.collections.insert (n, progress) } }) :
    Part setup n P (safeStateUpdate setup n progress) fun _ => Q := by
  refine hc.bind fun outcome => ?_
  cases outcome with
  | dies => exact spec_die hdies
  | _ => exact spec_modify hsave

theorem inProgress_ne_done : IndexingStatus.inProgress ≠ .done := by decide

/-- The state of a collection that is not `DONE` is saved. -/
theorem spec_safeStateUpdate {progress : CollectionProgress τ}
    (hprog : progress.status ≠ .done) :
    Part setup n (Writing setup n files replies contents B) (safeStateUpdate setup n progress)
      (fun _ => Writing setup n files replies contents B) := by
  refine spec_save (spec_call.mono (fun _ => id) (fun _ _ h => h.1) fun _ => id)
    (fun _ h => h.recorded) fun s h => ?_
  exact { h with progress := ⟨progress, Dict.get_insert_self _ n progress, hprog⟩ }

/-- The last save, of a collection whose modification times are right or that is not
`DONE`. -/
theorem spec_lastUpdate {progress : CollectionProgress τ}
    (hprog : progress.status = .done → Accurate setup files progress.fileMtimes contents) :
    Part setup n (Writing setup n files replies contents B) (safeStateUpdate setup n progress)
      (fun _ => Written setup n files replies contents B) := by
  refine spec_save (spec_call.mono (fun _ => id) (fun _ _ h => h.1) fun _ => id)
    (fun _ h => h.recorded) fun s h => ⟨h.files, h.replies, ?_, h.contents, h.failed⟩
  intro progress' _ hg hd
  obtain rfl : progress = progress' :=
    some.inj ((Dict.get_insert_self _ n progress).symm.trans hg)
  have hacc := hprog hd
  rw [← h.files, ← h.contents] at hacc
  exact hacc

/-! ### Documents -/

variable {path : Path}

theorem Writing.setTable (h : Writing setup n files replies contents B s) (rows : Rows χ) :
    Writing setup n files replies (chunksIn rows) B (s.setTable n rows) :=
  { h with contents := contents_setTable rows }

def writtenChunks (old chunks : List χ) : (written : Option ℕ) → List χ
  | none => old
  | some k => if chunks = [] then old else chunks.take k

variable {chunks : List χ}

/-- An ingest that has come to its end has replaced the document, unless a document without
chunks had some. -/
theorem writtenChunks_length {old : List χ} (h : chunks = [] → old = []) :
    writtenChunks old chunks (some chunks.length) = chunks := by
  rw [writtenChunks, take_length]
  split_ifs with hchs
  · rw [h hchs, hchs]
  · rfl

theorem Writing.writeDocument (h : Writing setup n files replies contents B s) (path : Path)
    (chunks : List χ) (written : Option ℕ) :
    Writing setup n files replies
      (update contents path (writtenChunks (contents path) chunks written)) B
      (s.writeDocument n path chunks written) := by
  have hself : update contents path (contents path) = contents :=
    update_eq_self path contents
  cases written with
  | none => rwa [writtenChunks, hself]
  | some k =>
    simp only [writtenChunks, Session.writeDocument]
    split_ifs with hchs
    · rwa [hself]
    · have hst := h.setTable
        (deleteRows (s.world.rows n) path ++ (chunks.take k).map fun chunk => (path, chunk))
      rw [chunksIn_replace] at hst
      rw [← h.contents]
      exact hst

theorem Writing.deleteDocument (h : Writing setup n files replies contents B s) :
    Writing setup n files replies (update contents path []) B (s.deleteDocument n path) := by
  have hcon := contents_deleteDocument (n := n) (s := s) path
  rw [h.contents] at hcon
  unfold Session.deleteDocument at hcon ⊢
  split
  · exact { h with contents := by simpa [*] using hcon }
  · exact { h with contents := by simpa [*] using hcon }

theorem Writing.noteFailure (h : Writing setup n files replies contents B s) :
    Writing setup n files replies contents B' s.noteFailure :=
  { h with failed := Or.inl rfl }

/-- What the ingest of a file leaves. An ingest that returns `ok` has replaced the document;
any other may have written a part of it. -/
def Ingested (setup : Setup γ χ) (n : Name) (files : Dict Path (File γ τ)) (replies : List Reply)
    (contents : Path → List χ) (B : Prop) (path : Path) : IngestStatus → Session γ τ χ → Prop
  | .ok, s =>
    Writing setup n files replies (update contents path (chunksOf setup files path)) B s
  | .error, s => ∃ chunks, Writing setup n files replies (update contents path chunks)
      False s ∧ ((∀ reply ∈ replies, reply.outcome.failsHalfway = false) → chunks = contents path)
  | .raised, s =>
    ∃ chunks, Writing setup n files replies (update contents path chunks) False s

variable {file : File γ τ}

/-- **The ingest of a file.** -/
theorem spec_ingestFile (hf : Dict.get files path = some file)
    (hbl : chunksOf setup files path = [] → contents path = []) :
    Part setup n (Writing setup n files replies contents B) (ingestFile setup n path)
      (Ingested setup n files replies contents B path) := by
  have hself : update contents path (contents path) = contents :=
    update_eq_self path contents
  have hnote : ∀ s : Session γ τ χ, Writing setup n files replies contents B s →
      Ingested setup n files replies contents B path .error s.noteFailure := fun s h =>
    ⟨contents path, by rw [hself]; exact h.noteFailure, fun _ => rfl⟩
  refine spec_get_bind fun t ht => ?_
  rw [ht.files, hf]
  have hchs : chunksOf setup files path = if isSidecar path then [] else
      setup.chunks path file.content := by
    rw [chunksOf, hf]
  refine spec_ite (fun hsid => spec_pure ?_) fun hsid => spec_ite ?_ ?_
  · -- a sidecar has no chunks, so none are stored
    rintro s rfl
    rw [if_pos hsid] at hchs
    rw [Ingested, hchs, ← hbl hchs, hself]
    exact ht
  · rintro -
    refine spec_modify_pure fun s hs => ?_
    exact hnote s (hs ▸ ht)
  · rintro -
    rw [if_neg hsid] at hchs
    refine Spec.bind (spec_call.of_pre fun s hs => hs ▸ ht) ?_
    intro outcome
    cases outcome with
    | returns =>
      refine spec_modify_pure fun s hs => ?_
      have hd := hs.1.writeDocument path (setup.chunks path file.content)
        (some (setup.chunks path file.content).length)
      rw [writtenChunks_length (hchs ▸ hbl)] at hd
      rw [Ingested, hchs]
      exact hd
    | fails written =>
      refine spec_modify_pure fun s hs => ?_
      refine ⟨_, (hs.1.writeDocument path (setup.chunks path file.content) written).noteFailure, ?_⟩
      intro hwh
      obtain ⟨reply, hrep, hout⟩ := hs.2
      have hhalf := hwh reply hrep
      rw [hout] at hhalf
      cases written with
      | none => rfl
      | some k => cases hhalf
    | raises written =>
      refine spec_modify_pure fun s hs => ?_
      exact ⟨_, (hs.1.writeDocument path (setup.chunks path file.content) written).noteFailure⟩
    | dies written =>
      refine Spec.bind (spec_modify fun s hs => ?_) fun _ => spec_die fun _ => id
      exact (hs.1.writeDocument path (setup.chunks path file.content) written).recorded

/-- **The deletion of a document.** -/
theorem spec_deleteBySourcePath :
    Part setup n (Writing setup n files replies contents B) (deleteBySourcePath setup n path)
      (fun returned s => if returned then
          Writing setup n files replies (update contents path []) B s
        else ∃ chunks, Writing setup n files replies (update contents path chunks) B s) := by
  have hself : update contents path (contents path) = contents :=
    update_eq_self path contents
  refine spec_call.bind fun outcome => ?_
  rcases outcome with _ | _ | (_ | _) | (_ | _)
  · refine spec_modify_pure fun s hs => ?_
    exact hs.1.deleteDocument
  · refine spec_modify_pure fun s hs => ?_
    exact hs.1.deleteDocument
  · exact spec_pure fun s hs => ⟨contents path, by rw [hself]; exact hs.1⟩
  · refine spec_modify_pure fun s hs => ?_
    exact ⟨[], hs.1.deleteDocument⟩
  · exact spec_die fun s hs => hs.1.recorded
  · refine Spec.bind (spec_modify fun s hs => ?_) fun _ => spec_die fun _ => id
    exact hs.1.deleteDocument.recorded

/-! ### Ingesting a directory -/

/-- What the ingest of these files leaves: the files that were ingested are stored with their
present content, and if no ingest has failed they are all of them. -/
structure IngestedAll (setup : Setup γ χ) (n : Name) (files : Dict Path (File γ τ))
    (replies : List Reply) (contents : Path → List χ) (B : Prop) (paths newPaths : List Path)
    (result : Bool × List Path) (s : Session γ τ χ) : Prop where
  writing : Writing setup n files replies (s.world.contents n)
    (B ∧ ∀ path ∈ paths, path ∈ result.2) s
  others : ∀ path ∉ paths, s.world.contents n path = contents path
  stored : ∀ path ∈ result.2, path ∈ newPaths ∨
    path ∈ paths ∧ s.world.contents n path = chunksOf setup files path
  before : ∀ path ∈ newPaths, path ∈ result.2

theorem exists_of_mem_discover {root : Path} (h : path ∈ discoverIngestFiles setup files root) :
    ∃ file, Dict.get files path = some file :=
  (mem_sortedFiles.mp h).imp fun _ h => h.1

theorem Writing.self (h : Writing setup n files replies contents B s) :
    Writing setup n files replies (s.world.contents n) B s :=
  { h with contents := rfl }

theorem spec_ingestFiles (resumePaths : List Path) {paths newPaths : List Path}
    (hnd : paths.Nodup) (hfs : ∀ path ∈ paths, ∃ file, Dict.get files path = some file)
    (hbl : ∀ path ∈ paths, chunksOf setup files path = [] → contents path = []) :
    Part setup n (Writing setup n files replies contents B)
      (ingestFiles setup n resumePaths paths newPaths)
      (IngestedAll setup n files replies contents B paths newPaths) := by
  induction paths generalizing newPaths contents B with
  | nil =>
    refine spec_pure fun s h => ⟨?_, fun path _ => congrFun h.contents path,
      fun path => Or.inl, fun path => id⟩
    exact h.self.mono fun hB => ⟨hB, fun path hm => absurd hm not_mem_nil⟩
  | cons path paths ih =>
    obtain ⟨hp, hnd⟩ := nodup_cons.mp hnd
    obtain ⟨file, hf⟩ := hfs path mem_cons_self
    have hfs' := fun q hq => hfs q (mem_cons_of_mem path hq)
    -- the rest of the loop does not come back to this file
    have hne : ∀ q ∈ paths, q ≠ path := fun q hq h => hp (h ▸ hq)
    have hbl' (chunks : List χ) : ∀ q ∈ paths, chunksOf setup files q = [] →
        update contents path chunks q = [] := fun q hq hnil => by
      rw [update_of_ne (hne q hq)]
      exact hbl q (mem_cons_of_mem path hq) hnil
    have hoth {chunks : List χ} {t : Session γ τ χ}
        (h : ∀ q ∉ paths, t.world.contents n q = update contents path chunks q) :
        (∀ q ∉ path :: paths, t.world.contents n q = contents q) ∧
          t.world.contents n path = chunks := by
      refine ⟨fun q hq => ?_, by rw [h path hp, update_self]⟩
      obtain ⟨hq, hq'⟩ := not_or.mp (mem_cons.not.mp hq)
      rw [h q hq', update_of_ne hq]
    refine (spec_ingestFile hf (hbl path mem_cons_self)).bind fun status => ?_
    cases status with
    | ok =>
      refine Spec.bind (spec_when (spec_safeStateUpdate inProgress_ne_done) fun _ => id) fun _ => ?_
      refine (ih hnd hfs' (hbl' _)).mono (fun _ => id) ?_ fun _ => id
      rintro ⟨complete, result⟩ t ⟨hwrit, hrs, hsto, hbef⟩
      obtain ⟨hrs, hhere⟩ := hoth hrs
      have hm : path ∈ result := hbef path (mem_append_right _ mem_cons_self)
      refine ⟨hwrit.mono fun hB => ⟨hB.1, ?_⟩, hrs, fun q hq => ?_, fun q hq => ?_⟩
      · rintro q (_ | ⟨_, hq⟩)
        · exact hm
        · exact hB.2 q hq
      · rcases hsto q hq with hw | ⟨hq', hchs⟩
        · rcases mem_append.mp hw with hw | hw
          · exact Or.inl hw
          · obtain rfl := mem_singleton.mp hw
            exact Or.inr ⟨mem_cons_self, hhere⟩
        · exact Or.inr ⟨mem_cons_of_mem path hq', hchs⟩
      · exact hbef q (mem_append_left _ hq)
    | error =>
      rintro t ⟨chunks, ht, -⟩
      refine (ih hnd hfs' (hbl' chunks) t ht).mono ?_ fun _ => id
      rintro ⟨complete, result⟩ t ⟨hwrit, hrs, hsto, hbef⟩
      refine ⟨hwrit.mono fun hB => hB.1.elim, (hoth hrs).1, fun q hq => ?_, hbef⟩
      exact (hsto q hq).imp_right fun h => ⟨mem_cons_of_mem path h.1, h.2⟩
    | raised =>
      rintro t ⟨chunks, ht⟩
      refine ⟨ht.self.mono False.elim, fun q hq => ?_, fun q hq => Or.inl hq, fun q => id⟩
      rw [ht.contents, update_of_ne (not_or.mp (mem_cons.not.mp hq)).1]

def toIngest (setup : Setup γ χ) (files : Dict Path (File γ τ)) (root : Path)
    (resumePaths : List Path) : List Path :=
  (discoverIngestFiles setup files root).filter fun path => !resumePaths.contains path

variable {resumePaths : List Path}

theorem mem_toIngest {root : Path} :
    path ∈ toIngest setup files root resumePaths ↔
      path ∈ discoverIngestFiles setup files root ∧ path ∉ resumePaths := by
  simp [toIngest]

theorem spec_ingestDirectory (root : Path) (resumePaths : List Path)
    (hbl : ∀ path ∈ discoverIngestFiles setup files root, path ∉ resumePaths →
      chunksOf setup files path = [] → contents path = []) :
    Part setup n (Writing setup n files replies contents B)
      (ingestDirectory setup n root resumePaths)
      (fun result s => Writing setup n files replies (s.world.contents n) True s ∧
        (result.1 = true → IngestedAll setup n files replies contents B
          (toIngest setup files root resumePaths) [] result s)) := by
  have hstop : ∀ s, Writing setup n files replies contents B s →
      Writing setup n files replies (s.world.contents n) True s := fun s h =>
    h.self.mono fun _ => trivial
  have hraise {newPaths : List Path} : Part setup n (Writing setup n files replies contents B)
      (pure (false, newPaths))
      (fun result s => Writing setup n files replies (s.world.contents n) True s ∧
        (result.1 = true → IngestedAll setup n files replies contents B
          (toIngest setup files root resumePaths) [] result s)) :=
    spec_pure fun s h => ⟨hstop s h, fun hfls => by cases hfls⟩
  refine spec_attempt.bind fun allowed => spec_ite (fun _ => ?_) fun _ => hraise
  refine spec_read fun t ht => ?_
  rw [ht.files]
  refine spec_ite (fun _ => hraise) fun _ => spec_ite (fun hnil => ?_) fun _ => ?_
  · refine spec_pure fun s h => ⟨hstop s h, fun _ => ?_⟩
    have hn : toIngest setup files root resumePaths = [] := hnil
    rw [hn]
    exact ⟨h.self.mono fun hB => ⟨hB, fun _ hm => absurd hm not_mem_nil⟩,
      fun path _ => congrFun h.contents path, fun _ => Or.inl, fun _ => id⟩
  · refine spec_attempt.bind fun resolved => spec_ite (fun _ => ?_) fun _ => hraise
    refine Spec.bind (spec_ingestFiles resumePaths
      ((nodup_sortedFiles _).filter _) (fun path hm => ?_) fun path hm => ?_) ?_
    · exact exists_of_mem_discover (mem_toIngest.mp hm).1
    · exact hbl path (mem_toIngest.mp hm).1 (mem_toIngest.mp hm).2
    rintro ⟨complete, newPaths⟩
    refine spec_ite (fun _ => ?_) fun _ => ?_
    · -- the calls that finish a batch leave the documents alone
      intro s hs
      refine (spec_attempt.bind (fun finalized => spec_pure (a := (finalized, newPaths))
        (Q := fun result s => Writing setup n files replies (s.world.contents n) True s ∧
          (result.1 = true → IngestedAll setup n files replies contents B
            (toIngest setup files root resumePaths) [] result s)) ?_)) s hs.writing
      intro t ht
      refine ⟨ht.self.mono fun _ => trivial, fun _ => ⟨ht.self, ?_, ?_, hs.before⟩⟩
      · rw [ht.contents]
        exact hs.others
      · rw [ht.contents]
        exact hs.stored
    · refine spec_pure fun s hs => ⟨hs.writing.mono fun _ => trivial, fun _ => hs⟩

variable {paths : List Path}

/-- A file whose modification time was recorded was among those given, and has that one. -/
theorem get_mtimesOf {mtime : τ}
    (h : Dict.get (mtimesOf files paths) path = some mtime) :
    path ∈ paths ∧ ∃ file, Dict.get files path = some file ∧ file.mtime = mtime := by
  obtain ⟨q, hq, heq⟩ := mem_filterMap.mp (Keyed.mem_of_mem_ofList (Dict.get_eq_some_iff.mp h))
  obtain ⟨file, hf, hpr⟩ := map_eq_some_iff.mp heq
  obtain ⟨rfl, hmt⟩ := Prod.mk.inj hpr
  exact ⟨hq, file, hf, hmt⟩

theorem isSome_get_mtimesOf (hp : path ∈ paths)
    (hf : (Dict.get files path).isSome = true) :
    (Dict.get (mtimesOf files paths) path).isSome = true := by
  obtain ⟨file, hf⟩ := isSome_iff_exists.mp hf
  have hk : path ∈ (mtimesOf files paths).items.map Prod.fst := by
    refine Keyed.mem_keys_foldl_insert.mpr (Or.inr (List.mem_map.mpr ⟨(path, file.mtime), ?_, rfl⟩))
    exact mem_filterMap.mpr ⟨path, hp, by rw [hf]; rfl⟩
  obtain ⟨⟨q, mtime⟩, hm, rfl⟩ := List.mem_map.mp hk
  rw [Dict.get_eq_some_iff.mpr hm]
  rfl

/-! ### A collection that is ingested -/

/-- The first save: from then on the collection is not `DONE`. -/
theorem spec_firstUpdate {progress : CollectionProgress τ} (hprog : progress.status ≠ .done) :
    Part setup n (fun s => Written setup n files replies contents B s ∧ s.writer = some n)
      (safeStateUpdate setup n progress) (fun _ => Writing setup n files replies contents B) := by
  have hc : Part setup n
      (fun s => Written setup n files replies contents B s ∧ s.writer = some n) (call setup)
      (fun _ s => Written setup n files replies contents B s ∧ s.writer = some n) := by
    rintro s ⟨h, hwr⟩
    unfold call
    split
    · exact h.recorded
    · exact ⟨h.await hwr ‹_›, hwr⟩
  refine spec_save hc (fun _ h => h.1.recorded) fun s h => ?_
  exact
    { h.1 with
      writer := h.2
      progress := ⟨progress, Dict.get_insert_self _ n progress, hprog⟩ }

variable {rows : Rows χ}

/-- **A collection is ingested**, from its start or from where it stopped. -/
theorem spec_ingestCollection {root : Path}
    (activeModel : String) (hrd : Resumable setup files root rows resumePaths) :
    Part setup n
      (fun s => (Written setup n files replies (chunksIn rows) True s ∧ s.writer = some n) ∧
        loadProcessedPaths s.world n = resumePaths)
      (ingestCollection setup n root activeModel)
      (fun error s => Written setup n files replies (s.world.contents n)
        (error = none → Converged setup s.world n root) s) := by
  refine spec_read fun t ht => ?_
  rw [ht.2]
  refine Spec.of_pre
    (P := fun s => Written setup n files replies (chunksIn rows) True s ∧ s.writer = some n) ?_
    fun _ => And.left
  have hpen : IndexingStatus.pending ≠ .done := by decide
  refine Spec.bind (spec_when (Q := fun _ s =>
    Written setup n files replies (chunksIn rows) True s ∧ s.writer = some n)
    ((spec_firstUpdate hpen).mono (fun _ => id) (fun _ s h => ⟨h.written, h.writer⟩)
      fun _ => id) fun _ => id) fun _ => ?_
  refine (spec_firstUpdate inProgress_ne_done).bind fun _ => ?_
  refine (spec_ingestDirectory root resumePaths hrd.blank).bind ?_
  rintro ⟨complete, newPaths⟩
  refine spec_get_bind fun t ht => ?_
  rw [ht.1.files]
  cases complete with
  | false =>
    have hpre : ∀ s, s = t → Writing setup n files replies (t.world.contents n) True s := by
      rintro s rfl
      exact ht.1
    refine Spec.bind ((spec_lastUpdate (fun h => by cases h)).of_pre hpre) fun _ =>
      spec_pure fun s hs => ?_
    exact { hs with contents := rfl, failed := Or.inr fun h => by cases h }
  | true =>
    obtain ⟨hwrit, hoth, hsto, -⟩ := ht.2 rfl
    have hk : ∀ path ∉ toIngest setup files root resumePaths,
        t.world.contents n path = chunksIn rows path := hoth
    have hproc : ∀ path ∈ resumePaths, (Dict.get files path).isSome = true →
        t.world.contents n path = chunksOf setup files path := fun path hm hsm => by
      rw [hk path fun h => (mem_toIngest.mp h).2 hm]
      exact hrd.unedited path hm hsm
    have hw : ∀ path ∈ newPaths, t.world.contents n path = chunksOf setup files path :=
      fun path hm => (hsto path hm).elim (fun h => absurd h not_mem_nil) And.right
    have hacc : Accurate setup files (mtimesOf files (resumePaths ++ newPaths))
        (t.world.contents n) := fun path file hf hmt => by
      obtain ⟨hm, -⟩ := get_mtimesOf hmt
      have hsm : (Dict.get files path).isSome = true := by rw [hf]; rfl
      rcases mem_append.mp hm with hm | hm
      · exact hproc path hm hsm
      · exact hw path hm
    have hpre : ∀ s, s = t → Writing setup n files replies (t.world.contents n)
        (True ∧ ∀ path ∈ toIngest setup files root resumePaths, path ∈ newPaths) s := by
      rintro s rfl
      exact hwrit
    refine Spec.bind ((spec_lastUpdate fun _ => hacc).of_pre hpre) fun _ => spec_pure fun s hs => ?_
    refine { hs with contents := rfl, failed := hs.failed.imp_right fun hall _ path => ?_ }
    rw [hs.files, hs.contents]
    split_ifs with helig
    · obtain ⟨file, hf, -⟩ := mem_iterEligibleFiles.mp helig
      by_cases hm : path ∈ resumePaths
      · exact hproc path hm (by rw [hf]; rfl)
      by_cases hdis : path ∈ discoverIngestFiles setup files root
      · exact hw path (hall.2 path (mem_toIngest.mpr ⟨hdis, hm⟩))
      · rw [hk path fun h => hdis (mem_toIngest.mp h).1]
        exact hrd.passedOver path helig hdis
    · rw [hk path fun h =>
        helig (mem_iterEligibleFiles_of_discovered (mem_toIngest.mp h).1)]
      by_contra hne
      obtain ⟨row, hr, rfl⟩ := exists_row_of_chunksIn_ne_nil hne
      exact helig (hrd.undeleted row hr)

/-! ### A collection that is brought up to date -/

variable {activeModel : String}

theorem spec_checkpoint (draft : Draft τ) :
    Part setup n (Writing setup n files replies contents B) (checkpoint setup n activeModel draft)
      (fun draft' s => draft'.fileMtimes = draft.fileMtimes ∧
        Writing setup n files replies contents B s) :=
  (spec_when (spec_safeStateUpdate inProgress_ne_done) fun _ => id).bind fun _ =>
    spec_pure fun _ h => ⟨rfl, h⟩

/-- What a loop over these paths leaves: they hold what they should, if it has come to its
end and no ingest has failed, and the modification times are still right. -/
structure Applied (setup : Setup γ χ) (n : Name) (files : Dict Path (File γ τ))
    (replies : List Reply) (contents : Path → List χ) (mtimes : Dict Path τ) (B : Prop)
    (paths : List Path) (value : Path → List χ) (result : Bool × Draft τ) (s : Session γ τ χ) :
    Prop where
  writing : Writing setup n files replies (s.world.contents n)
    (B ∧ (result.1 = true → ∀ path ∈ paths, s.world.contents n path = value path)) s
  others : ∀ path ∉ paths, s.world.contents n path = contents path
  mtimes : ∀ path ∉ paths, Dict.get result.2.fileMtimes path = Dict.get mtimes path
  accurate : result.1 = true → Accurate setup files result.2.fileMtimes (s.world.contents n)

variable {draft : Draft τ} {value : Path → List χ}

theorem Applied.nil
    (hacc : Accurate setup files draft.fileMtimes contents)
    (h : Writing setup n files replies contents B s) :
    Applied setup n files replies contents draft.fileMtimes B [] value (true, draft) s where
  writing := h.self.mono fun hB => ⟨hB, fun _ _ hm => absurd hm not_mem_nil⟩
  others path _ := congrFun h.contents path
  mtimes _ _ := rfl
  accurate _ := h.contents.symm ▸ hacc

theorem Applied.stop
    (h : Writing setup n files replies (update contents path chunks) B s) :
    Applied setup n files replies contents draft.fileMtimes B (path :: paths) value
      (false, draft) s where
  writing := h.self.mono fun hB => ⟨hB, fun hfls => by cases hfls⟩
  others q hq := by
    rw [h.contents, update_of_ne (not_or.mp (mem_cons.not.mp hq)).1]
  mtimes _ _ := rfl
  accurate hfls := by cases hfls

variable {mtimes : Dict Path τ} {mtimes' : Dict Path τ}

theorem Applied.cons {result : Bool × Draft τ} (hp : path ∉ paths)
    (hmts : ∀ q, q ≠ path → Dict.get mtimes' q = Dict.get mtimes q)
    (hB : B' → B ∧ chunks = value path)
    (h : Applied setup n files replies (update contents path chunks) mtimes' B' paths
      value result s) :
    Applied setup n files replies contents mtimes B (path :: paths) value result s where
  writing := by
    refine h.writing.mono fun hall => ⟨(hB hall.1).1, fun htrue q hq => ?_⟩
    rcases mem_cons.mp hq with rfl | hq
    · rw [h.others q hp, update_self, (hB hall.1).2]
    · exact hall.2 htrue q hq
  others q hq := by
    obtain ⟨hne, hq⟩ := not_or.mp (mem_cons.not.mp hq)
    rw [h.others q hq, update_of_ne hne]
  mtimes q hq := by
    obtain ⟨hne, hq⟩ := not_or.mp (mem_cons.not.mp hq)
    rw [h.mtimes q hq, hmts q hne]
  accurate := h.accurate

/-- The modification times stay right when a path is set, in both. -/
theorem Accurate.update
    (h : Accurate setup files mtimes contents)
    (hmts : ∀ q, q ≠ path → Dict.get mtimes' q = Dict.get mtimes q)
    (hp : ∀ file, Dict.get files path = some file → Dict.get mtimes' path = some file.mtime →
      chunks = chunksOf setup files path) :
    Accurate setup files mtimes' (update contents path chunks) := by
  intro q file hf hmt
  by_cases hq : q = path
  · subst hq
    rw [update_self]
    exact hp file hf hmt
  · rw [update_of_ne hq]
    exact h q file hf (hmts q hq ▸ hmt)

theorem spec_applyDeleted (hnd : paths.Nodup)
    (hacc : Accurate setup files draft.fileMtimes contents) :
    Part setup n (Writing setup n files replies contents B)
      (applyDeleted setup n activeModel paths draft)
      (Applied setup n files replies contents draft.fileMtimes B paths fun _ => []) := by
  induction paths generalizing draft contents with
  | nil => exact spec_pure fun s h => Applied.nil hacc h
  | cons path paths ih =>
    obtain ⟨hp, hnd⟩ := nodup_cons.mp hnd
    have herase : ∀ q, q ≠ path →
        Dict.get (draft.fileMtimes.erase path) q = Dict.get draft.fileMtimes q := fun q hq => by
      rw [Dict.get_erase, if_neg hq]
    refine spec_deleteBySourcePath.bind fun returned => ?_
    cases returned with
    | false =>
      refine spec_pure ?_
      rintro s ⟨chunks, h⟩
      exact Applied.stop h
    | true =>
      refine (spec_checkpoint _).bind fun draft' => Spec.of_imp fun hdraft => ?_
      have hacc' : Accurate setup files draft'.fileMtimes
          (update contents path []) := by
        rw [hdraft]
        refine hacc.update herase fun file _ hmt => ?_
        rw [Dict.get_erase, if_pos rfl] at hmt
        cases hmt
      refine (ih hnd hacc').mono (fun _ => id) (fun result s h => ?_) fun _ => id
      rw [hdraft] at h
      exact h.cons hp herase fun hB => ⟨hB, rfl⟩

theorem spec_applyIngested (changed : Bool)
    (hnd : paths.Nodup) (hacc : Accurate setup files draft.fileMtimes contents)
    (hfs : ∀ path ∈ paths, ∃ file, Dict.get files path = some file)
    (hbl : ∀ path ∈ paths, chunksOf setup files path = [] → contents path = [])
    (hwh : (∀ reply ∈ replies, reply.outcome.failsHalfway = false) ∨
      ∀ path ∈ paths, ∀ file, Dict.get files path = some file →
        Dict.get draft.fileMtimes path ≠ some file.mtime) :
    Part setup n (Writing setup n files replies contents B)
      (applyIngested setup n activeModel changed paths draft)
      (Applied setup n files replies contents draft.fileMtimes B paths (chunksOf setup files)) := by
  induction paths generalizing draft contents B with
  | nil => exact spec_pure fun s h => Applied.nil hacc h
  | cons path paths ih =>
    obtain ⟨hp, hnd⟩ := nodup_cons.mp hnd
    obtain ⟨file, hf⟩ := hfs path mem_cons_self
    have hne : ∀ q ∈ paths, q ≠ path := fun q hq h => hp (h ▸ hq)
    -- what the loop asks of the other paths does not change with this one
    have hrs {draft' : Draft τ} {chunks : List χ} {B' : Prop}
        (hmts : ∀ q, q ≠ path → Dict.get draft'.fileMtimes q = Dict.get draft.fileMtimes q)
        (hacc' : Accurate setup files draft'.fileMtimes (update contents path chunks))
        (hB : B' → B ∧ chunks = chunksOf setup files path) :
        Part setup n (Writing setup n files replies (update contents path chunks) B')
          (applyIngested setup n activeModel changed paths draft')
          (Applied setup n files replies contents draft.fileMtimes B (path :: paths)
            (chunksOf setup files)) := by
      refine (ih hnd hacc' (fun q hq => hfs q (mem_cons_of_mem path hq))
        (fun q hq hnil => ?_) (hwh.imp_right fun h q hq file hf => ?_)).mono
        (fun _ => id) (fun result s h => h.cons hp hmts hB) fun _ => id
      · rw [update_of_ne (hne q hq)]
        exact hbl q (mem_cons_of_mem path hq) hnil
      · rw [hmts q (hne q hq)]
        exact h q (mem_cons_of_mem path hq) file hf
    refine (spec_ingestFile hf (hbl path mem_cons_self)).bind fun status => ?_
    cases status with
    | ok =>
      refine spec_read fun t ht => ?_
      have hmts : (draft.ingested t.world.files path).fileMtimes =
          draft.fileMtimes.insert (path, file.mtime) := by
        have htfil : t.world.files = files := Writing.files ht
        simp only [Draft.ingested, htfil, hf]
      refine (spec_checkpoint _).bind fun draft' => Spec.of_imp fun hdraft => ?_
      rw [hmts] at hdraft
      have hins : ∀ q, q ≠ path →
          Dict.get draft'.fileMtimes q = Dict.get draft.fileMtimes q := fun q hq => by
        rw [hdraft, Dict.get_insert_of_ne _ hq]
      exact hrs hins (hacc.update hins fun _ _ _ => rfl) fun hB => ⟨hB, rfl⟩
    | error =>
      rintro t ⟨chunks, ht, hchs⟩
      refine (Spec.bind (spec_checkpoint _) fun draft' =>
        Spec.of_imp fun hdraft => ?_) t ht
      have heq : ∀ q, q ≠ path →
          Dict.get draft'.fileMtimes q = Dict.get draft.fileMtimes q := fun q _ => by rw [hdraft]
      refine hrs heq (hacc.update heq fun file' hf' hmt => ?_) False.elim
      -- the recorded time is not the present one, or the old rows are still there
      rw [hdraft] at hmt
      rcases hwh with hwh | hold
      · rw [hchs hwh]
        exact hacc path file' hf' hmt
      · exact absurd hmt (hold path mem_cons_self file' hf')
    | raised =>
      refine spec_pure ?_
      rintro s ⟨chunks, h⟩
      exact Applied.stop (h.mono False.elim)

structure Changes.Consistent (setup : Setup γ χ) (files : Dict Path (File γ τ)) (root : Path)
    (changes : Changes) : Prop where
  deleted : ∀ path ∈ changes.deletedPaths, path ∉ iterEligibleFiles setup files root
  changed : ∀ path ∈ changes.changedFiles, path ∈ iterEligibleFiles setup files root
  new : ∀ path ∈ changes.newFiles, path ∈ iterEligibleFiles setup files root
  disjoint : ∀ path ∈ changes.changedFiles, path ∉ changes.newFiles
  nodupDeleted : changes.deletedPaths.Nodup
  nodupChanged : changes.changedFiles.Nodup
  nodupNew : changes.newFiles.Nodup

structure AppliedAll (setup : Setup γ χ) (n : Name) (files : Dict Path (File γ τ))
    (replies : List Reply) (contents : Path → List χ) (changes : Changes)
    (result : Bool × Draft τ) (s : Session γ τ χ) : Prop where
  writing : Writing setup n files replies (s.world.contents n)
    (result.1 = true → (∀ path ∈ changes.deletedPaths, s.world.contents n path = []) ∧
      ∀ path ∈ changes.changedFiles ++ changes.newFiles,
        s.world.contents n path = chunksOf setup files path) s
  others : ∀ path, path ∉ changes.deletedPaths → path ∉ changes.changedFiles →
    path ∉ changes.newFiles → s.world.contents n path = contents path
  accurate : result.1 = true → Accurate setup files result.2.fileMtimes (s.world.contents n)

variable {changes : Changes}

theorem Applied.appliedAll {contents' : Path → List χ}
    (h : Applied setup n files replies contents' mtimes B paths value (false, draft) s)
    (hpat : ∀ path ∈ paths, path ∈ changes.deletedPaths ∨ path ∈ changes.changedFiles ∨
      path ∈ changes.newFiles)
    (hcon : ∀ path, path ∉ changes.deletedPaths → path ∉ changes.changedFiles →
      path ∉ changes.newFiles → contents' path = contents path) :
    AppliedAll setup n files replies contents changes (false, draft) s where
  writing := h.writing.mono fun _ hfls => by cases hfls
  others path hdel hchgd hw := by
    rw [h.others path fun hm => ?_]
    · exact hcon path hdel hchgd hw
    · rcases hpat path hm with hm | hm | hm
      · exact hdel hm
      · exact hchgd hm
      · exact hw hm
  accurate hfls := by cases hfls

theorem spec_applyFiles {root : Path}
    (hchg : changes.Consistent setup files root)
    (hacc : Accurate setup files draft.fileMtimes contents)
    (hbl : ∀ path ∈ changes.changedFiles ++ changes.newFiles,
      chunksOf setup files path = [] → contents path = [])
    (hwh : (∀ reply ∈ replies, reply.outcome.failsHalfway = false) ∨
      ∀ path ∈ changes.changedFiles ++ changes.newFiles, ∀ file, Dict.get files path = some file →
        Dict.get draft.fileMtimes path ≠ some file.mtime) :
    Part setup n (Writing setup n files replies contents True)
      (applyFiles setup n activeModel changes draft)
      (AppliedAll setup n files replies contents changes) := by
  have hexis : ∀ path ∈ iterEligibleFiles setup files root,
      ∃ file, Dict.get files path = some file := fun path hm =>
    (mem_iterEligibleFiles.mp hm).imp fun _ h => h.1
  refine (spec_applyDeleted hchg.nodupDeleted hacc).bind ?_
  rintro ⟨complete₁, draft₁⟩
  cases complete₁ with
  | false =>
    exact spec_pure fun s h => h.appliedAll (fun path => Or.inl) fun _ _ _ _ => rfl
  | true =>
  intro t₁ h₁
  have hk₁ : ∀ path ∈ iterEligibleFiles setup files root,
      path ∉ changes.deletedPaths := fun path helig hm => hchg.deleted path hm helig
  refine (Spec.bind (spec_applyIngested true hchg.nodupChanged (h₁.accurate rfl)
    (fun path hm => hexis path (hchg.changed path hm)) (fun path hm hnil => ?_)
    (hwh.imp_right fun h path hm file hf => ?_)) ?_) t₁ h₁.writing
  · rw [h₁.others path (hk₁ path (hchg.changed path hm))]
    exact hbl path (mem_append_left _ hm) hnil
  · rw [h₁.mtimes path (hk₁ path (hchg.changed path hm))]
    exact h path (mem_append_left _ hm) file hf
  rintro ⟨complete₂, draft₂⟩
  cases complete₂ with
  | false =>
    exact spec_pure fun s h => h.appliedAll (fun path hm => Or.inr (Or.inl hm))
      fun path hdel _ _ => h₁.others path hdel
  | true =>
  intro t₂ h₂
  have hk₂ : ∀ path ∈ changes.newFiles, path ∉ changes.changedFiles :=
    fun path hm hchgd => hchg.disjoint path hchgd hm
  refine (Spec.bind (spec_applyIngested false hchg.nodupNew (h₂.accurate rfl)
    (fun path hm => hexis path (hchg.new path hm)) (fun path hm hnil => ?_)
    (hwh.imp_right fun h path hm file hf => ?_)) ?_) t₂ h₂.writing
  · rw [h₂.others path (hk₂ path hm), h₁.others path (hk₁ path (hchg.new path hm))]
    exact hbl path (mem_append_right _ hm) hnil
  · rw [h₂.mtimes path (hk₂ path hm), h₁.mtimes path (hk₁ path (hchg.new path hm))]
    exact h path (mem_append_right _ hm) file hf
  rintro ⟨complete₃, draft₃⟩
  cases complete₃ with
  | false =>
    refine spec_pure fun s h => h.appliedAll (fun path hm => Or.inr (Or.inr hm)) ?_
    intro path hdel hchgd _
    rw [h₂.others path hchgd, h₁.others path hdel]
  | true =>
  intro t₃ h₃
  have hall : AppliedAll setup n files replies contents changes (true, draft₃) t₃ := by
    refine ⟨h₃.writing.mono fun hB _ => ⟨fun path hm => ?_, fun path hm => ?_⟩, ?_, h₃.accurate⟩
    · have hnot := hchg.deleted path hm
      rw [h₃.others path fun h => hnot (hchg.new path h),
        h₂.others path fun h => hnot (hchg.changed path h)]
      exact hB.1.1.2 rfl path hm
    · rcases mem_append.mp hm with hm | hm
      · rw [h₃.others path (hchg.disjoint path hm)]
        exact hB.1.2 rfl path hm
      · exact hB.2 rfl path hm
    · intro path hdel hchgd hw
      rw [h₃.others path hw, h₂.others path hchgd, h₁.others path hdel]
  -- the index is refreshed
  refine (spec_attempt.bind fun refreshed => spec_pure (a := (refreshed, draft₃)) ?_) t₃
    hall.writing
  intro s hs
  refine ⟨?_, ?_, fun _ => ?_⟩
  · refine { hs with contents := rfl, failed := hs.failed.imp_right fun h _ => ?_ }
    rw [hs.contents]
    exact h rfl
  · rw [hs.contents]
    exact hall.others
  · rw [hs.contents]
    exact hall.accurate rfl

/-! ### The changes that are found -/

variable [DecidableEq τ] {root : Path} {progress : Option (CollectionProgress τ)}

theorem isCurrent_eq_true_iff
    (hf : Dict.get files path = some file) :
    isCurrent files mtimes path = true ↔ Dict.get mtimes path = some file.mtime := by
  simp only [isCurrent, hf, map_some, Bool.and_eq_true, decide_eq_true_iff]
  exact and_iff_right_of_imp fun h => by rw [h]; rfl

/-- **What is ingested again**: every eligible file, or those whose modification time is not
the recorded one. -/
theorem mem_changed_append_new :
    path ∈ (checkCollectionChanges setup files root progress activeModel).changedFiles ++
        (checkCollectionChanges setup files root progress activeModel).newFiles ↔
      path ∈ iterEligibleFiles setup files root ∧
        (forceFullReindex setup progress activeModel = true ∨
          isCurrent files (loadFileMtimes progress) path = false) := by
  unfold checkCollectionChanges
  cases hfor : forceFullReindex setup progress activeModel with
  | true => simp
  | false =>
    simp only [Bool.false_eq_true, if_false, false_or, mem_append, mem_filter,
      Bool.and_eq_true, Bool.not_eq_true']
    constructor
    · rintro (⟨helig, -, hnot⟩ | ⟨helig, hn⟩)
      · exact ⟨helig, hnot⟩
      · refine ⟨helig, ?_⟩
        simp [isCurrent, isNone_iff_eq_none.mp hn]
    · rintro ⟨helig, hnot⟩
      cases hg : Dict.get (loadFileMtimes progress) path with
      | none => exact Or.inr ⟨helig, rfl⟩
      | some mtime => exact Or.inl ⟨helig, rfl, hnot⟩

theorem mem_deletedPaths :
    path ∈ (checkCollectionChanges setup files root progress activeModel).deletedPaths ↔
      (Dict.get (loadFileMtimes progress) path).isSome = true ∧
        path ∉ iterEligibleFiles setup files root := by
  have hks : path ∈ (loadFileMtimes progress).items.map Prod.fst ↔
      (Dict.get (loadFileMtimes progress) path).isSome = true := by
    rw [isSome_iff_exists, List.mem_map]
    constructor
    · rintro ⟨⟨q, mtime⟩, hm, rfl⟩
      exact ⟨mtime, Dict.get_eq_some_iff.mpr hm⟩
    · rintro ⟨mtime, hg⟩
      exact ⟨(path, mtime), Dict.get_eq_some_iff.mp hg, rfl⟩
  have hdel : (checkCollectionChanges setup files root progress activeModel).deletedPaths =
      ((loadFileMtimes progress).items.map Prod.fst).filter fun path =>
        !(iterEligibleFiles setup files root).contains path := by
    unfold checkCollectionChanges
    split_ifs
    · rfl
    · rfl
  rw [hdel, mem_filter, hks]
  simp

theorem consistent_checkCollectionChanges :
    (checkCollectionChanges setup files root progress activeModel).Consistent setup files root where
  deleted _ hm := (mem_deletedPaths.mp hm).2
  changed _ hm := (mem_changed_append_new.mp (mem_append_left _ hm)).1
  new _ hm := (mem_changed_append_new.mp (mem_append_right _ hm)).1
  disjoint path hm hw := by
    unfold checkCollectionChanges at hm hw
    split_ifs at hm hw
    · exact absurd hw not_mem_nil
    · have hs := (Bool.and_eq_true _ _ ▸ (mem_filter.mp hm).2 : _ ∧ _).1
      rw [isNone_iff_eq_none.mp (mem_filter.mp hw).2] at hs
      cases hs
  nodupDeleted := by
    unfold checkCollectionChanges
    split_ifs
    · exact (loadFileMtimes progress).nodup.filter _
    · exact (loadFileMtimes progress).nodup.filter _
  nodupChanged := by
    unfold checkCollectionChanges
    split_ifs
    · exact nodup_sortedFiles fun path _ => isEligible setup root path
    · exact (nodup_sortedFiles _).filter _
  nodupNew := by
    unfold checkCollectionChanges
    split_ifs
    · exact nodup_nil
    · exact (nodup_sortedFiles _).filter _

/-- **Where nothing is stale the collection is in line.** The files that are not ingested
again are stored as they are, and those that are gone are deleted. -/
theorem converged_of_check {contents : Path → List χ}
    (hchg : checkCollectionChanges setup files root progress activeModel = changes)
    (hrd : Checkable setup files root rows progress activeModel replies)
    (hacc : Accurate setup files (loadFileMtimes progress) (chunksIn rows))
    (hdel : ∀ path ∈ changes.deletedPaths, contents path = [])
    (hing : ∀ path ∈ changes.changedFiles ++ changes.newFiles,
      contents path = chunksOf setup files path)
    (hoth : ∀ path, path ∉ changes.deletedPaths → path ∉ changes.changedFiles →
      path ∉ changes.newFiles → contents path = chunksIn rows path) (path : Path) :
    contents path = if path ∈ iterEligibleFiles setup files root then
      chunksOf setup files path else [] := by
  subst hchg
  by_cases hm : path ∈ (checkCollectionChanges setup files root progress
      activeModel).changedFiles ++
    (checkCollectionChanges setup files root progress activeModel).newFiles
  · rw [if_pos (mem_changed_append_new.mp hm).1]
    exact hing path hm
  by_cases hgone : path ∈ (checkCollectionChanges setup files root progress
      activeModel).deletedPaths
  · rw [if_neg (mem_deletedPaths.mp hgone).2]
    exact hdel path hgone
  have hk := hoth path hgone (fun h => hm (mem_append_left _ h)) fun h => hm (mem_append_right _ h)
  rw [hk]
  split_ifs with helig
  · -- it still has the recorded modification time
    obtain ⟨file, hf, -⟩ := mem_iterEligibleFiles.mp helig
    have hcur : isCurrent files (loadFileMtimes progress) path = true := by
      by_contra hnot
      exact hm (mem_changed_append_new.mpr ⟨helig, Or.inr (Bool.not_eq_true _ ▸ hnot)⟩)
    exact hacc path file hf ((isCurrent_eq_true_iff hf).mp hcur)
  · by_contra hne
    obtain ⟨row, hr, rfl⟩ := exists_row_of_chunksIn_ne_nil hne
    rcases hrd.deletedRecorded row hr with hsto | hrecd
    · exact helig hsto
    · exact hgone (mem_deletedPaths.mpr ⟨hrecd, helig⟩)

/-- **A collection is brought up to date.** -/
theorem spec_applyCollectionChanges
    (hrd : Checkable setup files root rows progress activeModel replies)
    (hacc : Accurate setup files (loadFileMtimes progress) (chunksIn rows)) :
    Part setup n
      (fun s => Written setup n files replies (chunksIn rows) True s ∧ s.writer = some n)
      (applyCollectionChanges setup n activeModel
        (checkCollectionChanges setup files root progress activeModel) (loadFileMtimes progress))
      (fun error s => Written setup n files replies (s.world.contents n)
        (error = none → Converged setup s.world n root) s) := by
  refine spec_read fun _ _ => (spec_firstUpdate inProgress_ne_done).bind fun _ => ?_
  refine Spec.bind (spec_applyFiles consistent_checkCollectionChanges hacc
    (fun path hm => ?_) ?_) ?_
  · obtain ⟨helig, hstale⟩ := mem_changed_append_new.mp hm
    exact hrd.blank path helig hstale
  · cases hfor : forceFullReindex setup progress activeModel with
    | true => exact Or.inl (hrd.whole hfor)
    | false =>
      refine Or.inr fun path hm file hf hmt => ?_
      obtain ⟨-, hstale⟩ := mem_changed_append_new.mp hm
      have hnot := hstale.resolve_left (by rw [hfor]; decide)
      rw [(isCurrent_eq_true_iff hf).mpr hmt] at hnot
      cases hnot
  rintro ⟨complete, draft⟩
  intro t ht
  cases complete with
  | false =>
    refine (Spec.bind (spec_lastUpdate (fun h => by cases h)) fun _ =>
      spec_pure fun s hs => ?_) t ht.writing
    exact { hs with contents := rfl, failed := Or.inr fun h => by cases h }
  | true =>
    refine (Spec.bind (spec_lastUpdate fun _ => ht.accurate rfl) fun _ =>
      spec_pure fun s hs => ?_) t ht.writing
    refine { hs with contents := rfl, failed := hs.failed.imp_right fun hall _ path => ?_ }
    obtain ⟨hdel, hing⟩ := hall rfl
    rw [hs.files, hs.contents]
    exact converged_of_check rfl hrd hacc hdel hing ht.others path

end ArchonSearch.Sync
