import ArchonSearch.Sync.Session

/-!
# What a sync leaves alone

A sync takes the collections one after another. While it works on one of them the others are only
touched by the edits of the config that happen meanwhile: a `DELETE` may drop a table and take a
path from the config, and nothing else. The relation `Elsewhere` says this of a collection. A
program of the sync makes calls and works on one collection, and so it follows every relation that
these follow (`Follows`); where it works on another collection this is one of them
(`follows_elsewhere`).

A collection that is being written is not deleted meanwhile (`get_tables_await`).
-/

namespace ArchonSearch.Sync

open Lib Prog List

variable {γ τ χ : Type} {setup : Setup γ χ}

/-! ### Edits of the config -/

def Edit.deleted : Edit → Option Name
  | delete n _ => some n
  | add _ => none

/-- None of the edits deletes the collection. -/
def NeverDeleted (n : Name) (edits : List Edit) : Prop := ∀ e ∈ edits, e.deleted ≠ some n

def NoneDeleted (edits : List Edit) : Prop := ∀ e ∈ edits, e.deleted = none

def NoneAdded (edits : List Edit) : Prop := ∀ e ∈ edits, e.deleted ≠ none

/-- From one world to another, through edits of the config and work on other collections
than `n`. -/
structure Keeps (setup : Setup γ χ) (n : Name) (edits : List Edit) (w w' : World γ τ χ) :
    Prop where
  files : w'.files = w.files
  directories : w'.directories = w.directories
  progress : Dict.get w'.collections n = Dict.get w.collections n
  /-- The table is the same, or it was dropped by a `DELETE`. -/
  table : Dict.get w'.tables n = Dict.get w.tables n ∨
    Dict.get w'.tables n = none ∧ ¬NeverDeleted n edits
  shrinks : NoneAdded edits → ∀ path ∈ w'.config, path ∈ w.config
  grows : NoneDeleted edits → ∀ path ∈ w.config, path ∈ w'.config
  intact : NoneAdded edits → DistinctNames setup w.config →
    ∀ path ∈ w'.config, pathToCollectionName setup path = n →
      Dict.get w'.tables n = Dict.get w.tables n

variable {n : Name} {es es' : List Edit} {w w' w'' : World γ τ χ}

theorem Keeps.of_eq (hfs : w'.files = w.files) (hdir : w'.directories = w.directories)
    (hconf : w'.config = w.config)
    (hprog : Dict.get w'.collections n = Dict.get w.collections n)
    (htab : Dict.get w'.tables n = Dict.get w.tables n) : Keeps setup n es w w' where
  files := hfs
  directories := hdir
  progress := hprog
  table := Or.inl htab
  shrinks _ _ h := hconf ▸ h
  grows _ _ h := hconf ▸ h
  intact _ _ _ _ _ := htab

theorem Keeps.refl (w : World γ τ χ) : Keeps setup n es w w := .of_eq rfl rfl rfl rfl rfl

theorem Keeps.mono (h : Keeps setup n es w w') (hsub : ∀ e ∈ es, e ∈ es') :
    Keeps setup n es' w w' where
  files := h.files
  directories := h.directories
  progress := h.progress
  table := h.table.imp_right fun ⟨hn, hdel⟩ =>
    ⟨hn, fun hnev => hdel fun e hm => hnev e (hsub e hm)⟩
  shrinks hadd := h.shrinks fun e hm => hadd e (hsub e hm)
  grows hdel := h.grows fun e hm => hdel e (hsub e hm)
  intact hadd := h.intact fun e hm => hadd e (hsub e hm)

theorem Keeps.trans (h : Keeps setup n es w w') (h' : Keeps setup n es w' w'') :
    Keeps setup n es w w'' where
  files := h'.files.trans h.files
  directories := h'.directories.trans h.directories
  progress := h'.progress.trans h.progress
  table := by
    rcases h'.table with heq | hn
    · rcases h.table with heq' | ⟨hn, hdel⟩
      · exact Or.inl (heq.trans heq')
      · exact Or.inr ⟨heq.trans hn, hdel⟩
    · exact Or.inr hn
  shrinks hadd path hm := h.shrinks hadd path (h'.shrinks hadd path hm)
  grows hdel path hm := h'.grows hdel path (h.grows hdel path hm)
  intact hadd hdis path hm hnm := by
    have hm' := h'.shrinks hadd path hm
    have hdis' : DistinctNames setup w'.config := fun p hp q hq =>
      hdis p (h.shrinks hadd p hp) q (h.shrinks hadd q hq)
    rw [h'.intact hadd hdis' path hm hnm, h.intact hadd hdis path hm' hnm]

variable {path : Path}

/-- A path whose name is not shared is found under it. -/
theorem get_allCollectionPaths {config : List Path} (hdis : DistinctNames setup config)
    (h : path ∈ config) :
    Dict.get (allCollectionPaths setup config) (pathToCollectionName setup path) = some path := by
  rw [Dict.get_eq_some_iff, Keyed.mem_def, allCollectionPaths, Keyed.items_ofList]
  · exact mem_map_of_mem (mem_eraseDups.mpr h)
  · rw [map_map]
    refine List.Nodup.map_on (fun a ha b hb => ?_) (nodup_eraseDups rfl)
    exact hdis a (mem_eraseDups.mp ha) b (mem_eraseDups.mp hb)

variable {dropped : Bool}

/-- A `DELETE` configures nothing. -/
theorem mem_config_of_delete {m : Name}
    (h : path ∈ (w.delete setup m dropped).config) : path ∈ w.config := by
  simp only [World.delete] at h
  split at h
  · exact mem_of_mem_filter h
  · exact h

/-- A `DELETE` takes the path from the config, where it finds it. -/
theorem notMem_config_delete (hdis : DistinctNames setup w.config) :
    path ∉ (w.delete setup (pathToCollectionName setup path) dropped).config := by
  intro h
  simp only [World.delete, get_allCollectionPaths hdis (mem_config_of_delete h)] at h
  simp at h

/-- A `DELETE` of another collection leaves the table. -/
theorem get_tables_delete {m : Name} (h : n ≠ m) :
    Dict.get (w.delete setup m dropped).tables n = Dict.get w.tables n := by
  simp only [World.delete]
  split_ifs
  · rw [Dict.get_erase, if_neg h]
  · rfl

theorem keeps_delete (m : Name) (dropped : Bool) (hm : Edit.delete m dropped ∈ es) :
    Keeps setup n es w (w.delete setup m dropped) where
  files := rfl
  directories := rfl
  progress := rfl
  table := by
    by_cases hne : n = m
    · subst hne
      cases dropped with
      | false => exact Or.inl rfl
      | true =>
        refine Or.inr ⟨?_, fun hnev => hnev _ hm rfl⟩
        simp [World.delete, Dict.get_erase]
    · exact Or.inl (get_tables_delete hne)
  shrinks _ path h := mem_config_of_delete h
  grows hdel := absurd (hdel _ hm) (Option.some_ne_none m)
  intact hadd hdis path hp hname := by
    refine get_tables_delete fun hnm => ?_
    subst hnm hname
    exact notMem_config_delete hdis hp

theorem keeps_edit {writer : Option Name} {e : Edit} (hm : e ∈ es) :
    Keeps setup n es w (w.edit setup writer e) := by
  cases e with
  | delete m dropped =>
    rw [World.edit]
    split_ifs
    · exact .refl w
    · exact keeps_delete m dropped hm
  | add path =>
    refine ⟨rfl, rfl, rfl, Or.inl rfl, fun hadd => ?_, fun _ p hp => ?_, fun _ _ _ _ _ => rfl⟩
    · exact absurd rfl (hadd _ hm)
    · exact mem_append_left _ hp

theorem keeps_edits (writer : Option Name) (l : List Edit) (hsub : ∀ e ∈ l, e ∈ es) :
    Keeps setup n es w (l.foldl (World.edit setup writer) w) := by
  induction l generalizing w with
  | nil => exact .refl w
  | cons e l ih =>
    exact (keeps_edit (hsub e mem_cons_self)).trans
      (ih fun e' he' => hsub e' (mem_cons_of_mem e he'))

/-- **A collection that is being written keeps its table.** -/
theorem get_tables_edits (es : List Edit) :
    Dict.get (es.foldl (World.edit setup (some n)) w).tables n = Dict.get w.tables n := by
  induction es generalizing w with
  | nil => rfl
  | cons e es ih =>
    refine (ih (w := w.edit setup (some n) e)).trans ?_
    cases e with
    | delete m dropped =>
      rw [World.edit]
      split_ifs with hm
      · rfl
      · exact get_tables_delete fun hnm => hm (congrArg some hnm)
    | add path => rfl

/-! ### Sessions -/

def Session.edits (s : Session γ τ χ) : List Edit := s.replies.flatMap Reply.edits

/-- From one session to another, through calls and work on other collections than `n`. -/
structure Elsewhere (setup : Setup γ χ) (n : Name) (s s' : Session γ τ χ) : Prop where
  world : Keeps setup n s.edits s.world s'.world
  replies : ∀ reply ∈ s'.replies, reply ∈ s.replies
  failed : s.failed = true → s'.failed = true

variable {s s' : Session γ τ χ}

theorem Elsewhere.edits (h : Elsewhere setup n s s') : ∀ e ∈ s'.edits, e ∈ s.edits := by
  intro e he
  obtain ⟨reply, hrep, hm⟩ := mem_flatMap.mp he
  exact mem_flatMap.mpr ⟨reply, h.replies reply hrep, hm⟩

instance : Std.Refl (Elsewhere (τ := τ) setup n) :=
  ⟨fun s => ⟨.refl s.world, fun _ => id, id⟩⟩

instance : IsTrans (Session γ τ χ) (Elsewhere setup n) :=
  ⟨fun _ _ _ h h' => ⟨h.world.trans (h'.world.mono h.edits),
    fun reply hmem => h.replies reply (h'.replies reply hmem), fun hf => h'.failed (h.failed hf)⟩⟩

theorem Elsewhere.of_world (hwor : Keeps setup n s.edits s.world s'.world)
    (hreps : s'.replies = s.replies) (hfa : s.failed = true → s'.failed = true) :
    Elsewhere setup n s s' :=
  ⟨hwor, fun _ hm => hreps ▸ hm, hfa⟩

theorem elsewhere_await {reply : Reply} {replies : List Reply} (h : s.replies = reply :: replies) :
    Elsewhere setup n s (s.await setup reply replies) where
  world := keeps_edits s.writer reply.edits fun e he => by
    rw [Session.edits, h, flatMap_cons]
    exact mem_append_left _ he
  replies r hm := h ▸ mem_cons_of_mem reply hm
  failed := id

/-! ### Work on one collection -/

/-- Work on the collection `m`: what differs is its table and its indexing state, who writes, and
whether something has failed. -/
structure Touches (m : Name) (s s' : Session γ τ χ) : Prop where
  files : s'.world.files = s.world.files
  directories : s'.world.directories = s.world.directories
  config : s'.world.config = s.world.config
  manifest : s'.world.manifest = s.world.manifest
  tables : ∀ n, n ≠ m → Dict.get s'.world.tables n = Dict.get s.world.tables n
  progress : ∀ n, n ≠ m → Dict.get s'.world.collections n = Dict.get s.world.collections n
  replies : s'.replies = s.replies
  failed : s.failed = true → s'.failed = true

variable {m : Name} {s'' : Session γ τ χ}

theorem Touches.refl (s : Session γ τ χ) : Touches m s s :=
  ⟨rfl, rfl, rfl, rfl, fun _ _ => rfl, fun _ _ => rfl, rfl, id⟩

theorem Touches.trans (h : Touches m s s') (h' : Touches m s' s'') : Touches m s s'' where
  files := h'.files.trans h.files
  directories := h'.directories.trans h.directories
  config := h'.config.trans h.config
  manifest := h'.manifest.trans h.manifest
  tables n hn := (h'.tables n hn).trans (h.tables n hn)
  progress n hn := (h'.progress n hn).trans (h.progress n hn)
  replies := h'.replies.trans h.replies
  failed hf := h'.failed (h.failed hf)

theorem touches_setTable (s : Session γ τ χ) (rows : Rows χ) : Touches m s (s.setTable m rows) :=
  { Touches.refl s with tables := fun _ hn => Dict.get_insert_of_ne _ hn _ }

theorem touches_dropTable (s : Session γ τ χ) :
    Touches m s { s with world := { s.world with tables := s.world.tables.erase m } } :=
  { Touches.refl s with tables := fun _ hn => by rw [Dict.get_erase, if_neg hn] }

theorem touches_forget (s : Session γ τ χ) :
    Touches m s { s with world := { s.world with collections := s.world.collections.erase m } } :=
  { Touches.refl s with progress := fun _ hn => by rw [Dict.get_erase, if_neg hn] }

theorem touches_setProgress (s : Session γ τ χ) (progress : CollectionProgress τ) :
    Touches m s { s with
      world := { s.world with collections := s.world.collections.insert (m, progress) } } :=
  { Touches.refl s with progress := fun _ hn => Dict.get_insert_of_ne _ hn _ }

theorem touches_setWriter (s : Session γ τ χ) (writer : Option Name) :
    Touches m s { s with writer := writer } :=
  { Touches.refl s with }

theorem touches_noteFailure (s : Session γ τ χ) : Touches m s s.noteFailure :=
  { Touches.refl s with failed := fun _ => rfl }

theorem touches_writeDocument (path : Path) (chunks : List χ) (written : Option ℕ)
    (s : Session γ τ χ) : Touches m s (s.writeDocument m path chunks written) := by
  unfold Session.writeDocument
  cases written with
  | none => exact .refl s
  | some k =>
    dsimp only
    split_ifs
    · exact .refl s
    · exact touches_setTable s _

theorem touches_deleteDocument (path : Path) (s : Session γ τ χ) :
    Touches m s (s.deleteDocument m path) := by
  unfold Session.deleteDocument
  split
  · exact touches_setTable s _
  · exact .refl s

/-! ### The programs -/

/-- Calls, and work on the collection `m`, follow the relation. -/
structure Follows (setup : Setup γ χ) (m : Name) (R : Session γ τ χ → Session γ τ χ → Prop) :
    Prop where
  await : ∀ {s : Session γ τ χ} {reply replies}, s.replies = reply :: replies →
    R s (s.await setup reply replies)
  touch : ∀ {s s'}, Touches m s s' → R s s'

section

variable {R : Session γ τ χ → Session γ τ χ → Prop} [Std.Refl R] [IsTrans _ R]

omit [IsTrans _ R] in
theorem moves_call (hawait : ∀ {s : Session γ τ χ} {reply replies},
    s.replies = reply :: replies → R s (s.await setup reply replies)) :
    Moves R (call setup) := by
  intro s
  unfold call
  split
  · exact refl_of _ s
  · exact hawait ‹_›

theorem moves_write (hawait : ∀ {s : Session γ τ χ} {reply replies},
      s.replies = reply :: replies → R s (s.await setup reply replies))
    {f : World γ τ χ → World γ τ χ} (hf : ∀ s, R s { s with world := f s.world }) :
    Moves R (write setup f) := by
  refine (moves_call hawait).bind fun outcome => ?_
  cases outcome with
  | dies => exact moves_die
  | _ => exact moves_modify hf

theorem moves_attempt (hawait : ∀ {s : Session γ τ χ} {reply replies},
    s.replies = reply :: replies → R s (s.await setup reply replies)) :
    Moves R (attempt setup) := by
  refine (moves_call hawait).bind fun outcome => ?_
  cases outcome with
  | dies => exact moves_die
  | _ => exact moves_pure

variable (hR : Follows setup m R)
include hR

theorem moves_safeStateUpdate (progress : CollectionProgress τ) :
    Moves R (safeStateUpdate setup m progress) :=
  moves_write hR.await fun s => hR.touch (touches_setProgress s progress)

theorem moves_ingestFile (path : Path) : Moves R (ingestFile setup m path) := by
  have hfails (chunks : List χ) (written : Option ℕ) (s : Session γ τ χ) :
      R s (s.writeDocument m path chunks written).noteFailure :=
    hR.touch ((touches_writeDocument path chunks written s).trans (touches_noteFailure _))
  refine moves_get.bind fun s => ?_
  cases Dict.get s.world.files path with
  | none =>
    exact (moves_modify fun s => hR.touch (touches_noteFailure s)).bind fun _ =>
      moves_pure
  | some file =>
    refine moves_ite moves_pure (moves_ite ?_ ?_)
    · exact (moves_modify fun s => hR.touch (touches_noteFailure s)).bind fun _ =>
        moves_pure
    have hw (written : Option ℕ) :
        Moves R (modify (Session.writeDocument m path (setup.chunks path file.content) written)) :=
      moves_modify fun s => hR.touch (touches_writeDocument path _ written s)
    refine (moves_call hR.await).bind fun outcome => ?_
    cases outcome with
    | returns => exact (hw _).bind fun _ => moves_pure
    | fails written => exact (moves_modify (hfails _ written)).bind fun _ => moves_pure
    | raises written => exact (moves_modify (hfails _ written)).bind fun _ => moves_pure
    | dies written => exact (hw written).bind fun _ => moves_die

theorem moves_deleteBySourcePath (path : Path) :
    Moves R (deleteBySourcePath setup m path) := by
  have hdel : Moves R (modify (Session.deleteDocument m path)) :=
    moves_modify fun s => hR.touch (touches_deleteDocument path s)
  refine (moves_call hR.await).bind fun outcome => ?_
  rcases outcome with _ | _ | (_ | _) | (_ | _)
  · exact hdel.bind fun _ => moves_pure
  · exact hdel.bind fun _ => moves_pure
  · exact moves_pure
  · exact hdel.bind fun _ => moves_pure
  · exact moves_die
  · exact hdel.bind fun _ => moves_die

theorem moves_ingestFiles (resumePaths paths newPaths : List Path) :
    Moves R (ingestFiles setup m resumePaths paths newPaths) := by
  induction paths generalizing newPaths with
  | nil => exact moves_pure
  | cons path paths ih =>
    refine (moves_ingestFile hR path).bind fun status => ?_
    cases status with
    | ok => exact (moves_when (moves_safeStateUpdate hR _)).bind fun _ => ih _
    | error => exact ih newPaths
    | raised => exact moves_pure

theorem moves_ingestDirectory (root : Path) (resumePaths : List Path) :
    Moves R (ingestDirectory setup m root resumePaths) := by
  refine (moves_attempt hR.await).bind fun allowed => moves_ite ?_ moves_pure
  refine moves_get.bind fun s => moves_ite moves_pure ?_
  refine moves_ite moves_pure ?_
  refine (moves_attempt hR.await).bind fun resolved => moves_ite ?_ moves_pure
  refine (moves_ingestFiles hR resumePaths _ []).bind fun result => ?_
  refine moves_ite ?_ moves_pure
  exact (moves_attempt hR.await).bind fun _ => moves_pure

theorem moves_ingestCollection (root : Path) (activeModel : String) :
    Moves R (ingestCollection setup m root activeModel) := by
  refine moves_get.bind fun s => ?_
  refine (moves_when (moves_safeStateUpdate hR _)).bind fun _ => ?_
  refine (moves_safeStateUpdate hR _).bind fun _ => ?_
  refine (moves_ingestDirectory hR root _).bind fun result => ?_
  refine moves_get.bind fun t => moves_ite ?_ ?_
  · exact (moves_safeStateUpdate hR _).bind fun _ => moves_pure
  · exact (moves_safeStateUpdate hR _).bind fun _ => moves_pure

theorem moves_checkpoint (activeModel : String) (draft : Draft τ) :
    Moves R (checkpoint setup m activeModel draft) :=
  (moves_when (moves_safeStateUpdate hR _)).bind fun _ => moves_pure

theorem moves_applyDeleted (activeModel : String) (paths : List Path) (draft : Draft τ) :
    Moves R (applyDeleted setup m activeModel paths draft) := by
  induction paths generalizing draft with
  | nil => exact moves_pure
  | cons path paths ih =>
    refine (moves_deleteBySourcePath hR path).bind fun returned => ?_
    refine moves_ite ?_ moves_pure
    exact (moves_checkpoint hR activeModel _).bind fun draft => ih draft

theorem moves_applyIngested (activeModel : String) (changed : Bool) (paths : List Path)
    (draft : Draft τ) : Moves R (applyIngested setup m activeModel changed paths draft) := by
  induction paths generalizing draft with
  | nil => exact moves_pure
  | cons path paths ih =>
    refine (moves_ingestFile hR path).bind fun status => ?_
    cases status with
    | ok =>
      refine moves_get.bind fun s => ?_
      exact (moves_checkpoint hR activeModel _).bind fun draft => ih draft
    | error => exact (moves_checkpoint hR activeModel _).bind fun draft => ih draft
    | raised => exact moves_pure

theorem moves_applyFiles (activeModel : String) (changes : Changes) (draft : Draft τ) :
    Moves R (applyFiles setup m activeModel changes draft) := by
  refine (moves_applyDeleted hR activeModel _ _).bind fun r => ?_
  refine moves_ite ?_ moves_pure
  refine (moves_applyIngested hR activeModel true _ _).bind fun r => ?_
  refine moves_ite ?_ moves_pure
  refine (moves_applyIngested hR activeModel false _ _).bind fun r => ?_
  refine moves_ite ?_ moves_pure
  exact (moves_attempt hR.await).bind fun _ => moves_pure

theorem moves_applyCollectionChanges (activeModel : String) (changes : Changes)
    (mtimes : Dict Path τ) :
    Moves R (applyCollectionChanges setup m activeModel changes mtimes) := by
  refine moves_get.bind fun s => (moves_safeStateUpdate hR _).bind fun _ => ?_
  refine (moves_applyFiles hR activeModel changes _).bind fun result => moves_ite ?_ ?_
  · exact (moves_safeStateUpdate hR _).bind fun _ => moves_pure
  · exact (moves_safeStateUpdate hR _).bind fun _ => moves_pure

theorem moves_writeCollection (path : Path) {update : Prog (Session γ τ χ) (Option String)}
    (hupd : Moves R update) : Moves R (writeCollection setup m path update) := by
  have hwr (writer : Option Name) :
      Moves R (modify fun s : Session γ τ χ => { s with writer := writer }) :=
    moves_modify fun s => hR.touch (touches_setWriter s writer)
  refine (moves_attempt hR.await).bind fun registered => moves_ite ?_ moves_pure
  refine (hwr (some m)).bind fun _ => moves_get.bind fun s => ?_
  refine moves_ite (hupd.bind fun error => ?_) ?_
  · refine (hwr none).bind fun _ => ?_
    cases error with
    | none => exact moves_pure
    | some detail => exact moves_pure
  · exact (hwr none).bind fun _ => moves_pure

theorem moves_ingestTurn (desired : Dict Name Path) (activeModel : Name → String) :
    Moves R (ingestTurn setup desired activeModel m) := by
  refine moves_get.bind fun s => moves_ite ?_ moves_pure
  exact moves_writeCollection hR _ (moves_ingestCollection hR _ _)

theorem moves_checkTurn [DecidableEq τ] (desired : Dict Name Path) (activeModel : Name → String)
    (state : Dict Name (CollectionProgress τ)) :
    Moves R (checkTurn setup desired activeModel state m) := by
  refine moves_get.bind fun s => moves_ite ?_ moves_pure
  refine moves_ite moves_pure ?_
  exact moves_writeCollection hR _ (moves_applyCollectionChanges hR _ _ _)

theorem moves_dropIfIdle : Moves R (dropIfIdle setup m) := by
  have hd : Moves R (modify fun s =>
      { s with world := { s.world with tables := s.world.tables.erase m } }) :=
    moves_modify fun s => hR.touch (touches_dropTable s)
  refine (moves_call hR.await).bind fun outcome => ?_
  rcases outcome with _ | _ | (_ | _) | (_ | _)
  · refine moves_get.bind fun s => ?_
    cases Dict.get s.world.tables m with
    | none => exact moves_pure
    | some rows =>
      refine hd.bind fun _ => Moves.bind ?_ fun _ => moves_pure
      exact moves_write hR.await fun s => hR.touch (touches_forget s)
  · exact moves_pure
  · exact moves_die
  · exact hd.bind fun _ => moves_die
  · exact moves_die
  · exact hd.bind fun _ => moves_die

end

/-! ### Another collection -/

/-- Calls, and work on another collection, are elsewhere. -/
theorem follows_elsewhere (h : n ≠ m) : Follows setup m (Elsewhere (τ := τ) setup n) where
  await := elsewhere_await
  touch ht := .of_world (.of_eq ht.files ht.directories ht.config (ht.progress n h) (ht.tables n h))
    ht.replies ht.failed

theorem elsewhere_write {f : World γ τ χ → World γ τ χ}
    (h : ∀ w es, Keeps setup n es w (f w)) : Moves (Elsewhere setup n) (write setup f) :=
  moves_write elsewhere_await fun s => .of_world (h s.world s.edits) rfl id

theorem elsewhere_call : Moves (Elsewhere (τ := τ) setup n) (call setup) :=
  moves_call elsewhere_await

theorem elsewhere_attempt : Moves (Elsewhere (τ := τ) setup n) (attempt setup) :=
  moves_attempt elsewhere_await

theorem elsewhere_ingestTurn (h : n ≠ m) (desired : Dict Name Path) (activeModel : Name → String) :
    Moves (Elsewhere (τ := τ) setup n) (ingestTurn setup desired activeModel m) :=
  moves_ingestTurn (follows_elsewhere h) desired activeModel

/-- The turn of another collection that is `DONE`. -/
theorem elsewhere_checkTurn [DecidableEq τ] (h : n ≠ m) (desired : Dict Name Path)
    (activeModel : Name → String) (state : Dict Name (CollectionProgress τ)) :
    Moves (Elsewhere setup n) (checkTurn setup desired activeModel state m) :=
  moves_checkTurn (follows_elsewhere h) desired activeModel state

theorem elsewhere_dropIfIdle (h : n ≠ m) :
    Moves (Elsewhere (τ := τ) setup n) (dropIfIdle setup m) :=
  moves_dropIfIdle (follows_elsewhere h)

end ArchonSearch.Sync
