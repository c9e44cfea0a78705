import ArchonSearch.Sync.Converge

/-!
# What the syncs manage

A sync drops the collections that are not configured any more, if it manages them: if they are in
its manifest. The manifest is written anew at the end of each sync, from what has become of every
configured collection; those that could not be brought in order are not in it, and neither are those
that were deleted while the sync was running. A collection that has left the manifest while it has
its table stays in the store for good, if its path leaves the config before a sync gets it in order
again (`forgotten`).

`managed_until` says how long a collection stays in the manifest, and what a sync does with one that
is not configured any more.
-/

namespace ArchonSearch.Sync

open Lib Prog List

variable {γ τ χ : Type} {setup : Setup γ χ} {n : Name} {path : Path} {replies : List Reply}
  {w w' : World γ τ χ} {s s' s₀ : Session γ τ χ}

/-! ### What has to hold -/

def World.managed (w : World γ τ χ) : List Name := w.manifest.items.map Prod.fst

/-- A `DELETE` has taken the path from the config while a sync was running. -/
def DeletedMeanwhile (setup : Setup γ χ) (replies : List Reply) (path : Path) : Prop :=
  ∃ dropped, Edit.delete (pathToCollectionName setup path) dropped ∈ replies.flatMap Reply.edits

/-- A sync reports an error of a configured collection: its path does not exist, it is busy, or its
ingest or its update has failed. -/
def Reports (result : SyncResult) (n : Name) (path : Path) : Prop :=
  ∃ turn : Turn, (turn = .pathMissing path ∨ turn = .failed (collectionSyncBusyDetail n) ∨
    turn = .failed (collectionSyncFailedDetail n)) ∧ ∃ detail ∈ turn.error, detail ∈ result.errors

/-- What a sync does with a collection of the manifest. -/
structure Handled (setup : Setup γ χ) (w : World γ τ χ) (replies : List Reply)
    (result : SyncResult) (w' : World γ τ χ) (n : Name) : Prop where
  configured : ∀ path, (n, path) ∈ buildDesired setup w.config →
    n ∈ w'.managed ∨ Reports result n path ∨ DeletedMeanwhile setup replies path
  unconfigured : n ∉ (buildDesired setup w.config).items.map Prod.fst →
    Dict.get w'.tables n = none ∨ n ∈ w'.managed ∧ collectionDropDeferredDetail n ∈ result.errors

/-! ### The config and the manifest -/

/-- From one session to another, with the same manifest; a path leaves the config by a `DELETE`. -/
structure Meanwhile (setup : Setup γ χ) (s s' : Session γ τ χ) : Prop where
  manifest : s'.world.manifest = s.world.manifest
  replies : ∀ reply ∈ s'.replies, reply ∈ s.replies
  config : ∀ path ∈ s.world.config, path ∈ s'.world.config ∨ DeletedMeanwhile setup s.replies path

theorem DeletedMeanwhile.mono {replies' : List Reply}
    (h : DeletedMeanwhile setup replies' path) (hsub : ∀ reply ∈ replies', reply ∈ replies) :
    DeletedMeanwhile setup replies path := by
  obtain ⟨dropped, hm⟩ := h
  obtain ⟨reply, hrep, hedit⟩ := mem_flatMap.mp hm
  exact ⟨dropped, mem_flatMap.mpr ⟨reply, hsub reply hrep, hedit⟩⟩

instance : Std.Refl (Meanwhile (τ := τ) setup) :=
  ⟨fun _ => ⟨rfl, fun _ => id, fun _ => Or.inl⟩⟩

instance : IsTrans (Session γ τ χ) (Meanwhile setup) where
  trans _ _ _ h h' :=
    { manifest := h'.manifest.trans h.manifest
      replies := fun reply hmem => h.replies reply (h'.replies reply hmem)
      config := fun path hpath => by
        rcases h.config path hpath with hpath | hdeleted
        · exact (h'.config path hpath).imp_right fun hdeleted => hdeleted.mono h.replies
        · exact Or.inr hdeleted }

/-- A `DELETE` takes no path from the config but one of its name. -/
theorem mem_config_delete {m : Name} {dropped : Bool} (h : path ∈ w.config)
    (hnm : pathToCollectionName setup path ≠ m) : path ∈ (w.delete setup m dropped).config := by
  simp only [World.delete]
  split
  · next q hq =>
    obtain ⟨p, -, heq⟩ := mem_map.mp (Keyed.mem_of_mem_ofList (Dict.get_eq_some_iff.mp hq))
    obtain ⟨rfl, rfl⟩ := Prod.mk.inj heq
    refine mem_filter.mpr ⟨h, ?_⟩
    simpa using fun hsa : path = p => hnm (congrArg _ hsa)
  · exact h

theorem config_edits (writer : Option Name) (edits : List Edit) (h : path ∈ w.config) :
    path ∈ (edits.foldl (World.edit setup writer) w).config ∨
      ∃ dropped, Edit.delete (pathToCollectionName setup path) dropped ∈ edits := by
  induction edits generalizing w with
  | nil => exact Or.inl h
  | cons e edits ih =>
    have hedit : path ∈ (w.edit setup writer e).config ∨
        ∃ dropped, e = Edit.delete (pathToCollectionName setup path) dropped := by
      cases e with
      | add p => exact Or.inl (mem_append_left _ h)
      | delete m dropped =>
        rw [World.edit]
        by_cases hnm : pathToCollectionName setup path = m
        · exact Or.inr ⟨dropped, by rw [hnm]⟩
        · split_ifs
          · exact Or.inl h
          · exact Or.inl (mem_config_delete h hnm)
    rcases hedit with hp | ⟨dropped, rfl⟩
    · rcases ih hp with hp | ⟨dropped, hm⟩
      · exact Or.inl hp
      · exact Or.inr ⟨dropped, mem_cons_of_mem e hm⟩
    · exact Or.inr ⟨dropped, mem_cons_self⟩

theorem manifest_edits (writer : Option Name) (edits : List Edit) :
    (edits.foldl (World.edit setup writer) w).manifest = w.manifest := by
  induction edits generalizing w with
  | nil => rfl
  | cons e edits ih =>
    refine (ih (w := w.edit setup writer e)).trans ?_
    cases e with
    | add p => rfl
    | delete m dropped =>
      rw [World.edit]
      split_ifs <;> rfl

theorem meanwhile_await {reply : Reply} {replies : List Reply}
    (h : s.replies = reply :: replies) : Meanwhile setup s (s.await setup reply replies) where
  manifest := manifest_edits s.writer reply.edits
  replies r hm := h ▸ mem_cons_of_mem reply hm
  config path hp := by
    rcases config_edits s.writer reply.edits hp with hp | ⟨dropped, hm⟩
    · exact Or.inl hp
    · refine Or.inr ⟨dropped, ?_⟩
      rw [h, flatMap_cons]
      exact mem_append_left _ hm

/-- Every program of a sync but the last follows this. -/
theorem follows_meanwhile (m : Name) : Follows setup m (Meanwhile (τ := τ) setup) where
  await := meanwhile_await
  touch ht := ⟨ht.manifest, fun _ hm => ht.replies ▸ hm, fun _ hp => Or.inl (ht.config ▸ hp)⟩

/-! ### The turns -/

def Turn.Explained (setup : Setup γ χ) (replies : List Reply) (n : Name) (path : Path) :
    Turn → Prop
  | written | unchanged => True
  | skipped => DeletedMeanwhile setup replies path
  | pathMissing p => p = path
  | failed detail => detail = collectionSyncBusyDetail n ∨ detail = collectionSyncFailedDetail n

def IsFailure (n : Name) (error : Option String) : Prop :=
  ∀ detail ∈ error, detail = collectionSyncFailedDetail n

theorem isFailure_none : IsFailure n none := fun _ h => by cases h

theorem isFailure_some : IsFailure n (some (collectionSyncFailedDetail n)) := fun _ h =>
  (Option.some.inj h).symm

theorem spec_ingestCollection_error (root : Path) (activeModel : String) :
    Spec (Meanwhile (τ := τ) setup s₀) (ingestCollection setup n root activeModel)
      (fun error s => Meanwhile setup s₀ s ∧ IsFailure n error) (Meanwhile setup s₀) := by
  have hupd (progress : CollectionProgress τ) :
      Preserves (Meanwhile setup s₀) (safeStateUpdate setup n progress) :=
    (moves_safeStateUpdate (follows_meanwhile n) progress).preserves_from s₀
  refine Spec.bind preserves_get fun s => ?_
  refine Spec.bind (spec_when (hupd _) fun _ => id) fun _ => ?_
  refine Spec.bind (hupd _) fun _ => ?_
  refine Spec.bind ((moves_ingestDirectory (follows_meanwhile n) root _).preserves_from s₀)
    fun result => ?_
  refine Spec.bind preserves_get fun t => spec_ite (fun _ => ?_) fun _ => ?_
  · exact Spec.bind (hupd _) fun _ => spec_pure fun s h => ⟨h, isFailure_none⟩
  · exact Spec.bind (hupd _) fun _ => spec_pure fun s h => ⟨h, isFailure_some⟩

theorem spec_applyCollectionChanges_error (activeModel : String) (changes : Changes)
    (mtimes : Dict Path τ) :
    Spec (Meanwhile setup s₀) (applyCollectionChanges setup n activeModel changes mtimes)
      (fun error s => Meanwhile setup s₀ s ∧ IsFailure n error) (Meanwhile setup s₀) := by
  have hupd (progress : CollectionProgress τ) :
      Preserves (Meanwhile setup s₀) (safeStateUpdate setup n progress) :=
    (moves_safeStateUpdate (follows_meanwhile n) progress).preserves_from s₀
  refine Spec.bind preserves_get fun s => ?_
  refine Spec.bind (hupd _) fun _ => ?_
  refine Spec.bind ((moves_applyFiles (follows_meanwhile n) activeModel changes _
    ).preserves_from s₀) fun result => spec_ite (fun _ => ?_) fun _ => ?_
  · exact Spec.bind (hupd _) fun _ => spec_pure fun s h => ⟨h, isFailure_none⟩
  · exact Spec.bind (hupd _) fun _ => spec_pure fun s h => ⟨h, isFailure_some⟩

theorem spec_writeCollection_explained (hp : path ∈ s₀.world.config)
    {update : Prog (Session γ τ χ) (Option String)}
    (hupd : Spec (Meanwhile setup s₀) update
      (fun error s => Meanwhile setup s₀ s ∧ IsFailure n error) (Meanwhile setup s₀)) :
    Spec (Meanwhile setup s₀) (writeCollection setup n path update)
      (fun turn s => Meanwhile setup s₀ s ∧
        turn.Explained setup s₀.replies n path ∧ turn ≠ .unchanged) (Meanwhile setup s₀) := by
  have hwr (writer : Option Name) : Preserves (Meanwhile (τ := τ) setup s₀)
      (modify fun s => { s with writer := writer }) :=
    preserves_modify fun s h => trans_of (Meanwhile setup) h
      ((follows_meanwhile n).touch (touches_setWriter s writer))
  refine Spec.bind ((moves_attempt meanwhile_await).preserves_from s₀) fun registered =>
    spec_ite (fun _ => ?_) fun _ => spec_pure fun s h => ⟨h, Or.inl rfl, by simp⟩
  refine Spec.bind (hwr (some n)) fun _ => spec_read fun t ht => ?_
  refine spec_ite (fun _ => ?_) fun hnot => ?_
  · refine hupd.bind fun error => Spec.of_imp' fun herr => ?_
    refine Spec.bind (hwr none) fun _ => ?_
    cases error with
    | none => exact spec_pure fun s h => ⟨h, trivial, by simp⟩
    | some detail => exact spec_pure fun s h => ⟨h, Or.inr (herr _ rfl), by simp⟩
  · refine Spec.bind (hwr none) fun _ => spec_pure fun s h => ⟨h, ?_, by simp⟩
    exact (ht.config path hp).resolve_left hnot

variable {desired : Dict Name Path}

theorem spec_ingestTurn_explained
    (hroot : Dict.get desired n = some path)
    (hp : path ∈ s₀.world.config) (activeModel : Name → String) :
    Spec (Meanwhile (τ := τ) setup s₀) (ingestTurn setup desired activeModel n)
      (fun turn s => Meanwhile setup s₀ s ∧
        turn.Explained setup s₀.replies n path ∧ turn ≠ .unchanged) (Meanwhile setup s₀) := by
  have hg : (Dict.get desired n).getD [] = path := by rw [hroot]; rfl
  refine Spec.bind preserves_get fun s => ?_
  rw [hg]
  refine spec_ite (fun _ => ?_) fun _ => spec_pure fun s h => ⟨h, rfl, by simp⟩
  exact spec_writeCollection_explained hp (spec_ingestCollection_error _ _)

variable [DecidableEq τ]

/-- The turn of a collection that is `DONE`. -/
theorem spec_checkTurn_explained (hroot : Dict.get desired n = some path)
    (hp : path ∈ s₀.world.config) (activeModel : Name → String)
    (state : Dict Name (CollectionProgress τ)) :
    Spec (Meanwhile setup s₀) (checkTurn setup desired activeModel state n)
      (fun turn s => Meanwhile setup s₀ s ∧ turn.Explained setup s₀.replies n path)
      (Meanwhile setup s₀) := by
  have hg : (Dict.get desired n).getD [] = path := by rw [hroot]; rfl
  refine Spec.bind preserves_get fun s => ?_
  rw [hg]
  refine spec_ite (fun _ => ?_) fun _ => spec_pure fun s h => ⟨h, rfl⟩
  refine spec_ite (fun _ => spec_pure fun s h => ⟨h, trivial⟩) fun _ => ?_
  exact (spec_writeCollection_explained hp (spec_applyCollectionChanges_error _ _ _)).mono
    (fun _ => id) (fun _ _ h => ⟨h.1, h.2.1⟩) fun _ => id

def Turns.Complete (setup : Setup γ χ) (replies : List Reply) (desired : Dict Name Path)
    (turns : Turns) : Prop :=
  ∀ n path, Dict.get desired n = some path →
    (∃ turn, (n, turn) ∈ turns.added ++ turns.resumed ∧ turn.Explained setup replies n path ∧
      turn ≠ .unchanged) ∨
    ∃ turn, (n, turn) ∈ turns.checked ∧ turn.Explained setup replies n path

variable {activeModel : Name → String}

/-- **The turns of a sync**, for all collections. -/
theorem spec_takeTurns_complete {existing managed : List Name}
    (hdes : ∀ n path, Dict.get desired n = some path → path ∈ s₀.world.config) :
    Spec (Meanwhile setup s₀) (takeTurns setup desired existing managed activeModel)
      (fun turns s => Meanwhile setup s₀ s ∧ turns.Complete setup s₀.replies desired)
      (Meanwhile setup s₀) := by
  have hhas {n : Name} (hn : n ∈ desired.items.map Prod.fst) :
      ∃ path, Dict.get desired n = some path := by
    obtain ⟨⟨_, path⟩, hm, rfl⟩ := mem_map.mp hn
    exact ⟨path, Dict.get_eq_some_iff.mpr hm⟩
  have heach {f : Name → Prog (Session γ τ χ) Turn} {G : Name → Path → Turn → Prop}
      (hf : ∀ n path, Dict.get desired n = some path → Spec (Meanwhile setup s₀) (f n)
        (fun turn s => Meanwhile setup s₀ s ∧ G n path turn) (Meanwhile setup s₀))
      (l : List Name) (hl : ∀ n ∈ l, n ∈ desired.items.map Prod.fst) :
      Spec (Meanwhile setup s₀) (mapEach f l)
        (fun bs s => Meanwhile setup s₀ s ∧ bs.map Prod.fst = l ∧ ∀ entry ∈ bs,
          ∀ path, Dict.get desired entry.1 = some path → G entry.1 path entry.2)
        (Meanwhile setup s₀) := by
    refine Spec.mapEach_each (G := fun n turn => ∀ path, Dict.get desired n = some path →
      G n path turn) fun n hn => ?_
    obtain ⟨path, hroot⟩ := hhas (hl n hn)
    refine (hf n path hroot).mono (fun _ => id) (fun turn s h => ⟨h.1, fun p hp => ?_⟩) fun _ => id
    obtain rfl : path = p := Option.some.inj (hroot.symm.trans hp)
    exact h.2
  have hing (activeModel : Name → String) := heach fun n path hroot =>
    spec_ingestTurn_explained hroot (hdes n path hroot) activeModel
  have hcheck (state : Dict Name (CollectionProgress τ)) := heach fun n path hroot =>
    spec_checkTurn_explained hroot (hdes n path hroot) activeModel state
  refine Spec.bind ((moves_mapEach fun m _ =>
    moves_dropIfIdle (follows_meanwhile m)).preserves_from s₀) fun drops => ?_
  refine Spec.bind (hing _ _ fun n hn => ?_) fun added =>
    Spec.of_imp' fun hadd => ?_
  · exact (mem_filter.mp (mem_sortIngestionOrder.mp hn)).1
  refine Spec.bind preserves_get fun t => ?_
  refine Spec.bind (hing _ _ fun n hn => ?_) fun resumed =>
    Spec.of_imp' fun hres => ?_
  · exact (mem_filter.mp (mem_filter.mp ((mem_insertionSort _).mp hn)).1).1
  refine Spec.bind preserves_get fun t' => ?_
  refine Spec.bind (hcheck _ _ fun n hn => ?_) fun checked =>
    Spec.of_imp' fun hchk => spec_pure fun s h => ⟨h, ?_⟩
  · exact (mem_filter.mp (mem_filter.mp (mem_sortIngestionOrder.mp hn)).1).1
  intro n path hroot
  have hn : n ∈ desired.items.map Prod.fst :=
    mem_map.mpr ⟨(n, path), Dict.get_eq_some_iff.mp hroot, rfl⟩
  -- each name is in one of the three lists
  have hfrom {bs : List (Name × Turn)} {l : List Name} (hks : bs.map Prod.fst = l)
      (hm : n ∈ l) : ∃ turn, (n, turn) ∈ bs := by
    rw [← hks] at hm
    obtain ⟨⟨_, turn⟩, ht, rfl⟩ := mem_map.mp hm
    exact ⟨turn, ht⟩
  by_cases hexg : n ∈ existing
  · have hpres : n ∈ (desired.items.map Prod.fst).filter fun name => existing.contains name :=
      mem_filter.mpr ⟨hn, by simpa using hexg⟩
    by_cases hinc : n ∈ toResume t.world.collections
        ((desired.items.map Prod.fst).filter fun name => existing.contains name)
    · obtain ⟨turn, ht⟩ := hfrom hres.1 ((mem_insertionSort _).mpr hinc)
      exact Or.inl ⟨turn, mem_append_right _ ht, hres.2 _ ht path hroot⟩
    · obtain ⟨turn, ht⟩ := hfrom hchk.1 (mem_sortIngestionOrder.mpr
        (mem_filter.mpr ⟨hpres, by simpa using hinc⟩))
      exact Or.inr ⟨turn, ht, hchk.2 _ ht path hroot⟩
  · obtain ⟨turn, ht⟩ := hfrom hadd.1 (mem_sortIngestionOrder.mpr
      (mem_filter.mpr ⟨hn, by simpa using hexg⟩))
    exact Or.inl ⟨turn, mem_append_left _ ht, hadd.2 _ ht path hroot⟩

/-! ### The drops -/

def Untabled (n : Name) (s : Session γ τ χ) : Prop := Dict.get s.world.tables n = none

omit [DecidableEq τ] in
theorem Elsewhere.untabled (h : Elsewhere setup n s s') (hn : Untabled n s) : Untabled n s' :=
  h.world.table.elim (fun heq => heq.trans hn) And.left

omit [DecidableEq τ] in
theorem spec_dropIfIdle_untabled :
    Spec (fun _ => True) (dropIfIdle (τ := τ) setup n)
      (fun drop s => drop = .deferred ∨ Untabled n s) (fun _ => True) := by
  refine Spec.bind (Q := fun _ _ => True)
    ((elsewhere_call (n := n)).preserves fun _ _ _ _ => trivial) fun outcome => ?_
  rcases outcome with _ | _ | (_ | _) | (_ | _)
  · refine spec_get_bind fun t _ => ?_
    cases htab : Dict.get t.world.tables n with
    | none =>
      refine spec_pure fun s hs => Or.inr ?_
      rw [Untabled, hs]
      exact htab
    | some rows =>
      refine Spec.bind (Q := fun _ => Untabled n) (spec_modify fun s _ => ?_) fun _ =>
        Spec.bind (Q := fun _ => Untabled n) ?_ fun _ => spec_pure fun s h => Or.inr h
      · show Dict.get (s.world.tables.erase n) n = none
        rw [Dict.get_erase, if_pos rfl]
      · refine Spec.bind (Q := fun _ => Untabled n)
          ((elsewhere_call.preserves fun _ _ => Elsewhere.untabled).mono (fun _ => id)
            (fun _ _ => id) fun _ _ => trivial) fun outcome => ?_
        cases outcome with
        | dies => exact spec_die fun _ _ => trivial
        | _ => exact spec_modify fun s h => h
  · exact spec_pure fun s _ => Or.inl rfl
  · exact spec_die fun _ _ => trivial
  · exact Spec.bind (Q := fun _ _ => True) (spec_modify fun _ _ => trivial) fun _ =>
      spec_die fun _ _ => trivial
  · exact spec_die fun _ _ => trivial
  · exact Spec.bind (Q := fun _ _ => True) (spec_modify fun _ _ => trivial) fun _ =>
      spec_die fun _ _ => trivial

/-- **A collection that is not desired** is dropped, or busy. -/
theorem spec_takeTurns_dropped {existing managed : List Name} (hman : n ∈ managed)
    (hexg : existing.Nodup)
    (hn : n ∉ desired.items.map Prod.fst) :
    Spec (fun s : Session γ τ χ => n ∉ existing → Untabled n s)
      (takeTurns setup desired existing managed activeModel)
      (fun turns s => (n, .deferred) ∈ turns.drops ∨ Untabled n s) (fun _ => True) := by
  -- what has become of the collection is kept by the turns of the others
  have hoth {β : Type} {f : Name → Prog (Session γ τ χ) β} {l : List Name} (A : Prop)
      (hmvs : ∀ m, n ≠ m → Moves (Elsewhere setup n) (f m)) (hl : n ∉ l) :
      Spec (fun s => A ∨ Untabled n s) (mapEach f l)
        (fun _ s => A ∨ Untabled n s) (fun _ => True) := by
    refine spec_mapEach fun m hm => ((hmvs m fun h => hl (h ▸ hm)).preserves ?_).mono
      (fun _ => id) (fun _ _ => id) fun _ _ => trivial
    exact fun s s' h => Or.imp_right h.untabled
  have hnot {p : Name → Bool} : n ∉ (desired.items.map Prod.fst).filter p :=
    fun h => hn (mem_of_mem_filter h)
  refine Spec.bind (Q := fun drops s => (n, .deferred) ∈ drops ∨ Untabled n s) ?_ fun drops => ?_
  · by_cases hmem : n ∈ existing
    · have hd : n ∈ existing.filter fun name =>
          managed.contains name && !(desired.items.map Prod.fst).contains name := by
        rw [mem_filter, Bool.and_eq_true, Bool.not_eq_true', contains_iff_mem,
          contains_eq_mem, decide_eq_false_iff_not]
        exact ⟨hmem, hman, hn⟩
      refine (Spec.mapEach_focus (I := fun _ => True)
        (J := fun drop s => drop = .deferred ∨ Untabled n s) hd (hexg.filter _)
        (fun m _ hne => ?_) spec_dropIfIdle_untabled fun m _ hne drop => ?_).mono
          (fun _ _ => trivial) ?_ fun _ => id
      · exact (elsewhere_dropIfIdle hne.symm).preserves fun _ _ _ _ => trivial
      · exact ((elsewhere_dropIfIdle hne.symm).preserves fun s s' h => Or.imp_right h.untabled).mono
          (fun _ => id) (fun _ _ => id) fun _ _ => trivial
      · rintro drops s ⟨drop, hd, rfl | hnn⟩
        · exact Or.inl hd
        · exact Or.inr hnn
    · refine (hoth False (fun m h => elsewhere_dropIfIdle h) fun h => ?_).mono
        (fun s h => Or.inr (h hmem)) (fun _ _ h => Or.inr (h.resolve_left id)) fun _ => id
      exact hmem (mem_of_mem_filter h)
  refine Spec.bind (hoth _ (fun m h => elsewhere_ingestTurn h _ _)
    fun h => hnot (mem_sortIngestionOrder.mp h)) fun added => ?_
  refine spec_read fun t _ => ?_
  refine Spec.bind (hoth _ (fun m h => elsewhere_ingestTurn h _ _)
    fun h => hnot (mem_of_mem_filter ((mem_insertionSort _).mp h)))
    fun resumed => spec_read fun t' _ => ?_
  exact Spec.bind (hoth _ (fun m h => elsewhere_checkTurn h _ _ _)
    fun h => hnot (mem_of_mem_filter (mem_sortIngestionOrder.mp h)))
    fun checked => spec_pure fun _ => id

/-! ### The manifest that a sync writes -/

omit [DecidableEq τ] in
theorem mem_namesWith {β : Type} {test : β → Bool} {turns : List (Name × β)} :
    n ∈ namesWith test turns ↔ ∃ b, (n, b) ∈ turns ∧ test b = true := by
  rw [namesWith, mem_map]
  constructor
  · rintro ⟨⟨_, b⟩, hm, rfl⟩
    exact ⟨b, mem_filter.mp hm⟩
  · rintro ⟨b, hm⟩
    exact ⟨(n, b), mem_filter.mpr hm, rfl⟩

omit [DecidableEq τ] in
theorem mem_newManifest {desired manifest : Dict Name Path} {inOrder deferred : List Name} :
    n ∈ (newManifest desired manifest inOrder deferred).items.map Prod.fst ↔
      n ∈ desired.items.map Prod.fst ∧ n ∈ inOrder ∨
        n ∈ manifest.items.map Prod.fst ∧ n ∈ deferred := by
  have hfil (d : Dict Name Path) (l : List Name) :
      n ∈ (d.items.filter fun entry => l.contains entry.1).map Prod.fst ↔
        n ∈ d.items.map Prod.fst ∧ n ∈ l := by
    simp only [mem_map, mem_filter, contains_iff_mem]
    constructor
    · rintro ⟨entry, ⟨hm, hl⟩, rfl⟩
      exact ⟨⟨entry, hm, rfl⟩, hl⟩
    · rintro ⟨⟨entry, hm, rfl⟩, hl⟩
      exact ⟨entry, ⟨hm, hl⟩, rfl⟩
  rw [newManifest, Keyed.ofList, Keyed.mem_keys_foldl_insert, map_append, mem_append, hfil, hfil]
  exact or_iff_right not_mem_nil

variable {skipped : List Name} {turns : Turns}

omit [DecidableEq τ] in
theorem reports_of_turn {turn : Turn}
    (hm : (n, turn) ∈ turns.added ++ turns.resumed ++ turns.checked)
    (ht : turn = .pathMissing path ∨ turn = .failed (collectionSyncBusyDetail n) ∨
      turn = .failed (collectionSyncFailedDetail n)) : Reports (turns.result skipped) n path := by
  have hin {detail : String} (hdet : turn.error = some detail) :
      detail ∈ (turns.result skipped).errors :=
    mem_append_right _ (mem_filterMap.mpr ⟨(n, turn), hm, hdet⟩)
  refine ⟨turn, ht, ?_⟩
  rcases ht with rfl | rfl | rfl
  · exact ⟨_, rfl, hin rfl⟩
  · exact ⟨_, rfl, hin rfl⟩
  · exact ⟨_, rfl, hin rfl⟩

omit [DecidableEq τ] in
/-- What has become of a collection says whether it is in the new manifest. -/
theorem handled_of_turns (hmana : n ∈ w.managed)
    (hcom : turns.Complete setup replies (buildDesired setup w.config))
    (hd : n ∉ (buildDesired setup w.config).items.map Prod.fst →
      (n, .deferred) ∈ turns.drops ∨ Dict.get w'.tables n = none)
    (hman : w'.manifest = newManifest (buildDesired setup w.config) w.manifest
      ((turns.result skipped).added ++ (turns.result skipped).unchanged ++
        (turns.result skipped).updated) (namesWith (· = .deferred) turns.drops)) :
    Handled setup w replies (turns.result skipped) w' n where
  configured path hp := by
    have hin (h : n ∈ (turns.result skipped).added ++ (turns.result skipped).unchanged ++
        (turns.result skipped).updated) : n ∈ w'.managed := by
      rw [World.managed, hman]
      exact mem_newManifest.mpr (Or.inl ⟨mem_map.mpr ⟨_, hp, rfl⟩, h⟩)
    rcases hcom n path (Dict.get_eq_some_iff.mpr hp) with
      ⟨turn, hm, ht, hne⟩ | ⟨turn, hm, ht⟩
    · have hm' := mem_append_left turns.checked hm
      cases turn with
      | written =>
        refine Or.inl (hin (mem_append_left _ (mem_append_left _ ?_)))
        rcases mem_append.mp hm with hm | hm
        · exact mem_append_left _ (mem_namesWith.mpr ⟨_, hm, rfl⟩)
        · exact mem_append_right _ (mem_namesWith.mpr ⟨_, hm, rfl⟩)
      | skipped => exact Or.inr (Or.inr ht)
      | unchanged => exact absurd rfl hne
      | pathMissing p =>
        exact Or.inr (Or.inl (reports_of_turn hm' (Or.inl (congrArg Turn.pathMissing ht))))
      | failed detail =>
        exact Or.inr (Or.inl (reports_of_turn hm'
          (Or.inr (ht.imp (congrArg Turn.failed) (congrArg Turn.failed)))))
    · have hm' := mem_append_right (turns.added ++ turns.resumed) hm
      have hunc (h : turn.isUnchanged = true) : n ∈ w'.managed := by
        refine hin (mem_append_left _ (mem_append_right _ ?_))
        exact (mem_insertionSort _).mpr (mem_namesWith.mpr ⟨turn, hm, h⟩)
      cases turn with
      | written =>
        have hupd : n ∈ namesWith (· = .written) turns.checked :=
          mem_namesWith.mpr ⟨_, hm, rfl⟩
        exact Or.inl (hin (mem_append_right _ hupd))
      | skipped => exact Or.inr (Or.inr ht)
      | unchanged => exact Or.inl (hunc rfl)
      | pathMissing p => exact Or.inl (hunc rfl)
      | failed detail =>
        exact Or.inr (Or.inl (reports_of_turn hm'
          (Or.inr (ht.imp (congrArg Turn.failed) (congrArg Turn.failed)))))
  unconfigured hn := by
    refine (hd hn).symm.imp_right fun hdef => ⟨?_, ?_⟩
    · rw [World.managed, hman]
      exact mem_newManifest.mpr (Or.inr ⟨hmana, mem_namesWith.mpr ⟨_, hdef, rfl⟩⟩)
    · exact mem_append_left _ (mem_filterMap.mpr ⟨_, hdef, rfl⟩)

/-- **A sync, for a collection that it manages.** Where it does not come to its end the manifest
is as it was. -/
theorem spec_sync_handled (hmana : n ∈ w.managed) :
    Spec (fun s => s = w.start replies) (sync setup w.config activeModel)
      (fun result s => Handled setup w replies result s.world n)
      (fun s => s.world.manifest = w.manifest) := by
  have hdied : ∀ s : Session γ τ χ, Meanwhile setup (w.start replies) s →
      s.world.manifest = w.manifest := fun s h => h.manifest
  have hres : Moves (Meanwhile (τ := τ) setup) (write setup resetStaleInProgress) :=
    moves_write meanwhile_await fun s => ⟨rfl, fun _ => id, fun _ => Or.inl⟩
  refine Spec.bind ((hres.preserves_from (w.start replies)).mono
    (fun s hs => hs ▸ refl_of _ _) (fun _ _ => id) hdied) fun _ => ?_
  refine Spec.bind (((moves_attempt meanwhile_await).preserves_from (w.start replies)).mono
    (fun _ => id) (fun _ _ => id) hdied) fun listed => ?_
  refine spec_ite (fun _ => ?_) fun _ => spec_die hdied
  refine spec_get_bind fun t ht => ?_
  have hman : t.world.manifest = w.manifest := ht.manifest
  have hnd : (t.world.tables.items.map Prod.fst).Nodup := t.world.tables.nodup
  have hcom : Spec (Meanwhile setup (w.start replies))
      (takeTurns setup (buildDesired setup w.config) (t.world.tables.items.map Prod.fst)
        (t.world.manifest.items.map Prod.fst) activeModel)
      (fun turns s => Meanwhile setup (w.start replies) s ∧
        turns.Complete setup replies (buildDesired setup w.config))
      (Meanwhile setup (w.start replies)) :=
    spec_takeTurns_complete fun n path h => mem_of_mem_buildDesired (Dict.get_eq_some_iff.mp h)
  refine Spec.bind (Q := fun turns s => Meanwhile setup (w.start replies) s ∧
    turns.Complete setup replies (buildDesired setup w.config) ∧
      (n ∉ (buildDesired setup w.config).items.map Prod.fst →
        (n, .deferred) ∈ turns.drops ∨ Untabled n s)) ?_ fun turns => ?_
  · by_cases hn : n ∈ (buildDesired setup w.config).items.map Prod.fst
    · exact hcom.mono (fun s hs => hs ▸ ht)
        (fun turns s h => ⟨h.1, h.2, fun hnot => absurd hn hnot⟩) hdied
    · refine (hcom.and (spec_takeTurns_dropped (hman ▸ hmana) hnd hn)).mono
        (fun s hs => ⟨hs ▸ ht, fun hnot => ?_⟩)
        (fun turns s h => ⟨h.1.1, h.1.2, fun _ => h.2⟩) fun s h => hdied s h.1
      rw [mem_existing, Option.not_isSome_iff_eq_none] at hnot
      rw [Untabled, hs]
      exact hnot
  -- the manifest is written
  refine Spec.bind (Q := fun _ s => (turns.Complete setup replies
    (buildDesired setup w.config) ∧ (n ∉ (buildDesired setup w.config).items.map Prod.fst →
      (n, .deferred) ∈ turns.drops ∨ Untabled n s)) ∧ s.world.manifest = _) ?_ fun _ =>
    spec_pure fun s h => handled_of_turns hmana h.1.1 h.1.2 h.2
  refine Spec.bind (Q := fun _ s => Meanwhile setup (w.start replies) s ∧
    turns.Complete setup replies (buildDesired setup w.config) ∧
      (n ∉ (buildDesired setup w.config).items.map Prod.fst →
        (n, .deferred) ∈ turns.drops ∨ Untabled n s)) ?_ fun outcome => ?_
  · refine (((moves_call meanwhile_await).preserves_from (w.start replies)).and
      (elsewhere_call.preserves fun s s' h hs => ⟨hs.1, fun hn => (hs.2 hn).imp_right h.untabled⟩)
      ).mono (fun _ => id) (fun _ _ => id) fun s h => hdied s h.1
  cases outcome with
  | dies => exact spec_die fun s h => hdied s h.1
  | _ => exact spec_modify fun s h => ⟨h.2, by rw [← hman]⟩

theorem handled_of_sync {result : SyncResult}
    (hman : n ∈ w.managed) (hsync : w.sync setup activeModel replies = (some result, s)) :
    Handled setup w replies result s.world n := by
  have hes : Ends (fun result s => Handled setup w replies result s.world n)
      (fun s => s.world.manifest = w.manifest) (w.sync setup activeModel replies) :=
    spec_sync_handled hman (w.start replies) rfl
  rw [hsync] at hes
  exact hes

/-! ### Runs -/

/-- A step in which a collection may leave the manifest: a sync that leaves it without a table,
that reports an error of it while it is configured, or beside which its path was deleted. -/
def Loses (setup : Setup γ χ) (n : Name) (w : World γ τ χ) : Event γ τ → Prop
  | .sync activeModel replies => ∃ result, (w.sync setup activeModel replies).1 = some result ∧
      (Dict.get (w.sync setup activeModel replies).2.world.tables n = none ∨
        ∃ path, (n, path) ∈ buildDesired setup w.config ∧
          (Reports result n path ∨ DeletedMeanwhile setup replies path))
  | .delete _ _ | .configure _ | .directories _ | .writeFile _ _ | .removeFile _ => False

/-- **One step** keeps a collection in the manifest. -/
theorem managed_step {e : Event γ τ} (hman : n ∈ w.managed) (hs : step setup w e = some w') :
    n ∈ w'.managed ∨ Loses setup n w e := by
  cases e with
  | sync activeModel replies =>
    cases hs
    have hes : Ends (fun result s => Handled setup w replies result s.world n)
        (fun s => s.world.manifest = w.manifest) (w.sync setup activeModel replies) :=
      spec_sync_handled hman (w.start replies) rfl
    dsimp only [Loses]
    revert hes
    generalize w.sync setup activeModel replies = outcome
    obtain ⟨_ | result, s⟩ := outcome
    · intro (heq : s.world.manifest = w.manifest)
      refine Or.inl ?_
      rw [World.managed, heq]
      exact hman
    · intro (hhan : Handled setup w replies result s.world n)
      by_cases hn : n ∈ (buildDesired setup w.config).items.map Prod.fst
      · obtain ⟨⟨_, path⟩, hm, rfl⟩ := mem_map.mp hn
        refine (hhan.configured path hm).imp_right fun h => ?_
        exact ⟨result, rfl, Or.inr ⟨path, hm, h⟩⟩
      · rcases hhan.unconfigured hn with hnn | ⟨hin, -⟩
        · exact Or.inr ⟨result, rfl, Or.inl hnn⟩
        · exact Or.inl hin
  | delete m dropped | configure paths | directories paths | writeFile path file
  | removeFile path =>
    cases hs
    exact Or.inl hman

/-- **A collection stays managed** in every run, up to a sync that leaves it without a table, that
reports an error of it while it is configured, or beside which its path was deleted. A sync that
finds it unconfigured leaves it without a table, or reports that it is busy and keeps it. -/
theorem managed_until {events : List (Event γ τ)} (hmanaged : n ∈ w.managed)
    (hrun : run (step setup) w events = some w') :
    (n ∈ w'.managed ∨ ∃ before e after v, events = before ++ e :: after ∧
      run (step setup) w before = some v ∧ Loses setup n v e) ∧
    ∀ activeModel replies result s, w'.sync setup activeModel replies = (some result, s) →
      n ∈ w'.managed → Handled setup w' replies result s.world n := by
  refine ⟨?_, fun activeModel replies result s hsync hn => handled_of_sync hn hsync⟩
  induction events generalizing w with
  | nil =>
    cases hrun
    exact Or.inl hmanaged
  | cons e events ih =>
    obtain ⟨v, hs, hrs⟩ := (run_cons_eq_some _).mp hrun
    rcases managed_step hmanaged hs with hin | hlos
    · refine (ih hin hrs).imp_right ?_
      rintro ⟨before, e', after, v', rfl, hbef, hlos⟩
      exact ⟨e :: before, e', after, v', rfl, (run_cons_eq_some _).mpr ⟨v, hs, hbef⟩, hlos⟩
    · exact Or.inr ⟨[], e, events, w, rfl, rfl, hlos⟩

/-! ### Two runs -/

/-- The collection is indexed, and its path leaves the config; the sync after that finds it
busy. -/
def unconfigured : List (Event String ℕ) :=
  [.configure [], .sync (fun _ => "") [{}, {}, { outcome := .fails none }, {}]]

theorem managed_until_unconfigured :
    ∃ w w' result s,
      run (step sampleSetup) sampleWorld [sampleWrite "a.md" "one" 1, sampleSync 20] = some w ∧
      run (step sampleSetup) w unconfigured = some w' ∧
      w'.sync sampleSetup (fun _ => "") (List.replicate 20 {}) = (some result, s) ∧
      Dict.get w'.tables "docs" ≠ none ∧ Dict.get s.world.tables "docs" = none := by
  obtain ⟨w, hw, hman, w', hw', hin, htab, hdes, result, hres, herrs⟩ :
      ∃ w ∈ run (step sampleSetup) sampleWorld [sampleWrite "a.md" "one" 1, sampleSync 20],
        "docs" ∈ w.managed ∧ ∃ w' ∈ run (step sampleSetup) w unconfigured,
          "docs" ∈ w'.managed ∧ Dict.get w'.tables "docs" ≠ none ∧
            (buildDesired sampleSetup w'.config).items = [] ∧
            ∃ result ∈ (w'.sync sampleSetup (fun _ => "") (List.replicate 20 {})).1,
              result.errors = [] := by
    decide +kernel
  have hsync : w'.sync sampleSetup (fun _ => "") (List.replicate 20 {}) =
      (some result, (w'.sync sampleSetup (fun _ => "") (List.replicate 20 {})).2) :=
    Prod.ext hres rfl
  have hhan := (managed_until hman hw').2 _ _ _ _ hsync hin
  refine ⟨w, w', result, _, hw, hw', hsync, htab, ?_⟩
  refine (hhan.unconfigured ?_).resolve_right fun h => ?_
  · rw [hdes]
    exact not_mem_nil
  · have herr := h.2
    rw [herrs] at herr
    cases herr

/-- **A collection is forgotten**: a file is edited, and the sync that comes then finds the
collection busy with another write. Its table is there, its path is configured, and it is not in
the manifest any more. -/
theorem forgotten :
    ¬ ∀ (events : List (Event String ℕ)) (w : World String ℕ String) (result : SyncResult)
      (s : Session String ℕ String) (replies : List Reply) (n : Name),
      run (step sampleSetup) sampleWorld events = some w →
      w.sync sampleSetup (fun _ => "") replies = (some result, s) →
      n ∈ w.managed → (Dict.get s.world.tables n).isSome = true →
        n ∈ s.world.managed ∨ n ∉ (buildDesired sampleSetup s.world.config).items.map Prod.fst := by
  intro h
  obtain ⟨w, result, s, hr, hsync, hman, htab, hnot, hdes⟩ :=
    exists_sync_of_any
      [sampleWrite "a.md" "one" 1, sampleSync 20, sampleWrite "a.md" "two" 2]
      [{}, {}, { outcome := .raises none }, {}]
      (fun w _ s => "docs" ∈ w.managed ∧ (Dict.get s.world.tables "docs").isSome = true ∧
        "docs" ∉ s.world.managed ∧
          "docs" ∈ (buildDesired sampleSetup s.world.config).items.map Prod.fst)
      (by decide +kernel)
  rcases h _ w result s _ _ hr hsync hman htab with hin | hgone
  · exact hnot hin
  · exact hgone hdes

end ArchonSearch.Sync
