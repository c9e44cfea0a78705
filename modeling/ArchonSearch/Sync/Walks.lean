import ArchonSearch.Py.Fnmatch
import ArchonSearch.Sync.Turn

/-!
# The two walks through a directory tree

A directory ingest goes through a tree with `os.walk`, opening only the directories that it wants
and testing every file against a glob and a policy; the incremental sync lists the whole tree with
a recursive glob and tests the names. Neither follows a symbolic link. Over the files that the tree
holds (`Entries.files`) each of the walks is a filter, and the filters are those of `isDiscovered`
and `isEligible`: `discoverFiles_eq`, `globEligible_eq`.

A file that is eligible and not discovered is one that `ingest_file` passes over or refuses – a
sidecar, or a file in a denied location – or a *stray*: it lies below a directory of packages,
which the first walk does not open and the second does. So the walks agree on what belongs to a
collection exactly if there is no stray and the first walk does not stop at its limit
(`agree_iff`). A collection with a stray is indexed without it by the first sync, and with it by
the second.
-/

namespace ArchonSearch.Sync

open Lib Py List

variable {γ τ χ : Type}

/-! ### Trees -/

inductive Entries (γ τ : Type) where
  | nil
  | file : (name : String) → File γ τ → Entries γ τ → Entries γ τ
  | symlink : (name : String) → (toDirectory : Bool) → Entries γ τ → Entries γ τ
  | other : (name : String) → Entries γ τ → Entries γ τ
  | directory : (name : String) → (children : Entries γ τ) → Entries γ τ → Entries γ τ

/-- What the walks ask of an entry that is no directory: `is_symlink` and `is_file`. -/
inductive Kind (γ τ : Type) where
  | file : File γ τ → Kind γ τ
  | symlink
  | other

namespace Entries

def names : Entries γ τ → List String
  | nil => []
  | file name _ rest | symlink name _ rest | other name rest | directory name _ rest =>
    name :: names rest

def Distinct : Entries γ τ → Prop
  | nil => True
  | file name _ rest | symlink name _ rest | other name rest => name ∉ names rest ∧ Distinct rest
  | directory name children rest => name ∉ names rest ∧ Distinct children ∧ Distinct rest

def files : Entries γ τ → List (Path × File γ τ)
  | nil => []
  | file name f rest => ([name], f) :: files rest
  | symlink _ _ rest | other _ rest => files rest
  | directory name children rest =>
    (files children).map (fun entry => (name :: entry.1, entry.2)) ++ files rest

/-- The third of what `os.walk` yields: the entries that are no directories. A link to a directory
is among the directories. -/
def nonDirectories : Entries γ τ → List (String × Kind γ τ)
  | nil => []
  | file name f rest => (name, .file f) :: nonDirectories rest
  | symlink name toDirectory rest =>
    if toDirectory then nonDirectories rest else (name, .symlink) :: nonDirectories rest
  | other name rest => (name, .other) :: nonDirectories rest
  | directory _ _ rest => nonDirectories rest

/-- `os.walk` below the directory `here`, where only the directories that are kept are opened. -/
def walkBelow (keep : Path → Bool) (here : Path) :
    Entries γ τ → List (Path × List (String × Kind γ τ))
  | nil => []
  | file _ _ rest | symlink _ _ rest | other _ rest => walkBelow keep here rest
  | directory name children rest =>
    (if keep (here ++ [name]) then
      (here ++ [name], nonDirectories children) :: walkBelow keep (here ++ [name]) children
    else []) ++ walkBelow keep here rest

/-- `os.walk`. -/
def walk (keep : Path → Bool) (t : Entries γ τ) : List (Path × List (String × Kind γ τ)) :=
  ([], nonDirectories t) :: walkBelow keep [] t

/-- `Path.glob("**/*")`: every entry of every directory, and what it is if it is no directory. -/
def globAll (here : Path) : Entries γ τ → List (Path × Option (Kind γ τ))
  | nil => []
  | file name f rest => (here ++ [name], some (.file f)) :: globAll here rest
  | symlink name _ rest => (here ++ [name], some .symlink) :: globAll here rest
  | other name rest => (here ++ [name], some .other) :: globAll here rest
  | directory name children rest =>
    (here ++ [name], none) :: globAll (here ++ [name]) children ++ globAll here rest

end Entries

structure Tree (γ τ : Type) where
  entries : Entries γ τ
  distinct : entries.Distinct

/-! ### The walks -/

section Walks

variable (setup : Setup γ χ)

/-- `_matches_glob`. -/
def matchesGlob : (parts segments : List String) → Bool
  | parts, [] => parts.isEmpty
  | parts, head :: rest =>
    if head = "**" then
      if rest.isEmpty then !parts.isEmpty
      else (List.range parts.length).any fun skipped => matchesGlob (parts.drop skipped) rest
    else
      match parts with
      | [] => false
      | part :: parts => fnmatchcase part head && matchesGlob parts rest

/-- The segments of the default glob, `**/*`. -/
def defaultGlob : List String := ["**", "*"]

/-- `part.startswith(".")`. -/
def isHidden (part : String) : Bool := part.toList.head? = some '.'

/-- The name is not in `_PRUNED_DIRECTORY_NAMES`, and `_is_walked_directory`; `probed` tells of the
directories for which `check_secrets` denies the probe. -/
def keepsDirectory (probed : Path → Bool) (path : Path) : Bool :=
  !prunedDirectoryNames.contains (baseName path) && (!isHidden (baseName path) || probed path)

def considerEntry (root : Path) (segments : List String) (here : Path) (found : List Path)
    (entry : String × Kind γ τ) : Except Unit (List Path) :=
  let path := root ++ here ++ [entry.1]
  if !matchesGlob (here ++ [entry.1]) segments then .ok found
  else
    match entry.2 with
    | .symlink | .other => .ok found
    | .file f =>
      if binaryExtensions.contains (setup.lower (suffix path)) || isSidecar path then .ok found
      else if setup.denied path f.content then .ok found
      else if (here ++ [entry.1]).any isHidden then .ok found
      else if found.length = setup.maxDiscoveredFiles then .error ()
      else .ok (found ++ [path])

/-- `_discover_ingest_files`, which raises when there are too many files. The denied files are
counted for the log only. -/
def discoverFiles (probed : Path → Bool) (root : Path) (segments : List String) (t : Tree γ τ) :
    Except Unit (List Path) := do
  let found ← (t.entries.walk (keepsDirectory probed)).foldlM (fun found visit =>
    visit.2.foldlM (considerEntry setup root segments visit.1) found) []
  pure (found.insertionSort (· ≤ ·))

/-- `_iter_eligible_files`. -/
def globEligible (root : Path) (t : Tree γ τ) : List Path :=
  ((t.entries.globAll []).filterMap fun entry =>
    match entry.2 with
    | some (.file _) =>
      if entry.1.any isHidden then none
      else if binaryExtensions.contains (setup.lower (suffix (root ++ entry.1))) then none
      else some (root ++ entry.1)
    | _ => none).insertionSort (· ≤ ·)

def Tree.toFiles (root : Path) (t : Tree γ τ) : Dict Path (File γ τ) :=
  Keyed.ofList (t.entries.files.map fun entry => (root ++ entry.1, entry.2))

/-- `ingest_file` goes on to read the file: it is no sidecar, and its location is not denied. -/
def admits (path : Path) (content : γ) : Bool :=
  !(suffix path == ".acl" || isSidecar path) && !setup.denied path content

end Walks

/-! ### What the walks list -/

def onlyFile (entry : Path × Kind γ τ) : Option (Path × File γ τ) :=
  match entry.2 with
  | .file f => some (entry.1, f)
  | _ => none

@[simp] theorem onlyFile_file (path : Path) (f : File γ τ) :
    onlyFile (path, .file f) = some (path, f) := rfl

@[simp] theorem onlyFile_symlink (path : Path) :
    onlyFile (path, (.symlink : Kind γ τ)) = none := rfl

@[simp] theorem onlyFile_other (path : Path) :
    onlyFile (path, (.other : Kind γ τ)) = none := rfl

def visitedFiles (visits : List (Path × List (String × Kind γ τ))) : List (Path × File γ τ) :=
  visits.flatMap fun visit =>
    visit.2.filterMap fun entry => onlyFile (visit.1 ++ [entry.1], entry.2)

theorem visitedFiles_cons (here : Path) (entries : List (String × Kind γ τ))
    (visits : List (Path × List (String × Kind γ τ))) :
    visitedFiles ((here, entries) :: visits) =
      (entries.filterMap fun entry => onlyFile (here ++ [entry.1], entry.2)) ++
        visitedFiles visits := rfl

theorem visitedFiles_append (visits visits' : List (Path × List (String × Kind γ τ))) :
    visitedFiles (visits ++ visits') = visitedFiles visits ++ visitedFiles visits' :=
  flatMap_append

def isKept (keep : Path → Bool) (here : Path) : Path → Bool
  | d :: e :: rest => keep (here ++ [d]) && isKept keep (here ++ [d]) (e :: rest)
  | _ => true

namespace Entries

variable {keep : Path → Bool}

theorem ne_nil_of_mem_files {t : Entries γ τ} {entry : Path × File γ τ} (h : entry ∈ t.files) :
    entry.1 ≠ [] := by
  induction t with
  | nil => cases h
  | file name f rest ih =>
    rcases mem_cons.mp h with rfl | h
    · exact cons_ne_nil name []
    · exact ih h
  | symlink _ _ rest ih | other _ rest ih => exact ih h
  | directory name children rest _ ih =>
    rcases mem_append.mp h with h | h
    · obtain ⟨e, -, rfl⟩ := mem_map.mp h
      exact cons_ne_nil name e.1
    · exact ih h

/-- Below a directory that is kept, the files are those that were kept there. -/
theorem filter_files_directory (here : Path) (name : String) (children : Entries γ τ) :
    ((children.files.map fun e => (name :: e.1, e.2)).filter fun e => isKept keep here e.1) =
      if keep (here ++ [name]) then
        (children.files.filter fun e => isKept keep (here ++ [name]) e.1).map
          fun e => (name :: e.1, e.2)
      else [] := by
  have hk {e : Path × File γ τ} (he : e ∈ children.files) : isKept keep here (name :: e.1) =
      (keep (here ++ [name]) && isKept keep (here ++ [name]) e.1) := by
    obtain ⟨d, rest, hd⟩ := exists_cons_of_ne_nil (ne_nil_of_mem_files he)
    rw [hd, isKept]
  rw [filter_map, Function.comp_def, filter_congr fun e he => hk he]
  split_ifs with h
  · simp [h]
  · simp [h]

/-- **A walk visits the files whose directories are all kept.** -/
theorem perm_visitedFiles (t : Entries γ τ) (here : Path) :
    (visitedFiles ((here, t.nonDirectories) :: t.walkBelow keep here)).Perm
      ((t.files.filter fun e => isKept keep here e.1).map fun e => (here ++ e.1, e.2)) := by
  induction t generalizing here with
  | nil => exact .refl _
  | file name f rest ih =>
    have hk : isKept keep here [name] = true := rfl
    have hrs := ih here
    rw [visitedFiles_cons] at hrs ⊢
    simpa [nonDirectories, walkBelow, files, hk] using hrs
  | symlink name toDirectory rest ih =>
    have hrs := ih here
    rw [visitedFiles_cons] at hrs ⊢
    cases toDirectory <;> simpa [nonDirectories, walkBelow, files, filterMap_cons] using hrs
  | other name rest ih =>
    have hrs := ih here
    rw [visitedFiles_cons] at hrs ⊢
    simpa [nonDirectories, walkBelow, files, filterMap_cons] using hrs
  | directory name children rest ihc ihr =>
    have hchil : (visitedFiles (if keep (here ++ [name]) then
        (here ++ [name], children.nonDirectories) :: children.walkBelow keep (here ++ [name])
        else [])).Perm (((children.files.map fun e => (name :: e.1, e.2)).filter fun e =>
          isKept keep here e.1).map fun e => (here ++ e.1, e.2)) := by
      rw [filter_files_directory]
      split_ifs
      · simpa [Function.comp_def] using ihc (here ++ [name])
      · exact .refl _
    have hrs := ihr here
    rw [visitedFiles_cons] at hrs ⊢
    rw [walkBelow, visitedFiles_append, files, filter_append, map_append]
    -- the files of the directory itself and of the later ones stand on both sides of the children
    exact (perm_append_comm_assoc _ _ _).trans (hchil.append hrs)

def globbedFile (entry : Path × Option (Kind γ τ)) : Option (Path × File γ τ) :=
  entry.2.bind fun kind => onlyFile (entry.1, kind)

theorem filterMap_globAll (t : Entries γ τ) (here : Path) :
    (t.globAll here).filterMap globbedFile = t.files.map fun e => (here ++ e.1, e.2) := by
  induction t generalizing here with
  | nil => rfl
  | file name f rest ih => exact congrArg (List.cons _) (ih here)
  | symlink name toDirectory rest ih => exact ih here
  | other name rest ih => exact ih here
  | directory name children rest ihc ihr =>
    have hskip : globbedFile (here ++ [name], (none : Option (Kind γ τ))) = none := rfl
    rw [globAll, cons_append, filterMap_cons_none hskip, filterMap_append, ihc, ihr,
      files, map_append, map_map]
    simp [Function.comp_def]

end Entries

/-! ### The names -/

section Names

variable {setup : Setup γ χ} {probed : Path → Bool} {root : Path} {rel : Path}

theorem baseName_append (h : rel ≠ []) (here : Path) :
    baseName (here ++ rel) = baseName rel := by
  rw [baseName, baseName, getLast?_append_of_ne_nil _ h]

/-- Below a directory, what is eligible is neither hidden nor binary. -/
theorem isEligible_append (h : rel ≠ []) : isEligible setup root (root ++ rel) =
    (!rel.any isHidden && !binaryExtensions.contains (setup.lower (suffix (root ++ rel)))) := by
  have hpre : root.isPrefixOf (root ++ rel) = true :=
    isPrefixOf_iff_prefix.mpr (prefix_append root rel)
  have hall : (rel.all fun part => decide (part.toList.head? ≠ some '.')) = !rel.any isHidden := by
    rw [not_any_eq_all_not]
    exact congrArg rel.all (funext fun part => decide_not)
  rw [isEligible, relativeTo, drop_left, hpre, hall]
  simp [h]

/-- For a file without a hidden component, the directories on its way are kept if none of them is
a directory of packages. -/
theorem isKept_keepsDirectory (hvis : rel.any isHidden = false) (here : Path) :
    isKept (keepsDirectory probed) here rel =
      rel.dropLast.all fun part => !prunedDirectoryNames.contains part := by
  induction rel generalizing here with
  | nil => rfl
  | cons d rest ih =>
    cases rest with
    | nil => rfl
    | cons e rest =>
      rw [any_cons, Bool.or_eq_false_iff] at hvis
      have hnm : baseName (here ++ [d]) = d := baseName_append (cons_ne_nil d []) here
      rw [isKept, ih hvis.2, dropLast_cons_cons, all_cons, keepsDirectory, hnm, hvis.1]
      simp

theorem fnmatchcase_star (name : String) : fnmatchcase name "*" = true :=
  Lib.Wildcard.matches_run name.toList

/-- **The default glob matches every file.** -/
theorem matchesGlob_defaultGlob {parts : List String} (h : parts ≠ []) :
    matchesGlob parts defaultGlob = true := by
  obtain ⟨front, last, rfl⟩ := eq_nil_or_concat' parts |>.resolve_left h
  have hrec (parts : List String) : matchesGlob parts defaultGlob =
      (List.range parts.length).any fun skipped => matchesGlob (parts.drop skipped) ["*"] := by
    cases parts <;> rfl
  rw [hrec, any_eq_true]
  refine ⟨front.length, by simp, ?_⟩
  rw [drop_left]
  simp [matchesGlob, fnmatchcase_star]

end Names

/-! ### Collecting up to a limit -/

section Collect

variable {α β ι : Type} {limit : ℕ}

def collect (limit : ℕ) (f : α → Option β) (found : List β) (a : α) : Except Unit (List β) :=
  match f a with
  | none => .ok found
  | some b => if found.length = limit then .error () else .ok (found ++ [b])

def within (limit : ℕ) (found : List β) : Except Unit (List β) :=
  if found.length ≤ limit then .ok found else .error ()

variable {found : List β}

theorem foldlM_collect (f : α → Option β) {l : List α}
    (h : found.length ≤ limit) :
    l.foldlM (collect limit f) found = within limit (found ++ l.filterMap f) := by
  induction l generalizing found with
  | nil =>
    rw [filterMap_nil, append_nil, within, if_pos h]
    rfl
  | cons a l ih =>
    rw [foldlM_cons, collect, filterMap_cons]
    cases f a with
    | none => exact ih h
    | some b =>
      by_cases hfull : found.length = limit
      · have hover : ¬(found ++ b :: l.filterMap f).length ≤ limit := by
          rw [length_append, length_cons]
          omega
        simp only [if_pos hfull, within, if_neg hover]
        rfl
      · have hroom : (found ++ [b]).length ≤ limit := by
          rw [length_append, length_singleton]
          omega
        have hrs := ih hroom
        rw [append_assoc, singleton_append] at hrs
        simp only [if_neg hfull]
        exact hrs

theorem foldlM_collect_groups (f : ι → α → Option β) {groups : List (ι × List α)}
    (h : found.length ≤ limit) :
    groups.foldlM (fun found group => group.2.foldlM (collect limit (f group.1)) found) found =
      within limit (found ++ groups.flatMap fun group => group.2.filterMap (f group.1)) := by
  induction groups generalizing found with
  | nil =>
    rw [flatMap_nil, append_nil, within, if_pos h]
    rfl
  | cons group groups ih =>
    rw [foldlM_cons, foldlM_collect (f group.1) h, flatMap_cons, ← append_assoc, within]
    split_ifs with hroom
    · exact ih hroom
    · have hover : ¬(found ++ group.2.filterMap (f group.1) ++
          groups.flatMap fun group => group.2.filterMap (f group.1)).length ≤ limit := by
        rw [length_append]
        omega
      rw [within, if_neg hover]
      rfl

end Collect

/-! ### The walks, and what the sync takes them for -/

namespace Entries

variable {t : Entries γ τ}

theorem exists_name_of_mem_files {entry : Path × File γ τ}
    (h : entry ∈ t.files) : ∃ name rest, entry.1 = name :: rest ∧ name ∈ t.names := by
  induction t with
  | nil => cases h
  | file name f rest ih =>
    rcases mem_cons.mp h with rfl | h
    · exact ⟨name, [], rfl, mem_cons_self⟩
    · obtain ⟨n, r, hn, hm⟩ := ih h
      exact ⟨n, r, hn, mem_cons_of_mem _ hm⟩
  | symlink _ _ rest ih | other _ rest ih =>
    obtain ⟨n, r, hn, hm⟩ := ih h
    exact ⟨n, r, hn, mem_cons_of_mem _ hm⟩
  | directory name children rest _ ih =>
    rcases mem_append.mp h with h | h
    · obtain ⟨e, -, rfl⟩ := mem_map.mp h
      exact ⟨name, e.1, rfl, mem_cons_self⟩
    · obtain ⟨n, r, hn, hm⟩ := ih h
      exact ⟨n, r, hn, mem_cons_of_mem _ hm⟩

/-- A name that is not in the tree is not the first one of a path. -/
theorem cons_notMem_files {name : String} (h : name ∉ t.names) (rest : Path) :
    name :: rest ∉ t.files.map Prod.fst := by
  intro hm
  obtain ⟨e, he, hp⟩ := mem_map.mp hm
  obtain ⟨n, r, hn, hnms⟩ := exists_name_of_mem_files he
  obtain ⟨rfl, -⟩ := List.cons.inj (hn.symm.trans hp)
  exact h hnms

theorem nodup_files (h : t.Distinct) : (t.files.map Prod.fst).Nodup := by
  induction t with
  | nil => exact nodup_nil
  | file name f rest ih =>
    exact nodup_cons.mpr ⟨cons_notMem_files h.1 [], ih h.2⟩
  | symlink _ _ rest ih | other _ rest ih => exact ih h.2
  | directory name children rest ihc ihr =>
    obtain ⟨hnm, hchil, hrs⟩ := h
    have hmap : (children.files.map fun e => (name :: e.1, e.2)).map Prod.fst =
        (children.files.map Prod.fst).map (List.cons name) := by
      rw [map_map, map_map]
      rfl
    rw [files, map_append, hmap]
    refine List.Nodup.append ((ihc hchil).map (cons_injective)) (ihr hrs) ?_
    intro path hp hoth
    obtain ⟨below, -, rfl⟩ := mem_map.mp hp
    exact cons_notMem_files hnm below hoth

end Entries

section Flat

variable {setup : Setup γ χ} {probed : Path → Bool} {root : Path} {t : Tree γ τ}

theorem items_toFiles : (t.toFiles root).items =
    t.entries.files.map fun entry => (root ++ entry.1, entry.2) := by
  refine Keyed.items_ofList ?_
  have hmap : (t.entries.files.map fun entry => (root ++ entry.1, entry.2)).map Prod.fst =
      (t.entries.files.map Prod.fst).map (root ++ ·) := by
    rw [map_map, map_map]
    rfl
  rw [hmap]
  exact (Entries.nodup_files t.distinct).map (append_right_injective root)

/-- The files of a tree by a test, before they are sorted. -/
theorem sortedFiles_toFiles (test : Path → File γ τ → Bool) :
    sortedFiles (t.toFiles root) test = (t.entries.files.filterMap fun entry =>
      if test (root ++ entry.1) entry.2 then some (root ++ entry.1) else none).insertionSort
        (· ≤ ·) := by
  rw [sortedFiles, items_toFiles]
  congr 1
  induction t.entries.files with
  | nil => rfl
  | cons e l ih =>
    rw [map_cons, filterMap_cons]
    cases htest : test (root ++ e.1) e.2 with
    | false =>
      rw [filter_cons_of_neg (by simp [htest]), ih]
      rfl
    | true =>
      rw [filter_cons_of_pos (by simp [htest]), map_cons, ih]
      rfl

def eligiblePath (setup : Setup γ χ) (root : Path) (entry : Path × File γ τ) : Option Path :=
  if entry.1.any isHidden then none
  else if binaryExtensions.contains (setup.lower (suffix (root ++ entry.1))) then none
  else some (root ++ entry.1)

/-- **The recursive glob lists what is eligible.** -/
theorem globEligible_eq : globEligible setup root t =
    iterEligibleFiles setup (t.toFiles root) root := by
  have hent : (fun entry : Path × Option (Kind γ τ) => (Entries.globbedFile entry).bind
      (eligiblePath setup root)) = fun entry => match entry.2 with
        | some (.file _) =>
          if entry.1.any isHidden then none
          else if binaryExtensions.contains (setup.lower (suffix (root ++ entry.1))) then none
          else some (root ++ entry.1)
        | _ => none := by
    funext ⟨path, kind⟩
    rcases kind with _ | (_ | _ | _) <;> rfl
  have hfs : (t.entries.files.map fun e => (([] : Path) ++ e.1, e.2)) = t.entries.files :=
    map_id _
  rw [iterEligibleFiles, sortedFiles_toFiles, globEligible, ← hent, ← filterMap_filterMap,
    Entries.filterMap_globAll, hfs]
  congr 1
  refine filterMap_congr fun e he => ?_
  rw [isEligible_append (Entries.ne_nil_of_mem_files he), eligiblePath]
  cases e.1.any isHidden <;>
    cases binaryExtensions.contains (setup.lower (suffix (root ++ e.1))) <;> rfl

def discoveredPath (setup : Setup γ χ) (root : Path) (segments : List String)
    (entry : Path × File γ τ) : Option Path :=
  if !matchesGlob entry.1 segments then none
  else if binaryExtensions.contains (setup.lower (suffix (root ++ entry.1))) ||
    isSidecar (root ++ entry.1) then none
  else if setup.denied (root ++ entry.1) entry.2.content then none
  else if entry.1.any isHidden then none
  else some (root ++ entry.1)

theorem considerEntry_eq (segments : List String) (here : Path) :
    considerEntry setup root segments here = collect setup.maxDiscoveredFiles
      fun entry : String × Kind γ τ => (onlyFile (here ++ [entry.1], entry.2)).bind
        (discoveredPath setup root segments) := by
  funext found ⟨name, kind⟩
  rw [considerEntry, collect, append_assoc]
  rcases kind with f | _ | _
  · simp only [onlyFile_file, Option.bind_some, discoveredPath]
    split_ifs <;> rfl
  · simp only [onlyFile_symlink, Option.bind_none]
    split_ifs <;> rfl
  · simp only [onlyFile_other, Option.bind_none]
    split_ifs <;> rfl

theorem filterMap_visitedFiles {β : Type} (g : Path × File γ τ → Option β)
    (visits : List (Path × List (String × Kind γ τ))) :
    (visits.flatMap fun visit => visit.2.filterMap fun entry =>
      (onlyFile (visit.1 ++ [entry.1], entry.2)).bind g) = (visitedFiles visits).filterMap g := by
  induction visits with
  | nil => rfl
  | cons visit visits ih =>
    rw [flatMap_cons, ih, visitedFiles_cons, filterMap_append, filterMap_filterMap]

variable (setup probed root t) in
/-- The files that the walk comes to and accepts are the discovered ones. -/
theorem perm_discovered : ((visitedFiles (t.entries.walk (keepsDirectory probed))).filterMap
    (discoveredPath setup root defaultGlob)).Perm (t.entries.files.filterMap fun entry =>
      if isDiscovered setup root (root ++ entry.1) entry.2.content then some (root ++ entry.1)
      else none) := by
  refine ((Entries.perm_visitedFiles t.entries []).filterMap _).trans (List.Perm.of_eq ?_)
  have hfs (l : List (Path × File γ τ)) : (l.map fun e => (([] : Path) ++ e.1, e.2)) = l := map_id l
  rw [hfs, filterMap_filter]
  refine filterMap_congr fun e he => ?_
  have hne := Entries.ne_nil_of_mem_files he
  rw [discoveredPath, matchesGlob_defaultGlob hne, isDiscovered, isEligible_append hne, relativeTo,
    drop_left]
  cases hhid : e.1.any isHidden with
  | true => simp
  | false =>
    rw [isKept_keepsDirectory hhid]
    cases binaryExtensions.contains (setup.lower (suffix (root ++ e.1))) <;>
      cases isSidecar (root ++ e.1) <;> cases setup.denied (root ++ e.1) e.2.content <;> simp

/-- **The pruning walk discovers what is to be discovered, or raises when that is too much.** -/
theorem discoverFiles_eq : discoverFiles setup probed root defaultGlob t =
    within setup.maxDiscoveredFiles (discoverIngestFiles setup (t.toFiles root) root) := by
  have hs : (fun (found : List Path) (visit : Path × List (String × Kind γ τ)) =>
      visit.2.foldlM (considerEntry setup root defaultGlob visit.1) found) =
        fun found visit => visit.2.foldlM (collect setup.maxDiscoveredFiles
          fun entry => (onlyFile (visit.1 ++ [entry.1], entry.2)).bind
            (discoveredPath setup root defaultGlob)) found := by
    funext found visit
    rw [considerEntry_eq]
  have hp := perm_discovered setup probed root t
  rw [discoverFiles, hs, foldlM_collect_groups (fun (here : Path)
      (entry : String × Kind γ τ) => (onlyFile (here ++ [entry.1], entry.2)).bind
        (discoveredPath setup root defaultGlob)) (Nat.zero_le _), filterMap_visitedFiles,
    nil_append, discoverIngestFiles, sortedFiles_toFiles, within, within,
    length_insertionSort, ← hp.length_eq]
  split_ifs
  · refine congrArg Except.ok (List.Perm.eq_of_pairwise ?_ (pairwise_insertionSort _ _)
      (pairwise_insertionSort _ _) ?_)
    · exact fun a b _ _ => le_antisymm
    · exact (perm_insertionSort _ _).trans (hp.trans (perm_insertionSort _ _).symm)
  · rfl

variable {path : Path}

theorem get_toFiles {file : File γ τ} :
    Dict.get (t.toFiles root) path = some file ↔
      ∃ rel, (rel, file) ∈ t.entries.files ∧ path = root ++ rel := by
  rw [Dict.get_eq_some_iff, Keyed.mem_def, items_toFiles, mem_map]
  constructor
  · rintro ⟨⟨rel, f⟩, hm, heq⟩
    cases heq
    exact ⟨rel, hm, rfl⟩
  · rintro ⟨rel, hm, rfl⟩
    exact ⟨(rel, file), hm, rfl⟩

theorem suffix_isSuffix (path : Path) : (suffix path).toList <:+ (baseName path).toList := by
  generalize hnm : (baseName path).toList = name
  rw [suffix]
  simp only [hnm]
  split_ifs with hn
  · exact nil_suffix
  obtain ⟨-, hlen⟩ := not_or.mp hn
  have hsplit := takeWhile_append_dropWhile (p := (· ≠ '.')) (l := name.reverse)
  cases hrs : name.reverse.dropWhile (· ≠ '.') with
  | nil =>
    rw [hrs, append_nil] at hsplit
    rw [length_reverse, hsplit, length_reverse] at hlen
    exact absurd (Nat.le_succ _) hlen
  | cons c front =>
    -- what stands before the extension is the dot
    have hdot : c = '.' := by
      have hhead := head?_dropWhile_not (· ≠ '.') name.reverse
      rw [hrs] at hhead
      simpa using hhead
    rw [hrs, hdot] at hsplit
    refine ⟨front.reverse, ?_⟩
    rw [String.toList_ofList]
    calc front.reverse ++ '.' :: (name.reverse.takeWhile (· ≠ '.')).reverse
        = (name.reverse.takeWhile (· ≠ '.') ++ '.' :: front).reverse := by simp
      _ = name := by rw [hsplit, reverse_reverse]

/-- What has the suffix `.acl` is a sidecar. -/
theorem isSidecar_of_suffix (h : suffix path = ".acl") : isSidecar path = true := by
  have hsuf := suffix_isSuffix path
  rw [h] at hsuf
  exact isSuffixOf_iff_suffix.mpr hsuf

theorem admits_eq (path : Path) (content : γ) :
    admits setup path content = (!isSidecar path && !setup.denied path content) := by
  rw [admits]
  cases hsuf : suffix path == ".acl" with
  | false => rw [Bool.false_or]
  | true => rw [isSidecar_of_suffix (beq_iff_eq.mp hsuf), Bool.or_true]

end Flat

/-! ### Agreement -/

section Agreement

variable [DecidableEq τ] (setup : Setup γ χ) (probed : Path → Bool) (root : Path) (t : Tree γ τ)

def progressOf (indexed : List Path) (activeModel : String) : CollectionProgress τ where
  status := .done
  processedPaths := indexed
  fileMtimes := mtimesOf (t.toFiles root) indexed
  indexedEmbeddingModel := activeModel
  indexedChunkSize := recordedChunkSize setup

/-- **The walks agree on what belongs.** A directory ingest discovers the files that the sync would
take for new and `ingest_file` would read; and when it has indexed them all, the next sync of the
same tree finds nothing to change or to delete, and nothing new that `ingest_file` would read. -/
structure Agree : Prop where
  discovered : ∃ found, discoverFiles setup probed root defaultGlob t = .ok found ∧
    ∀ path, path ∈ found ↔ path ∈ globEligible setup root t ∧
      ∃ file, Dict.get (t.toFiles root) path = some file ∧ admits setup path file.content = true
  settled : ∀ found activeModel,
    discoverFiles setup probed root defaultGlob t = .ok found →
      ∀ changes, changes = checkCollectionChanges setup (t.toFiles root) root
        (some (progressOf setup root t found activeModel)) activeModel →
      changes.changedFiles = [] ∧ changes.deletedPaths = [] ∧
        ∀ path ∈ changes.newFiles, ∀ file, Dict.get (t.toFiles root) path = some file →
          admits setup path file.content = false

/-- An eligible file that the directory ingest does not come to. -/
def Stray (path : Path) : Prop :=
  ∃ file, Dict.get (t.toFiles root) path = some file ∧ isEligible setup root path = true ∧
    admits setup path file.content = true ∧
      ∃ part ∈ (relativeTo root path).dropLast, part ∈ prunedDirectoryNames

variable {setup root t} {path : Path}

section
omit [DecidableEq τ]

/-- What is discovered is what is eligible, admitted, and below no directory of packages. -/
theorem mem_discoverIngestFiles :
    path ∈ discoverIngestFiles setup (t.toFiles root) root ↔
      (∃ file, Dict.get (t.toFiles root) path = some file ∧ isEligible setup root path = true ∧
        admits setup path file.content = true) ∧
      ∀ part ∈ (relativeTo root path).dropLast, part ∉ prunedDirectoryNames := by
  rw [discoverIngestFiles, mem_sortedFiles]
  constructor
  · rintro ⟨file, hf, hdis⟩
    simp only [isDiscovered, Bool.and_eq_true, all_eq_true] at hdis
    obtain ⟨⟨⟨helig, hsid⟩, hden⟩, hprun⟩ := hdis
    refine ⟨⟨file, hf, helig, ?_⟩, fun part hpart hm => ?_⟩
    · rw [admits_eq, hsid, hden, Bool.and_self]
    · have hnot := hprun part hpart
      rw [contains_iff_mem.mpr hm] at hnot
      cases hnot
  · rintro ⟨⟨file, hf, helig, hadm⟩, hprun⟩
    rw [admits_eq, Bool.and_eq_true] at hadm
    refine ⟨file, hf, ?_⟩
    simp only [isDiscovered, Bool.and_eq_true, all_eq_true]
    refine ⟨⟨⟨helig, hadm.1⟩, hadm.2⟩, fun part hpart => ?_⟩
    rw [Bool.not_eq_true', ← Bool.not_eq_true, contains_iff_mem]
    exact hprun part hpart

/-- With no stray, what is discovered is what the sync would take and `ingest_file` would read. -/
theorem mem_discoverIngestFiles_iff_of_no_stray (hstray : ∀ path, ¬Stray setup root t path) :
    path ∈ discoverIngestFiles setup (t.toFiles root) root ↔
      path ∈ globEligible setup root t ∧
        ∃ file, Dict.get (t.toFiles root) path = some file ∧
          admits setup path file.content = true := by
  rw [globEligible_eq, mem_iterEligibleFiles, mem_discoverIngestFiles]
  constructor
  · rintro ⟨⟨file, hf, helig, hadm⟩, -⟩
    exact ⟨⟨file, hf, helig⟩, file, hf, hadm⟩
  · rintro ⟨⟨-, -, helig⟩, file, hf, hadm⟩
    refine ⟨⟨file, hf, helig, hadm⟩, fun part hpart hprun => ?_⟩
    exact hstray path ⟨file, hf, helig, hadm, part, hpart, hprun⟩

/-- The state that a sync has left does not force a full reindex under the same configuration. -/
theorem forceFullReindex_progressOf (hsize : setup.chunkSize ≠ 0) (indexed : List Path)
    (activeModel : String) : forceFullReindex setup
      (some (progressOf setup root t indexed activeModel)) activeModel = false := by
  simp [forceFullReindex, progressOf, recordedChunkSize, hsize]

end

/-- **The second sync of a tree without strays** finds nothing to do. -/
theorem settled_of_no_stray (hsize : setup.chunkSize ≠ 0)
    (hstray : ∀ path, ¬Stray setup root t path) {activeModel : String} {changes : Changes}
    (hchg : changes = checkCollectionChanges setup (t.toFiles root) root
      (some (progressOf setup root t (discoverIngestFiles setup (t.toFiles root) root)
        activeModel)) activeModel) :
    changes.changedFiles = [] ∧ changes.deletedPaths = [] ∧
      ∀ path ∈ changes.newFiles, ∀ file, Dict.get (t.toFiles root) path = some file →
        admits setup path file.content = false := by
  have hfor : forceFullReindex setup (some (progressOf setup root t
      (discoverIngestFiles setup (t.toFiles root) root) activeModel)) activeModel = false :=
    forceFullReindex_progressOf hsize _ activeModel
  -- what has a recorded modification time was discovered, and the time is that of the file
  have hrecd {path : Path} {mtime : τ} (h : Dict.get (mtimesOf (t.toFiles root)
      (discoverIngestFiles setup (t.toFiles root) root)) path = some mtime) :=
    get_mtimesOf h
  subst hchg
  refine ⟨?_, ?_, fun path hw file hf => ?_⟩
  · refine eq_nil_iff_forall_not_mem.mpr fun path hm => ?_
    rw [checkCollectionChanges, hfor] at hm
    obtain ⟨-, hstale⟩ := mem_filter.mp hm
    rw [Bool.and_eq_true, Bool.not_eq_true'] at hstale
    obtain ⟨mtime, hmt⟩ := Option.isSome_iff_exists.mp hstale.1
    obtain ⟨-, file, hf, rfl⟩ := hrecd hmt
    rw [(isCurrent_eq_true_iff hf).mpr hmt] at hstale
    cases hstale.2
  · refine eq_nil_iff_forall_not_mem.mpr fun path hm => ?_
    obtain ⟨hs, hgone⟩ := mem_deletedPaths.mp hm
    obtain ⟨mtime, hmt⟩ := Option.isSome_iff_exists.mp hs
    exact hgone (mem_iterEligibleFiles_of_discovered (hrecd hmt).1)
  · rw [checkCollectionChanges, hfor] at hw
    obtain ⟨helig, hn⟩ := mem_filter.mp hw
    by_contra hadm
    have hm : path ∈ discoverIngestFiles setup (t.toFiles root) root :=
      (mem_discoverIngestFiles_iff_of_no_stray hstray).mpr
        ⟨globEligible_eq ▸ helig, file, hf, Bool.not_eq_false _ ▸ hadm⟩
    have hs := isSome_get_mtimesOf hm (Option.isSome_of_mem hf)
    rw [Option.isNone_iff_eq_none] at hn
    rw [progressOf, loadFileMtimes] at hn
    rw [hn] at hs
    cases hs

variable (setup root t)

/-- **The walks agree if and only if no file is a stray and there are not too many.** -/
theorem agree_iff (hsize : setup.chunkSize ≠ 0) : Agree setup probed root t ↔
    (∀ path, ¬Stray setup root t path) ∧
      (discoverIngestFiles setup (t.toFiles root) root).length ≤ setup.maxDiscoveredFiles := by
  have hwalk : discoverFiles setup probed root defaultGlob t = within setup.maxDiscoveredFiles
      (discoverIngestFiles setup (t.toFiles root) root) := discoverFiles_eq
  constructor
  · rintro ⟨⟨found, hfnd, hm⟩, -⟩
    rw [hwalk, within] at hfnd
    split_ifs at hfnd with hroom
    cases hfnd
    refine ⟨?_, hroom⟩
    rintro path ⟨file, hf, helig, hadm, part, hpart, hprun⟩
    have hboth : path ∈ globEligible setup root t ∧
        ∃ file, Dict.get (t.toFiles root) path = some file ∧
          admits setup path file.content = true := by
      rw [globEligible_eq, mem_iterEligibleFiles]
      exact ⟨⟨file, hf, helig⟩, file, hf, hadm⟩
    exact (mem_discoverIngestFiles.mp ((hm path).mpr hboth)).2 part hpart hprun
  · rintro ⟨hstray, hroom⟩
    have hfnd : discoverFiles setup probed root defaultGlob t =
        .ok (discoverIngestFiles setup (t.toFiles root) root) := by
      rw [hwalk, within, if_pos hroom]
    refine ⟨⟨_, hfnd, fun path => mem_discoverIngestFiles_iff_of_no_stray hstray⟩, ?_⟩
    intro found activeModel hok changes hchg
    obtain rfl := Except.ok.inj (hfnd.symm.trans hok)
    exact settled_of_no_stray hsize hstray hchg

end Agreement

def walkedSetup : Setup String String where
  chunks _ content := [content]
  denied _ _ := false
  lower s := s
  sha1 _ := "000000"
  pinnedCollections := []
  maxDiscoveredFiles := 100
  chunkSize := 512
  autoReindexOnChunkSizeChange := false

def tidyTree : Tree String ℕ where
  entries := .file "a.md" ⟨"one", 1⟩ <| .file "a.md.acl" ⟨"all", 1⟩ <| .symlink "b" true <|
    .directory ".git" (.file "c.md" ⟨"two", 1⟩ .nil) .nil
  distinct := by simp [Entries.Distinct, Entries.names]

theorem agree_tidyTree : Agree walkedSetup (fun _ => true) ["docs"] tidyTree := by
  refine (agree_iff walkedSetup (fun _ => true) ["docs"] tidyTree (by decide)).mpr ⟨?_, ?_⟩
  · rintro path ⟨file, hf, helig, hadm, part, hpart, hprun⟩
    obtain ⟨rel, hm, rfl⟩ := get_toFiles.mp hf
    have hn : ∀ entry ∈ tidyTree.entries.files, ∀ part ∈ entry.1.dropLast,
        part ∉ prunedDirectoryNames := by decide
    rw [relativeTo, drop_left] at hpart
    exact hn (rel, file) hm part hpart hprun
  · decide

def untidyTree : Tree String ℕ where
  entries := .directory "venv" (.file "notes.md" ⟨"one", 1⟩ .nil) .nil
  distinct := by simp [Entries.Distinct, Entries.names]

/-- **The second sync indexes what the first passed over.** -/
theorem not_agree_untidyTree : ¬Agree walkedSetup (fun _ => true) ["docs"] untidyTree := by
  rintro ⟨⟨found, hfnd, hm⟩, -⟩
  have hn : discoverFiles walkedSetup (fun _ => true) ["docs"] defaultGlob untidyTree =
      .ok [] := by decide
  have helig : ["docs", "venv", "notes.md"] ∈ globEligible walkedSetup ["docs"] untidyTree := by
    decide
  have hf : Dict.get (untidyTree.toFiles ["docs"]) ["docs", "venv", "notes.md"] =
      some ⟨"one", 1⟩ := rfl
  obtain rfl := Except.ok.inj (hn.symm.trans hfnd)
  exact not_mem_nil ((hm ["docs", "venv", "notes.md"]).mpr ⟨helig, ⟨"one", 1⟩, hf, by decide⟩)

end ArchonSearch.Sync
