import Mathlib.Data.List.Infix

/-!
# A file system with links

A file system says what stands at each place: a regular file, a directory, a symbolic link or
something else (`FileSystem`). A place is the list of the names that lead to it from the root
through directories, so no link lies on the way. Files and directories have inodes, and two places
with one inode are hard links, or a directory that is mounted twice.

A path is something else, a request to go somewhere: it may lead through links, and upwards. The
system follows a path name by name (`FileSystem.follow`). A program that wants to know beforehand
where a path leads resolves it (`FileSystem.realpath`), which is more patient: names that lead
nowhere are kept as they are, and so is a link that leads back to itself. A link that is kept is
one that the system never comes to the end of, so where the system gets to from the result is the
result itself (`FileSystem.isResolved_of_realpath`, `FileSystem.IsResolved.eq_of_locate`).
-/

namespace ArchonSearch.Lib

open List Option

abbrev Place := List String

structure PurePath where
  absolute : Bool
  parts : List String

abbrev Inode := ℕ × ℕ

inductive Node where
  | file (inode : Inode) (links : ℕ) (content : Option (List UInt8))
  | directory (inode : Inode) (names : Option (List String))
  | symlink (target : PurePath)
  | other (inode : Inode)

def Node.inode : Node → Option Inode
  | .file inode _ _ | .directory inode _ | .other inode => some inode
  | .symlink _ => none

def Node.isSymlink : Node → Bool
  | .symlink _ => true
  | _ => false

def IsSpecial (name : String) : Prop := name = "" ∨ name = "." ∨ name = ".."

structure FileSystem where
  node : Place → Option Node
  cwd : Place
  limit : ℕ
  parent : ∀ p name, node (p ++ [name]) ≠ none →
    (∃ inode names, node p = some (.directory inode names)) ∧ ¬IsSpecial name
  listed : ∀ p inode names, node p = some (.directory inode (some names)) →
    names.Nodup ∧ ∀ name, node (p ++ [name]) ≠ none → name ∈ names
  short : ∀ p, node p ≠ none → p.length < limit

namespace FileSystem

variable (fs : FileSystem)

def start (p : PurePath) : Place := if p.absolute then [] else fs.cwd

def base (here : Place) (target : PurePath) : Place := if target.absolute then [] else here

def follow : ℕ → Place → List String → Option Place
  | 0, _, _ => none
  | _ + 1, here, [] => some here
  | fuel + 1, here, name :: rest =>
    match fs.node here with
    | some (.directory _ _) =>
      if name = "" ∨ name = "." then follow fuel here rest
      else if name = ".." then follow fuel here.dropLast rest
      else
        match fs.node (here ++ [name]) with
        | none => none
        | some (.symlink target) => follow fuel (base here target) (target.parts ++ rest)
        | some _ => follow fuel (here ++ [name]) rest
    | _ => none

/-- `os.path.realpath`, which gets stuck nowhere; `opened` are the links that are being resolved. -/
def realpathLoop : ℕ → (opened : List Place) → Place → List String → Option Place
  | 0, _, _, _ => none
  | _ + 1, _, here, [] => some here
  | fuel + 1, opened, here, name :: rest =>
    if name = "" ∨ name = "." then realpathLoop fuel opened here rest
    else if name = ".." then realpathLoop fuel opened here.dropLast rest
    else
      match fs.node (here ++ [name]) with
      | some (.symlink target) =>
        if here ++ [name] ∈ opened then realpathLoop fuel opened (here ++ [name]) rest
        else do
          let there ← realpathLoop fuel ((here ++ [name]) :: opened) (base here target) target.parts
          realpathLoop fuel opened there rest
      | _ => realpathLoop fuel opened (here ++ [name]) rest

/-- `Path.resolve(strict=False)`. -/
def realpath (p : PurePath) : Option Place := fs.realpathLoop fs.limit [] (fs.start p) p.parts

def locate (p : PurePath) : Option Place := fs.follow fs.limit (fs.start p) p.parts

/-- `os.stat`. -/
def stat (p : PurePath) : Option Node := (fs.locate p).bind fs.node

/-- `os.lstat`: a link at the end of the path is not followed. -/
def lstat (p : PurePath) : Option Node :=
  match p.parts.getLast? with
  | none => fs.stat p
  | some name => (fs.locate { p with parts := p.parts.dropLast }).bind fun here =>
      fs.node (here ++ [name])

/-- `Path.is_dir`. -/
def isDir (p : PurePath) : Bool :=
  match fs.stat p with
  | some (.directory _ _) => true
  | _ => false

/-- `Path.is_file`. -/
def isFile (p : PurePath) : Bool :=
  match fs.stat p with
  | some (.file _ _ _) => true
  | _ => false

/-! ### Following -/

variable {fs} {here : Place} {name : String} {rest : List String}

theorem follow_cons_eq_some {n : ℕ} {r : Place}
    (h : fs.follow n here (name :: rest) = some r) :
    ∃ m, n = m + 1 ∧ (∃ inode names, fs.node here = some (.directory inode names)) ∧
      (if name = "" ∨ name = "." then fs.follow m here rest = some r
      else if name = ".." then fs.follow m here.dropLast rest = some r
      else ∃ node, fs.node (here ++ [name]) = some node ∧
        match node with
        | .symlink target => fs.follow m (base here target) (target.parts ++ rest) = some r
        | _ => fs.follow m (here ++ [name]) rest = some r) := by
  cases n with
  | zero => cases h
  | succ m =>
    rw [follow] at h
    split at h
    next inode names hdir =>
      refine ⟨m, rfl, ⟨inode, names, hdir⟩, ?_⟩
      split_ifs at h ⊢
      · exact h
      · exact h
      · cases hn : fs.node (here ++ [name]) with
        | none => simp [hn] at h
        | some node =>
          refine ⟨node, rfl, ?_⟩
          rw [hn] at h
          cases node <;> exact h
    next => cases h

theorem exists_follow_of_append {n : ℕ} {a b : List String} {r : Place}
    (h : fs.follow n here (a ++ b) = some r) : ∃ d, fs.follow n here a = some d := by
  induction n generalizing here a with
  | zero => cases h
  | succ n ih =>
    cases a with
    | nil => exact ⟨here, rfl⟩
    | cons name a =>
      obtain ⟨m, hm, ⟨inode, names, hdir⟩, hrs⟩ := follow_cons_eq_some h
      obtain rfl : n = m := Nat.succ.inj hm
      rw [follow, hdir]
      split_ifs at hrs ⊢
      · exact ih hrs
      · exact ih hrs
      · obtain ⟨node, hn, hrs⟩ := hrs
        rw [hn]
        cases node with
        | symlink target =>
          refine ih ?_
          rw [append_assoc]
          exact hrs
        | file inode links content => exact ih hrs
        | directory inode names => exact ih hrs
        | other inode => exact ih hrs

/-! ### Resolving -/

variable (fs) in
def IsStuck (here : Place) (name : String) : Prop := ∀ n, fs.follow n here [name] = none

variable (fs) in
/-- A place as far as it goes: no name is special, and no link is on the way but those that the
system never comes to the end of. -/
structure IsResolved (p : Place) : Prop where
  plain : ∀ name ∈ p, ¬IsSpecial name
  links : ∀ here name target, here ++ [name] <+: p →
    fs.node (here ++ [name]) = some (.symlink target) → fs.IsStuck here name

theorem isResolved_nil : fs.IsResolved [] := by
  refine ⟨fun name hnm => (by cases hnm), fun here name target hpre => ?_⟩
  have hlen := hpre.length_le
  simp at hlen

theorem IsResolved.of_isPrefix {p q : Place} (h : fs.IsResolved p) (hpre : q <+: p) :
    fs.IsResolved q :=
  ⟨fun name hnm => h.plain name (hpre.subset hnm),
    fun here name target hq => h.links here name target (hq.trans hpre)⟩

theorem IsResolved.dropLast {p : Place} (h : fs.IsResolved p) : fs.IsResolved p.dropLast :=
  h.of_isPrefix p.dropLast_prefix

theorem IsResolved.concat (h : fs.IsResolved here) (hpl : ¬IsSpecial name)
    (hlink : ∀ target, fs.node (here ++ [name]) = some (.symlink target) → fs.IsStuck here name) :
    fs.IsResolved (here ++ [name]) := by
  refine ⟨fun other hoth => ?_, fun there other target hpre hn => ?_⟩
  · rcases mem_append.mp hoth with hoth | hoth
    · exact h.plain other hoth
    · rwa [mem_singleton.mp hoth]
  · rcases prefix_concat_iff.mp hpre with heq | hbel
    · obtain ⟨rfl, hnm⟩ := append_inj' heq rfl
      obtain rfl := singleton_inj.mp hnm
      exact hlink target hn
    · exact h.links there other target hbel hn

/-- Who follows one of the links comes by here, with these names and perhaps more to go. -/
def LeadsTo (fs : FileSystem) (opened : List Place) (here : Place) (rest : List String) : Prop :=
  ∀ there name, there ++ [name] ∈ opened → ∀ n r, fs.follow n there [name] = some r →
    ∃ m < n, ∃ more r', fs.follow m here (rest ++ more) = some r'

/-- **A link that is met again while it is resolved is stuck.** -/
theorem LeadsTo.isStuck {opened : List Place} (h : LeadsTo fs opened here (name :: rest))
    (hm : here ++ [name] ∈ opened) : fs.IsStuck here name := by
  intro n
  induction n using Nat.strong_induction_on with
  | _ n ih =>
    cases hfol : fs.follow n here [name] with
    | none => rfl
    | some r =>
      obtain ⟨m, hlt, more, r', hagain⟩ := h here name hm n r hfol
      obtain ⟨d, hd⟩ := exists_follow_of_append (a := [name]) (b := rest ++ more) hagain
      rw [ih m hlt] at hd
      cases hd

/-- The system has come to `next`, with the rest to go. -/
def Advances (fs : FileSystem) (here : Place) (path : List String) (next : Place)
    (rest : List String) : Prop :=
  ∀ n more r, fs.follow n here (path ++ more) = some r →
    ∃ m < n, fs.follow m next (rest ++ more) = some r

theorem LeadsTo.advance {opened : List Place} {path : List String} {next : Place}
    (h : LeadsTo fs opened here path) (hs : Advances fs here path next rest) :
    LeadsTo fs opened next rest := by
  intro link other hmem n r hr
  obtain ⟨m, hm, more, r', hr'⟩ := h link other hmem n r hr
  obtain ⟨m', hm', hr''⟩ := hs m more r' hr'
  exact ⟨m', hm'.trans hm, more, r', hr''⟩

theorem advances_dot (h : name = "" ∨ name = ".") : Advances fs here (name :: rest) here rest := by
  intro n more r hr
  obtain ⟨m, rfl, -, hx⟩ := follow_cons_eq_some hr
  rw [if_pos h] at hx
  exact ⟨m, m.lt_succ_self, hx⟩

theorem advances_up (h : name = "..") :
    Advances fs here (name :: rest) here.dropLast rest := by
  intro n more r hr
  obtain ⟨m, rfl, -, hx⟩ := follow_cons_eq_some hr
  rw [if_neg (by simp [h]), if_pos h] at hx
  exact ⟨m, m.lt_succ_self, hx⟩

theorem advances_symlink {target : PurePath} (hpl : ¬IsSpecial name)
    (hn : fs.node (here ++ [name]) = some (.symlink target)) :
    Advances fs here (name :: rest) (base here target) (target.parts ++ rest) := by
  intro n more r hr
  obtain ⟨m, rfl, -, hx⟩ := follow_cons_eq_some hr
  rw [if_neg fun hnm => hpl (hnm.imp_right .inl), if_neg fun hnm => hpl (.inr (.inr hnm))] at hx
  obtain ⟨node, hn', hx⟩ := hx
  obtain rfl : node = .symlink target := some.inj (hn'.symm.trans hn)
  exact ⟨m, m.lt_succ_self, by rwa [append_assoc]⟩

theorem advances_name (hpl : ¬IsSpecial name)
    (hn : ∀ target, fs.node (here ++ [name]) ≠ some (.symlink target)) :
    Advances fs here (name :: rest) (here ++ [name]) rest := by
  intro n more r hr
  obtain ⟨m, rfl, -, hx⟩ := follow_cons_eq_some hr
  rw [if_neg fun hnm => hpl (hnm.imp_right .inl), if_neg fun hnm => hpl (.inr (.inr hnm))] at hx
  obtain ⟨node, hn', hx⟩ := hx
  refine ⟨m, m.lt_succ_self, ?_⟩
  cases node with
  | symlink target => exact absurd hn' (hn target)
  | file inode links content => exact hx
  | directory inode names => exact hx
  | other inode => exact hx

theorem IsStuck.advances {next : Place} (h : fs.IsStuck here name) :
    Advances fs here (name :: rest) next rest := by
  intro n more r hr
  obtain ⟨d, hd⟩ := exists_follow_of_append (a := [name]) (b := rest ++ more) hr
  rw [h n] at hd
  cases hd

def Resolves (fs : FileSystem) (here : Place) (path : List String) (there : Place) : Prop :=
  fs.IsResolved there ∧ ∀ n more r, fs.follow n here (path ++ more) = some r →
    ∃ m ≤ n, fs.follow m there more = some r

theorem Resolves.of_advances {path : List String} {next there : Place}
    (h : Resolves fs next rest there) (hs : Advances fs here path next rest) :
    Resolves fs here path there := by
  refine ⟨h.1, fun n more r hr => ?_⟩
  obtain ⟨m, hm, hr'⟩ := hs n more r hr
  obtain ⟨m', hm', hr''⟩ := h.2 m more r hr'
  exact ⟨m', hm'.trans hm.le, hr''⟩

/-- **Resolving a path** ends at a place that is resolved, and where the system gets to by the path
it gets to from there. -/
theorem resolves_of_realpathLoop {fuel : ℕ} {opened : List Place} {there : Place}
    (h : fs.realpathLoop fuel opened here rest = some there) (hhere : fs.IsResolved here)
    (hopened : LeadsTo fs opened here rest) : Resolves fs here rest there := by
  induction fuel generalizing opened here rest there with
  | zero => cases h
  | succ fuel ih =>
    cases rest with
    | nil =>
      obtain rfl : here = there := some.inj h
      exact ⟨hhere, fun n more r hr => ⟨n, le_rfl, hr⟩⟩
    | cons name rest =>
      -- one name on the way of the system, and of those who follow an open link
      have hgo {next : Place} (hs : Advances fs here (name :: rest) next rest)
          (hx : fs.realpathLoop fuel opened next rest = some there)
          (hreso : fs.IsResolved next) : Resolves fs here (name :: rest) there :=
        (ih hx hreso (hopened.advance hs)).of_advances hs
      rw [realpathLoop] at h
      by_cases hdot : name = "" ∨ name = "."
      · rw [if_pos hdot] at h
        exact hgo (advances_dot hdot) h hhere
      rw [if_neg hdot] at h
      by_cases hup : name = ".."
      · rw [if_pos hup] at h
        exact hgo (advances_up hup) h hhere.dropLast
      rw [if_neg hup] at h
      have hpl : ¬IsSpecial name := by
        rintro (hnm | hnm | hnm)
        · exact hdot (.inl hnm)
        · exact hdot (.inr hnm)
        · exact hup hnm
      split at h
      next target hn =>
        by_cases hopen : here ++ [name] ∈ opened
        · -- the link is kept, and nobody gets past it
          rw [if_pos hopen] at h
          have hstuck := hopened.isStuck hopen
          exact hgo hstuck.advances h (hhere.concat hpl fun _ _ => hstuck)
        rw [if_neg hopen] at h
        obtain ⟨middle, hmid, hrs⟩ := bind_eq_some_iff.mp h
        have hbase : fs.IsResolved (base here target) := by
          unfold base
          split_ifs
          · exact isResolved_nil
          · exact hhere
        have hleads : LeadsTo fs ((here ++ [name]) :: opened) (base here target)
            target.parts := by
          intro link other hmem n r hr
          rcases mem_cons.mp hmem with heq | hmem
          · obtain ⟨rfl, hnm⟩ := append_inj' heq rfl
            obtain rfl := singleton_inj.mp hnm
            have hadv : Advances fs link [other] (base link target) (target.parts ++ []) :=
              advances_symlink hpl hn
            obtain ⟨m, hm, hx⟩ := hadv n [] r hr
            exact ⟨m, hm, [], r, by simpa using hx⟩
          · obtain ⟨m, hm, more, r', hr'⟩ := hopened link other hmem n r hr
            obtain ⟨m', hm', hx⟩ := advances_symlink hpl hn m more r' hr'
            exact ⟨m', hm'.trans hm, rest ++ more, r', by simpa using hx⟩
        have hres := ih hmid hbase hleads
        refine hgo (fun n more r hr => ?_) hrs hres.1
        obtain ⟨m, hm, hx⟩ := advances_symlink hpl hn n more r hr
        rw [append_assoc] at hx
        obtain ⟨m', hm', hx⟩ := hres.2 m (rest ++ more) r hx
        exact ⟨m', hm'.trans_lt hm, hx⟩
      next hn =>
        have hnm (target : PurePath) : fs.node (here ++ [name]) ≠ some (.symlink target) :=
          hn target
        exact hgo (advances_name hpl hnm) h
          (hhere.concat hpl fun target htgt => absurd htgt (hnm target))

/-- Where the system gets to from a resolved place is the place itself. -/
theorem IsResolved.eq_of_follow {n : ℕ} {r : Place} (h : fs.IsResolved (here ++ rest))
    (hfol : fs.follow n here rest = some r) : r = here ++ rest := by
  induction rest generalizing n here with
  | nil =>
    cases n with
    | zero => cases hfol
    | succ n => rw [append_nil]; exact (some.inj hfol).symm
  | cons name rest ih =>
    have hass : here ++ name :: rest = here ++ [name] ++ rest := by simp
    have hpl : ¬IsSpecial name := h.plain name (by simp)
    obtain ⟨m, rfl, -, hx⟩ := follow_cons_eq_some hfol
    rw [if_neg fun hnm => hpl (hnm.imp_right .inl), if_neg fun hnm => hpl (.inr (.inr hnm))] at hx
    obtain ⟨node, hn, hx⟩ := hx
    rw [hass] at h ⊢
    cases node with
    | symlink target =>
      have hstuck := h.links here name target (prefix_append _ _) hn
      obtain ⟨d, hd⟩ := exists_follow_of_append (a := [name]) (b := rest) hfol
      rw [hstuck] at hd
      cases hd
    | file inode links content => exact ih h hx
    | directory inode names => exact ih h hx
    | other inode => exact ih h hx

def pathTo (p : Place) : PurePath := ⟨true, p⟩

/-- **What `realpath` returns is resolved.** -/
theorem isResolved_of_realpath {p : PurePath} {r : Place} (habs : p.absolute = true)
    (h : fs.realpath p = some r) : fs.IsResolved r := by
  have hst : fs.start p = [] := if_pos habs
  rw [realpath, hst] at h
  exact (resolves_of_realpathLoop h isResolved_nil fun _ _ hm => by cases hm).1

/-- **Where a resolved path leads is the path itself.** -/
theorem IsResolved.eq_of_locate {p r : Place} (h : fs.IsResolved p)
    (hloc : fs.locate (pathTo p) = some r) : r = p :=
  @IsResolved.eq_of_follow fs [] p _ r h hloc

/-- What stands at a resolved path, links followed or not. -/
theorem IsResolved.node_of_lstat {p : Place} {node : Node} (h : fs.IsResolved p)
    (hlstat : fs.lstat (pathTo p) = some node) : fs.node p = some node := by
  unfold lstat at hlstat
  split at hlstat
  next hl =>
    obtain ⟨r, hr, hn⟩ := bind_eq_some_iff.mp hlstat
    rwa [h.eq_of_locate hr] at hn
  next name hl =>
    obtain ⟨r, hr, hn⟩ := bind_eq_some_iff.mp hlstat
    rw [h.dropLast.eq_of_locate hr] at hn
    have hwh : p.dropLast ++ [name] = p := dropLast_append_getLast? name hl
    rwa [hwh] at hn

/-! ### Places -/

/-- On the way to a place there are directories only. -/
theorem directory_of_isPrefix {p q : Place} (hp : fs.node p ≠ none) (hpre : q <+: p)
    (hne : q ≠ p) : ∃ inode names, fs.node q = some (.directory inode names) := by
  induction p using List.reverseRecOn with
  | nil => exact absurd (prefix_nil.mp hpre) hne
  | append_singleton p name ih =>
    obtain ⟨⟨inode, names, hdir⟩, -⟩ := fs.parent p name hp
    rcases prefix_concat_iff.mp hpre with heq | hbel
    · exact absurd heq hne
    · by_cases heq : q = p
      · exact ⟨inode, names, heq ▸ hdir⟩
      · exact ih (by simp [hdir]) hbel heq

theorem not_isSpecial_of_isPrefix {p : Place} (hp : fs.node p ≠ none)
    (hpre : here ++ [name] <+: p) : ¬IsSpecial name := by
  refine (fs.parent here name ?_).2
  by_cases heq : here ++ [name] = p
  · rwa [heq]
  · obtain ⟨inode, names, hdir⟩ := directory_of_isPrefix hp hpre heq
    simp [hdir]

/-- On the way to what is no link there is no link. -/
theorem not_symlink_of_isPrefix {p q : Place} {node : Node} (hp : fs.node p = some node)
    (hlink : node.isSymlink = false) (hpre : q <+: p) (target : PurePath) :
    fs.node q ≠ some (.symlink target) := by
  by_cases heq : q = p
  · rw [heq, hp]
    rintro ⟨⟩
    cases hlink
  · have hne : fs.node p ≠ none := by simp [hp]
    obtain ⟨inode, names, hdir⟩ := directory_of_isPrefix hne hpre heq
    simp [hdir]

theorem isResolved_of_node {p : Place} {node : Node} (hp : fs.node p = some node)
    (hlink : node.isSymlink = false) : fs.IsResolved p := by
  have hne : fs.node p ≠ none := by simp [hp]
  refine ⟨fun name hnm => ?_, fun here name target hpre hn =>
    absurd hn (not_symlink_of_isPrefix hp hlink hpre target)⟩
  obtain ⟨here, rest, rfl⟩ := append_of_mem hnm
  have hpre : here ++ [name] <+: here ++ name :: rest := ⟨rest, by simp⟩
  exact not_isSpecial_of_isPrefix hne hpre

/-- **The path to a place leads there.** -/
theorem follow_of_node {fuel : ℕ} {node : Node} (hn : fs.node (here ++ rest) = some node)
    (hlink : node.isSymlink = false) (hfuel : rest.length < fuel) :
    fs.follow fuel here rest = some (here ++ rest) := by
  induction rest generalizing fuel here with
  | nil =>
    obtain ⟨fuel, rfl⟩ := Nat.exists_eq_add_of_lt hfuel
    simp [follow]
  | cons name rest ih =>
    cases fuel with
    | zero => cases hfuel
    | succ fuel =>
      have hass : here ++ name :: rest = here ++ [name] ++ rest := by simp
      rw [hass] at hn ⊢
      have hne : fs.node (here ++ [name] ++ rest) ≠ none := by rw [hn]; simp
      have hpre : here ++ [name] <+: here ++ [name] ++ rest := prefix_append _ _
      have hpl := not_isSpecial_of_isPrefix hne hpre
      obtain ⟨inode, names, hdir⟩ := directory_of_isPrefix (q := here) hne
        ((prefix_append _ _).trans hpre) (by simp)
      have hrs := ih hn (Nat.lt_of_succ_lt_succ hfuel)
      rw [follow, hdir]
      rw [if_neg fun hnm => hpl (hnm.imp_right .inl), if_neg fun hnm => hpl (.inr (.inr hnm))]
      cases hx : fs.node (here ++ [name]) with
      | none =>
        by_cases hl : rest = []
        · rw [hl, append_nil, hx] at hn
          cases hn
        · obtain ⟨inode, names, hdir⟩ := directory_of_isPrefix hne hpre (by simpa using hl)
          rw [hx] at hdir
          cases hdir
      | some next =>
        cases next with
        | symlink target => exact absurd hx (not_symlink_of_isPrefix hn hlink hpre target)
        | file inode links content => exact hrs
        | directory inode names => exact hrs
        | other inode => exact hrs

theorem realpathLoop_of_node {fuel : ℕ} {opened : List Place} {node : Node}
    (hn : fs.node (here ++ rest) = some node) (hlink : node.isSymlink = false)
    (hfuel : rest.length < fuel) :
    fs.realpathLoop fuel opened here rest = some (here ++ rest) := by
  induction rest generalizing fuel here with
  | nil =>
    obtain ⟨fuel, rfl⟩ := Nat.exists_eq_add_of_lt hfuel
    simp [realpathLoop]
  | cons name rest ih =>
    cases fuel with
    | zero => cases hfuel
    | succ fuel =>
      have hass : here ++ name :: rest = here ++ [name] ++ rest := by simp
      rw [hass] at hn ⊢
      have hpre : here ++ [name] <+: here ++ [name] ++ rest := prefix_append _ _
      have hne : fs.node (here ++ [name] ++ rest) ≠ none := by rw [hn]; simp
      have hpl := not_isSpecial_of_isPrefix hne hpre
      rw [realpathLoop, if_neg fun hnm => hpl (hnm.imp_right .inl),
        if_neg fun hnm => hpl (.inr (.inr hnm))]
      split
      next target hsym =>
        exact absurd hsym (not_symlink_of_isPrefix hn hlink hpre target)
      next => exact ih hn (Nat.lt_of_succ_lt_succ hfuel)

/-- **A place is its own resolved path.** -/
theorem realpath_of_node {p : Place} {node : Node} (hn : fs.node p = some node)
    (hlink : node.isSymlink = false) : fs.realpath (pathTo p) = some p :=
  @realpathLoop_of_node fs [] p _ _ node hn hlink (fs.short p (by simp [hn]))

/-- **What stands at a place** is what `stat` tells of the path to it. -/
theorem stat_of_node {p : Place} {node : Node} (hn : fs.node p = some node)
    (hlink : node.isSymlink = false) : fs.stat (pathTo p) = some node := by
  have hloc : fs.locate (pathTo p) = some p :=
    @follow_of_node fs [] p _ node hn hlink (fs.short p (by simp [hn]))
  rw [stat, hloc]
  exact hn

end FileSystem

end ArchonSearch.Lib
