import ArchonSearch.Lib.Calls
import ArchonSearch.Lib.FileSystem
import ArchonSearch.Py.Fnmatch
import ArchonSearch.Py.Str
import ArchonSearch.Sync.Tree

/-!
# What an ingest may read

The policy for the paths that an ingest reads. Some locations are never read, whoever asks: the
directories and files in which the server keeps its own state, those of the system that hold
secrets, and whatever is named like a credential (`Server.checkSecrets`). A path that a client
supplies must also lie in one of the allowed roots, if there are any (`Server.checkScope`), and a
client who is no administrator may supply one only then (`Server.checkClientPath`). Locations are
compared by inode, after the path has been resolved.

A place at which something stands is its own resolved path. If the check lets it pass, then it is
not in a denied location, link or no link (`Server.isClear_of_checkSecrets`).
-/

namespace ArchonSearch.PathSafety

open Lib FileSystem Py

/-! ### The tables -/

/-- `_SYSTEM_DENY_DIRS`. -/
def systemDenyDirs : List PurePath :=
  [["proc"], ["sys"], ["dev"], ["root"], ["var", "root"], ["etc", "ssl", "private"],
    ["etc", "sudoers.d"]].map pathTo

/-- `_SYSTEM_DENY_FILES`. -/
def systemDenyFiles : List PurePath :=
  [["etc", "passwd"], ["etc", "shadow"], ["etc", "gshadow"], ["etc", "master.passwd"],
    ["etc", "sudoers"], ["etc", "security", "opasswd"]].map pathTo

/-- `_SECRET_DIR_SEQUENCES`. -/
def secretDirSequences : List (List String) :=
  [[".ssh"], [".aws"], [".gnupg"], [".kube"], [".docker"], [".azure"], [".gcloud"], [".oci"],
    [".password-store"],
    [".config", "gcloud"], [".config", "gh"], [".config", "rclone"], [".config", "doctl"],
    [".mozilla"], [".config", "google-chrome"], [".config", "chromium"],
    [".config", "microsoft-edge"], [".config", "bravesoftware"],
    ["library", "keychains"],
    ["library", "application support", "google", "chrome"],
    ["library", "application support", "firefox"],
    ["library", "application support", "microsoft edge"],
    ["library", "application support", "bravesoftware"],
    ["library", "safari"]]

/-- `_SECRET_FILE_PATTERNS`. -/
def secretFilePatterns : List String :=
  ["id_*", "*_rsa*", ".env", ".env.*", "*.pem", "*.p12", "*.pfx", "*.keystore", "*.jks",
    ".netrc", "_netrc", ".npmrc", ".pypirc", ".git-credentials", ".pgpass", ".dockercfg", ".s3cfg",
    ".vault-token",
    ".search.env", ".secrets.env", "keys.json"]

/-- `_KEY_FILE_SUFFIX`. -/
def keyFileSuffix : String := ".key"

/-- `_PEM_ARMOUR_PREFIX`: `-----BEGIN`. -/
def pemArmourPrefix : List UInt8 := [45, 45, 45, 45, 45, 66, 69, 71, 73, 78]

/-- `_PEM_PROBE_BYTES`. -/
def pemProbeBytes : ℕ := 128

/-- The whitespace that `bytes.lstrip` strips. -/
def isByteSpace (b : UInt8) : Bool := b = 32 || (9 ≤ b && b ≤ 13)

/-! ### The policy -/

/-- `IngestPathPolicy`. -/
structure IngestPathPolicy where
  (denyRoots denyFiles allowedRoots : List PurePath)

inductive Refusal where
  /-- `PathUnsafeError`, with its reason. -/
  | pathUnsafe (reason : String)
  | failed

/-- `PathUnsafeError(DENIED_LOCATION)`. -/
def deniedLocation : Refusal := .pathUnsafe "denied_location"

structure Server where
  policy : IngestPathPolicy
  /-- `str.casefold`. -/
  casefold : String → String
  /-- `os.path.expanduser` of a piece that begins with `~`, if that user is known. -/
  homeOf : String → Option PurePath

namespace Server

variable (server : Server) (fs : FileSystem)

/-- `_is_secret_name`. -/
def isSecretName (name : String) : Bool :=
  secretFilePatterns.any fun pattern => fnmatchcase (server.casefold name) pattern

/-- `_has_secret_directory`. -/
def hasSecretDirectory (parts : List String) : Bool :=
  let folded := parts.map server.casefold
  secretDirSequences.any fun sequence =>
    (List.range (folded.length + 1 - sequence.length)).any fun start =>
      (folded.drop start).take sequence.length = sequence

/-- `_is_pem_key_file`, of a path that has been resolved. -/
def isPemKeyFile (path : Place) : Bool :=
  if server.casefold (Sync.suffix path) ≠ keyFileSuffix then false
  else
    match fs.lstat (pathTo path) with
    | none | some (.directory _ _) => false
    | some (.file _ _ (some content)) =>
      pemArmourPrefix.isPrefixOf ((content.take pemProbeBytes).dropWhile isByteSpace)
    -- it cannot be read, or it is a link, which is not followed, or a device
    | some _ => true

/-- `_secret_identities`: none if the directory cannot be listed. -/
def secretIdentities (directory : Place) : Option (List Inode) :=
  match fs.stat (pathTo directory) with
  | some (.directory _ (some names)) =>
    some (names.filterMap fun name =>
      if !(server.isSecretName name ||
          keyFileSuffix.toList.isSuffixOf (server.casefold name).toList) then none
      else
        match fs.lstat (pathTo (directory ++ [name])) with
        | some (.file inode _ _) =>
          if server.isSecretName name || server.isPemKeyFile fs (directory ++ [name]) then
            some inode
          else none
        | _ => none)
  | _ => none

/-- `_has_secret_named_hard_link`. The listings that a walk keeps of its directories are those of a
file system that does not change. -/
def hasSecretNamedHardLink (path : Place) : Bool :=
  match fs.stat (pathTo path) with
  | some (.file inode links _) =>
    if links ≤ 1 then false
    else
      match server.secretIdentities fs path.dropLast with
      | none => true
      | some identities => decide (inode ∈ identities)
  | _ => false

/-- `_file_identity`. -/
def fileIdentity (path : PurePath) : Option Inode := (fs.stat path).bind Node.inode

/-- `_identities`. -/
def identities (paths : List PurePath) : List Inode := paths.filterMap (fileIdentity fs)

/-- `(path, *path.parents)`. -/
def ancestors (path : Place) : List Place := path.inits.reverse

def isUnder (path : Place) (inodes : List Inode) : Bool :=
  (ancestors path).any fun q =>
    (fileIdentity fs (pathTo q)).any fun inode => decide (inode ∈ inodes)

/-- `check_secrets`. -/
def checkSecrets (path : PurePath) (probeContent : Bool) : Except Refusal Unit :=
  match fs.realpath path with
  | none => .error .failed
  | some resolved =>
    if server.hasSecretDirectory (Sync.parts resolved) then .error deniedLocation
    else if server.isSecretName (Sync.baseName resolved) ||
        (probeContent && server.isPemKeyFile fs resolved) then .error deniedLocation
    else if probeContent && server.hasSecretNamedHardLink fs resolved then .error deniedLocation
    else if isUnder fs resolved (identities fs (server.policy.denyRoots ++ systemDenyDirs)) then
      .error deniedLocation
    else if (fileIdentity fs (pathTo resolved)).any fun inode =>
        decide (inode ∈ identities fs (server.policy.denyFiles ++ systemDenyFiles)) then
      .error deniedLocation
    else .ok ()

/-- `check_scope`. -/
def checkScope (path : PurePath) : Except Refusal Unit :=
  if server.policy.allowedRoots = [] then .ok ()
  else
    match fs.realpath path with
    | none => .error .failed
    | some resolved =>
      if isUnder fs resolved (identities fs server.policy.allowedRoots) then .ok ()
      else .error (.pathUnsafe "outside_allowed_roots")

/-- `check_client_path`. -/
def checkClientPath (path : PurePath) (admin : Bool) : Except Refusal Unit :=
  if !admin && server.policy.allowedRoots.isEmpty then do
    server.checkSecrets fs path false
    .error (.pathUnsafe "allowed_roots_required")
  else do
    server.checkScope fs path
    server.checkSecrets fs path true

/-! ### The path of a client -/

/-- `Path(raw)`. -/
def purePath (raw : String) : PurePath :=
  ⟨raw.toList.head? = some '/',
    ((raw.toList.splitOn '/').map String.ofList).filter fun part => part ≠ "" && part ≠ "."⟩

/-- `Path.expanduser`. -/
def expanduser (path : PurePath) : Option PurePath :=
  match path.absolute, path.parts with
  | false, home :: rest =>
    if home.toList.head? = some '~' then
      (server.homeOf home).map fun directory =>
        { directory with parts := directory.parts ++ rest }
    else some path
  | _, _ => some path

/-- `validate_ingest_path`. -/
def validateIngestPath (raw : String) : Except Refusal Place :=
  if raw = "" then .error (.pathUnsafe "empty")
  else if strip raw = "" then .error (.pathUnsafe "whitespace_only")
  else if '\x00' ∈ raw.toList then .error (.pathUnsafe "nul_byte")
  else
    match server.expanduser (purePath raw) with
    | none => .error .failed
    | some expanded =>
      if expanded.absolute = false then .error (.pathUnsafe "not_absolute")
      else if ".." ∈ (purePath raw).parts then .error (.pathUnsafe "contains_dotdot")
      else
        match fs.realpath expanded with
        | none => .error .failed
        | some resolved => .ok resolved

/-- `_is_file_symlink`. -/
def isFileSymlink (path : PurePath) : Bool :=
  (fs.lstat path).any Node.isSymlink && !fs.isDir path

/-- `validate_ingest_source`. -/
def validateIngestSource (raw : String) (admin : Bool) : Except Refusal Place := do
  let resolved ← server.validateIngestPath fs raw
  server.checkClientPath fs (pathTo resolved) admin
  if (server.expanduser (purePath raw)).any (isFileSymlink fs) then
    .error (.pathUnsafe "symlink_path")
  else pure resolved

/-- `validate_glob_pattern`: the reason of the refusal, if there is one. -/
def validateGlobPattern (pattern : String) : Option String :=
  let parts := ((pattern.toList.map fun c => if c = '\\' then '/' else c).splitOn '/').map
    String.ofList
  if strip pattern = "" then some "glob_empty"
  else if 256 < pattern.length then some "glob_too_long"
  else if '\x00' ∈ pattern.toList then some "nul_byte"
  else if pattern.toList.head? = some '/' ∨ pattern.toList.head? = some '\\' then
    some "glob_absolute"
  else if ".." ∈ parts then some "contains_dotdot"
  else if 4 < parts.count "**" then some "glob_too_recursive"
  else none

/-! ### What a check that passes says -/

variable {server fs} {p : Place} {node : Node}

def inodeAt (fs : FileSystem) (p : Place) : Option Inode := (fs.node p).bind Node.inode

theorem fileIdentity_of_node (hn : fs.node p = some node) (hlink : node.isSymlink = false) :
    fileIdentity fs (pathTo p) = inodeAt fs p := by
  rw [fileIdentity, stat_of_node hn hlink, inodeAt, hn]

variable {q : Place}

theorem mem_ancestors : q ∈ ancestors p ↔ q <+: p := by simp [ancestors]

theorem mem_identities {paths : List PurePath} {inode : Inode} :
    inode ∈ identities fs paths ↔ ∃ path ∈ paths, fileIdentity fs path = some inode :=
  List.mem_filterMap

/-- What is on the way to a place is known by its inode. -/
theorem fileIdentity_of_isPrefix (hn : fs.node p = some node)
    (hlink : node.isSymlink = false) (hpre : q <+: p) :
    fileIdentity fs (pathTo q) = inodeAt fs q := by
  by_cases heq : q = p
  · rw [heq]
    exact fileIdentity_of_node hn hlink
  · have hne : fs.node p ≠ none := by simp [hn]
    obtain ⟨inode, names, hdir⟩ := directory_of_isPrefix hne hpre heq
    exact fileIdentity_of_node hdir rfl

variable (server fs) in
structure IsClear (p : Place) : Prop where
  directory : server.hasSecretDirectory (Sync.parts p) = false
  name : server.isSecretName (Sync.baseName p) = false
  root : ∀ root ∈ server.policy.denyRoots ++ systemDenyDirs, ∀ inode,
    fileIdentity fs root = some inode → ∀ q, q <+: p → inodeAt fs q ≠ some inode
  file : ∀ file ∈ server.policy.denyFiles ++ systemDenyFiles, ∀ inode,
    fileIdentity fs file = some inode → inodeAt fs p ≠ some inode

/-- **A place that the check lets pass is in no denied location.** -/
theorem isClear_of_checkSecrets {probeContent : Bool} (hn : fs.node p = some node)
    (hlink : node.isSymlink = false)
    (h : server.checkSecrets fs (pathTo p) probeContent = .ok ()) : server.IsClear fs p := by
  rw [checkSecrets, realpath_of_node hn hlink] at h
  dsimp only at h
  split_ifs at h with hdir hnm hlin hroot hf
  have hnm' := (Bool.or_eq_false_iff.mp (Bool.eq_false_iff.mpr hnm)).1
  refine ⟨Bool.eq_false_iff.mpr hdir, hnm', ?_, ?_⟩
  · intro root hm inode hinode q hpre heq
    refine hroot (List.any_eq_true.mpr ⟨q, mem_ancestors.mpr hpre, ?_⟩)
    rw [fileIdentity_of_isPrefix hn hlink hpre, heq]
    exact decide_eq_true (mem_identities.mpr ⟨root, hm, hinode⟩)
  · intro file hm inode hinode heq
    refine hf ?_
    rw [fileIdentity_of_node hn hlink, heq]
    exact decide_eq_true (mem_identities.mpr ⟨file, hm, hinode⟩)

variable (server fs) in
def IsWithin (p : Place) : Prop :=
  ∃ root ∈ server.policy.allowedRoots, ∃ inode, fileIdentity fs root = some inode ∧
    ∃ q, q <+: p ∧ inodeAt fs q = some inode

/-- **A place that is let pass** is below an allowed root, if there are any. -/
theorem isWithin_of_checkScope (hn : fs.node p = some node) (hlink : node.isSymlink = false)
    (hroots : server.policy.allowedRoots ≠ []) (h : server.checkScope fs (pathTo p) = .ok ()) :
    server.IsWithin fs p := by
  rw [checkScope, if_neg hroots, realpath_of_node hn hlink] at h
  dsimp only at h
  split_ifs at h with hund
  obtain ⟨q, hq, hiden⟩ := List.any_eq_true.mp hund
  have hpre := mem_ancestors.mp hq
  obtain ⟨inode, hinode, hm⟩ := (Option.any_eq_true _ _).mp hiden
  obtain ⟨root, hroot, heq⟩ := mem_identities.mp (of_decide_eq_true hm)
  rw [fileIdentity_of_isPrefix hn hlink hpre] at hinode
  exact ⟨root, hroot, inode, heq, q, hpre, hinode⟩

/-- What is below a place that is within the roots is within them. -/
theorem IsWithin.of_isPrefix (h : server.IsWithin fs p) (hpre : p <+: q) :
    server.IsWithin fs q := by
  obtain ⟨root, hroot, inode, hinode, r, hr, hat⟩ := h
  exact ⟨root, hroot, inode, hinode, r, hr.trans hpre, hat⟩

variable {admin : Bool}

/-- A client who is let pass is an administrator, or there are roots and the path is in scope. -/
theorem of_checkClientPath {path : PurePath}
    (h : server.checkClientPath fs path admin = .ok ()) :
    (admin = true ∨ server.policy.allowedRoots ≠ []) ∧ server.checkScope fs path = .ok () := by
  unfold checkClientPath at h
  split_ifs at h with hneed
  · obtain ⟨_, _, href⟩ := bind_eq_ok.mp h
    cases href
  · obtain ⟨_, hsc, _⟩ := bind_eq_ok.mp h
    refine ⟨?_, hsc⟩
    cases admin with
    | true => exact Or.inl rfl
    | false => exact Or.inr (by simpa using hneed)

/-- **What is accepted** is resolved, and the client may supply it. -/
theorem of_validateIngestSource {raw : String} {accepted : Place}
    (h : server.validateIngestSource fs raw admin = .ok accepted) :
    fs.IsResolved accepted ∧ server.checkClientPath fs (pathTo accepted) admin = .ok () := by
  obtain ⟨resolved, hp, h⟩ := bind_eq_ok.mp h
  obtain ⟨_, hclient, h⟩ := bind_eq_ok.mp h
  split_ifs at h
  obtain rfl : resolved = accepted := Except.ok.inj h
  refine ⟨?_, hclient⟩
  unfold validateIngestPath at hp
  cases hexp : server.expanduser (purePath raw) with
  | none =>
    rw [hexp] at hp
    split_ifs at hp
  | some expanded =>
    rw [hexp] at hp
    dsimp only at hp
    cases hres : fs.realpath expanded with
    | none =>
      rw [hres] at hp
      split_ifs at hp
    | some resolved' =>
      rw [hres] at hp
      split_ifs at hp with _ _ _ hrel
      obtain rfl : resolved' = resolved := Except.ok.inj hp
      exact isResolved_of_realpath (by simpa using hrel) hres

end Server

end ArchonSearch.PathSafety
