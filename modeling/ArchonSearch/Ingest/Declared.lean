import ArchonSearch.Ingest.Replace

/-!
# From the declared restriction to the stamped one

The author of a document restricts it in one of two places: by the key `_acl` of the front matter,
or by a sidecar. This module follows both declarations to the records of the document.
`read_acl_sidecar` is modelled here, on whatever lies beside the document (`readAclSidecar`); the
front matter is looked for as a reader would, by its two lines `---` (`OpensWith`), and compared
with what the substring search of `_extract_front_matter` finds
(`extractFrontMatter_of_opensWith`).

A declaration that can be used, or that is there but damaged, is never dropped
(`stampsList_of_usable`). What counts as none is wider than a null and a blank string: a scalar of
separators, a block that is no YAML, and a sidecar beside a key that is there but blank
(`restriction_dropped`).
-/

namespace ArchonSearch.Ingest

open Lib Py Export Acl List Option

/-! ### The sidecar -/

/-- What is found at `<doc>.acl`. -/
inductive SidecarEntry where
  | missing
  | symlink : Bool → SidecarEntry
  | unreadable : String → SidecarEntry
  | file : ByteArray → SidecarEntry

/-- `sidecar.exists()`. -/
def SidecarEntry.pathExists : SidecarEntry → Bool
  | .missing => false
  | .symlink targetExists => targetExists
  | .unreadable _ | .file _ => true

/-- `_ACL_SIDECAR_MAX_BYTES`. -/
def aclSidecarMaxBytes : ℕ := 65536

/-- `text.lstrip("\ufeff")`. -/
def lstripBom (text : String) : String :=
  String.ofList (text.toList.dropWhile fun c => c.toNat = 0xfeff)

/-- The ends of a line, for `splitlines`. -/
def isLineBreak (c : Char) : Bool :=
  let n := c.toNat
  (0x0a ≤ n && n ≤ 0x0d) || (0x1c ≤ n && n ≤ 0x1e) || n == 0x85 || n == 0x2028 || n == 0x2029

/-- The lines of a sidecar, stripped, that are not empty. The pieces between the two characters
of a CRLF and after the last line are no lines of `splitlines`, and are empty. -/
def nonEmptyLines (text : String) : List String :=
  ((reSplit isLineBreak (lstripBom text)).map strip).filter fun line => line != ""

/-- `line.upper()`, as far as it is compared with `DENY-ALL`: no other character has one of these
capitals. -/
def upper (line : String) : String := String.ofList (line.toList.map Char.toUpper)

def denied (path : String) (warnings : List String) : AclResolutionResult :=
  ⟨some [], some "sidecar", some path, warnings⟩

/-- `read_acl_sidecar`; `isPrintable` is `str.isprintable`. -/
def readAclSidecar (isPrintable : Char → Bool) (path : String) :
    SidecarEntry → AclResolutionResult
  -- a dangling link does not exist either, so this comes first
  | .symlink _ =>
    denied path ["ACL sidecar " ++ path ++ " is a symlink (never read); chunk denied"]
  | .missing => ⟨none, none, none, []⟩
  | .unreadable reason =>
    denied path ["ACL sidecar " ++ path ++ " is unreadable (" ++ reason ++ "); chunk denied"]
  | .file bytes =>
    if aclSidecarMaxBytes < bytes.size then
      denied path ["ACL sidecar " ++ path ++ " exceeds " ++ toString (aclSidecarMaxBytes / 1024) ++
        " KB limit (" ++ toString bytes.size ++ " bytes); chunk denied"]
    else
      match String.fromUTF8? bytes with
      | none => denied path ["ACL sidecar " ++ path ++ " is not valid UTF-8; chunk denied"]
      | some text =>
        match nonEmptyLines text with
        | [] => ⟨none, some "sidecar", some path, []⟩
        | first :: rest =>
          if upper first = "DENY-ALL" then denied path []
          else
            let valid := (first :: rest).filter isAclNamespaceValid
            let dropped := ((first :: rest).filter fun line => !isAclNamespaceValid line).map
              fun line => "ACL sidecar " ++ path ++ ": invalid namespace name " ++
                reprStr isPrintable line ++ " (dropped)"
            if valid.isEmpty then
              denied path (dropped ++
                ["ACL sidecar " ++ path ++ " has no valid namespace name; chunk denied"])
            else ⟨some valid, some "sidecar", some path, dropped⟩

def sidecarOf (isPrintable : Char → Bool) (path : String) (entry : SidecarEntry) : Sidecar :=
  ⟨path, entry.pathExists, readAclSidecar isPrintable path entry⟩

/-- **There is a sidecar with a line that is not blank.** A byte order mark in front is no part of
the text; what is not read as a text is not blank. -/
def SidecarEntry.Declares : SidecarEntry → Prop
  | .missing => False
  | .symlink _ | .unreadable _ => True
  | .file bytes => ∀ text, String.fromUTF8? bytes = some text →
    ∃ line ∈ reSplit isLineBreak (lstripBom text), ¬ ∀ c ∈ line.toList, isSpace c = true

variable {text : String}

theorem nonEmptyLines_ne_nil {line : String}
    (hm : line ∈ reSplit isLineBreak (lstripBom text))
    (hbl : ¬ ∀ c ∈ line.toList, isSpace c = true) : nonEmptyLines text ≠ [] := by
  refine ne_nil_of_mem (mem_filter.mpr ⟨List.mem_map_of_mem hm, ?_⟩)
  exact bne_iff_ne.mpr fun h => hbl (strip_eq_empty_iff.mp h)

/-- **A sidecar that declares anything gives a list.** -/
theorem readAclSidecar_of_declares {isPrintable : Char → Bool} {path : String}
    {entry : SidecarEntry} (h : entry.Declares) :
    ∃ names, (readAclSidecar isPrintable path entry).acl = some names := by
  cases entry with
  | missing => exact h.elim
  | symlink _ => exact ⟨[], rfl⟩
  | unreadable _ => exact ⟨[], rfl⟩
  | file bytes =>
    unfold readAclSidecar
    dsimp only
    split
    · exact ⟨[], rfl⟩
    cases htx : String.fromUTF8? bytes with
    | none => exact ⟨[], rfl⟩
    | some text =>
      obtain ⟨line, hm, hbl⟩ := h text htx
      dsimp only
      split
      · next hnil => exact absurd hnil (nonEmptyLines_ne_nil hm hbl)
      · split
        · exact ⟨[], rfl⟩
        · split
          · exact ⟨[], rfl⟩
          · exact ⟨_, rfl⟩

/-! ### The front matter, by its lines -/

def textLines (text : String) : List (List Char) := text.toList.splitOn '\n'

/-- The line is exactly `---`; a line end may be CRLF. -/
def IsRule (line : List Char) : Prop := line = ['-', '-', '-'] ∨ line = ['-', '-', '-', '\r']

/-- **A front-matter block**: the first line is `---`, and the block runs up to the next line that
is. -/
def OpensWith (text : String) (first : List Char) (block : List (List Char)) : Prop :=
  ∃ last rest, textLines text = first :: (block ++ last :: rest) ∧ IsRule first ∧ IsRule last ∧
    ∀ line ∈ block, ¬ IsRule line

def StartsWithRule (line : List Char) : Prop := ['-', '-', '-'] <+: line

/-- The YAML between the two lines, from the end of the first one on; of a CRLF its line feed is
still there, a blank line of the YAML. -/
def yamlOf (first : List Char) (block : List (List Char)) : String :=
  String.ofList ((first.drop 3 ++ block.flatMap fun line => '\n' :: line).drop 1)

instance (line : List Char) : Decidable (IsRule line) := inferInstanceAs (Decidable (_ ∨ _))

instance (line : List Char) : Decidable (StartsWithRule line) :=
  inferInstanceAs (Decidable (_ <+: line))

theorem intercalate_cons_eq (sep : Char) (l : List Char) (ls : List (List Char)) :
    [sep].intercalate (l :: ls) = l ++ ls.flatMap fun line => sep :: line := by
  induction ls generalizing l with
  | nil => simp
  | cons l' ls ih =>
    rw [intercalate_cons_cons, ih]
    simp

variable {first : List Char}

/-- A text is its first line, and each later one after a line feed. -/
theorem toList_of_textLines {ls : List (List Char)}
    (h : textLines text = first :: ls) :
    text.toList = first ++ ls.flatMap fun line => '\n' :: line := by
  rw [← intercalate_cons_eq, ← h]
  exact (intercalate_splitOn '\n').symm

variable {line : List Char}

theorem notMem_of_mem_textLines (h : line ∈ textLines text) :
    '\n' ∉ line := by
  intro hm
  rw [textLines, splitOn_eq_splitOnP] at h
  have hne : ∀ c ∈ text.toList, (c == '\n') = true ∨ c ≠ '\n' := fun c _ =>
    (em (c = '\n')).imp beq_iff_eq.mpr id
  exact forall_mem_splitOnP.mpr hne line h _ hm rfl

variable {cs : List Char}

theorem splitAtDelimiter_cons {c : Char}
    (h : c = '\n' → ¬ StartsWithRule cs) :
    splitAtDelimiter (c :: cs) = (splitAtDelimiter cs).map fun p => (c :: p.1, p.2) := by
  rw [splitAtDelimiter]
  intro rest hc hcs
  exact h hc (hcs ▸ ⟨rest, rfl⟩)

theorem splitAtDelimiter_append (hline : '\n' ∉ line) (cs : List Char) :
    splitAtDelimiter (line ++ cs) = (splitAtDelimiter cs).map fun p => (line ++ p.1, p.2) := by
  induction line with
  | nil => simp
  | cons c line ih =>
    have hc : c ≠ '\n' := fun h => hline (h ▸ mem_cons_self)
    rw [cons_append, splitAtDelimiter_cons fun h => absurd h hc,
      ih fun h => hline (mem_cons_of_mem c h), Option.map_map]
    rfl

theorem startsWithRule_append :
    StartsWithRule (line ++ '\n' :: cs) ↔ StartsWithRule line := by
  unfold StartsWithRule
  constructor
  · intro h
    match line, h with
    | [], h => simp at h
    | [a], h => simp at h
    | [a, b], h => simp at h
    | a :: b :: c :: line, h => simpa using h
  · exact fun h => h.trans (prefix_append _ _)

theorem exists_lineFeed (block : List (List Char)) (last : List Char) (rest : List (List Char)) :
    ∃ cs, ((block ++ last :: rest).flatMap fun line => '\n' :: line) = '\n' :: cs := by
  cases block with
  | nil => exact ⟨_, rfl⟩
  | cons _ _ => exact ⟨_, rfl⟩

variable {block : List (List Char)}

/-- **The substring search finds the closing line** if no line of the block begins with three
dashes. -/
theorem splitAtDelimiter_block {last : List Char}
    (rest : List (List Char)) (hline : ∀ line ∈ block, '\n' ∉ line)
    (hrule : ∀ line ∈ block, ¬ StartsWithRule line) (hl : StartsWithRule last) :
    ∃ body, splitAtDelimiter ((block ++ last :: rest).flatMap fun line => '\n' :: line) =
      some (block.flatMap fun line => '\n' :: line, body) := by
  induction block with
  | nil =>
    obtain ⟨tail, rfl⟩ := hl
    exact ⟨_, rfl⟩
  | cons line block ih =>
    obtain ⟨hhead, htail⟩ := forall_mem_cons.mp hline
    obtain ⟨hrhead, hrtail⟩ := forall_mem_cons.mp hrule
    obtain ⟨body, hbody⟩ := ih htail hrtail
    refine ⟨body, ?_⟩
    rw [cons_append, flatMap_cons, cons_append, splitAtDelimiter_cons,
      splitAtDelimiter_append hhead, hbody, flatMap_cons]
    · rfl
    · intro _
      -- a later line follows, so the search cannot run over the end of this one
      obtain ⟨cs, hcs⟩ := exists_lineFeed block last rest
      rw [hcs]
      exact fun h => hrhead (startsWithRule_append.mp h)

variable {safeLoad : String → Option (List (String × YamlValue))}
  {members : List (String × YamlValue)}

theorem extractFrontMatter_of_split {c : Char} {block body : List Char}
    (htx : text.toList = '-' :: '-' :: '-' :: c :: cs) (hc : c = '\n' ∨ c = '\r')
    (hsplit : splitAtDelimiter (c :: cs) = some (block, body))
    (hl : safeLoad (String.ofList (block.drop 1)) = some members) :
    (extractFrontMatter safeLoad text).1 = members := by
  unfold extractFrontMatter
  rw [htx]
  simp only [if_pos hc, hsplit, hl]

/-- **The front matter that is extracted is the YAML of the block.** -/
theorem extractFrontMatter_of_opensWith (hopens : OpensWith text first block)
    (hrule : ∀ line ∈ block, ¬ StartsWithRule line)
    (hl : safeLoad (yamlOf first block) = some members) :
    (extractFrontMatter safeLoad text).1 = members := by
  obtain ⟨last, rest, hlns, hfst, hla, -⟩ := hopens
  have hfeed : ∀ line ∈ block, '\n' ∉ line := fun line hline =>
    notMem_of_mem_textLines (hlns ▸ mem_cons_of_mem _ (mem_append_left _ hline))
  have hst : StartsWithRule last := by
    rcases hla with rfl | rfl
    · exact ⟨[], rfl⟩
    · exact ⟨['\r'], rfl⟩
  obtain ⟨body, hbody⟩ := splitAtDelimiter_block rest hfeed hrule hst
  obtain ⟨cs, hcs⟩ := exists_lineFeed block last rest
  have htx := toList_of_textLines hlns
  rw [hcs] at hbody htx
  rcases hfst with rfl | rfl
  · exact extractFrontMatter_of_split htx (Or.inl rfl) hbody hl
  · have hcr : splitAtDelimiter ('\r' :: '\n' :: cs) =
        some ('\r' :: block.flatMap fun line => '\n' :: line, body) := by
      rw [splitAtDelimiter_cons fun h => absurd h (by decide), hbody]
      rfl
    exact extractFrontMatter_of_split htx (Or.inr rfl) hcr hl

/-! ### The stamped ACL -/

section Stamped

variable {φ τ θ : Type} (codec : Codec φ τ) (services : Services θ τ) (req : Request)

/-- **Every chunk is stamped with a list**, which is never open to every namespace. -/
def StampsList : Prop :=
  ∀ batches, prepare codec services req = .deleting batches →
    ∀ batch ∈ batches, ∀ record ∈ batch, ∃ names, record.acl = some names

def IsBlank (v : YamlValue) : Prop := ∃ s, v = .str s ∧ ∀ c ∈ s.toList, isSpace c = true

def IsSeparators (v : YamlValue) : Prop :=
  ∃ s, v = .str s ∧ ∀ c ∈ s.toList, isSpace c = true ∨ c = ','

/-- **A restriction is declared**: the block maps `_acl` to anything but a null or a blank string,
or is no YAML but has a line for the key, or the sidecar has a line that is not blank. -/
def Restricted (entry : SidecarEntry) : Prop :=
  (∃ first block members v, OpensWith req.markdown first block ∧
    services.safeLoad (yamlOf first block) = some members ∧ members.lookup "_acl" = some v ∧
    v ≠ .null ∧ ¬ IsBlank v) ∨
  (∃ first block, OpensWith req.markdown first block ∧
    services.safeLoad (yamlOf first block) = none ∧
    ∃ line ∈ block, ['_', 'a', 'c', 'l', ':'] <+: line) ∨
  entry.Declares

/-- **A restriction that is looked at**: a block in which no line begins with three dashes maps
`_acl` to anything but a null or a string of separators, or the sidecar of a document on disk has
a line that is not blank, beside no such string. -/
def Usable (entry : SidecarEntry) : Prop :=
  (∃ first block members v, OpensWith req.markdown first block ∧
    (∀ line ∈ block, ¬ StartsWithRule line) ∧
    services.safeLoad (yamlOf first block) = some members ∧ members.lookup "_acl" = some v ∧
    v ≠ .null ∧ ¬ IsSeparators v) ∨
  (req.diskBacked = true ∧ entry.Declares ∧
    ∀ v, (frontMatter services req).1.lookup "_acl" = some v → ¬ IsSeparators v)

variable {codec} {services} {req}

/-- The ACL that is resolved is the one that is stamped. -/
theorem stampsList_of_resolved (h : ∃ names, (resolvedAcl services req).acl = some names) :
    StampsList codec services req := by
  intro batches hbat batch hbatch record hrec
  have hm : ∃ expiresAt, batches = batchesOf services req expiresAt := by
    unfold prepare at hbat
    split at hbat
    · cases hbat
    · split at hbat
      · cases hbat
      · split at hbat
        · cases hbat
        · exact ⟨_, (Task.deleting.inj hbat).symm⟩
  obtain ⟨expiresAt, rfl⟩ := hm
  obtain ⟨i, piece, hpiece⟩ :=
    fields_of_mem_batchesOf (mem_flatten_of_mem hbatch hrec)
  have hacl : record.acl = (resolvedAcl services req).acl :=
    (congrArg ChunkFields.acl hpiece).symm
  exact hacl ▸ h

/-- A declared value that is not a string of separators gives a list. -/
theorem resolveAcl_of_declared {docPath : String} {v : YamlValue} {allowSidecar : Bool}
    {sidecar : Sidecar} (hnull : v ≠ .null) (hsep : ¬ IsSeparators v) :
    ∃ names, (resolveAcl docPath (some v) allowSidecar sidecar).acl = some names := by
  have hres : (resolveAcl docPath (some v) allowSidecar sidecar).acl =
      (parseAclValue v docPath).1 := by
    unfold resolveAcl
    split
    · next h => exact absurd (some.inj h) hnull
    · next h => cases h
    · next h => rw [some.inj h]
  rw [hres]
  refine ne_none_iff_exists'.mp fun hn => ?_
  exact (parseAclValue_eq_none_iff.mp hn).elim hnull hsep

/-- **No usable restriction is dropped.** -/
theorem stampsList_of_usable {isPrintable : Char → Bool} {entry : SidecarEntry}
    (hsuffix : req.suffix ∈ frontMatterExtensions)
    (hsidecar : req.sidecar = sidecarOf isPrintable (req.path ++ ".acl") entry)
    (h : Usable services req entry) : StampsList codec services req := by
  refine stampsList_of_resolved ?_
  unfold resolvedAcl
  rcases h with ⟨first, block, members, v, hopens, hrule, hl, hlook, hnull, hsep⟩ |
    ⟨hdisk, hdec, hsep⟩
  · have hm : (frontMatter services req).1 = members := by
      rw [frontMatter, if_pos hsuffix]
      exact extractFrontMatter_of_opensWith hopens hrule hl
    rw [hm, hlook]
    exact resolveAcl_of_declared hnull hsep
  · have hrd : ∃ names, req.sidecar.read.acl = some names := by
      rw [hsidecar]
      exact readAclSidecar_of_declares hdec
    cases hlook : (frontMatter services req).1.lookup "_acl" with
    | none => simpa only [resolveAcl, hdisk, if_true] using hrd
    | some v =>
      by_cases hnull : v = .null
      · subst hnull
        simpa only [resolveAcl, hdisk, if_true] using hrd
      · exact resolveAcl_of_declared hnull (hsep v hlook)

end Stamped

/-! ### Four documents -/

def declaringServices : Services Unit Unit :=
  { sampleServices with
    safeLoad := fun yaml =>
      if yaml = "_acl: team" then some [("_acl", .str "team")]
      else if yaml = "_acl: ','" then some [("_acl", .str ",")]
      else if yaml = "_acl: ''" then some [("_acl", .str "")]
      else none }

def declaringRequest (markdown : String) (entry : SidecarEntry) : Request :=
  { sampleRequest markdown with
    sidecar := sidecarOf (fun _ => true) ("/notes.md" ++ ".acl") entry }

def teamSidecar : SidecarEntry := .file "team".toUTF8

theorem opensWith_line
    (htx : textLines text = [['-', '-', '-'], line, ['-', '-', '-'], "secret".toList])
    (hline : ¬ IsRule line) : OpensWith text ['-', '-', '-'] [line] := by
  refine ⟨['-', '-', '-'], ["secret".toList], htx, Or.inl rfl, Or.inl rfl, ?_⟩
  intro line' hm
  rwa [mem_singleton.mp hm]

theorem stampsList_of_usable_scalar :
    StampsList sampleCodec declaringServices
      (declaringRequest "---\n_acl: team\n---\nsecret" .missing) := by
  have hopens : OpensWith "---\n_acl: team\n---\nsecret" ['-', '-', '-'] ["_acl: team".toList] :=
    opensWith_line (by decide) (by decide)
  have hsep : ¬ IsSeparators (.str "team") := by
    rintro ⟨s, hs, hbl⟩
    cases hs
    exact absurd (hbl 't' (by decide)) (by decide)
  have hnull : YamlValue.str "team" ≠ .null := by rintro ⟨⟩
  exact stampsList_of_usable (by decide) rfl
    (Or.inl ⟨_, _, _, _, hopens, by decide, rfl, rfl, hnull, hsep⟩)

def Task.stampsNone {φ : Type} : Task φ → Bool
  | .deleting batches => batches.any fun batch => batch.any fun record => record.acl.isNone
  | .adding _ _ | .finishing | .ended _ => false

theorem not_stampsList {φ τ θ : Type} {codec : Codec φ τ} {services : Services θ τ}
    {req : Request} (h : (prepare codec services req).stampsNone = true) :
    ¬ StampsList codec services req := by
  intro hlist
  cases htask : prepare codec services req with
  | deleting batches =>
    rw [htask] at h
    obtain ⟨batch, hbat, hany⟩ := List.any_eq_true.mp h
    obtain ⟨record, hrec, hn⟩ := List.any_eq_true.mp hany
    obtain ⟨names, hnms⟩ := hlist batches htask batch hbat record hrec
    rw [hnms] at hn
    cases hn
  | adding batch batches | finishing | ended outcome =>
    rw [htask] at h
    cases h

def commaRequest : Request := declaringRequest "---\n_acl: ','\n---\nsecret" .missing

def brokenRequest : Request := declaringRequest "---\n_acl: [team\n---\nsecret" .missing

def blankRequest : Request := declaringRequest "---\n_acl: ''\n---\nsecret" teamSidecar

theorem restricted_comma : Restricted declaringServices commaRequest .missing := by
  have hopens : OpensWith "---\n_acl: ','\n---\nsecret" ['-', '-', '-'] ["_acl: ','".toList] :=
    opensWith_line (by decide) (by decide)
  have hbl : ¬ IsBlank (.str ",") := by
    rintro ⟨s, hs, hbl⟩
    cases hs
    exact absurd (hbl ',' (by decide)) (by decide)
  have hnull : YamlValue.str "," ≠ .null := by rintro ⟨⟩
  exact Or.inl ⟨_, _, _, _, hopens, rfl, rfl, hnull, hbl⟩

theorem restricted_broken : Restricted declaringServices brokenRequest .missing := by
  have hopens : OpensWith "---\n_acl: [team\n---\nsecret" ['-', '-', '-']
      ["_acl: [team".toList] := opensWith_line (by decide) (by decide)
  exact Or.inr (Or.inl ⟨_, _, hopens, rfl, _, mem_cons_self, by decide⟩)

theorem declares_teamSidecar : teamSidecar.Declares := by
  intro text htx
  have hutf8 : String.fromUTF8? "team".toUTF8 = some "team" := dif_pos "team".isValidUTF8
  obtain rfl := some.inj (hutf8.symm.trans htx)
  refine ⟨"team", by decide, fun h => ?_⟩
  exact absurd (h 't' (by decide)) (by decide)

/-- **Restrictions are dropped**: a scalar of separators, a block that is no YAML, and a sidecar
beside a blank key. -/
theorem restriction_dropped :
    (Restricted declaringServices commaRequest .missing ∧
      ¬ StampsList sampleCodec declaringServices commaRequest) ∧
    (Restricted declaringServices brokenRequest .missing ∧
      ¬ StampsList sampleCodec declaringServices brokenRequest) ∧
    (Restricted declaringServices blankRequest teamSidecar ∧
      ¬ StampsList sampleCodec declaringServices blankRequest) :=
  ⟨⟨restricted_comma, not_stampsList (by decide +kernel)⟩,
    ⟨restricted_broken, not_stampsList (by decide +kernel)⟩,
    Or.inr (Or.inr declares_teamSidecar), not_stampsList (by decide +kernel)⟩

end ArchonSearch.Ingest
