import Mathlib.Data.List.Chain
import ArchonSearch.Identifiers
import ArchonSearch.Sync.Tree

/-!
# The names of the configured paths

A name is what is left of the last components of a path when every run of other characters is one
`_`. Such a name is plain (`IsPlain`): the validators refuse it for its length only
(`validate_iff_of_isPlain`).

Names that collide take in more components, and a path whose name still collides at the last depth
gets the name of its last component with a hash of the path. Two such names are distinct as the
hashes are; but the name that a path gets may be the one that another path has kept
(`FallbackTaken`), and then the later of the two takes the place of the other
(`buildDesired_loses`). Elsewhere no path is lost (`paths_buildDesired_iff`), and
`buildDesired_keeps` puts the two together.
-/

namespace ArchonSearch.Sync

open Lib List

/-! ### Plain names -/

/-- A `_` is not followed by another. -/
def Single (a b : Char) : Prop := a = '_' → b ≠ '_'

variable {cs : List Char}

theorem isChain_single_iff : cs.IsChain Single ↔ ¬['_', '_'] <:+: cs := by
  rw [isChain_iff_forall_rel_of_append_cons_cons]
  constructor
  · rintro h ⟨before, after, heq⟩
    have hsplit : cs = before ++ '_' :: '_' :: after := by simpa using heq.symm
    exact h hsplit rfl rfl
  · intro h a b before after heq ha hb
    subst ha hb
    exact h ⟨before, after, by simpa using heq.symm⟩

/-- The characters of a name: lower-case letters, digits and single `_` between them. -/
structure IsPlain (cs : List Char) : Prop where
  ne_nil : cs ≠ []
  /-- They are letters, digits and `_`. -/
  mem : ∀ c ∈ cs, isNameChar c = true ∨ c = '_'
  /-- The first is no `_`. -/
  head : ∀ c ∈ cs.head?, c ≠ '_'
  last : ∀ c ∈ cs.getLast?, c ≠ '_'
  /-- No two `_` stand side by side. -/
  single : cs.IsChain Single

variable {inRun : Bool}

theorem mem_replaceRuns :
    ∀ c ∈ replaceRuns inRun cs, isNameChar c = true ∨ c = '_' := by
  induction cs generalizing inRun with
  | nil => exact fun c hc => absurd hc not_mem_nil
  | cons d cs ih =>
    intro c hc
    rw [replaceRuns] at hc
    split_ifs at hc with hd hr
    · rcases mem_cons.mp hc with rfl | hc
      · exact Or.inl hd
      · exact ih c hc
    · exact ih c hc
    · rcases mem_cons.mp hc with rfl | hc
      · exact Or.inr rfl
      · exact ih c hc

/-- In a run there is no other `_`. -/
theorem head_replaceRuns : ∀ c ∈ (replaceRuns true cs).head?, c ≠ '_' := by
  induction cs with
  | nil => simp [replaceRuns]
  | cons d cs ih =>
    intro c hc
    rw [replaceRuns] at hc
    rw [if_pos rfl] at hc
    split_ifs at hc with hd
    · cases hc
      rintro rfl
      exact absurd hd (by decide)
    · exact ih c hc

/-- **A run is one `_`.** -/
theorem isChain_replaceRuns :
    (replaceRuns inRun cs).IsChain Single := by
  induction cs generalizing inRun with
  | nil => exact isChain_nil
  | cons d cs ih =>
    rw [replaceRuns]
    split_ifs with hd
    · refine isChain_cons.mpr ⟨fun c _ heq => ?_, ih⟩
      subst heq
      exact absurd hd (by decide)
    · exact ih
    · exact isChain_cons.mpr ⟨fun c hc _ => head_replaceRuns c hc, ih⟩

variable {γ χ : Type} {setup : Setup γ χ}

theorem isPlain_collection : IsPlain "collection".toList := by
  have hall : "collection".toList.all isNameChar = true := by decide +kernel
  have hhead : "collection".toList.head? ≠ some '_' := by decide +kernel
  have hl : "collection".toList.getLast? ≠ some '_' := by decide +kernel
  refine ⟨by decide +kernel, fun c hc => Or.inl (all_eq_true.mp hall c hc), ?_, ?_, ?_⟩
  · rintro c hc rfl
    exact hhead hc
  · rintro c hc rfl
    exact hl hc
  · exact isChain_single_iff.mpr (by decide +kernel)

/-- **What is sanitised is plain.** -/
theorem isPlain_sanitize (raw : String) : IsPlain (sanitize setup raw).toList := by
  unfold sanitize
  dsimp only
  generalize hchars : replaceRuns false (setup.lower raw).toList = chars
  have hm : ∀ c ∈ chars, isNameChar c = true ∨ c = '_' := hchars ▸ mem_replaceRuns
  have hchain : chars.IsChain Single := hchars ▸ isChain_replaceRuns
  have hpre := rdropWhile_prefix (fun c : Char => decide (c = '_')) (chars.dropWhile (· = '_'))
  have hpart := hpre.isInfix.trans (dropWhile_suffix _).isInfix
  split_ifs with hnil
  · exact isPlain_collection
  rw [String.toList_ofList]
  refine ⟨hnil, fun c hc => hm c (hpart.subset hc), fun c hc => ?_, fun c hc => ?_,
    hchain.infix hpart⟩
  · -- the first is that of the list before its end was stripped
    obtain ⟨rest, hrs⟩ := hpre
    have hhead : (chars.dropWhile (· = '_')).head? = some c := by
      rw [← hrs, head?_append_of_ne_nil _ hnil]
      exact hc
    have hne := head?_dropWhile_not (fun c : Char => decide (c = '_')) chars
    rw [hhead] at hne
    simpa using hne
  · have hl := rdropWhile_last_not (fun c : Char => decide (c = '_'))
      (chars.dropWhile (· = '_')) hnil
    rw [getLast?_eq_some_getLast hnil] at hc
    cases hc
    simpa using hl

/-- Letters and digits may be added behind a `_`. -/
theorem IsPlain.append {digits : List Char} (h : IsPlain cs) (hnil : digits ≠ [])
    (hdig : ∀ c ∈ digits, isNameChar c = true) : IsPlain (cs ++ '_' :: digits) := by
  have hne : ∀ c ∈ digits, c ≠ '_' := by
    rintro c hc rfl
    exact absurd (hdig _ hc) (by decide)
  refine ⟨by simp, fun c hc => ?_, fun c hc => ?_, fun c hc => ?_, ?_⟩
  · rcases mem_append.mp hc with hc | hc
    · exact h.mem c hc
    · rcases mem_cons.mp hc with rfl | hc
      · exact Or.inr rfl
      · exact Or.inl (hdig c hc)
  · rw [head?_append_of_ne_nil _ h.ne_nil] at hc
    exact h.head c hc
  · rw [getLast?_append_of_ne_nil _ (by simp), getLast?_cons_of_ne_nil hnil] at hc
    exact hne c (mem_of_mem_getLast? hc)
  · have hrs : digits.IsChain Single := by
      refine isChain_single_iff.mpr fun hpart => ?_
      exact hne _ (hpart.subset mem_cons_self) rfl
    refine isChain_append.mpr ⟨h.single, isChain_cons.mpr ⟨?_, hrs⟩, ?_⟩
    · exact fun c hc _ => hne c (mem_of_mem_head? hc)
    · exact fun a ha b _ heq => absurd heq (h.last a ha)

variable {name : Name}

/-- **A plain name is refused for its length only.** -/
theorem isValid_iff_of_isPlain (h : IsPlain name.toList) :
    Identifiers.isValidCollectionName name = true ↔ name.length ≤ 64 := by
  unfold Identifiers.isValidCollectionName Identifiers.collectionRe Acl.namespaceRe
  rw [← String.length_toList]
  have hst {c : Char} (hc : isNameChar c = true) : Acl.isNameStart c = true := by
    unfold isNameChar at hc
    unfold Acl.isNameStart
    rw [Bool.or_eq_true] at hc
    rcases hc with hc | hc <;> simp [hc]
  have hall : ∀ c ∈ name.toList, Acl.isNameChar c = true := by
    intro c hc
    unfold Acl.isNameChar
    rcases h.mem c hc with hc | rfl
    · simp [hst hc]
    · decide
  cases hnm : name.toList with
  | nil => exact absurd hnm h.ne_nil
  | cons c rest =>
    rw [hnm] at hall h
    have hfst : Acl.isNameStart c = true :=
      hst ((h.mem c mem_cons_self).resolve_right (h.head c rfl))
    have hrs : rest.all Acl.isNameChar = true :=
      all_eq_true.mpr fun d hd => hall d (mem_cons_of_mem c hd)
    dsimp only
    rw [hfst, hrs, length_cons]
    simp only [Bool.true_and, decide_eq_true_eq]
    omega

theorem validate_iff_of_isPlain (isPrintable : Char → Bool)
    (h : IsPlain name.toList) :
    (Identifiers.validateStoreCollection isPrintable name = .ok () ↔ name.length ≤ 64) ∧
      (Identifiers.validateGraphCollection isPrintable name = .ok () ↔ name.length ≤ 64) := by
  have hl : name.toList.getLast? ≠ some '_' := fun hl => h.last '_' hl rfl
  rw [Identifiers.validateStoreCollection_eq_ok, Identifiers.validateGraphCollection_eq_ok]
  exact ⟨isValid_iff_of_isPlain h, fun hok => (isValid_iff_of_isPlain h).mp hok.1,
    fun hle => ⟨(isValid_iff_of_isPlain h).mpr hle, hl, isChain_single_iff.mp h.single⟩⟩

/-! ### The names of the loop -/

variable (setup) in
/-- The names that the loop of `build_desired` leaves, before its fallback. -/
def deepestNames (paths : List Path) : (fuel depth : ℕ) → List Name → List Name
  | 0, _, names => names
  | fuel + 1, depth, names =>
    if names.Nodup then names
    else deepestNames paths fuel (depth + 1) (deepen setup paths depth names)

variable (setup) in
def Sanitized (n : ℕ) (names : List Name) : Prop :=
  names.length = n ∧ ∀ name ∈ names, ∃ raw, name = sanitize setup raw

variable {names : List Name} {n : ℕ}

theorem Sanitized.set (h : Sanitized setup n names) (i : ℕ)
    (raw : String) : Sanitized setup n (names.set i (sanitize setup raw)) := by
  refine ⟨length_set.trans h.1, fun name hnm => ?_⟩
  rcases mem_or_eq_of_mem_set hnm with hnm | rfl
  · exact h.2 name hnm
  · exact ⟨raw, rfl⟩

variable {paths : List Path}

/-- One pass over the names leaves sanitised names. -/
theorem sanitized_deepen {depth : ℕ}
    (h : Sanitized setup n names) : Sanitized setup n (deepen setup paths depth names) := by
  unfold deepen
  dsimp only
  refine List.foldlRecOn (motive := fun acc : List Name × List (Name × ℕ) =>
    Sanitized setup n acc.1) _ _ h ?_
  intro acc hacc entry _
  split
  · exact (hacc.set _ _).set _ _
  · exact hacc

theorem sanitized_deepestNames {fuel depth : ℕ}
    (h : Sanitized setup n names) :
    Sanitized setup n (deepestNames setup paths fuel depth names) := by
  induction fuel generalizing depth names with
  | zero => exact h
  | succ fuel ih =>
    rw [deepestNames]
    split
    · exact h
    · exact ih (sanitized_deepen h)

/-- Where nothing collides, the fallback does nothing. -/
theorem hashNames_of_nodup
    (hlen : names.length = paths.length) (hnd : names.Nodup) :
    hashNames setup paths names = names := by
  have hfst : (names.zip paths).map Prod.fst = names := map_fst_zip hlen.le
  refine (map_congr_left fun entry hent => ?_).trans hfst
  exact if_neg (not_lt.mpr (nodup_iff_count_le_one.mp hnd entry.1))

/-- **The names are those of the loop, after the fallback.** -/
theorem resolveNames_eq {fuel depth : ℕ}
    (h : Sanitized setup paths.length names) :
    resolveNames setup paths fuel depth names =
      hashNames setup paths (deepestNames setup paths fuel depth names) := by
  induction fuel generalizing depth names with
  | zero => rfl
  | succ fuel ih =>
    rw [resolveNames, deepestNames]
    split
    · next hnd => exact (hashNames_of_nodup h.1 hnd).symm
    · exact ih (sanitized_deepen h)

/-! ### The fallback -/

/-- `[0-9a-f]`. -/
def isHexDigit (c : Char) : Bool := ('0' ≤ c && c ≤ '9') || ('a' ≤ c && c ≤ 'f')

/-- Six hexadecimal digits, different ones for different paths. -/
structure IsDigest (setup : Setup γ χ) (paths : List Path) : Prop where
  length_eq : ∀ p ∈ paths, (setup.sha1 p).length = 6
  hex : ∀ p ∈ paths, ∀ c ∈ (setup.sha1 p).toList, isHexDigit c = true
  distinct : ∀ p ∈ paths, ∀ q ∈ paths, setup.sha1 p = setup.sha1 q → p = q

variable (setup) in
def fallbackName (p : Path) : Name := pathToCollectionName setup p ++ "_" ++ setup.sha1 p

variable (setup) in
/-- **A fallback name is taken**: it is the name that another path keeps. -/
def FallbackTaken (paths : List Path) (names : List Name) : Prop :=
  ∃ a ∈ names.zip paths, ∃ b ∈ names.zip paths,
    1 < names.count a.1 ∧ ¬1 < names.count b.1 ∧ fallbackName setup a.2 = b.1

instance (paths : List Path) (names : List Name) : Decidable (FallbackTaken setup paths names) :=
  inferInstanceAs (Decidable (∃ a ∈ names.zip paths, ∃ b ∈ names.zip paths, _ ∧ _ ∧ _))

theorem isNameChar_of_isHexDigit {c : Char} (h : isHexDigit c = true) : isNameChar c = true := by
  unfold isHexDigit at h
  unfold isNameChar
  simp only [Bool.or_eq_true, Bool.and_eq_true, decide_eq_true_eq] at h ⊢
  rcases h with h | h
  · exact Or.inr h
  · exact Or.inl ⟨h.1, h.2.trans (by decide)⟩

theorem toList_fallbackName (p : Path) : (fallbackName setup p).toList =
    (pathToCollectionName setup p).toList ++ '_' :: (setup.sha1 p).toList := by
  have hund : "_".toList = ['_'] := by decide
  rw [fallbackName, String.toList_append, String.toList_append, hund, append_assoc,
    singleton_append]

theorem isPlain_fallbackName (hdig : IsDigest setup paths) {p : Path}
    (hp : p ∈ paths) : IsPlain (fallbackName setup p).toList := by
  rw [toList_fallbackName]
  refine (isPlain_sanitize _).append (fun hnil => ?_) fun c hc =>
    isNameChar_of_isHexDigit (hdig.hex p hp c hc)
  have hlen := hdig.length_eq p hp
  rw [← String.length_toList, hnil] at hlen
  cases hlen

/-- **Fallback names are distinct**, as the digests are. -/
theorem eq_of_fallbackName_eq (hdig : IsDigest setup paths) {p q : Path}
    (hp : p ∈ paths) (hq : q ∈ paths) (h : fallbackName setup p = fallbackName setup q) :
    p = q := by
  have hlis := congrArg String.toList h
  rw [toList_fallbackName, toList_fallbackName] at hlis
  have hlen : ('_' :: (setup.sha1 p).toList).length = ('_' :: (setup.sha1 q).toList).length := by
    rw [length_cons, length_cons, String.length_toList, String.length_toList,
      hdig.length_eq p hp, hdig.length_eq q hq]
  have hdigi := (List.cons.inj (append_inj_right' hlis hlen)).2
  exact hdig.distinct p hp q hq (String.toList_inj.mp hdigi)

theorem one_lt_count
    (hlen : names.length = paths.length) {a b : Name × Path} (ha : a ∈ names.zip paths)
    (hb : b ∈ names.zip paths) (hne : a ≠ b) (heq : a.1 = b.1) : 1 < names.count a.1 := by
  have hfst : (names.zip paths).map Prod.fst = names := map_fst_zip hlen.le
  have hsub : [a.1, a.1].Sublist names := by
    rw [← hfst]
    obtain ⟨before, after, hsplit⟩ := append_of_mem ha
    rw [hsplit] at hb ⊢
    rcases mem_append.mp hb with hb | hb
    · have h : [b, a].Sublist (before ++ a :: after) :=
        (singleton_sublist.mpr hb).append (cons_sublist_cons.mpr (nil_sublist _))
      simpa [heq] using h.map Prod.fst
    · have hm : b ∈ after := (mem_cons.mp hb).resolve_left hne.symm
      have h : [a, b].Sublist (before ++ a :: after) :=
        (cons_sublist_cons.mpr (singleton_sublist.mpr hm)).trans (sublist_append_right _ _)
      simpa [heq] using h.map Prod.fst
  have htwo : [a.1, a.1].count a.1 = 2 := by simp
  exact htwo.symm.le.trans (hsub.count_le a.1)

/-- **The names after the fallback are distinct exactly if none is taken.** -/
theorem nodup_hashNames_iff
    (hdig : IsDigest setup paths) (hpat : paths.Nodup)
    (hlen : names.length = paths.length) :
    (hashNames setup paths names).Nodup ↔ ¬FallbackTaken setup paths names := by
  have hsnd : (names.zip paths).map Prod.snd = paths := map_snd_zip hlen.ge
  have hnd : ((names.zip paths).map Prod.snd).Nodup := hsnd.symm ▸ hpat
  have hm {a : Name × Path} (ha : a ∈ names.zip paths) : a.2 ∈ paths := (of_mem_zip ha).2
  have hent {a b : Name × Path} (ha : a ∈ names.zip paths) (hb : b ∈ names.zip paths)
      (h : a.2 = b.2) : a = b := inj_on_of_nodup_map hnd ha hb h
  have hinj : (hashNames setup paths names).Nodup ↔ ∀ a ∈ names.zip paths,
      ∀ b ∈ names.zip paths, (if 1 < names.count a.1 then fallbackName setup a.2 else a.1) =
        (if 1 < names.count b.1 then fallbackName setup b.2 else b.1) → a = b :=
    nodup_map_iff_inj_on (List.Nodup.of_map Prod.snd hnd)
  rw [hinj]
  constructor
  · rintro h ⟨a, ha, b, hb, hgets, hkp, htak⟩
    have hab := h a ha b hb (by rw [if_pos hgets, if_neg hkp, htak])
    exact hkp (hab ▸ hgets)
  intro hfr a ha b hb heq
  by_cases hca : 1 < names.count a.1
  · rw [if_pos hca] at heq
    by_cases hcb : 1 < names.count b.1
    · rw [if_pos hcb] at heq
      exact hent ha hb (eq_of_fallbackName_eq hdig (hm ha) (hm hb) heq)
    · rw [if_neg hcb] at heq
      exact absurd ⟨a, ha, b, hb, hca, hcb, heq⟩ hfr
  · rw [if_neg hca] at heq
    by_cases hcb : 1 < names.count b.1
    · rw [if_pos hcb] at heq
      exact absurd ⟨b, hb, a, ha, hcb, hca, heq.symm⟩ hfr
    · rw [if_neg hcb] at heq
      by_contra hne
      exact hca (one_lt_count hlen ha hb hne heq)

/-! ### What is desired -/

variable (setup) in
def namesBeforeFallback (collections : List Path) : List Name :=
  let paths := collections.eraseDups
  deepestNames setup paths (((paths.map fun p => (parts p).length).max?).getD 1) 1
    (paths.map (pathToCollectionName setup))

section Desired

variable {collections : List Path}

variable (setup collections) in
theorem sanitized_namesBeforeFallback :
    Sanitized setup collections.eraseDups.length (namesBeforeFallback setup collections) := by
  refine sanitized_deepestNames ⟨length_map _, fun name hnm => ?_⟩
  obtain ⟨p, -, rfl⟩ := mem_map.mp hnm
  exact ⟨baseName p, rfl⟩

variable (setup collections) in
/-- The paths with their names, after the fallback. -/
theorem buildDesired_eq : buildDesired setup collections =
    Keyed.ofList ((hashNames setup collections.eraseDups
      (namesBeforeFallback setup collections)).zip collections.eraseDups) := by
  have hst : Sanitized setup collections.eraseDups.length
      (collections.eraseDups.map (pathToCollectionName setup)) := by
    refine ⟨length_map _, fun name hnm => ?_⟩
    obtain ⟨p, -, rfl⟩ := mem_map.mp hnm
    exact ⟨baseName p, rfl⟩
  unfold buildDesired
  dsimp only
  rw [resolveNames_eq hst]
  rfl

theorem length_hashNames {paths : List Path} {names : List Name}
    (hlen : names.length = paths.length) :
    (hashNames setup paths names).length = paths.length := by
  rw [hashNames, length_map, length_zip, hlen, Nat.min_self]

/-- **Every name is plain.** -/
theorem isPlain_of_mem_buildDesired (hdig : IsDigest setup collections) {name : Name} {p : Path}
    (h : (name, p) ∈ buildDesired setup collections) : IsPlain name.toList := by
  rw [buildDesired_eq] at h
  have hnm := (of_mem_zip (Keyed.mem_of_mem_ofList h)).1
  obtain ⟨⟨before, q⟩, hent, rfl⟩ := mem_map.mp hnm
  dsimp only
  obtain ⟨hbef, hq⟩ := of_mem_zip hent
  split_ifs
  · exact isPlain_fallbackName hdig (mem_eraseDups.mp hq)
  · obtain ⟨raw, rfl⟩ := (sanitized_namesBeforeFallback setup collections).2 before hbef
    exact isPlain_sanitize raw

theorem IsDigest.mono {paths paths' : List Path} (h : IsDigest setup paths)
    (hsub : ∀ p ∈ paths', p ∈ paths) : IsDigest setup paths' where
  length_eq p hp := h.length_eq p (hsub p hp)
  hex p hp := h.hex p (hsub p hp)
  distinct p hp q hq := h.distinct p (hsub p hp) q (hsub q hq)

/-- **No path is lost exactly if no fallback name is taken.** -/
theorem paths_buildDesired_iff (hdig : IsDigest setup collections) :
    (buildDesired setup collections).items.map Prod.snd = collections.eraseDups ↔
      ¬FallbackTaken setup collections.eraseDups (namesBeforeFallback setup collections) := by
  have hpat : collections.eraseDups.Nodup := nodup_eraseDups rfl
  have hlen := (sanitized_namesBeforeFallback setup collections).1
  have haft : (hashNames setup collections.eraseDups
      (namesBeforeFallback setup collections)).length = collections.eraseDups.length :=
    length_hashNames hlen
  have hdig' := hdig.mono fun p (hp : p ∈ collections.eraseDups) => mem_eraseDups.mp hp
  rw [← nodup_hashNames_iff hdig' hpat hlen, buildDesired_eq]
  generalize hashNames setup collections.eraseDups (namesBeforeFallback setup collections) = names
    at haft
  have hfst : (names.zip collections.eraseDups).map Prod.fst = names :=
    map_fst_zip haft.le
  constructor
  · intro h
    -- as many keys are left as there are names
    set desired : Dict Name Path := Keyed.ofList (names.zip collections.eraseDups) with hdes
    have hks : ∀ name ∈ desired.items.map Prod.fst, name ∈ names := by
      intro name hnm
      obtain ⟨entry, hent, rfl⟩ := mem_map.mp hnm
      exact (of_mem_zip (Keyed.mem_of_mem_ofList hent)).1
    have hcnt : names.length ≤ (desired.items.map Prod.fst).length := by
      rw [haft, length_map, ← congrArg List.length h, length_map]
    have hsub := subperm_of_subset desired.nodup hks
    exact (hsub.perm_of_length_le hcnt).nodup_iff.mp desired.nodup
  · intro hnd
    rw [Keyed.items_ofList (hfst.symm ▸ hnd)]
    exact map_snd_zip haft.ge

/-- **What `build_desired` returns**: configured paths under plain names, which the validators
refuse for their length only; and, unless a fallback name is taken, each path under one name. -/
theorem buildDesired_keeps (isPrintable : Char → Bool) (resolve : String → Path)
    (configured : List String) (hdigest : IsDigest setup (configured.map resolve)) :
    (∀ entry ∈ (buildDesired setup (configured.map resolve)).items,
      entry.2 ∈ configured.map resolve ∧ IsPlain entry.1.toList ∧
        (Identifiers.validateStoreCollection isPrintable entry.1 = .ok () ↔ entry.1.length ≤ 64) ∧
        (Identifiers.validateGraphCollection isPrintable entry.1 = .ok () ↔ entry.1.length ≤ 64)) ∧
      (¬FallbackTaken setup (configured.map resolve).eraseDups
          (namesBeforeFallback setup (configured.map resolve)) →
        ((buildDesired setup (configured.map resolve)).items.map Prod.snd).Nodup ∧
          ∀ path, path ∈ (buildDesired setup (configured.map resolve)).items.map Prod.snd ↔
            path ∈ configured.map resolve) := by
  refine ⟨fun entry hent => ?_, fun hfr => ?_⟩
  · have hpl := isPlain_of_mem_buildDesired hdigest hent
    exact ⟨mem_of_mem_buildDesired hent, hpl, validate_iff_of_isPlain isPrintable hpl⟩
  · rw [(paths_buildDesired_iff hdigest).mpr hfr]
    exact ⟨nodup_eraseDups rfl, fun path => mem_eraseDups⟩

end Desired

/-! ### A path that is lost -/

def digestSetup : Setup Unit Unit where
  chunks _ _ := []
  denied _ _ := false
  lower s := s
  sha1 p :=
    if p = ["x", "foo.bar"] then "9ff66a"
    else if p = ["x", "foo_bar"] then "18f022"
    else "1e4130"
  pinnedCollections := []
  maxDiscoveredFiles := 100
  chunkSize := 512
  autoReindexOnChunkSizeChange := false

def resolvedPath (text : String) : Path :=
  if text = "/x/foo.bar" then ["x", "foo.bar"]
  else if text = "/x/foo_bar" then ["x", "foo_bar"]
  else ["y", "foo_bar_9ff66a"]

theorem isDigest_digestSetup :
    IsDigest digestSetup [["x", "foo.bar"], ["x", "foo_bar"], ["y", "foo_bar_9ff66a"]] := by
  have hhex : ∀ p ∈ [["x", "foo.bar"], ["x", "foo_bar"], ["y", "foo_bar_9ff66a"]],
      (digestSetup.sha1 p).toList.all isHexDigit = true := by decide +kernel
  exact ⟨by decide +kernel, fun p hp => all_eq_true.mp (hhex p hp), by decide +kernel⟩

/-- Two paths that collide at every depth keep both their collections. -/
theorem buildDesired_keeps_colliding :
    (buildDesired digestSetup (["/x/foo.bar", "/x/foo_bar"].map resolvedPath)).items =
      [("foo_bar_9ff66a", ["x", "foo.bar"]), ("foo_bar_18f022", ["x", "foo_bar"])] ∧
    ((buildDesired digestSetup (["/x/foo.bar", "/x/foo_bar"].map resolvedPath)).items.map
      Prod.snd).Nodup := by
  have hdig : IsDigest digestSetup (["/x/foo.bar", "/x/foo_bar"].map resolvedPath) :=
    isDigest_digestSetup.mono (by decide +kernel)
  have hfr : ¬FallbackTaken digestSetup
      (["/x/foo.bar", "/x/foo_bar"].map resolvedPath).eraseDups
      (namesBeforeFallback digestSetup (["/x/foo.bar", "/x/foo_bar"].map resolvedPath)) := by
    decide +kernel
  exact ⟨by decide +kernel,
    ((buildDesired_keeps (fun _ => true) resolvedPath _ hdig).2 hfr).1⟩

/-- **A path is lost, and a name is refused**: a third path has the fallback name of the first, and
a component has more characters than a name may have. -/
theorem buildDesired_loses :
    IsDigest digestSetup [["x", "foo.bar"], ["x", "foo_bar"], ["y", "foo_bar_9ff66a"]] ∧
      (buildDesired digestSetup
        [["x", "foo.bar"], ["x", "foo_bar"], ["y", "foo_bar_9ff66a"]]).items =
        [("foo_bar_9ff66a", ["y", "foo_bar_9ff66a"]), ("foo_bar_18f022", ["x", "foo_bar"])] ∧
      (buildDesired digestSetup [[String.ofList (List.replicate 65 'a')]]).items =
        [(String.ofList (List.replicate 65 'a'), [String.ofList (List.replicate 65 'a')])] ∧
      Identifiers.isValidCollectionName (String.ofList (List.replicate 65 'a')) = false :=
  ⟨isDigest_digestSetup, by decide +kernel, by decide +kernel, by decide +kernel⟩

end ArchonSearch.Sync
