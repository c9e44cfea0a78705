import Mathlib.Data.List.Nodup
import ArchonSearch.Keys.Store

/-!
# One managed record per token

The invariant a rotation rests on, and what a rotation does under it.

`UniqueManaged` says that no two managed records carry the same token hash. A rotation changes the
first active managed record of the current token only, so without the invariant a second one would
survive it; with it, `rotationSpec_recordRotation` gives the whole effect: the new token has one
record, active without expiry; nothing managed of the current token is accepted past the grace, and
nothing at all if it had been revoked before; and every other record, the synthetic ones of the
current token included, stays as it was.

The invariant is preserved by every mutation whose generated token is fresh (`Admissible`), so it
holds after every run of them from a missing file, and the two together are
`uniqueManaged_and_rotationSpec`.
-/

namespace ArchonSearch.Keys

open Lib List

/-! ### The invariant -/

def managedHashes (rs : List KeyRecord) : List String :=
  (rs.filter KeyRecord.managed).map KeyRecord.tokenHash

/-- **At most one managed record per token hash.** -/
def UniqueManaged (rs : List KeyRecord) : Prop := (managedHashes rs).Nodup

@[simp] theorem managedHashes_append (rs rs' : List KeyRecord) :
    managedHashes (rs ++ rs') = managedHashes rs ++ managedHashes rs' := by
  simp [managedHashes]

variable {h : String}

theorem mem_managedHashes {rs : List KeyRecord} :
    h ∈ managedHashes rs ↔ ∃ r ∈ rs, r.managed = true ∧ r.tokenHash = h := by
  simp [managedHashes, and_assoc]

/-- The managed hashes only depend on which records are managed and on their
hashes. -/
theorem managedHashes_congr {rs rs' : List KeyRecord}
    (h : rs.map (fun r => (r.managed, r.tokenHash)) = rs'.map fun r => (r.managed, r.tokenHash)) :
    managedHashes rs = managedHashes rs' := by
  have hproj : ∀ l : List KeyRecord, managedHashes l =
      ((l.map fun r => (r.managed, r.tokenHash)).filter Prod.fst).map Prod.snd := by
    simp [managedHashes, filter_map, Function.comp_def]
  rw [hproj, hproj, h]

/-- Changing a record without touching its id or its hash keeps the managed
hashes. -/
theorem managedHashes_modifyFirst {p : KeyRecord → Bool} {f : KeyRecord → KeyRecord}
    (hf : ∀ r, (f r).id = r.id ∧ (f r).tokenHash = r.tokenHash) (rs : List KeyRecord) :
    managedHashes (modifyFirst p f rs) = managedHashes rs :=
  managedHashes_congr (map_modifyFirst (fun r _ => by simp [KeyRecord.managed, hf r]) rs)

variable {r : KeyRecord}

/-- Under the invariant a managed record is determined by its hash. -/
theorem eq_of_uniqueManaged {rs : List KeyRecord} (h : UniqueManaged rs) {r' : KeyRecord}
    (hr : r ∈ rs) (hr' : r' ∈ rs) (hm : r.managed = true) (hm' : r'.managed = true)
    (heq : r.tokenHash = r'.tokenHash) : r = r' :=
  inj_on_of_nodup_map h (mem_filter.mpr ⟨hr, hm⟩) (mem_filter.mpr ⟨hr', hm'⟩) heq

/-- Appending a managed record of an unseen hash keeps the invariant. -/
theorem uniqueManaged_append {rs : List KeyRecord} (h : UniqueManaged rs)
    (hr : r.tokenHash ∉ managedHashes rs) : UniqueManaged (rs ++ [r]) := by
  rw [UniqueManaged, managedHashes_append, nodup_append]
  refine ⟨h, ?_, ?_⟩
  · exact (nodup_singleton r).filter _ |>.map_on fun a ha b hb _ => by
      rw [mem_singleton.mp (mem_filter.mp ha).1, mem_singleton.mp (mem_filter.mp hb).1]
  · intro a ha b hb hab
    obtain ⟨r', hr', -, hh⟩ := mem_managedHashes.mp hb
    rw [mem_singleton.mp hr'] at hh
    exact hr (by rw [hh, ← hab]; exact ha)

/-! ### What the scan of a rotation finds -/

variable {currentHash : String}

theorem scanCurrent_some {rs : List KeyRecord} {seen seen' : Bool}
    {old : KeyRecord} (h : scanCurrent currentHash rs seen = (some old, seen')) :
    rs.find? (isCurrentActive currentHash) = some old := by
  induction rs generalizing seen with
  | nil => simp [scanCurrent] at h
  | cons r rs ih =>
    rw [scanCurrent] at h
    by_cases hcur : isCurrent currentHash r = true
    · by_cases hact : r.status = .active
      · rw [if_pos hcur, if_pos hact] at h
        rw [find?_cons_of_pos (by simp [isCurrentActive, hcur, hact])]
        exact congrArg Option.some (by simpa using (Prod.mk.inj h).1)
      · rw [if_pos hcur, if_neg hact] at h
        rw [find?_cons_of_neg (by simp [isCurrentActive, hact])]
        exact ih h
    · rw [if_neg hcur] at h
      rw [find?_cons_of_neg (by simp [isCurrentActive, hcur])]
      exact ih h

/-- A scan that found no active record has been through the whole list, so its
flag tells whether a managed record of the hash is there at all. -/
theorem scanCurrent_none {rs : List KeyRecord} {seen seen' : Bool}
    (h : scanCurrent currentHash rs seen = (none, seen')) :
    (∀ r ∈ rs, isCurrent currentHash r = true → r.status = .revoked) ∧
      (seen' = false → ∀ r ∈ rs, isCurrent currentHash r = false) ∧
      (seen = true → seen' = true) := by
  induction rs generalizing seen with
  | nil =>
    obtain rfl : seen = seen' := (Prod.mk.inj h).2
    simp
  | cons r rs ih =>
    rw [scanCurrent] at h
    by_cases hcur : isCurrent currentHash r = true
    · by_cases hact : r.status = .active
      · rw [if_pos hcur, if_pos hact] at h
        cases h
      · rw [if_pos hcur, if_neg hact] at h
        obtain ⟨h1, -, h3⟩ := ih h
        have hrev : r.status = .revoked := by
          cases hs : r.status with
          | active => exact absurd hs hact
          | revoked => rfl
        refine ⟨forall_mem_cons.mpr ⟨fun _ => hrev, h1⟩, fun hf => ?_, fun _ => h3 rfl⟩
        exact absurd (h3 rfl) (by simp [hf])
    · rw [if_neg hcur] at h
      obtain ⟨h1, h2, h3⟩ := ih h
      exact ⟨forall_mem_cons.mpr ⟨fun hc => absurd hc hcur, h1⟩,
        fun hf => forall_mem_cons.mpr ⟨by simpa using hcur, h2 hf⟩, h3⟩

variable {hashToken : String → String} {call : RotationCall} {rs : List KeyRecord}

/-- **What retiring the current key does**, in its three cases: the active record
is changed in place; a grace record is appended, the hash having no managed record;
or nothing happens, every managed record of the hash being revoked already. -/
theorem retireCurrent_cases (hashToken : String → String) (call : RotationCall)
    (rs : List KeyRecord) :
    (∃ old, rs.find? (isCurrentActive (hashToken call.currentToken)) = some old ∧
      (retireCurrent hashToken call rs).1 =
        modifyFirst (isCurrentActive (hashToken call.currentToken)) (retire call) rs) ∨
    ((∀ r ∈ rs, isCurrent (hashToken call.currentToken) r = false) ∧
      (retireCurrent hashToken call rs).1 = rs ++ [graceRecord hashToken call]) ∨
    ((∀ r ∈ rs, isCurrent (hashToken call.currentToken) r = true → r.status = .revoked) ∧
      (retireCurrent hashToken call rs).1 = rs) := by
  rcases hscan : scanCurrent (hashToken call.currentToken) rs false with ⟨- | old, seen⟩
  · obtain ⟨h1, h2, -⟩ := scanCurrent_none hscan
    by_cases hgrace : 0 < call.graceSeconds ∧ seen = false
    · exact Or.inr (Or.inl ⟨h2 hgrace.2, by simp [retireCurrent, hscan, hgrace]⟩)
    · refine Or.inr (Or.inr ⟨h1, ?_⟩)
      simp only [retireCurrent, hscan]
      rw [if_neg hgrace]
  · exact Or.inl ⟨old, scanCurrent_some hscan, by simp [retireCurrent, hscan]⟩

/-- Retiring changes neither the id nor the hash of a record. -/
theorem retire_id_tokenHash (call : RotationCall) (r : KeyRecord) :
    (retire call r).id = r.id ∧ (retire call r).tokenHash = r.tokenHash := by
  unfold retire
  split_ifs <;> simp

/-- A retired record is refused from the end of the grace on. -/
theorem not_acceptedAt_retire {t : ℤ} (ht : call.graceEnd ≤ t) (r : KeyRecord) :
    (retire call r).acceptedAt t = false := by
  unfold retire
  split_ifs
  · exact not_acceptedAt_of_revoked rfl t
  · exact not_acceptedAt_of_expired rfl ht

theorem isCurrent_iff :
    isCurrent h r = true ↔ r.managed = true ∧ r.tokenHash = h := by
  simp [isCurrent]

theorem uniqueManaged_retireCurrent (h : UniqueManaged rs) :
    UniqueManaged (retireCurrent hashToken call rs).1 := by
  rcases retireCurrent_cases hashToken call rs with ⟨old, -, heq⟩ | ⟨hn, heq⟩ | ⟨-, heq⟩
  · rw [heq, UniqueManaged, managedHashes_modifyFirst (retire_id_tokenHash call)]
    exact h
  · rw [heq]
    refine uniqueManaged_append h fun hmem => ?_
    obtain ⟨r, hr, hm, hh⟩ := mem_managedHashes.mp hmem
    have hcur : isCurrent (hashToken call.currentToken) r = true := isCurrent_iff.mpr ⟨hm, hh⟩
    rw [hn r hr] at hcur
    cases hcur
  · rw [heq]
    exact h

/-- Retiring the current key brings in no hash but its own. -/
theorem tokenHash_of_mem_retireCurrent
    (hr : r ∈ (retireCurrent hashToken call rs).1) :
    r ∈ rs ∨ r.tokenHash = hashToken call.currentToken := by
  rcases retireCurrent_cases hashToken call rs with ⟨old, -, heq⟩ | ⟨-, heq⟩ | ⟨-, heq⟩
  · rw [heq] at hr
    rcases mem_of_mem_modifyFirst hr with hr | ⟨b, -, hb, rfl⟩
    · exact Or.inl hr
    · refine Or.inr ?_
      rw [(retire_id_tokenHash call b).2]
      simp only [isCurrentActive, Bool.and_eq_true] at hb
      exact (isCurrent_iff.mp hb.1).2
  · rw [heq] at hr
    rcases mem_append.mp hr with hr | hr
    · exact Or.inl hr
    · rw [mem_singleton.mp hr]
      exact Or.inr rfl
  · exact Or.inl (heq ▸ hr)

/-! ### The effect of a rotation -/

/-- **What a rotation promises**, between the file before and after it. -/
structure RotationSpec (hashToken : String → String) (call : RotationCall)
    (before after : KeysFile) : Prop where
  new_mem : ∃ r ∈ after.load, r.managed = true ∧ r.tokenHash = hashToken call.newToken ∧
    r.status = .active ∧ r.expiresAt = none
  new_active : ∀ r ∈ after.load, r.tokenHash = hashToken call.newToken →
    r.status = .active ∧ r.expiresAt = none
  retired : ∀ t, call.graceEnd ≤ t → ∀ r ∈ activeKeys t after, r.managed = true →
    r.tokenHash ≠ hashToken call.currentToken
  stays_revoked : (∃ r ∈ before.load, r.managed = true ∧
      r.tokenHash = hashToken call.currentToken ∧ r.status = .revoked) →
    ∀ t, ∀ r ∈ activeKeys t after, r.managed = true → r.tokenHash ≠ hashToken call.currentToken
  frame : (after.load.filter fun r => !(isCurrent (hashToken call.currentToken) r ||
      isCurrent (hashToken call.newToken) r)) =
    before.load.filter fun r => !(isCurrent (hashToken call.currentToken) r ||
      isCurrent (hashToken call.newToken) r)

def FreshHash (h : String) (rs : List KeyRecord) : Prop := ∀ r ∈ rs, r.tokenHash ≠ h

section Rotated

variable (hu : UniqueManaged rs) (hfresh : FreshHash (hashToken call.newToken) rs)
  (hne : hashToken call.newToken ≠ hashToken call.currentToken)

include hfresh hne in
/-- Before the new record is appended, its hash is nowhere. -/
theorem freshHash_retireCurrent :
    FreshHash (hashToken call.newToken) (retireCurrent hashToken call rs).1 := by
  intro r hr heq
  rcases tokenHash_of_mem_retireCurrent hr with hr | hh
  · exact hfresh r hr heq
  · exact hne (heq.symm.trans hh)

include hu hfresh hne in
theorem uniqueManaged_rotated : UniqueManaged (rotated hashToken call rs) := by
  refine uniqueManaged_append (uniqueManaged_retireCurrent hu) fun hm => ?_
  obtain ⟨r, hr, -, hh⟩ := mem_managedHashes.mp hm
  exact freshHash_retireCurrent hfresh hne r hr hh

include hne in
/-- A record of the current token in the rotated file was there before the new
record was appended. -/
theorem mem_retireCurrent_of_mem_rotated {r : KeyRecord} (hr : r ∈ rotated hashToken call rs)
    (hh : r.tokenHash = hashToken call.currentToken) :
    r ∈ (retireCurrent hashToken call rs).1 := by
  rcases mem_append.mp hr with hr | hr
  · exact hr
  · rw [mem_singleton.mp hr] at hh
    exact absurd hh hne

include hu hne in
/-- **Nothing managed of the current token outlives its grace.** -/
theorem not_acceptedAt_of_rotated {r : KeyRecord} (hr : r ∈ rotated hashToken call rs)
    (hm : r.managed = true) (hh : r.tokenHash = hashToken call.currentToken) {t : ℤ}
    (ht : call.graceEnd ≤ t) : r.acceptedAt t = false := by
  have hr' := mem_retireCurrent_of_mem_rotated hne hr hh
  rcases retireCurrent_cases hashToken call rs with ⟨old, hold, heq⟩ | ⟨hn, heq⟩ | ⟨hrev, heq⟩
  · -- the retired record is in the file, and it is the only managed one of its hash
    have hact := find?_some hold
    have hcur := isCurrent_iff.mp (by
      simp only [isCurrentActive, Bool.and_eq_true] at hact; exact hact.1)
    have hmem : retire call old ∈ (retireCurrent hashToken call rs).1 := by
      rw [heq]
      exact mem_modifyFirst_of_find? hold
    have hid := retire_id_tokenHash call old
    have hreq : r = retire call old :=
      eq_of_uniqueManaged (uniqueManaged_retireCurrent hu) hr' hmem hm
        (by rw [KeyRecord.managed, hid.1]; exact hcur.1) (by rw [hh, hid.2, hcur.2])
    rw [hreq]
    exact not_acceptedAt_retire ht old
  · rw [heq] at hr'
    rcases mem_append.mp hr' with hr' | hr'
    · exact absurd (isCurrent_iff.mpr ⟨hm, hh⟩) (by simp [hn r hr'])
    · rw [mem_singleton.mp hr']
      exact not_acceptedAt_of_expired rfl ht
  · rw [heq] at hr'
    exact not_acceptedAt_of_revoked (hrev r hr' (isCurrent_iff.mpr ⟨hm, hh⟩)) t

include hu hne in
/-- **A revoked token is not brought back**: where the current token's record was
revoked, the rotation leaves it and adds none. -/
theorem not_acceptedAt_of_revoked_before {r₀ r : KeyRecord} (hr₀ : r₀ ∈ rs)
    (hm₀ : r₀.managed = true) (hh₀ : r₀.tokenHash = hashToken call.currentToken)
    (hrev₀ : r₀.status = .revoked) (hr : r ∈ rotated hashToken call rs) (hm : r.managed = true)
    (hh : r.tokenHash = hashToken call.currentToken) (t : ℤ) : r.acceptedAt t = false := by
  have hr' := mem_retireCurrent_of_mem_rotated hne hr hh
  rcases retireCurrent_cases hashToken call rs with ⟨old, hold, -⟩ | ⟨hn, -⟩ | ⟨hrev, heq⟩
  · -- the scan cannot have met an active record: the revoked one is the only one
    have hact := find?_some hold
    simp only [isCurrentActive, Bool.and_eq_true, beq_iff_eq] at hact
    have hcur := isCurrent_iff.mp hact.1
    have := eq_of_uniqueManaged hu (mem_of_find?_eq_some hold) hr₀ hcur.1 hm₀
      (hcur.2.trans hh₀.symm)
    rw [this, hrev₀] at hact
    exact absurd hact.2 (by decide)
  · exact absurd (isCurrent_iff.mpr ⟨hm₀, hh₀⟩) (by simp [hn r₀ hr₀])
  · rw [heq] at hr'
    exact not_acceptedAt_of_revoked (hrev r hr' (isCurrent_iff.mpr ⟨hm, hh⟩)) t

/-- **The frame of a rotation.** -/
theorem filter_rotated : ((rotated hashToken call rs).filter fun r =>
      !(isCurrent (hashToken call.currentToken) r || isCurrent (hashToken call.newToken) r)) =
    rs.filter fun r =>
      !(isCurrent (hashToken call.currentToken) r || isCurrent (hashToken call.newToken) r) := by
  have hw : isCurrent (hashToken call.newToken) (newRecord hashToken call) = true :=
    isCurrent_iff.mpr ⟨rfl, rfl⟩
  have hgrace : isCurrent (hashToken call.currentToken) (graceRecord hashToken call) = true :=
    isCurrent_iff.mpr ⟨rfl, rfl⟩
  rw [rotated, filter_append, filter_cons_of_neg (by simp [hw]), filter_nil, append_nil]
  rcases retireCurrent_cases hashToken call rs with ⟨old, -, heq⟩ | ⟨-, heq⟩ | ⟨-, heq⟩
  · rw [heq]
    refine filter_modifyFirst fun r _ hr => ?_
    simp only [isCurrentActive, Bool.and_eq_true] at hr
    have hcur := isCurrent_iff.mp hr.1
    have hid := retire_id_tokenHash call r
    have hret : isCurrent (hashToken call.currentToken) (retire call r) = true :=
      isCurrent_iff.mpr ⟨by rw [KeyRecord.managed, hid.1]; exact hcur.1, by rw [hid.2, hcur.2]⟩
    simp [hr.1, hret]
  · rw [heq, filter_append, filter_cons_of_neg (by simp [hgrace]), filter_nil, append_nil]
  · rw [heq]

end Rotated

/-- **A rotation that returns, under the invariant, does what it promises.** -/
theorem rotationSpec_recordRotation {outcome : WriteOutcome} {file file' : KeysFile}
    {result : RotationOutcome} (hu : UniqueManaged file.load)
    (hfresh : FreshHash (hashToken call.newToken) file.load)
    (hne : hashToken call.newToken ≠ hashToken call.currentToken)
    (h : recordRotation hashToken outcome call file = (file', .ok result)) :
    RotationSpec hashToken call file file' := by
  have hl : file'.load = rotated hashToken call file.load := by
    rcases recordRotation_cases hashToken outcome file call with ⟨e, he⟩ | ⟨r, -, hr⟩
    · rw [he] at h
      cases h
    · rw [hr] at h
      rw [← (Prod.mk.inj h).1]
      rfl
  constructor
  · rw [hl]
    exact ⟨newRecord hashToken call, mem_append_right _ (mem_singleton_self _),
      rfl, rfl, rfl, rfl⟩
  · rw [hl]
    intro r hr hh
    rcases mem_append.mp hr with hr | hr
    · exact absurd hh (freshHash_retireCurrent hfresh hne r hr)
    · rw [mem_singleton.mp hr]
      exact ⟨rfl, rfl⟩
  · intro t ht r hr hm hh
    obtain ⟨hr, hacc⟩ := mem_filter.mp hr
    rw [hl] at hr
    rw [not_acceptedAt_of_rotated hu hne hr hm hh ht] at hacc
    cases hacc
  · rintro ⟨r₀, hr₀, hm₀, hh₀, hrev₀⟩ t r hr hm hh
    obtain ⟨hr, hacc⟩ := mem_filter.mp hr
    rw [hl] at hr
    rw [not_acceptedAt_of_revoked_before hu hne hr₀ hm₀ hh₀ hrev₀ hr hm hh t] at hacc
    cases hacc
  · rw [hl]
    exact filter_rotated

/-! ### Runs of mutations -/

inductive Mutation where
  | create : WriteOutcome → CreateCall → Mutation
  | revoke : WriteOutcome → String → Mutation
  | recordRotation : WriteOutcome → RotationCall → Mutation
  | loadSyntheticRecords : WriteOutcome → List KeyRecord → Mutation

variable (hashToken)

def apply (file : KeysFile) : Mutation → KeysFile
  | .create outcome call => (create hashToken outcome call file).1
  | .revoke outcome keyId => (revoke outcome keyId file).1
  | .recordRotation outcome call => (recordRotation hashToken outcome call file).1
  | .loadSyntheticRecords outcome synthetic => (loadSyntheticRecords outcome synthetic file).1

def step (file : KeysFile) (m : Mutation) : Option KeysFile := some (apply hashToken file m)

/-- **The generated tokens are fresh**: their hash is in no record of the file, and
the new token of a rotation is not the current one. The records of the TOML file
are synthetic. -/
def Admissible (file : KeysFile) : Mutation → Prop
  | .create _ call => FreshHash (hashToken call.rawToken) file.load
  | .revoke _ _ => True
  | .recordRotation _ call => FreshHash (hashToken call.newToken) file.load ∧
      hashToken call.newToken ≠ hashToken call.currentToken
  | .loadSyntheticRecords _ synthetic => ∀ r ∈ synthetic, r.id = none

variable {hashToken}

/-- **Every admissible mutation preserves the invariant.** -/
theorem uniqueManaged_apply {file : KeysFile} {m : Mutation} (hm : Admissible hashToken file m)
    (hu : UniqueManaged file.load) : UniqueManaged (apply hashToken file m).load := by
  cases m with
  | create outcome call =>
    rcases load_create hashToken outcome file call with h | ⟨e, h⟩
    · rw [apply, h]
      exact hu
    · rw [apply, h]
      refine uniqueManaged_append hu fun hmem => ?_
      obtain ⟨r, hr, -, hh⟩ := mem_managedHashes.mp hmem
      exact hm r hr hh
  | revoke outcome keyId =>
    rcases load_revoke outcome file keyId with h | h
    · rw [apply, h]
      exact hu
    · rw [apply, h, UniqueManaged,
        managedHashes_modifyFirst (f := fun r => { r with status := .revoked }) fun r => ⟨rfl, rfl⟩]
      exact hu
  | recordRotation outcome call =>
    rcases recordRotation_cases hashToken outcome file call with ⟨e, h⟩ | ⟨r, -, h⟩
    · rw [apply, h]
      exact hu
    · rw [apply, h]
      exact uniqueManaged_rotated hu hm.1 hm.2
  | loadSyntheticRecords outcome synthetic =>
    rcases load_loadSyntheticRecords outcome file synthetic with h | h
    · rw [apply, h]
      exact hu
    -- the managed records are kept, and the synthetic ones have no id
    have hsyn : managedHashes synthetic = [] := by
      simp only [managedHashes, map_eq_nil_iff, filter_eq_nil_iff]
      intro r hr
      simp [KeyRecord.managed, hm r hr]
    have hk :
        managedHashes (file.load.filter KeyRecord.managed) = managedHashes file.load := by
      simp [managedHashes]
    rw [apply, h, UniqueManaged, managedHashes_append, hsyn, hk, append_nil]
    exact hu

/-- **The key store over every run.** After any run of mutations from a missing
file whose generated tokens are fresh, there is at most one managed record per
token hash, and every rotation that returns from there does what it promises. -/
theorem uniqueManaged_and_rotationSpec (hashToken : String → String) {ms : List Mutation}
    {file : KeysFile} (hfresh : Along (step hashToken) (Admissible hashToken) .missing ms)
    (hrun : run (step hashToken) .missing ms = some file) :
    UniqueManaged file.load ∧
      ∀ outcome call, Admissible hashToken file (.recordRotation outcome call) →
        ∀ file' result, recordRotation hashToken outcome call file = (file', .ok result) →
          RotationSpec hashToken call file file' := by
  have hu : UniqueManaged file.load := by
    refine run_invariant_along (I := fun f => UniqueManaged f.load) ?_ hfresh ?_ hrun
    · intro f m f' hm hf hs
      cases hs
      exact uniqueManaged_apply hm hf
    · simp [UniqueManaged, managedHashes, KeysFile.load]
  exact ⟨hu, fun outcome call hadm file' result h =>
    rotationSpec_recordRotation hu hadm.1 hadm.2 h⟩

def sampleDigest (token : String) : String :=
  if token = "old-default-key" then
    "266815cdab1cd23cb41e30cbcbed4b6ed679225ea0efc223944cf98d81034bf7"
  else if token = "new-default-key" then
    "6595b43d2fd0c8bc18d1768e910e58901c97c62d68ef13d17d4d4dafa1871136"
  else ""

def sampleRun : List Mutation :=
  [.create .written ⟨"default", none, none, true, "key-1", "old-default-key", 1000000⟩]

def sampleRotation : RotationCall :=
  ⟨"old-default-key", 60, "new-default-key", 5000000, "key-2", "key-3"⟩

def sampleFile : KeysFile :=
  .records [⟨some "key-1", sampleDigest "old-default-key", "default", none, 1000000, none, .active,
    true⟩]

/-- A managed key rotated with a grace: the run is admissible, and the rotation that
follows it keeps its promise. -/
theorem rotationSpec_sample :
    UniqueManaged sampleFile.load ∧ RotationSpec sampleDigest sampleRotation sampleFile
      (recordRotation sampleDigest .written sampleRotation sampleFile).1 := by
  have hfresh : Along (step sampleDigest) (Admissible sampleDigest) .missing sampleRun :=
    ⟨fun r hr => absurd hr (by simp [KeysFile.load]), fun _ _ => trivial⟩
  have hrun : run (step sampleDigest) .missing sampleRun = some sampleFile := by decide
  have h := uniqueManaged_and_rotationSpec sampleDigest hfresh hrun
  have hadm : Admissible sampleDigest sampleFile (.recordRotation .written sampleRotation) :=
    ⟨by unfold FreshHash; decide, by decide⟩
  exact ⟨h.1, h.2 .written sampleRotation hadm _ _ rfl⟩

end ArchonSearch.Keys
