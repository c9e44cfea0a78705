import Mathlib.Data.List.Infix
import ArchonSearch.Acl
import ArchonSearch.Keys.Store
import ArchonSearch.Lib.Keyed

/-!
# Who a token is

`middleware_auth.authenticate_token` looks for a bearer token in three places, one after the other:
among the active records of `keys.json`, in the namespace map of the TOML file, and in the current
default key. Each place has its own rule about revocation. The records are filtered by their status
and their expiry; the TOML map is not looked up in the records at all, as its tokens are withdrawn
by editing the file; and the default key is refused if any record of its hash was revoked or has
expired.

`authenticateToken_eq_identity_iff` says which place a token that is let in was found in, and hence
what it may do (`authenticateToken_cascade`). A revoked record therefore does not shut out a token
that is in the TOML file, too (`revoked_but_configured`).

The records are read once for the first place and once for the third, each time with a clock, and
need not stand still in between.
-/

namespace ArchonSearch.Keys

open Lib List Option

/-! ### The function -/

/-- `_validate_segment_safe`: no `_` at the end and no `__` anywhere. -/
def isSegmentSafe (name : String) : Bool :=
  name.toList.getLast? != some '_' && !decide (['_', '_'] <:+: name.toList)

/-- `_validate_namespace` does not raise. -/
def isNamespaceValid (name : String) : Bool :=
  name != "deny-all" && Acl.namespaceRe name && isSegmentSafe name

/-- `str.isascii`. -/
def isAscii (s : String) : Bool := s.toList.all fun c => c.toNat < 128

/-- `AuthIdentity`. -/
structure AuthIdentity where
  /-- `namespace`. -/
  ns : String
  admin : Bool
  deriving DecidableEq

/-- What `authenticate_token` returns. -/
inductive AuthResult where
  /-- `None`. -/
  | refused
  /-- `INVALID_NAMESPACE_SENTINEL`. -/
  | invalidNamespace
  | identity : AuthIdentity → AuthResult
  deriving DecidableEq

/-- A reading of `keys.json` and of the clock. -/
structure Reading where
  file : KeysFile
  /-- `datetime.now(UTC)`. -/
  now : ℤ

abbrev Namespaces := Keyed (Prod.fst : String × String → String)

def activeRecord (tokenHash : String) (r : Reading) : Option KeyRecord :=
  (activeKeys r.now r.file).find? fun record => tokenHash == record.tokenHash

/-- The namespace that the TOML map gives the token: the loop does not stop at a match. -/
def tomlNamespace (token : String) (namespaces : Namespaces) : Option String :=
  namespaces.items.foldl
    (fun resolved entry => if token == entry.1 then some entry.2 else resolved) none

/-- `is_revoked_or_expired`. -/
def isRevokedOrExpired (tokenHash : String) (r : Reading) : Bool :=
  r.file.load.any fun record => (record.status == .revoked ||
    record.expiresAt.any fun e => decide (e ≤ r.now)) && tokenHash == record.tokenHash

/-- `authenticate_token`, up to the check of the namespace. `second` is the reading that the
fallback makes. -/
def resolve (tokenHash token apiKey : String) (namespaces : Namespaces)
    (keyStore : Option (Reading × Reading)) : Option AuthIdentity :=
  match keyStore.bind fun readings => activeRecord tokenHash readings.1 with
  | some record => some ⟨record.ns, record.admin⟩
  | none =>
    match tomlNamespace token namespaces with
    | some ns => some ⟨ns, false⟩
    | none =>
      if token == apiKey && !keyStore.any fun readings => isRevokedOrExpired tokenHash readings.2
      then some ⟨"default", true⟩
      else none

/-- `authenticate_token`. -/
def authenticateToken (hashToken : String → String) (token apiKey : String)
    (namespaces : Namespaces) (keyStore : Option (Reading × Reading)) : AuthResult :=
  if token == "" || !isAscii token then .refused
  else
    match resolve (hashToken token) token apiKey namespaces keyStore with
    | none => .refused
    | some caller => if isNamespaceValid caller.ns then .identity caller else .invalidNamespace

/-! ### The places -/

variable {hashToken : String → String} {tokenHash token apiKey ns : String}
  {namespaces : Namespaces} {keyStore : Option (Reading × Reading)} {r : Reading}
  {record : KeyRecord} {caller : AuthIdentity}

theorem activeRecord_mem (h : activeRecord tokenHash r = some record) :
    record ∈ r.file.load ∧ record.acceptedAt r.now = true ∧ record.tokenHash = tokenHash := by
  obtain ⟨hm, hacc⟩ := mem_filter.mp (mem_of_find?_eq_some h)
  exact ⟨hm, hacc, (beq_iff_eq.mp (find?_some h :)).symm⟩

/-- The TOML map is looked up, though every entry is compared. -/
theorem tomlNamespace_eq_some_iff :
    tomlNamespace token namespaces = some ns ↔ (token, ns) ∈ namespaces := by
  have hfold : ∀ (entries : List (String × String)) (resolved : Option String),
      (entries.map Prod.fst).Nodup →
      (entries.foldl (fun resolved entry => if token == entry.1 then some entry.2 else resolved)
        resolved = some ns ↔
        (token, ns) ∈ entries ∨ token ∉ entries.map Prod.fst ∧ resolved = some ns) := by
    intro entries
    induction entries with
    | nil => simp
    | cons entry entries ih =>
      intro resolved hnd
      obtain ⟨hent, hnd⟩ := nodup_cons.mp hnd
      rw [foldl_cons, ih _ hnd]
      obtain ⟨key, value⟩ := entry
      by_cases hk : token = key
      · subst hk
        have hnot (value : String) : (token, value) ∉ entries :=
          fun hm => hent (List.mem_map.mpr ⟨_, hm, rfl⟩)
        simp [hnot, eq_comm, hent]
      · simp [hk]
  rw [tomlNamespace, hfold _ _ namespaces.nodup]
  simp [Keyed.mem_def]

theorem isRevokedOrExpired_iff : isRevokedOrExpired tokenHash r = true ↔
    ∃ record ∈ r.file.load, record.tokenHash = tokenHash ∧ record.acceptedAt r.now = false := by
  have hrule (record : KeyRecord) : (record.status == .revoked ||
      record.expiresAt.any fun e => decide (e ≤ r.now)) = !record.acceptedAt r.now := by
    have hnot (e : ℤ) : decide (e ≤ r.now) = !decide (r.now < e) := by
      rw [← decide_not, decide_eq_decide, Int.not_lt]
    unfold KeyRecord.acceptedAt
    cases record.status <;> cases record.expiresAt <;>
      simp only [any_none, any_some, hnot] <;> rfl
  simp only [isRevokedOrExpired, hrule, List.any_eq_true, Bool.and_eq_true, Bool.not_eq_true',
    beq_iff_eq]
  exact exists_congr fun record => and_congr_right fun _ =>
    ⟨fun h => ⟨h.2.symm, h.1⟩, fun h => ⟨h.2, h.1.symm⟩⟩

inductive FoundIn (tokenHash token apiKey : String) (namespaces : Namespaces)
    (keyStore : Option (Reading × Reading)) : AuthIdentity → Prop where
  | records : ∀ {first second record}, keyStore = some (first, second) →
      activeRecord tokenHash first = some record →
      FoundIn tokenHash token apiKey namespaces keyStore ⟨record.ns, record.admin⟩
  | toml : ∀ {ns}, (∀ readings ∈ keyStore, activeRecord tokenHash readings.1 = none) →
      (token, ns) ∈ namespaces →
      FoundIn tokenHash token apiKey namespaces keyStore ⟨ns, false⟩
  | fallback : (∀ readings ∈ keyStore, activeRecord tokenHash readings.1 = none) →
      (∀ ns, (token, ns) ∉ namespaces) → token = apiKey →
      (∀ readings ∈ keyStore, isRevokedOrExpired tokenHash readings.2 = false) →
      FoundIn tokenHash token apiKey namespaces keyStore ⟨"default", true⟩

theorem resolve_eq_some_iff : resolve tokenHash token apiKey namespaces keyStore = some caller ↔
    FoundIn tokenHash token apiKey namespaces keyStore caller := by
  have hn : (keyStore.bind fun readings => activeRecord tokenHash readings.1) = none ↔
      ∀ readings ∈ keyStore, activeRecord tokenHash readings.1 = none := bind_eq_none_iff
  have hguard : (token == apiKey &&
      !keyStore.any fun readings => isRevokedOrExpired tokenHash readings.2) = true ↔
      token = apiKey ∧ ∀ readings ∈ keyStore, isRevokedOrExpired tokenHash readings.2 = false := by
    cases keyStore <;> simp
  have htoml : tomlNamespace token namespaces = none ↔ ∀ ns, (token, ns) ∉ namespaces := by
    simp [← tomlNamespace_eq_some_iff, eq_none_iff_forall_ne_some]
  constructor
  · intro h
    unfold resolve at h
    split at h
    · next record hrec =>
      cases h
      obtain ⟨readings, hstore, hrec⟩ := bind_eq_some_iff.mp hrec
      exact .records hstore hrec
    · next hrec =>
      split at h
      · next ns hns =>
        cases h
        exact .toml (hn.mp hrec) (tomlNamespace_eq_some_iff.mp hns)
      · next hns =>
        obtain ⟨hif, hcal⟩ := ite_none_right_eq_some.mp h
        cases hcal
        obtain ⟨hk, hunr⟩ := hguard.mp hif
        exact .fallback (hn.mp hrec) (htoml.mp hns) hk hunr
  · intro h
    unfold resolve
    cases h with
    | records hstore hrec => simp [hstore, hrec]
    | toml hrec hns => rw [hn.mpr hrec, tomlNamespace_eq_some_iff.mpr hns]
    | fallback hrec hns hk hunr =>
      rw [hn.mpr hrec, htoml.mpr hns]
      exact if_pos (hguard.mpr ⟨hk, hunr⟩)

/-- **Who is let in**: a token in one of the three places, whose namespace is valid. -/
theorem authenticateToken_eq_identity_iff :
    authenticateToken hashToken token apiKey namespaces keyStore = .identity caller ↔
      token ≠ "" ∧ isAscii token = true ∧ isNamespaceValid caller.ns = true ∧
        FoundIn (hashToken token) token apiKey namespaces keyStore caller := by
  rw [← resolve_eq_some_iff]
  unfold authenticateToken
  by_cases hbl : (token == "" || !isAscii token) = true
  · rw [if_pos hbl]
    refine iff_of_false (by simp) fun h => ?_
    simp [h.1, h.2.1] at hbl
  rw [if_neg hbl]
  simp only [Bool.or_eq_true, beq_iff_eq, Bool.not_eq_true', not_or, Bool.not_eq_false] at hbl
  cases hres : resolve (hashToken token) token apiKey namespaces keyStore with
  | none => simp
  | some found =>
    simp only [hbl, ne_eq, not_false_eq_true, true_and, some.injEq]
    split_ifs with hval
    · constructor
      · rintro ⟨⟩
        exact ⟨hval, rfl⟩
      · rintro ⟨-, rfl⟩
        rfl
    · refine iff_of_false (by simp) ?_
      rintro ⟨hcal, rfl⟩
      exact hval hcal

/-- **The cascade.** A token that is let in is in one of the three places, the first of which
gives its namespace; admin rights come from the first active record of the token or with the
default key; and a token with a revoked or expired record and no active one is refused, unless it
is in the TOML map. -/
theorem authenticateToken_cascade (hashToken : String → String) (token apiKey : String)
    (namespaces : Namespaces) (keyStore : Option (Reading × Reading)) :
    (∀ caller, authenticateToken hashToken token apiKey namespaces keyStore = .identity caller →
      token ≠ "" ∧ isAscii token = true ∧
        FoundIn (hashToken token) token apiKey namespaces keyStore caller ∧
        (caller.admin = true →
          (∃ readings ∈ keyStore, ∃ record,
            activeRecord (hashToken token) readings.1 = some record ∧
            record.admin = true) ∨
          token = apiKey ∧ caller.ns = "default" ∧ (∀ ns, (token, ns) ∉ namespaces) ∧
            ∀ readings ∈ keyStore, ∀ record ∈ readings.2.file.load,
              record.tokenHash = hashToken token → record.acceptedAt readings.2.now = true)) ∧
    ∀ readings ∈ keyStore,
      (∀ record ∈ readings.1.file.load, record.tokenHash = hashToken token →
        record.acceptedAt readings.1.now = false) →
      (∃ record ∈ readings.2.file.load, record.tokenHash = hashToken token ∧
        record.acceptedAt readings.2.now = false) →
      (∀ ns, (token, ns) ∉ namespaces) →
      authenticateToken hashToken token apiKey namespaces keyStore = .refused := by
  constructor
  · intro caller h
    obtain ⟨hne, hasc, -, hfnd⟩ := authenticateToken_eq_identity_iff.mp h
    refine ⟨hne, hasc, hfnd, fun hadm => ?_⟩
    cases hfnd with
    | records hstore hrec => exact Or.inl ⟨_, hstore, _, hrec, hadm⟩
    | toml hrec hns => cases hadm
    | fallback hrec hns hk hunr =>
      refine Or.inr ⟨hk, rfl, hns, fun readings hm record hl hhash => ?_⟩
      by_contra hrej
      have hrev := isRevokedOrExpired_iff.mpr ⟨record, hl, hhash, (Bool.not_eq_true _).mp hrej⟩
      exact Bool.false_ne_true ((hunr readings hm).symm.trans hrev)
  · intro readings hm hnoneActive hrev hns
    have hres : resolve (hashToken token) token apiKey namespaces keyStore = none := by
      refine eq_none_iff_forall_ne_some.mpr fun caller hcal => ?_
      cases resolve_eq_some_iff.mp hcal with
      | records hstore hrec =>
        obtain rfl := some.inj (hm.symm.trans hstore)
        obtain ⟨hl, hacc, hhash⟩ := activeRecord_mem hrec
        exact Bool.false_ne_true ((hnoneActive _ hl hhash).symm.trans hacc)
      | toml hrec htoml => exact hns _ htoml
      | fallback hrec htoml hk hunr =>
        exact Bool.false_ne_true ((hunr readings hm).symm.trans (isRevokedOrExpired_iff.mpr hrev))
    unfold authenticateToken
    rw [hres]
    exact ite_self _

/-- The hash of the key `0123456789abcdef0123456789abcdef`. -/
def revokedHash : String :=
  "3eb1bd439947eb762998e566ccc2e099c791118b2f40579cc4f7da2b5061b7f9"

def revokedReading : Reading where
  file := .records [{
    id := some "8f14e45f"
    tokenHash := revokedHash
    ns := "team"
    createdAt := 0
    status := .revoked }]
  now := 1

/-- **A revoked key is let in if it is in the TOML map, too.** -/
theorem revoked_but_configured :
    (∃ record ∈ revokedReading.file.load, record.tokenHash = revokedHash ∧
      record.acceptedAt revokedReading.now = false) ∧
    (∀ record ∈ revokedReading.file.load, record.acceptedAt revokedReading.now = false) ∧
    authenticateToken (fun _ => revokedHash)
      "0123456789abcdef0123456789abcdef" "ffffffffffffffffffffffffffffffff"
      (Keyed.ofList [("0123456789abcdef0123456789abcdef", "team")])
      (some (revokedReading, revokedReading)) = .identity ⟨"team", false⟩ := by
  decide

end ArchonSearch.Keys
