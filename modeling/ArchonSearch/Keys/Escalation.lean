import Mathlib.Data.List.Pairwise
import ArchonSearch.Keys.Manage
import ArchonSearch.Keys.Unique

/-!
# No escalation through the management of keys

A caller that is no admin gets, by whatever requests, only keys of its own namespace that are no
admin keys, sees and revokes only such keys, and leaves everything else alone (`no_escalation`).

What a request does rests on what it has been told: the identity of its token, and the records it
has listed. These answers stay true while other requests run, as a record with an id is never
removed, and neither its namespace nor its rights change (`Evolves`). So what is checked before an
await still holds after it. A key that is revoked by its id is the one that was checked, as no two
records have one id; and a token authenticates as what it was drawn for, as its hash has no other
owner (`World.Owns`).
-/

namespace ArchonSearch.Keys.Manage

open Lib Async Function List Option

/-! ### Lists of records -/

def UniqueIds (rs : List KeyRecord) : Prop :=
  rs.Pairwise fun r r' => ∀ k, r.id = some k → r'.id ≠ some k

/-- What can become of a record: its status and its expiry may change, but it is not made valid
again. -/
structure Succeeds (r r' : KeyRecord) : Prop where
  id : r'.id = r.id
  tokenHash : r'.tokenHash = r.tokenHash
  ns : r'.ns = r.ns
  admin : r'.admin = r.admin
  revoked : r.status = .revoked → r'.status = .revoked

/-- The managed records of one list are still there in the other; only those of these hashes may
have another expiry. -/
def Survive (retirable : String → Prop) (rs rs' : List KeyRecord) : Prop :=
  ∀ r ∈ rs, r.managed = true →
    ∃ r' ∈ rs', Succeeds r r' ∧ (r'.expiresAt = r.expiresAt ∨ retirable r.tokenHash)

section Records

variable {rs rs' : List KeyRecord} {r r' : KeyRecord} {k : String}

theorem Succeeds.refl (r : KeyRecord) : Succeeds r r := ⟨rfl, rfl, rfl, rfl, fun h => h⟩

theorem succeeds_revoked (r : KeyRecord) : Succeeds r { r with status := .revoked } :=
  ⟨rfl, rfl, rfl, rfl, fun _ => rfl⟩

theorem succeeds_retire (call : RotationCall) (hact : r.status = .active) :
    Succeeds r (retire call r) := by
  have hnot (h : r.status = .revoked) : False := by
    rw [hact] at h
    cases h
  unfold retire
  split_ifs
  · exact succeeds_revoked r
  · exact ⟨rfl, rfl, rfl, rfl, fun h => (hnot h).elim⟩

/-- **An id tells a record.** -/
theorem UniqueIds.eq (h : UniqueIds rs) (hr : r ∈ rs) (hr' : r' ∈ rs) (hk : r.id = some k)
    (hk' : r'.id = some k) : r = r' := by
  by_contra hne
  have : Std.Symm fun r r' : KeyRecord => ∀ k, r.id = some k → r'.id ≠ some k :=
    ⟨fun _ _ hrel k hk hk' => hrel k hk' hk⟩
  exact List.Pairwise.forall h hr hr' hne k hk hk'

/-- Whether the ids are unique is a matter of the ids. -/
theorem UniqueIds.congr (h : UniqueIds rs) (hids : rs'.map KeyRecord.id = rs.map KeyRecord.id) :
    UniqueIds rs' := by
  have hmap (l : List KeyRecord) : UniqueIds l ↔ (l.map KeyRecord.id).Pairwise
      fun a b => ∀ k, a = some k → b ≠ some k := by
    rw [pairwise_map]
    rfl
  rw [hmap, hids, ← hmap]
  exact h

variable {f : KeyRecord → KeyRecord} {p : KeyRecord → Bool}

theorem UniqueIds.modifyFirst
    (h : UniqueIds rs) (hf : ∀ r, (f r).id = r.id) : UniqueIds (modifyFirst p f rs) :=
  h.congr (map_modifyFirst (fun r _ => hf r) rs)

theorem UniqueIds.append (h : UniqueIds rs)
    (hw : ∀ r' ∈ rs, ∀ k, r.id = some k → r'.id ≠ some k) : UniqueIds (rs ++ [r]) := by
  refine pairwise_append.mpr ⟨h, pairwise_singleton _ _, fun a ha b hb k hk hk' => ?_⟩
  obtain rfl := mem_singleton.mp hb
  exact hw a ha k hk' hk

variable {retirable : String → Prop}

theorem Survive.refl (rs : List KeyRecord) : Survive retirable rs rs :=
  fun r hr _ => ⟨r, hr, .refl r, Or.inl rfl⟩

theorem Survive.append (h : Survive retirable rs rs')
    (new : List KeyRecord) : Survive retirable rs (rs' ++ new) := by
  intro r hr hman
  obtain ⟨r', hr', hsuc⟩ := h r hr hman
  exact ⟨r', mem_append_left new hr', hsuc⟩

/-- A record that is changed is followed by what it is changed to. -/
theorem survive_modifyFirst (hf : ∀ r, p r = true → Succeeds r (f r) ∧
      ((f r).expiresAt = r.expiresAt ∨ retirable r.tokenHash)) :
    Survive retirable rs (modifyFirst p f rs) := by
  intro r hr _
  rcases mem_modifyFirst (p := p) (f := f) hr with hm | ⟨hp, hm⟩
  · exact ⟨r, hm, .refl r, Or.inl rfl⟩
  · exact ⟨f r, hm, hf r hp⟩

theorem survive_filter (new : List KeyRecord) :
    Survive retirable rs (rs.filter KeyRecord.managed ++ new) := fun r hr hman =>
  ⟨r, mem_append_left new (mem_filter.mpr ⟨hr, hman⟩), .refl r, Or.inl rfl⟩

theorem uniqueIds_filter (h : UniqueIds rs) {new : List KeyRecord}
    (hw : ∀ r ∈ new, r.id = none) : UniqueIds (rs.filter KeyRecord.managed ++ new) := by
  refine pairwise_append.mpr ⟨h.sublist filter_sublist, ?_, ?_⟩
  · refine pairwise_of_forall_mem_list fun a ha b _ k hk => ?_
    rw [hw a ha] at hk
    cases hk
  · intro a _ b hb k _ hk
    rw [hw b hb] at hk
    cases hk

end Records

/-! ### What a request has been told -/

abbrev Told : Type := (op : Op) × Ans op

def Identified (told : List Told) (c : AuthIdentity) : Prop :=
  ∃ token, (⟨.authenticate token, .identity c⟩ : Told) ∈ told

def MayCreate (told : List Told) (args : CreateArgs) : Prop :=
  ∃ c, Identified told c ∧ authorizeKeyCreate c args.ns args.admin = .ok () ∧
    isNamespaceValid args.ns = true

/-- A caller that may revoke a key of this id: an admin, or one that has seen it and manages it. -/
def MayRevoke (told : List Told) (keyId : String) : Prop :=
  ∃ c, Identified told c ∧ (c.admin = true ∨ ∃ records, (⟨.listKeys, records⟩ : Told) ∈ told ∧
    ∃ r ∈ records, r.id = some keyId ∧ canManageKey c r = true)

def MayRotate (told : List Told) : Prop := ∃ c, Identified told c ∧ c.admin = true

def May (told : List Told) : Op → Prop
  | .authenticate _ => told = []
  | .create args => MayCreate told args
  | .revoke keyId => MayRevoke told keyId
  | .writeKeyFile => MayRotate told
  | .recordRotation currentToken _ newToken => MayRotate told ∧
      (⟨.readCurrentToken, currentToken⟩ : Told) ∈ told ∧ (⟨.writeKeyFile, newToken⟩ : Told) ∈ told
  | .publish newToken => MayRotate told ∧ (⟨.writeKeyFile, newToken⟩ : Told) ∈ told
  | _ => True

@[reducible] def contract : Contract ops Raised where
  Know := List Told
  May := May
  Can _ _ _ := True
  learn told op r := match r with
    | .ok a => ⟨op, a⟩ :: told
    | .error _ => told

def Answers : Answer → List Told → Prop
  | .created resp, told =>
    MayCreate told ⟨resp.ns, resp.label, resp.expiresAt.map .aware, resp.admin⟩ ∧
      (⟨.create ⟨resp.ns, resp.label, resp.expiresAt.map .aware, resp.admin⟩,
        ⟨resp.id, resp.token, resp.createdAt⟩⟩ : Told) ∈ told
  | .listed resp, told => ∃ c, Identified told c ∧
      (c.admin = false → ∀ key ∈ resp.keys, key.ns = c.ns ∧ key.admin = false)
  | .revoked resp, told => MayRevoke told resp.id ∧ (⟨.revoke resp.id, ()⟩ : Told) ∈ told
  | .rotated _, told => MayRotate told
  | _, _ => True

section Programs

variable {lib : Library} {config : Config} {told : List Told} {c : AuthIdentity}

theorem Identified.cons (h : Identified told c) (fact : Told) : Identified (fact :: told) c :=
  h.imp fun _ htok => mem_cons_of_mem fact htok

theorem MayCreate.cons {args : CreateArgs} (h : MayCreate told args) (fact : Told) :
    MayCreate (fact :: told) args :=
  h.imp fun _ hc => ⟨hc.1.cons fact, hc.2⟩

theorem MayRevoke.cons {keyId : String} (h : MayRevoke told keyId) (fact : Told) :
    MayRevoke (fact :: told) keyId :=
  h.imp fun _ hc => ⟨hc.1.cons fact, hc.2.imp_right fun hseen =>
    hseen.imp fun _ hr => ⟨mem_cons_of_mem fact hr.1, hr.2⟩⟩

theorem MayRotate.cons (h : MayRotate told) (fact : Told) : MayRotate (fact :: told) :=
  h.imp fun _ hc => ⟨hc.1.cons fact, hc.2⟩

abbrev Obeys (p : Program Answer) (told : List Told) : Prop :=
  p.wp contract Answers (fun _ _ => True) told

theorem obeys_refused (refusal : Refusal) : Obeys (pure (.refused refusal)) told := trivial

theorem Obeys.caught {p : Program Answer} (h : Obeys p told)
    (answers : Raised → Option Refusal) : Obeys (caught p answers) told := by
  refine wp_tryCatch.mpr (wp_mono h (fun _ _ hq => hq) fun e told' _ => ?_)
  cases answers e with
  | some refusal => exact obeys_refused refusal
  | none => trivial

variable {stamped : Option AuthIdentity}

theorem identityOf_eq_some (h : identityOf stamped = some c) :
    stamped = some c := by
  unfold identityOf at h
  split at h
  next identity =>
    split_ifs at h
    exact h
  next => exact h

theorem isNamespaceValid_of_validateNamespace {name : String}
    (h : validateNamespace lib name = .ok ()) : isNamespaceValid name = true := by
  unfold validateNamespace at h
  split_ifs at h with hdeny hre hl hdoub
  simp [isNamespaceValid, isSegmentSafe, hdeny, hre, hl, hdoub]

/-- **What may be created** is created. -/
theorem obeys_create {ns : String} {label : Option String} {expiresAt : Option ℤ} {admin : Bool}
    (hc : Identified told c) (hm : authorizeKeyCreate c ns admin = .ok ())
    (hval : validateNamespace lib ns = .ok ()) :
    Obeys (do
      let created ← ask (.create ⟨ns, label, expiresAt.map .aware, admin⟩)
      pure (keyCreated ns label expiresAt admin created)) told := by
  have hcreate : MayCreate told ⟨ns, label, expiresAt.map .aware, admin⟩ :=
    ⟨c, hc, hm, isNamespaceValid_of_validateNamespace hval⟩
  refine wp_bind.mpr (wp_perform hcreate (fun created _ => ?_) fun _ _ => trivial)
  exact ⟨hcreate.cons _, mem_cons_self⟩

/-- **What is listed** the caller manages. -/
theorem mem_listing {ns : Option String} {status : StatusFilter} {records : List KeyRecord}
    {key : KeyResponse} (hk : key ∈ (listing c ns status records).keys) :
    ∃ r ∈ records, canManageKey c r = true ∧ key = keyRecordToResponse r := by
  have hsub : scope c ns records ⊆ records.filter (canManageKey c) := by
    cases ns with
    | none => exact List.Subset.refl _
    | some ns => exact filter_subset_self _
  obtain ⟨r, hr, rfl⟩ : ∃ r ∈ scope c ns records, key = keyRecordToResponse r := by
    cases status with
    | active | revoked =>
      obtain ⟨r, hr, rfl⟩ := List.mem_map.mp hk
      exact ⟨r, (mem_filter.mp hr).1, rfl⟩
    | all =>
      obtain ⟨r, hr, rfl⟩ := List.mem_map.mp hk
      exact ⟨r, hr, rfl⟩
  obtain ⟨hm, hman⟩ := mem_filter.mp (hsub hr)
  exact ⟨r, hm, hman, rfl⟩

theorem canManageKey_iff (hadm : c.admin = false) {r : KeyRecord} :
    canManageKey c r = true ↔ r.ns = c.ns ∧ r.admin = false := by
  simp [canManageKey, hadm]

theorem obeys_list (hc : Identified told c) (ns : Option String) (status : StatusFilter) :
    Obeys (do
      let records ← ask .listKeys
      pure (.listed (listing c ns status records))) told := by
  refine wp_bind.mpr (wp_perform trivial (fun records _ => ?_) fun _ _ => trivial)
  refine ⟨c, hc.cons _, fun hadm key hk => ?_⟩
  obtain ⟨r, -, hr, rfl⟩ := mem_listing hk
  exact (canManageKey_iff hadm).mp hr

/-- **What may be revoked** has been looked for first. -/
theorem obeys_revoke (hc : Identified told c) (keyId : String) (refusal : Refusal)
    (answers : Raised → Option Refusal) :
    Obeys (do
      match ← callerMayRevoke c keyId with
      | false => pure (.refused refusal)
      | true =>
        caught
          (do
            ask (.revoke keyId)
            pure (.revoked { id := keyId }))
          answers) told := by
  have hrev {told' : List Told} (hm : MayRevoke told' keyId) :
      Obeys (do
        ask (.revoke keyId)
        pure (.revoked { id := keyId })) told' :=
    wp_bind.mpr (wp_perform hm (fun _ _ => ⟨hm.cons _, mem_cons_self⟩) fun _ _ => trivial)
  refine wp_bind.mpr ?_
  unfold callerMayRevoke
  split_ifs with hadm
  · exact (hrev ⟨c, hc, Or.inl hadm⟩).caught answers
  · refine wp_bind.mpr (wp_perform trivial (fun records _ => ?_) fun _ _ => trivial)
    cases hany : records.any fun r => r.id == some keyId && canManageKey c r with
    | false => exact obeys_refused refusal
    | true =>
      obtain ⟨r, hr, hman⟩ := List.any_eq_true.mp hany
      rw [Bool.and_eq_true, beq_iff_eq] at hman
      exact (hrev ⟨c, hc.cons _, Or.inr ⟨records, mem_cons_self, r, hr, hman⟩⟩).caught answers

/-- **A rotation** is for admins; what it records has been drawn by it. -/
theorem obeys_rotate (hm : MayRotate told) (graceSeconds : ℤ) :
    Obeys (do
      let result ← rotateAndPersistDefaultKey graceSeconds
      pure (keyRotated result)) told := by
  refine wp_bind.mpr ?_
  unfold rotateAndPersistDefaultKey
  split_ifs
  · trivial
  refine wp_bind.mpr (wp_perform trivial (fun currentToken _ => ?_) fun _ _ => trivial)
  split_ifs
  · trivial
  refine wp_bind.mpr (wp_perform trivial (fun _ _ => ?_) fun _ _ => trivial)
  refine wp_bind.mpr (wp_perform ((hm.cons _).cons _) (fun newToken _ => ?_) fun _ _ => trivial)
  refine wp_bind.mpr (wp_tryCatch.mpr ?_)
  have hrot := ((hm.cons ⟨.readCurrentToken, currentToken⟩).cons
    ⟨.verifyReadable, ()⟩).cons ⟨.writeKeyFile, newToken⟩
  refine wp_perform ⟨hrot, by simp, by simp⟩ (fun result _ => ?_) fun _ _ => trivial
  split_ifs
  · trivial
  · refine wp_bind.mpr (wp_perform ⟨hrot.cons _, by simp⟩ (fun _ _ => ?_) fun _ _ => trivial)
    exact (hrot.cons _).cons _

theorem requireAdmin_eq_ok_iff :
    requireAdmin stamped = .ok () ↔ ∃ c, stamped = some c ∧ c.admin = true := by
  cases stamped with
  | none => simp [requireAdmin]
  | some c => simp [requireAdmin]

/-- **Every handler** keeps to the contract. -/
theorem obeys_handler (hc : Identified told c) (request : Request) :
    Obeys (request.handler lib config (some c)) told := by
  have hrs {f : AuthIdentity → Program Answer} (hf : Obeys (f c) told) :
      Obeys (Rest.withCaller (some c) f) told := by
    unfold Rest.withCaller
    split
    next => exact obeys_refused _
    next identity hiden =>
      obtain rfl := some.inj (identityOf_eq_some hiden)
      exact hf
  have hmcp {f : AuthIdentity → Program Answer} (hf : Obeys (f c) told) :
      Obeys (Mcp.withCaller (some c) f) told := by
    unfold Mcp.withCaller
    split
    next => exact obeys_refused _
    next identity hiden =>
      obtain rfl := some.inj (identityOf_eq_some hiden)
      exact hf
  cases request with
  | restCreate body =>
    refine hrs ?_
    split
    next => exact obeys_refused _
    next hm =>
      split
      next => exact obeys_refused _
      next hval => exact (obeys_create hc hm hval).caught _
  | restList status ns =>
    refine hrs ?_
    split
    next => exact obeys_refused _
    next ns' _ => exact obeys_list hc ns' status
  | restRevoke keyId =>
    refine hrs ?_
    split_ifs
    · exact obeys_refused _
    · exact obeys_revoke hc keyId _ _
  | restRotate graceSeconds =>
    change Obeys (Rest.rotateKey config (some c) graceSeconds) told
    unfold Rest.rotateKey
    split
    next => exact obeys_refused _
    next hadm =>
      obtain ⟨identity, hiden, hadm⟩ := requireAdmin_eq_ok_iff.mp hadm
      obtain rfl := some.inj (identityOf_eq_some hiden)
      split_ifs
      · exact obeys_refused _
      · exact (obeys_rotate ⟨c, hc, hadm⟩ _).caught _
  | mcpCreate ns label expiresAt admin =>
    refine hmcp ?_
    split
    next => exact obeys_refused _
    next hm =>
      split
      next => exact obeys_refused _
      next hval =>
        split
        next => exact obeys_refused _
        next parsed _ => exact (obeys_create hc hm hval).caught _
  | mcpList status ns =>
    change Obeys (Mcp.listKeys (some c) status ns) told
    unfold Mcp.listKeys
    split
    next => exact obeys_refused _
    next filter _ =>
      refine hmcp ?_
      split
      next => exact obeys_refused _
      next ns' _ => exact obeys_list hc ns' filter
  | mcpRevoke keyId =>
    refine hmcp ?_
    split_ifs
    · exact obeys_refused _
    · exact obeys_revoke hc keyId _ _
  | mcpRotate graceSeconds =>
    refine hmcp ?_
    split
    next => exact obeys_refused _
    next hadm =>
      obtain ⟨identity, hiden, hadm⟩ := requireAdmin_eq_ok_iff.mp hadm
      cases hiden
      split_ifs
      · exact obeys_refused _
      · exact (obeys_rotate ⟨c, hc, hadm⟩ _).caught _

/-- **Every request** does, from its first step on. -/
theorem obeys_dispatch (token : String) (request : Request) :
    Obeys (dispatch lib config token request) [] := by
  refine wp_bind.mpr (wp_perform rfl (fun result _ => ?_) fun _ _ => trivial)
  cases result with
  | refused => exact obeys_refused _
  | invalidNamespace => exact obeys_refused _
  | identity c => exact obeys_handler ⟨token, mem_cons_self⟩ request

end Programs

/-! ### The world -/

section World

variable {ι : Type} {lib : Library} {w w' : World ι} {know : ι → List Told}

/-- **A record has the rights that its token was drawn for**; a managed record of the default key
is an admin one. -/
def World.Owns (w : World ι) (r : KeyRecord) : Prop :=
  match w.ledger r.tokenHash with
  | some (.key c) => c = ⟨r.ns, r.admin⟩
  | some .operator => r.managed = true → r.admin = true
  | none => False

/-- **What stays as it is**, whatever is done. -/
structure Evolves (w w' : World ι) : Prop where
  ledger : ∀ h owner, w.ledger h = some owner → w'.ledger h = some owner
  stamped : ∀ i c, w.stamped i = some c → w'.stamped i = some c
  records : Survive (fun h => w.ledger h = some .operator) w.file.load w'.file.load

theorem Evolves.refl (w : World ι) : Evolves w w := ⟨fun _ _ => id, fun _ _ => id, .refl _⟩

variable {r : KeyRecord}

theorem World.Owns.mono (h : w.Owns r)
    (hled : ∀ h owner, w.ledger h = some owner → w'.ledger h = some owner) : w'.Owns r := by
  unfold Owns at h ⊢
  cases ho : w.ledger r.tokenHash with
  | none =>
    rw [ho] at h
    exact h.elim
  | some owner =>
    rw [ho] at h
    rw [hled _ _ ho]
    exact h

theorem World.Owns.succeeds {r' : KeyRecord} (h : w.Owns r) (hr : Succeeds r r') :
    w.Owns r' := by
  unfold Owns at h ⊢
  rwa [hr.tokenHash, hr.ns, hr.admin, KeyRecord.managed, hr.id]

theorem Succeeds.trans {r' r'' : KeyRecord} (h : Succeeds r r') (h' : Succeeds r' r'') :
    Succeeds r r'' where
  id := h'.id.trans h.id
  tokenHash := h'.tokenHash.trans h.tokenHash
  ns := h'.ns.trans h.ns
  admin := h'.admin.trans h.admin
  revoked hr := h'.revoked (h.revoked hr)

/-- **A key that was created**: its token was drawn for its rights, and its record is there. -/
structure World.Issued (lib : Library) (w : World ι) (args : CreateArgs) (created : CreatedKey) :
    Prop where
  ledger : w.ledger (lib.hashToken created.token) = some (.key ⟨args.ns, args.admin⟩)
  ne_empty : created.token ≠ ""
  ascii : isAscii created.token = true
  recorded : ∃ r ∈ w.file.load, r.id = some created.id ∧
    r.tokenHash = lib.hashToken created.token ∧ r.ns = args.ns ∧ r.admin = args.admin ∧
      args.expiresAt = r.expiresAt.map .aware

/-- **What an answer says of the world**, then and from then on. -/
def World.Holds (lib : Library) (w : World ι) (i : ι) : (op : Op) → Ans op → Prop
  | .authenticate _, .identity c => w.stamped i = some c
  | .listKeys, records => ∀ r ∈ records, r.managed = true → ∃ r' ∈ w.file.load, Succeeds r r'
  | .create args, created => w.Issued lib args created
  | .revoke keyId, _ => ∃ r ∈ w.file.load, r.id = some keyId ∧ r.status = .revoked
  | .readCurrentToken, token => w.ledger (lib.hashToken token) = some .operator
  | .writeKeyFile, token => w.ledger (lib.hashToken token) = some .operator
  | _, _ => True

variable {args : CreateArgs} {created : CreatedKey}

theorem World.Issued.mono
    (h : w.Issued lib args created) (hev : Evolves w w') : w'.Issued lib args created where
  ledger := hev.ledger _ _ h.ledger
  ne_empty := h.ne_empty
  ascii := h.ascii
  recorded := by
    obtain ⟨r, hr, hid, hhash, hns, hadm, hexp⟩ := h.recorded
    obtain ⟨r', hr', hsuc, hk⟩ := hev.records r hr (by simp [KeyRecord.managed, hid])
    have heq : r'.expiresAt = r.expiresAt := by
      refine hk.resolve_right fun hoper => ?_
      rw [hhash, h.ledger] at hoper
      cases hoper
    exact ⟨r', hr', hsuc.id.trans hid, hsuc.tokenHash.trans hhash,
      hsuc.ns.trans hns, hsuc.admin.trans hadm, heq ▸ hexp⟩

variable {i : ι} {op : Op}

/-- **What a request has been told stays true.** -/
theorem World.Holds.mono {a : Ans op} (h : w.Holds lib i op a)
    (hev : Evolves w w') : w'.Holds lib i op a := by
  cases op with
  | authenticate token =>
    cases a with
    | identity c => exact hev.stamped i c h
    | refused => trivial
    | invalidNamespace => trivial
  | listKeys =>
    intro r hr hman
    obtain ⟨r', hr', hsuc⟩ := h r hr hman
    have hman' : r'.managed = true := by rwa [KeyRecord.managed, hsuc.id]
    obtain ⟨r'', hr'', hsuc', -⟩ := hev.records r' hr' hman'
    exact ⟨r'', hr'', hsuc.trans hsuc'⟩
  | create args => exact World.Issued.mono h hev
  | revoke keyId =>
    obtain ⟨r, hr, hid, hrev⟩ := h
    obtain ⟨r', hr', hsuc, -⟩ := hev.records r hr (by simp [KeyRecord.managed, hid])
    exact ⟨r', hr', hsuc.id.trans hid, hsuc.revoked hrev⟩
  | readCurrentToken => exact hev.ledger _ _ h
  | writeKeyFile => exact hev.ledger _ _ h
  | verifyReadable => trivial
  | recordRotation currentToken graceSeconds newToken => trivial
  | publish newToken => trivial

/-- **The invariant** of the server and of what its requests have been told. -/
structure Sound (lib : Library) (w : World ι) (know : ι → List Told) : Prop where
  ids : UniqueIds w.file.load
  owns : ∀ r ∈ w.file.load, w.Owns r
  apiKey : w.ledger (lib.hashToken w.apiKey) = some .operator
  namespaces : ∀ entry ∈ w.namespaces, w.ledger (lib.hashToken entry.1) = some .operator
  unstamped : ∀ i, know i = [] → w.stamped i = none
  told : ∀ i, ∀ fact ∈ know i, w.Holds lib i fact.1 fact.2

variable [DecidableEq ι]

theorem Sound.evolve (h : Sound lib w know) {r : Except Raised (Ans op)}
    (hev : Evolves w w') (hids : UniqueIds w'.file.load) (howns : ∀ r ∈ w'.file.load, w'.Owns r)
    (hapiKey : w'.ledger (lib.hashToken w'.apiKey) = some .operator)
    (hnam : w'.namespaces = w.namespaces)
    (hstam : w'.stamped = w.stamped ∨ ∃ a x, r = .ok a ∧ w'.stamped = update w.stamped i x)
    (hw : ∀ a, r = .ok a → w'.Holds lib i op a) :
    Sound lib w' (update know i (contract.learn (know i) op r)) where
  ids := hids
  owns := howns
  apiKey := hapiKey
  namespaces entry hent := hev.ledger _ _ (h.namespaces entry (hnam ▸ hent))
  unstamped j hj := by
    by_cases hne : j = i
    · subst hne
      rw [update_self] at hj
      obtain heq | ⟨a, x, rfl, -⟩ := hstam
      · rw [heq]
        cases r with
        | ok a => cases hj
        | error e => exact h.unstamped j hj
      · cases hj
    · rw [update_of_ne hne] at hj
      obtain heq | ⟨a, x, -, heq⟩ := hstam
      · rw [heq]
        exact h.unstamped j hj
      · rw [heq, update_of_ne hne]
        exact h.unstamped j hj
  told j fact hfact := by
    by_cases hne : j = i
    · subst hne
      rw [update_self] at hfact
      cases r with
      | error e => exact (h.told j fact hfact).mono hev
      | ok a =>
        rcases mem_cons.mp hfact with rfl | hfact
        · exact hw a rfl
        · exact (h.told j fact hfact).mono hev
    · rw [update_of_ne hne] at hfact
      exact (h.told j fact hfact).mono hev

/-! ### What an operation makes of the invariant -/

/-- **What is drawn is new**: an id that no record has, and a token that nobody has been given; and
the operator does not take the token of a key. -/
def Fresh (lib : Library) (s : State ι) : Event ι → Prop
  | .step _ (.created keyId rawToken _ _) => (∀ r ∈ s.1.file.load, r.id ≠ some keyId) ∧
      s.1.ledger (lib.hashToken rawToken) = none ∧ rawToken ≠ "" ∧ isAscii rawToken = true
  | .step _ (.token newToken _) => s.1.ledger (lib.hashToken newToken) = none
  | .step _ (.rotated draw _) => (∀ r ∈ s.1.file.load, r.id ≠ some draw.graceId ∧
      r.id ≠ some draw.newKeyId) ∧ draw.graceId ≠ draw.newKeyId
  | .restart up => ∀ h ∈ up.hashes lib, s.1.ledger h = none ∨ s.1.ledger h = some .operator
  | _ => True

section
omit [DecidableEq ι]

instance (s : State ι) (e : Event ι) : Decidable (Fresh lib s e) := by
  unfold Fresh
  split <;> infer_instance

theorem owns_of_key (h : w.ledger r.tokenHash = some (.key ⟨r.ns, r.admin⟩)) :
    w.Owns r := by
  unfold World.Owns
  rw [h]

theorem owns_of_operator (h : w.ledger r.tokenHash = some .operator)
    (hadm : r.managed = true → r.admin = true) : w.Owns r := by
  unfold World.Owns
  rw [h]
  exact hadm

theorem ledger_draw {h : String} (hn : w.ledger h = none) (owner : Owner) :
    ∀ h' owner', w.ledger h' = some owner' → (w.draw h owner).ledger h' = some owner' := by
  intro h' owner' ho'
  have hne : h' ≠ h := by
    rintro rfl
    rw [hn] at ho'
    cases ho'
  exact (update_of_ne hne _ _).trans ho'

end

variable {outcome : WriteOutcome}

theorem Sound.create (h : Sound lib w know) {keyId rawToken : String}
    {now : ℤ} {r : Except Raised CreatedKey}
    (hid : ∀ r ∈ w.file.load, r.id ≠ some keyId)
    (htok : w.ledger (lib.hashToken rawToken) = none) (hne : rawToken ≠ "")
    (hasc : isAscii rawToken = true)
    (hexec : w.exec lib i (.create args) (.created keyId rawToken now outcome) = some (r, w')) :
    Sound lib w' (update know i (contract.learn (know i) (.create args) r)) := by
  have hled := ledger_draw htok (.key ⟨args.ns, args.admin⟩)
  obtain ⟨e, hcreate⟩ | ⟨expiresAt, hexp, hcreate⟩ :=
    create_cases lib.hashToken outcome w.file (args.call keyId rawToken now)
  · cases hexec
    rw [hcreate]
    exact h.evolve ⟨hled, fun _ _ => id, .refl _⟩ h.ids (fun r hr => (h.owns r hr).mono hled)
      (hled _ _ h.apiKey) rfl (Or.inl rfl) fun a ha => by cases ha
  cases hexec
  rw [hcreate]
  have hw : (w.draw (lib.hashToken rawToken) (.key ⟨args.ns, args.admin⟩)).ledger
      (lib.hashToken rawToken) = some (.key ⟨args.ns, args.admin⟩) := update_self ..
  refine h.evolve ⟨hled, fun _ _ => id, (Survive.refl _).append _⟩
    (h.ids.append fun r hr k hk hk' => ?_) (fun r hr => ?_) (hled _ _ h.apiKey) rfl
    (Or.inl rfl) fun a ha => ?_
  · exact hid r hr (hk'.trans hk.symm)
  · rcases mem_append.mp hr with hr | hr
    · exact (h.owns r hr).mono hled
    · obtain rfl := mem_singleton.mp hr
      exact owns_of_key hw
  · cases ha
    exact ⟨hw, hne, hasc, _, mem_append_right _ (mem_singleton_self _), rfl, rfl,
      rfl, rfl, hexp⟩

theorem Sound.revoke (h : Sound lib w know) {keyId : String}
    {r : Except Raised Unit}
    (hexec : w.exec lib i (.revoke keyId) (.wrote outcome) = some (r, w')) :
    Sound lib w' (update know i (contract.learn (know i) (.revoke keyId) r)) := by
  obtain ⟨e, hrev⟩ | ⟨found, hfind, ⟨hrevo, hrev⟩ | hrev⟩ :=
    revoke_cases outcome w.file keyId
  · cases hexec
    rw [hrev]
    exact h.evolve (.refl w) h.ids h.owns h.apiKey rfl (Or.inl rfl) fun a ha => by cases ha
  · cases hexec
    rw [hrev]
    exact h.evolve (.refl w) h.ids h.owns h.apiKey rfl (Or.inl rfl) fun a _ =>
      ⟨found, mem_of_find?_eq_some hfind, beq_iff_eq.mp (find?_some hfind :), hrevo⟩
  · cases hexec
    rw [hrev]
    refine h.evolve ⟨fun _ _ => id, fun _ _ => id,
      survive_modifyFirst fun r _ => ⟨succeeds_revoked r, Or.inl rfl⟩⟩
      (h.ids.modifyFirst fun _ => rfl) (fun r hr => ?_) h.apiKey rfl
      (Or.inl rfl) fun a _ => ?_
    · rcases mem_of_mem_modifyFirst hr with hr | ⟨old, hold, -, rfl⟩
      · exact h.owns r hr
      · exact (h.owns old hold).succeeds (succeeds_revoked old)
    · exact ⟨_, mem_modifyFirst_of_find? hfind, beq_iff_eq.mp (find?_some hfind :), rfl⟩

omit [DecidableEq ι] in
/-- What a rotation makes of the records: its key is the operator's, and so was the one it
retires. -/
theorem rotated_spec (h : Sound lib w know) (call : RotationCall)
    (hids : ∀ r ∈ w.file.load, r.id ≠ some call.graceId ∧ r.id ≠ some call.newKeyId)
    (hne : call.graceId ≠ call.newKeyId)
    (hcur : w.ledger (lib.hashToken call.currentToken) = some .operator)
    (hw : w.ledger (lib.hashToken call.newToken) = some .operator) :
    UniqueIds (rotated lib.hashToken call w.file.load) ∧
      (∀ r ∈ rotated lib.hashToken call w.file.load, w.Owns r) ∧
      Survive (fun h => w.ledger h = some .operator) w.file.load
        (rotated lib.hashToken call w.file.load) := by
  obtain ⟨huniq, howns, hsur, hfr⟩ :
      UniqueIds (retireCurrent lib.hashToken call w.file.load).1 ∧
        (∀ r ∈ (retireCurrent lib.hashToken call w.file.load).1, w.Owns r) ∧
        Survive (fun h => w.ledger h = some .operator) w.file.load
          (retireCurrent lib.hashToken call w.file.load).1 ∧
        ∀ r ∈ (retireCurrent lib.hashToken call w.file.load).1, r.id ≠ some call.newKeyId := by
    obtain ⟨old, -, hret⟩ | ⟨-, hret⟩ | ⟨-, hret⟩ :=
      retireCurrent_cases lib.hashToken call w.file.load
    · rw [hret]
      have hmat {r : KeyRecord}
          (hr : isCurrentActive (lib.hashToken call.currentToken) r = true) :
          r.tokenHash = lib.hashToken call.currentToken ∧ r.status = .active := by
        rw [isCurrentActive, Bool.and_eq_true, beq_iff_eq] at hr
        exact ⟨(isCurrent_iff.mp hr.1).2, hr.2⟩
      refine ⟨h.ids.modifyFirst fun r => (retire_id_tokenHash call r).1, fun r hr => ?_,
        survive_modifyFirst fun r hr => ⟨succeeds_retire call (hmat hr).2, Or.inr ?_⟩,
        fun r hr => ?_⟩
      · rcases mem_of_mem_modifyFirst hr with hr | ⟨old, hold, hp, rfl⟩
        · exact h.owns r hr
        · exact (h.owns old hold).succeeds (succeeds_retire call (hmat hp).2)
      · rw [(hmat hr).1]
        exact hcur
      · rcases mem_of_mem_modifyFirst hr with hr | ⟨old, hold, -, rfl⟩
        · exact (hids r hr).2
        · rw [(retire_id_tokenHash call old).1]
          exact (hids old hold).2
    · rw [hret]
      refine ⟨h.ids.append fun r hr k hk hk' => (hids r hr).1 (hk'.trans hk.symm), fun r hr => ?_,
        (Survive.refl _).append _, fun r hr => ?_⟩
      · rcases mem_append.mp hr with hr | hr
        · exact h.owns r hr
        · obtain rfl := mem_singleton.mp hr
          exact owns_of_operator hcur fun _ => rfl
      · rcases mem_append.mp hr with hr | hr
        · exact (hids r hr).2
        · obtain rfl := mem_singleton.mp hr
          exact fun heq => hne (some.inj heq)
    · rw [hret]
      exact ⟨h.ids, h.owns, .refl _, fun r hr => (hids r hr).2⟩
  refine ⟨huniq.append fun r hr k hk hk' => hfr r hr (hk'.trans hk.symm), fun r hr => ?_,
    hsur.append _⟩
  rcases mem_append.mp hr with hr | hr
  · exact howns r hr
  · obtain rfl := mem_singleton.mp hr
    exact owns_of_operator hw fun _ => rfl

variable {reply : Reply} {s : State ι}

/-- **Every operation that the contract permits keeps the invariant.** -/
theorem Sound.exec (h : Sound lib s.1 know)
    {r : Except Raised (Ans op)} (hm : contract.May (know i) op)
    (hfr : Fresh lib s (.step i reply)) (hexec : s.1.exec lib i op reply = some (r, w')) :
    Sound lib w' (update know i (contract.learn (know i) op r)) := by
  obtain ⟨w, tasks⟩ := s
  have hstay {e : Raised} (hw : w' = w) (hr : r = .error e) :
      Sound lib w' (update know i (contract.learn (know i) op r)) := by
    subst hw hr
    exact h.evolve (.refl w') h.ids h.owns h.apiKey rfl (Or.inl rfl) fun a ha => by cases ha
  have hcan (hcand : reply = .cancel) :
      Sound lib w' (update know i (contract.learn (know i) op r)) := by
    subst hcand
    have hrsd : (if op.isShielded then none else some (.error .cancelled, w)) =
        some (r, w') := by cases op <;> exact hexec
    split_ifs at hrsd
    obtain ⟨hr, hw⟩ := Prod.mk.inj (some.inj hrsd)
    exact hstay hw.symm hr.symm
  cases op with
  | authenticate token =>
    cases reply with
    | cancel => exact hcan rfl
    | clocks first second =>
      cases hexec
      have hn : w.stamped i = none := h.unstamped i hm
      cases hres : w.authenticate lib token first second with
      | refused | invalidNamespace =>
        exact h.evolve (.refl w) h.ids h.owns h.apiKey rfl (Or.inl rfl) fun a ha => by
          cases ha
          trivial
      | identity c =>
        have hev : Evolves w (w.stamp i (.identity c)) := by
          refine ⟨fun _ _ => id, fun j c' hj => ?_, .refl _⟩
          have hne : j ≠ i := by
            rintro rfl
            rw [hn] at hj
            cases hj
          exact (update_of_ne hne _ _).trans hj
        refine h.evolve hev h.ids h.owns h.apiKey rfl (Or.inr ⟨_, _, rfl, rfl⟩) fun a ha => ?_
        cases ha
        exact update_self ..
    | _ => cases hexec
  | listKeys =>
    cases reply with
    | cancel => exact hcan rfl
    | done =>
      cases hexec
      refine h.evolve (.refl w) h.ids h.owns h.apiKey rfl (Or.inl rfl) fun a ha => ?_
      cases ha
      exact fun r hr _ => ⟨r, hr, .refl r⟩
    | _ => cases hexec
  | create args =>
    cases reply with
    | cancel => exact hcan rfl
    | created keyId rawToken now outcome =>
      exact h.create hfr.1 hfr.2.1 hfr.2.2.1 hfr.2.2.2 hexec
    | _ => cases hexec
  | revoke keyId =>
    cases reply with
    | cancel => exact hcan rfl
    | wrote outcome => exact h.revoke hexec
    | _ => cases hexec
  | readCurrentToken =>
    cases reply with
    | cancel => exact hcan rfl
    | done =>
      cases hexec
      refine h.evolve (.refl w) h.ids h.owns h.apiKey rfl (Or.inl rfl) fun a ha => ?_
      cases ha
      exact h.apiKey
    | _ => cases hexec
  | verifyReadable =>
    cases reply with
    | cancel => exact hcan rfl
    | done =>
      cases hexec
      exact h.evolve (.refl w) h.ids h.owns h.apiKey rfl (Or.inl rfl) fun _ _ => trivial
    | _ => cases hexec
  | writeKeyFile =>
    cases reply with
    | cancel => exact hcan rfl
    | token newToken outcome =>
      have hled := @ledger_draw ι w _ hfr .operator
      have hdrawn {keyFile : Option String} (hr : ∀ a, r = .ok a → a = newToken)
          (hw : w' = { w.draw (lib.hashToken newToken) .operator with keyFile := keyFile }) :
          Sound lib w' (update know i (contract.learn (know i) .writeKeyFile r)) := by
        subst hw
        refine h.evolve ⟨hled, fun _ _ => id, .refl _⟩ h.ids
          (fun r hr => (h.owns r hr).mono hled) (hled _ _ h.apiKey) rfl (Or.inl rfl)
          fun a ha => ?_
        obtain rfl := hr a ha
        exact update_self ..
      cases outcome with
      | failedBeforeReplace =>
        cases hexec
        exact hdrawn (fun a ha => by cases ha) rfl
      | written | failedAfterReplace =>
        cases hexec
        exact hdrawn (fun a ha => (Except.ok.inj ha).symm) rfl
    | _ => cases hexec
  | recordRotation currentToken graceSeconds newToken =>
    cases reply with
    | cancel => exact hcan rfl
    | rotated draw outcome =>
      obtain ⟨-, hcur, hnew⟩ := hm
      obtain ⟨hids, howns, hsur⟩ := rotated_spec h
        (rotationCall currentToken graceSeconds newToken draw) hfr.1 hfr.2
        (h.told i _ hcur) (h.told i _ hnew)
      obtain ⟨e, hrot⟩ | ⟨result, -, hrot⟩ := recordRotation_cases lib.hashToken outcome w.file
        (rotationCall currentToken graceSeconds newToken draw)
      · obtain ⟨hr, hw⟩ := Prod.mk.inj (some.inj hexec)
        rw [hrot] at hr hw
        exact hstay hw.symm hr.symm
      · cases hexec
        rw [hrot]
        exact h.evolve ⟨fun _ _ => id, fun _ _ => id, hsur⟩ hids howns h.apiKey rfl
          (Or.inl rfl) fun _ _ => trivial
    | _ => cases hexec
  | publish newToken =>
    cases reply with
    | cancel => exact hcan rfl
    | done =>
      cases hexec
      exact h.evolve ⟨fun _ _ => id, fun _ _ => id, .refl _⟩ h.ids h.owns (h.told i _ hm.2) rfl
        (Or.inl rfl) fun _ _ => trivial
    | _ => cases hexec

omit [DecidableEq ι] in
/-- **A server that is started** keeps what there is, if the operator does not take the token of a
key. -/
theorem sound_start {up : Startup} (hids : UniqueIds w.file.load)
    (howns : ∀ r ∈ w.file.load, w.Owns r)
    (hfr : ∀ h ∈ up.hashes lib, w.ledger h = none ∨ w.ledger h = some .operator)
    (huns : ∀ i, know i = [] → w.stamped i = none)
    (htold : ∀ i, ∀ fact ∈ know i, w.Holds lib i fact.1 fact.2) :
    Sound lib (w.start lib up) know := by
  have hled : ∀ h owner, w.ledger h = some owner →
      (w.start lib up).ledger h = some owner := by
    intro h owner ho
    change (if h ∈ up.hashes lib then some Owner.operator else w.ledger h) = _
    split_ifs with hm
    · refine (hfr h hm).elim (fun hn => ?_) fun hoper => hoper.symm.trans ho
      rw [hn] at ho
      cases ho
    · exact ho
  have hoper {h : String} (hm : h ∈ up.hashes lib) :
      (w.start lib up).ledger h = some .operator := if_pos hm
  have htok {entry : String × String} (hent : entry ∈ up.namespaces) :
      lib.hashToken entry.1 ∈ up.hashes lib :=
    mem_cons_of_mem _ (List.mem_map.mpr ⟨entry, hent, rfl⟩)
  have hf : (w.start lib up).file.load = w.file.load ∨ (w.start lib up).file.load =
      w.file.load.filter KeyRecord.managed ++ up.syntheticRecords lib :=
    load_loadSyntheticRecords up.outcome w.file _
  have hev : Evolves w (w.start lib up) := by
    refine ⟨hled, fun _ _ => id, ?_⟩
    rcases hf with hf | hf
    · rw [hf]
      exact .refl _
    · rw [hf]
      exact survive_filter _
  refine ⟨?_, fun r hr => ?_, hoper mem_cons_self,
    fun entry hent => hoper (htok hent), huns,
    fun i fact hfact => (htold i fact hfact).mono hev⟩
  · rcases hf with hf | hf
    · rw [hf]
      exact hids
    · rw [hf]
      refine uniqueIds_filter hids fun r hr => ?_
      obtain ⟨entry, -, rfl⟩ := List.mem_map.mp hr
      rfl
  · rcases hf with hf | hf
    · rw [hf] at hr
      exact (howns r hr).mono hled
    · rw [hf] at hr
      rcases mem_append.mp hr with hr | hr
      · exact (howns r (mem_filter.mp hr).1).mono hled
      · obtain ⟨entry, hent, rfl⟩ := List.mem_map.mp hr
        exact owns_of_operator (hoper (htok hent)) fun hman => by cases hman

/-! ### Runs -/

/-- **What holds in every state**: the invariant, with what the requests that are running keep to,
and what those that are over have been answered. -/
structure Reached (lib : Library) (s : State ι) : Prop where
  promised : Promised contract Answers (Sound lib) s
  idle : ∀ i, s.1.called i = false → s.2 i = .ret .unasked ∧ s.1.stamped i = none

omit [DecidableEq ι] in
theorem reached_init (up : Startup) : Reached lib (State.init lib up : State ι) where
  promised := by
    refine ⟨fun _ => [], sound_start ?_ ?_ ?_ (fun _ _ => rfl) ?_, fun _ => trivial⟩
    · exact List.Pairwise.nil
    · exact fun r hr => by cases hr
    · exact fun _ _ => Or.inl rfl
    · exact fun i fact hfact => by cases hfact
  idle _ _ := ⟨rfl, rfl⟩

/-- An operation stamps no other request, and calls none. -/
theorem exec_frame {r : Except Raised (Ans op)}
    (hexec : w.exec lib i op reply = some (r, w')) :
    w'.called = w.called ∧ ∀ j, j ≠ i → w'.stamped j = w.stamped j := by
  have heq {result : Except Raised (Ans op) × World ι} (h : some result = some (r, w'))
      (hcld : result.2.called = w.called) (hstam : result.2.stamped = w.stamped) :
      w'.called = w.called ∧ ∀ j, j ≠ i → w'.stamped j = w.stamped j := by
    cases h
    exact ⟨hcld, fun j _ => congrFun hstam j⟩
  unfold World.exec at hexec
  split at hexec
  next token first second =>
    cases hexec
    unfold World.stamp
    split
    · exact ⟨rfl, fun j hj => update_of_ne hj _ _⟩
    · exact ⟨rfl, fun _ _ => rfl⟩
  next => exact heq hexec rfl rfl
  next => exact heq hexec rfl rfl
  next => exact heq hexec rfl rfl
  next => exact heq hexec rfl rfl
  next => exact heq hexec rfl rfl
  next newToken outcome =>
    cases outcome with
    | failedBeforeReplace => exact heq hexec rfl rfl
    | written => exact heq hexec rfl rfl
    | failedAfterReplace => exact heq hexec rfl rfl
  next => exact heq hexec rfl rfl
  next => exact heq hexec rfl rfl
  next =>
    split_ifs at hexec
    exact heq hexec rfl rfl
  next => cases hexec

/-- **Every event keeps it**, if what is drawn is new. -/
theorem Reached.step {s' : State ι} (h : Reached lib s) {e : Event ι}
    (hfr : Fresh lib s e) (hs : step lib s e = some s') : Reached lib s' := by
  cases e with
  | call i token request =>
    change (if s.1.called i then none else some _) = some s' at hs
    split_ifs at hs with hcld
    rw [Bool.not_eq_true] at hcld
    cases hs
    obtain ⟨know, hsd, hobeys⟩ := h.promised
    refine ⟨⟨update know i [], ?_, fun j => ?_⟩, fun j hj => ?_⟩
    · refine ⟨hsd.ids, hsd.owns, hsd.apiKey, hsd.namespaces, fun j hj => ?_, fun j fact hfact => ?_⟩
      · by_cases hne : j = i
        · subst hne
          exact (h.idle j hcld).2
        · rw [update_of_ne hne] at hj
          exact hsd.unstamped j hj
      · by_cases hne : j = i
        · subst hne
          rw [update_self] at hfact
          cases hfact
        · rw [update_of_ne hne] at hfact
          exact (hsd.told j fact hfact).mono ⟨fun _ _ => id, fun _ _ => id, .refl _⟩
    · by_cases hne : j = i
      · subst hne
        simp only [update_self]
        exact obeys_dispatch token request
      · simp only [update_of_ne hne]
        exact hobeys j
    · have hne : j ≠ i := by
        rintro rfl
        simp at hj
      simp only [update_of_ne hne] at hj ⊢
      exact h.idle j hj
  | step i reply =>
    refine ⟨h.promised.advance hs fun know op r t hsd _ hm hexec =>
      ⟨trivial, hsd.exec hm hfr hexec⟩, fun j hj => ?_⟩
    obtain ⟨op, f, r, t, htask, hexec, rfl⟩ := advance_eq_some hs
    obtain ⟨hcld, hstam⟩ := exec_frame hexec
    have hj' : s.1.called j = false := by rw [← hcld]; exact hj
    have hne : j ≠ i := by
      rintro rfl
      rw [(h.idle j hj').1] at htask
      cases htask
    rw [hstam j hne]
    simp only [update_of_ne hne]
    exact h.idle j hj'
  | restart up =>
    cases hs
    obtain ⟨know, hsd, hobeys⟩ := h.promised
    refine ⟨⟨know, sound_start hsd.ids hsd.owns hfr hsd.unstamped hsd.told,
      fun i => ?_⟩, fun i hi => ?_⟩
    · have hi := hobeys i
      change (interrupt (s.2 i)).wp contract Answers _ _
      cases htask : s.2 i with
      | ret a =>
        rw [htask] at hi
        exact hi
      | raise e => trivial
      | await op f => trivial
    · change interrupt (s.2 i) = _ ∧ _
      rw [(h.idle i hi).1]
      exact ⟨rfl, (h.idle i hi).2⟩

/-! ### What a caller that is no admin leaves alone -/

def isForeign (ns : String) (r : KeyRecord) : Bool := r.admin || r.ns != ns

/-- **What a step of such a caller leaves alone**: the default key, also as regards what it
authenticates as, the TOML file, and the records of admin keys and of other namespaces. -/
structure World.Untouched (lib : Library) (ns : String) (w w' : World ι) : Prop where
  apiKey : w'.apiKey = w.apiKey
  keyFile : w'.keyFile = w.keyFile
  namespaces : w'.namespaces = w.namespaces
  records : w'.file.load.filter (isForeign ns) = w.file.load.filter (isForeign ns)
  defaultKey : ∀ first second, w'.authenticate lib w.apiKey first second =
    w.authenticate lib w.apiKey first second

omit [DecidableEq ι] in
/-- What a token authenticates as depends on its records only. -/
theorem authenticate_congr {token : String} (hapiKey : w'.apiKey = w.apiKey)
    (hnam : w'.namespaces = w.namespaces)
    (hrecs : w'.file.load.filter (fun r => r.tokenHash == lib.hashToken token) =
      w.file.load.filter fun r => r.tokenHash == lib.hashToken token) (first second : ℤ) :
    w'.authenticate lib token first second = w.authenticate lib token first second := by
  have hact (file : KeysFile) : activeRecord (lib.hashToken token) ⟨file, first⟩ =
      (file.load.filter fun r => r.tokenHash == lib.hashToken token).find?
        (KeyRecord.acceptedAt first) := by
    unfold activeRecord activeKeys
    rw [find?_filter, find?_filter]
    refine congrArg (fun p => List.find? p file.load) (funext fun r => ?_)
    exact decide_eq_decide.mpr (by rw [and_comm, BEq.comm])
  have hrev (file : KeysFile) : isRevokedOrExpired (lib.hashToken token) ⟨file, second⟩ =
      (file.load.filter fun r => r.tokenHash == lib.hashToken token).any fun r =>
        r.status == .revoked || r.expiresAt.any fun e => decide (e ≤ second) := by
    rw [List.any_filter]
    refine congrArg (fun p => List.any file.load p) (funext fun r => ?_)
    rw [Bool.and_comm, BEq.comm]
  unfold World.authenticate authenticateToken resolve
  simp [hact, hrev, hrecs, hapiKey, hnam]

variable {ns : String}

omit [DecidableEq ι] in
/-- A step that leaves alone the records that are none of the caller's business, and those of the
default key. -/
theorem untouched_of_records (hapiKey : w'.apiKey = w.apiKey)
    (hkeyFile : w'.keyFile = w.keyFile) (hnam : w'.namespaces = w.namespaces)
    (hrecs : ∀ p : KeyRecord → Bool, (∀ r, p r = true → isForeign ns r = true ∨
      r.tokenHash = lib.hashToken w.apiKey) → w'.file.load.filter p = w.file.load.filter p) :
    w.Untouched lib ns w' where
  apiKey := hapiKey
  keyFile := hkeyFile
  namespaces := hnam
  records := hrecs _ fun _ => Or.inl
  defaultKey := authenticate_congr hapiKey hnam (hrecs _ fun _ hr => Or.inr (beq_iff_eq.mp hr))

/-- **A step of a caller that is no admin.** -/
theorem Sound.untouched (h : Sound lib s.1 know) {r : Except Raised (Ans op)}
    (hm : contract.May (know i) op)
    (hcal : s.1.stamped i = some ⟨ns, false⟩) (hfr : Fresh lib s (.step i reply))
    (hexec : s.1.exec lib i op reply = some (r, w')) : s.1.Untouched lib ns w' := by
  obtain ⟨w, tasks⟩ := s
  have hiden {c : AuthIdentity} (hc : Identified (know i) c) : c = ⟨ns, false⟩ := by
    obtain ⟨token, htok⟩ := hc
    exact some.inj ((h.told i _ htok).symm.trans hcal)
  have hnotAdmin (hrot : MayRotate (know i)) : False := by
    obtain ⟨c, hc, hadm⟩ := hrot
    rw [hiden hc] at hadm
    cases hadm
  have heq {result : Except Raised (Ans op) × World ι} (hw : some result = some (r, w'))
      (hres : result.2 = w) : w.Untouched lib ns w' := by
    cases hw
    obtain rfl : w' = w := hres
    exact untouched_of_records rfl rfl rfl fun _ _ => rfl
  unfold World.exec at hexec
  split at hexec
  next token first second =>
    cases hexec
    unfold World.stamp
    split <;> exact untouched_of_records rfl rfl rfl fun _ _ => rfl
  next => exact heq hexec rfl
  next args keyId rawToken now outcome =>
    obtain ⟨c, hc, haut, -⟩ := hm
    obtain rfl := hiden hc
    have ho : args.admin = false ∧ args.ns = ns := by
      simp only [authorizeKeyCreate, Bool.false_eq_true, if_false] at haut
      split_ifs at haut with hadm hns
      exact ⟨(Bool.not_eq_true _).mp hadm, not_ne_iff.mp hns⟩
    cases hexec
    refine untouched_of_records rfl rfl rfl fun p hp => ?_
    rcases load_create lib.hashToken outcome w.file (args.call keyId rawToken now) with
      hl | ⟨e, hl⟩
    · exact congrArg (List.filter p) hl
    · refine (congrArg (List.filter p) hl).trans ?_
      rw [filter_append, filter_cons_of_neg, filter_nil, append_nil]
      intro hfor
      rcases hp _ hfor with hfor | hhash
      · simp [isForeign, CreateCall.record, CreateArgs.call, ho] at hfor
      · have hn : w.ledger (lib.hashToken w.apiKey) = none := hhash ▸ hfr.2.1
        rw [h.apiKey] at hn
        cases hn
  next keyId outcome =>
    obtain ⟨c, hc, hseen⟩ := hm
    obtain rfl := hiden hc
    obtain ⟨records, hlis, seen, hmem, hid, hman⟩ := hseen.resolve_left (by simp)
    rw [canManageKey_iff rfl] at hman
    have hmanagedId : seen.managed = true := by simp [KeyRecord.managed, hid]
    obtain ⟨found, hfnd, hsuc⟩ := h.told i _ hlis seen hmem hmanagedId
    cases hexec
    refine untouched_of_records rfl rfl rfl fun p hp => ?_
    rcases load_revoke outcome w.file keyId with hl | hl
    · exact congrArg (List.filter p) hl
    refine (congrArg (List.filter p) hl).trans (filter_modifyFirst fun r hr hk => ?_)
    -- the record of the id is the one that has been seen
    obtain rfl : r = found := h.ids.eq hr hfnd (beq_iff_eq.mp hk) (hsuc.id.trans hid)
    have hadm : r.admin = false := hsuc.admin.trans hman.2
    have hnot {r' : KeyRecord} (hns : r'.ns = r.ns) (heq : r'.admin = r.admin)
        (hhash : r'.tokenHash = r.tokenHash) : p r' = false := by
      refine (Bool.not_eq_true _).mp fun hfor => ?_
      rcases hp _ hfor with hfor | hdef
      · simp [isForeign, hns, heq, hsuc.ns, hman.1, hadm] at hfor
      · have howns := h.owns r hr
        unfold World.Owns at howns
        rw [← hhash, hdef, h.apiKey] at howns
        have hman' : r.managed = true := by
          rw [KeyRecord.managed, hsuc.id]
          exact hmanagedId
        rw [howns hman'] at hadm
        cases hadm
    exact ⟨hnot rfl rfl rfl, hnot rfl rfl rfl⟩
  next => exact heq hexec rfl
  next => exact heq hexec rfl
  next => exact (hnotAdmin hm).elim
  next => exact (hnotAdmin hm.1).elim
  next => exact (hnotAdmin hm.1).elim
  next =>
    split_ifs at hexec
    exact heq hexec rfl
  next => cases hexec

omit [DecidableEq ι] in
/-- **What a token that was drawn for a key authenticates as**: what the key was created for, as
long as it is active, and nothing otherwise. -/
theorem Sound.authenticate (h : Sound lib w know)
    (hiss : w.Issued lib args created) (hval : isNamespaceValid args.ns = true)
    (first second : ℤ) : w.authenticate lib created.token first second =
      if (activeRecord (lib.hashToken created.token) ⟨w.file, first⟩).isSome then
        .identity ⟨args.ns, args.admin⟩
      else .refused := by
  have hnotOperator : w.ledger (lib.hashToken created.token) ≠ some .operator := by
    rw [hiss.ledger]
    simp
  unfold World.authenticate authenticateToken
  rw [if_neg (by simp [hiss.ne_empty, hiss.ascii])]
  cases hact : activeRecord (lib.hashToken created.token) ⟨w.file, first⟩ with
  | some r =>
    obtain ⟨hr, -, hhash⟩ := activeRecord_mem hact
    have howns := h.owns r hr
    unfold World.Owns at howns
    rw [hhash, hiss.ledger] at howns
    have hres : resolve (lib.hashToken created.token) created.token w.apiKey w.namespaces
        (some (⟨w.file, first⟩, ⟨w.file, second⟩)) = some ⟨args.ns, args.admin⟩ := by
      unfold resolve
      rw [bind_some, hact]
      exact congrArg some howns.symm
    rw [hres]
    simp [hval]
  | none =>
    have hres : resolve (lib.hashToken created.token) created.token w.apiKey w.namespaces
        (some (⟨w.file, first⟩, ⟨w.file, second⟩)) = none := by
      refine eq_none_iff_forall_ne_some.mpr fun c hc => ?_
      cases resolve_eq_some_iff.mp hc with
      | records hstore hrec =>
        obtain rfl := (Prod.mk.inj (some.inj hstore)).1
        rw [hact] at hrec
        cases hrec
      | toml _ hent => exact hnotOperator (h.namespaces _ hent)
      | fallback _ _ hdef _ => exact hnotOperator (hdef ▸ h.apiKey)
    rw [hres]
    simp

/-- **What a caller has got by a creation**: a record of the namespace that is no admin one, and a
token that authenticates as that, as long as it is accepted. -/
structure World.Grants (lib : Library) (w : World ι) (ns : String) (resp : KeyCreateResponse) :
    Prop where
  ns_eq : resp.ns = ns
  admin_eq : resp.admin = false
  recorded : ∃ r ∈ w.file.load, r.id = some resp.id ∧ r.tokenHash = lib.hashToken resp.token ∧
    r.ns = ns ∧ r.admin = false ∧ r.expiresAt = resp.expiresAt
  authenticates : ∀ first second, w.authenticate lib resp.token first second =
    if (activeRecord (lib.hashToken resp.token) ⟨w.file, first⟩).isSome then
      .identity ⟨ns, false⟩
    else .refused

/-- **No escalation.** In every run of a server whose draws are new, a request that authenticated as
no admin of a namespace is granted, shown and revokes only keys of the namespace that are no admin
keys, does not rotate, and with each of its steps leaves everything else alone. -/
theorem no_escalation (lib : Library) {up : Startup} {es : List (Event ι)} {s : State ι}
    (hfresh : Along (step lib) (Fresh lib) (State.init lib up) es)
    (hrun : run (step lib) (State.init lib up) es = some s) {i : ι} {ns : String}
    (hcaller : s.1.stamped i = some ⟨ns, false⟩) :
    (∀ resp, s.2 i = .ret (.created resp) → s.1.Grants lib ns resp) ∧
    (∀ resp, s.2 i = .ret (.listed resp) → ∀ key ∈ resp.keys, key.ns = ns ∧ key.admin = false) ∧
    (∀ resp, s.2 i = .ret (.revoked resp) → ∃ r ∈ s.1.file.load,
      r.id = some resp.id ∧ r.ns = ns ∧ r.admin = false ∧ r.status = .revoked) ∧
    (∀ resp, s.2 i ≠ .ret (.rotated resp)) ∧
    ∀ reply s', Fresh lib s (.step i reply) → step lib s (.step i reply) = some s' →
      s.1.Untouched lib ns s'.1 := by
  have hrch : Reached lib s :=
    run_invariant_along (fun _ _ _ hw h hs => h.step hw hs) hfresh (reached_init up) hrun
  obtain ⟨know, hsd, hobeys⟩ := hrch.promised
  have hiden {c : AuthIdentity} (hc : Identified (know i) c) : c = ⟨ns, false⟩ := by
    obtain ⟨token, htok⟩ := hc
    exact some.inj ((hsd.told i _ htok).symm.trans hcaller)
  have hans {a : Answer} (ha : s.2 i = .ret a) : Answers a (know i) := by
    have hi := hobeys i
    rw [ha] at hi
    exact hi
  refine ⟨fun resp hresp => ?_, fun resp hresp => ?_, fun resp hresp => ?_, fun resp hresp => ?_,
    fun reply s' hw hs => ?_⟩
  · obtain ⟨⟨c, hc, haut, hval⟩, htold⟩ := hans hresp
    obtain rfl := hiden hc
    have hiss : s.1.Issued lib _ _ := hsd.told i _ htold
    have ho : resp.admin = false ∧ resp.ns = ns := by
      simp only [authorizeKeyCreate, Bool.false_eq_true, if_false] at haut
      split_ifs at haut with hadm hns
      exact ⟨(Bool.not_eq_true _).mp hadm, not_ne_iff.mp hns⟩
    obtain ⟨r, hr, hid, hhash, hrns, hrad, hexp⟩ := hiss.recorded
    refine ⟨ho.2, ho.1, ⟨r, hr, hid, hhash, hrns.trans ho.2, hrad.trans ho.1, ?_⟩,
      fun first second => ?_⟩
    · have hinj : Injective Datetime.aware := fun _ _ => Datetime.aware.inj
      exact (map_injective hinj hexp).symm
    · rw [hsd.authenticate hiss hval, ho.1, ho.2]
  · obtain ⟨c, hc, hks⟩ := hans hresp
    obtain rfl := hiden hc
    exact hks rfl
  · obtain ⟨⟨c, hc, hseen⟩, htold⟩ := hans hresp
    obtain rfl := hiden hc
    obtain ⟨records, hlis, seen, hm, hid, hman⟩ := hseen.resolve_left (by simp)
    rw [canManageKey_iff rfl] at hman
    have hmanagedId : seen.managed = true := by simp [KeyRecord.managed, hid]
    obtain ⟨found, hfnd, hsuc⟩ := hsd.told i _ hlis seen hm hmanagedId
    obtain ⟨r, hr, hrid, hrev⟩ := hsd.told i _ htold
    obtain rfl : r = found := hsd.ids.eq hr hfnd hrid (hsuc.id.trans hid)
    exact ⟨r, hr, hrid, hsuc.ns.trans hman.1, hsuc.admin.trans hman.2, hrev⟩
  · obtain ⟨c, hc, hadm⟩ := hans hresp
    rw [hiden hc] at hadm
    cases hadm
  · obtain ⟨op, f, r, t, htask, hexec, rfl⟩ := advance_eq_some hs
    have hi := hobeys i
    rw [htask] at hi
    exact hsd.untouched hi.1 hcaller hw hexec

end World

/-! ### A run -/

def sampleLibrary : Library where
  hashToken := id
  isPrintable _ := true
  fromisoformat _ := .error ""

def sampleStartup : Startup where
  apiKey := "default"
  keyFile := none
  namespaces := Keyed.ofList [("toml", "team")]
  config := ⟨false, 0⟩
  now := 0
  outcome := .written

/-- An admin creates a key, and its owner another one. The owner of the token in the TOML file
revokes that one, while the admin rotates the default key. -/
def sampleEvents : List (Event ℕ) :=
  [.call 0 "default" (.restCreate ⟨"team", none, none, false⟩), .step 0 (.clocks 0 0),
    .step 0 (.created "id-1" "first" 1 .written),
    .call 1 "first" (.mcpCreate "team" none none false), .step 1 (.clocks 2 2),
    .step 1 (.created "id-2" "second" 3 .written),
    .call 2 "toml" (.restRevoke "id-2"), .step 2 (.clocks 4 4), .step 2 .done,
    .call 3 "default" (.mcpRotate none), .step 3 (.clocks 5 5), .step 3 .done, .step 3 .done,
    .step 3 (.token "third" .written), .step 3 (.rotated ⟨6, "id-3", "id-4"⟩ .written),
    .step 2 (.wrote .written), .step 3 .done]

/-- The key that was created by a key is one of the namespace, and is revoked. -/
theorem no_escalation_overlapping : ∃ s : State ℕ,
    run (step sampleLibrary) (State.init sampleLibrary sampleStartup) sampleEvents = some s ∧
      (∃ resp, s.2 1 = .ret (.created resp) ∧ resp.token = "second" ∧
        s.1.Grants sampleLibrary "team" resp) ∧
      ∃ r ∈ s.1.file.load, r.id = some "id-2" ∧ r.ns = "team" ∧ r.admin = false ∧
        r.status = .revoked := by
  have hfr : Along (step sampleLibrary) (Fresh sampleLibrary)
      (State.init sampleLibrary sampleStartup) sampleEvents := by decide +kernel
  obtain ⟨s, hs, hfst, hsec, htas⟩ :
      ∃ s ∈ run (step sampleLibrary) (State.init sampleLibrary sampleStartup) sampleEvents,
        s.1.stamped 1 = some ⟨"team", false⟩ ∧ s.1.stamped 2 = some ⟨"team", false⟩ ∧
        (match s.2 1, s.2 2 with
          | .ret (.created resp), .ret (.revoked revoked) =>
            resp.token == "second" && revoked.id == "id-2"
          | _, _ => false) = true := by decide +kernel
  split at htas
  next resp revoked hcrd hrev =>
    rw [Bool.and_eq_true, beq_iff_eq, beq_iff_eq] at htas
    have hgran := (no_escalation sampleLibrary hfr hs hfst).1 resp hcrd
    have hgone := (no_escalation sampleLibrary hfr hs hsec).2.2.1 revoked hrev
    exact ⟨s, hs, ⟨resp, hcrd, htas.1, hgran⟩, htas.2 ▸ hgone⟩
  next => cases htas

end ArchonSearch.Keys.Manage
