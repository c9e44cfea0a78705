import Mathlib.Data.Int.Notation
import ArchonSearch.DurableIo
import ArchonSearch.Lib.ModifyFirst
import ArchonSearch.Lib.Run

/-!
# The key store

`key_manager.KeyStore` keeps the API keys of the server in `keys.json`: one record per key, holding
the hash of its token and never the token. Records with an id are *managed* (issued by `create` or
by a rotation), records without one are *synthetic* (the tokens of the TOML file, rewritten at every
start).

A rotation retires the current default key and records a new one. It looks for the current key by
the hash of its token and changes the **first** active managed record it meets, so it is only right
if there is at most one: `UniqueManaged`. Every mutation preserves that (`uniqueManaged_apply`), as
long as the tokens it generates are fresh.

The file is modelled by the records it parses to. A mutation that fails – because the file is
unreadable, or because its write did not reach the rename – leaves it as it was; a write that failed
after the rename counts as done, which is how the store itself reads `DurabilityUnconfirmedError`.
-/

namespace ArchonSearch.Keys

open Lib

/-! ### Records -/

inductive KeyStatus where
  | active
  | revoked
  deriving DecidableEq

/-- A point in time as the store receives it: with a time zone, reduced to
microseconds since the epoch, or without one. -/
inductive Datetime where
  | aware : ℤ → Datetime
  | naive : ℤ → Datetime

/-- `KeyRecord`: one entry of `keys.json`. -/
structure KeyRecord where
  id : Option String
  (tokenHash ns : String)
  label : Option String := none
  createdAt : ℤ
  expiresAt : Option ℤ := none
  status : KeyStatus := .active
  admin : Bool := false
  deriving DecidableEq

/-- Whether a record is managed (`id is not None`). -/
def KeyRecord.managed (r : KeyRecord) : Bool := r.id.isSome

/-- Whether a record lets its token in at time `t`: active, and not expired – at
the instant of its expiry it already is. -/
def KeyRecord.acceptedAt (t : ℤ) (r : KeyRecord) : Bool :=
  r.status == .active && (match r.expiresAt with
    | none => true
    | some e => decide (t < e))

variable {r : KeyRecord}

theorem not_acceptedAt_of_revoked (h : r.status = .revoked) (t : ℤ) :
    r.acceptedAt t = false := by
  simp [KeyRecord.acceptedAt, h]

theorem not_acceptedAt_of_expired {e t : ℤ} (h : r.expiresAt = some e)
    (ht : e ≤ t) : r.acceptedAt t = false := by
  simp [KeyRecord.acceptedAt, h, ht]

/-! ### The file -/

/-- What `keys.json` is to a reader. -/
inductive KeysFile where
  | missing
  | unreadable
  | records : List KeyRecord → KeysFile
  deriving DecidableEq

inductive KeyStoreError where
  /-- `KeyStoreUnreadableError`. -/
  | unreadable
  /-- `KeyError`: no record has the id. -/
  | unknownKey : String → KeyStoreError
  /-- `ValueError`: the expiry has no time zone. -/
  | naiveExpiry
  /-- `OSError`: the file was not written. -/
  | notWritten

/-- `_load_for_update`: the records, an empty list for a missing file. -/
def loadForUpdate : KeysFile → Except KeyStoreError (List KeyRecord)
  | .missing => .ok []
  | .unreadable => .error .unreadable
  | .records rs => .ok rs

/-- `load`, without its cache: an unusable file reads as no records. -/
def KeysFile.load : KeysFile → List KeyRecord
  | .records rs => rs
  | _ => []

theorem load_of_loadForUpdate {file : KeysFile} {rs : List KeyRecord}
    (h : loadForUpdate file = .ok rs) : file.load = rs := by
  cases file <;> simp_all [loadForUpdate, KeysFile.load]

/-- `active_keys` at time `now`: the active records that have not expired. -/
def activeKeys (now : ℤ) (file : KeysFile) : List KeyRecord :=
  file.load.filter (KeyRecord.acceptedAt now)

/-- `_write`: publish the records. A failed directory fsync is logged and the
records count as written. -/
def write (outcome : WriteOutcome) (rs : List KeyRecord) (file : KeysFile) :
    KeysFile × Except KeyStoreError Unit :=
  match outcome with
  | .failedBeforeReplace => (file, .error .notWritten)
  | _ => (.records rs, .ok ())

/-! ### The mutations -/

/-- `revoke`: the first record with the id becomes revoked. Revoking a revoked
key writes nothing. -/
def revoke (outcome : WriteOutcome) (keyId : String) (file : KeysFile) :
    KeysFile × Except KeyStoreError Unit :=
  match loadForUpdate file with
  | .error e => (file, .error e)
  | .ok rs =>
    match rs.find? fun r => r.id == some keyId with
    | none => (file, .error (.unknownKey keyId))
    | some r =>
      if r.status = .revoked then (file, .ok ())
      else write outcome
        (modifyFirst (fun r => r.id == some keyId) (fun r => { r with status := .revoked }) rs) file

variable (hashToken : String → String)

structure CreatedKey where
  (id token : String)
  createdAt : ℤ

/-- The arguments of `create`, with the id, the token and the clock reading it
draws. -/
structure CreateCall where
  ns : String
  label : Option String
  expiresAt : Option Datetime
  admin : Bool
  /-- `uuid.uuid4()`. -/
  keyId : String
  /-- `secrets.token_hex()`. -/
  rawToken : String
  /-- `datetime.now(UTC)`. -/
  now : ℤ

/-- The record of a created key, expiring at `expiresAt`. -/
def CreateCall.record (call : CreateCall) (expiresAt : Option ℤ) : KeyRecord where
  id := some call.keyId
  tokenHash := hashToken call.rawToken
  ns := call.ns
  label := call.label
  createdAt := call.now
  expiresAt := expiresAt
  status := .active
  admin := call.admin

/-- `create`: append the record of a new token. -/
def create (outcome : WriteOutcome) (call : CreateCall) (file : KeysFile) :
    KeysFile × Except KeyStoreError CreatedKey :=
  let append (expiresAt : Option ℤ) :=
    match loadForUpdate file with
    | .error e => (file, .error e)
    | .ok rs =>
      match write outcome (rs ++ [call.record hashToken expiresAt]) file with
      | (file', .error e) => (file', .error e)
      | (file', .ok ()) => (file', .ok ⟨call.keyId, call.rawToken, call.now⟩)
  match call.expiresAt with
  | some (.naive _) => (file, .error .naiveExpiry)
  | some (.aware t) => append (some t)
  | none => append none

/-- `load_synthetic_records`: the synthetic records are replaced, the managed ones
kept. -/
def loadSyntheticRecords (outcome : WriteOutcome) (synthetic : List KeyRecord) (file : KeysFile) :
    KeysFile × Except KeyStoreError Unit :=
  match loadForUpdate file with
  | .error e => (file, .error e)
  | .ok rs => write outcome (rs.filter KeyRecord.managed ++ synthetic) file

/-! ### Rotation -/

/-- The arguments of `record_rotation`, with the ids and the clock reading it
draws. -/
structure RotationCall where
  currentToken : String
  graceSeconds : ℤ
  newToken : String
  /-- `datetime.now(UTC)`. -/
  now : ℤ
  (graceId newKeyId : String)

/-- `now + timedelta(seconds=grace_seconds)`. -/
def RotationCall.graceEnd (call : RotationCall) : ℤ := call.now + call.graceSeconds * 1000000

structure RotationOutcome where
  (newKeyId newToken : String)
  oldRecord : Option KeyRecord

def isCurrent (currentHash : String) (r : KeyRecord) : Bool :=
  r.managed && r.tokenHash == currentHash

def isCurrentActive (currentHash : String) (r : KeyRecord) : Bool :=
  isCurrent currentHash r && r.status == .active

/-- The scan for the current key: the first active managed record of its hash,
and whether a managed record of that hash was met. -/
def scanCurrent (currentHash : String) : List KeyRecord → Bool → Option KeyRecord × Bool
  | [], seen => (none, seen)
  | r :: rs, seen =>
    if isCurrent currentHash r then
      if r.status = .active then (some r, true) else scanCurrent currentHash rs true
    else scanCurrent currentHash rs seen

def retire (call : RotationCall) (r : KeyRecord) : KeyRecord :=
  if call.graceSeconds = 0 then { r with status := .revoked }
  else { r with expiresAt := some call.graceEnd }

def graceRecord (call : RotationCall) : KeyRecord where
  id := some call.graceId
  tokenHash := hashToken call.currentToken
  ns := "default"
  createdAt := call.now
  expiresAt := some call.graceEnd
  admin := true

def newRecord (call : RotationCall) : KeyRecord where
  id := some call.newKeyId
  tokenHash := hashToken call.newToken
  ns := "default"
  createdAt := call.now
  admin := true

/-- The records after the current key has been dealt with, and the record the
outcome reports for it. -/
def retireCurrent (call : RotationCall) (rs : List KeyRecord) :
    List KeyRecord × Option KeyRecord :=
  let currentHash := hashToken call.currentToken
  match scanCurrent currentHash rs false with
  | (some old, _) => (modifyFirst (isCurrentActive currentHash) (retire call) rs,
      some (retire call old))
  | (none, seen) =>
    -- the current key was never a managed record: it stays accepted through its grace
    if 0 < call.graceSeconds ∧ seen = false then
      (rs ++ [graceRecord hashToken call], some (graceRecord hashToken call))
    else (rs, none)

def rotated (call : RotationCall) (rs : List KeyRecord) : List KeyRecord :=
  (retireCurrent hashToken call rs).1 ++ [newRecord hashToken call]

/-- `record_rotation`: retire the current key and append the record of the new
one. -/
def recordRotation (outcome : WriteOutcome) (call : RotationCall) (file : KeysFile) :
    KeysFile × Except KeyStoreError RotationOutcome :=
  match loadForUpdate file with
  | .error e => (file, .error e)
  | .ok rs =>
    match write outcome (rotated hashToken call rs) file with
    | (file', .error e) => (file', .error e)
    | (file', .ok ()) =>
      (file', .ok ⟨call.newKeyId, call.newToken, (retireCurrent hashToken call rs).2⟩)

/-! ### The file after a mutation

A mutation that raises leaves the file alone; one that returns publishes the
records it computed, or, for a revocation of a revoked key, nothing. -/

variable (outcome : WriteOutcome) (file : KeysFile)

/-- A creation that raises leaves the file; one that returns has appended the record. -/
theorem create_cases (call : CreateCall) :
    (∃ e, create hashToken outcome call file = (file, .error e)) ∨
      ∃ expiresAt, call.expiresAt = expiresAt.map .aware ∧ create hashToken outcome call file =
        (.records (file.load ++ [call.record hashToken expiresAt]),
          .ok ⟨call.keyId, call.rawToken, call.now⟩) := by
  unfold create
  rcases hexp : call.expiresAt with - | t | t <;> dsimp only
  · cases hl : loadForUpdate file with
    | error e => exact Or.inl ⟨e, rfl⟩
    | ok rs =>
      rw [load_of_loadForUpdate hl]
      cases outcome with
      | written => exact Or.inr ⟨none, rfl, rfl⟩
      | failedBeforeReplace => exact Or.inl ⟨_, rfl⟩
      | failedAfterReplace => exact Or.inr ⟨none, rfl, rfl⟩
  · cases hl : loadForUpdate file with
    | error e => exact Or.inl ⟨e, rfl⟩
    | ok rs =>
      rw [load_of_loadForUpdate hl]
      cases outcome with
      | written => exact Or.inr ⟨some t, rfl, rfl⟩
      | failedBeforeReplace => exact Or.inl ⟨_, rfl⟩
      | failedAfterReplace => exact Or.inr ⟨some t, rfl, rfl⟩
  · exact Or.inl ⟨_, rfl⟩

theorem load_create (call : CreateCall) :
    (create hashToken outcome call file).1.load = file.load ∨
      ∃ e, (create hashToken outcome call file).1.load =
        file.load ++ [call.record hashToken e] := by
  obtain ⟨e, h⟩ | ⟨expiresAt, -, h⟩ := create_cases hashToken outcome file call
  · exact Or.inl (by rw [h])
  · exact Or.inr ⟨expiresAt, by rw [h]; rfl⟩

/-- A revocation that raises leaves the file; one that returns has revoked the first record of the
id, unless it was. -/
theorem revoke_cases (keyId : String) :
    (∃ e, revoke outcome keyId file = (file, .error e)) ∨
      ∃ r, file.load.find? (fun r => r.id == some keyId) = some r ∧
        (r.status = .revoked ∧ revoke outcome keyId file = (file, .ok ()) ∨
          revoke outcome keyId file = (.records (modifyFirst (fun r => r.id == some keyId)
            (fun r => { r with status := .revoked }) file.load), .ok ())) := by
  unfold revoke
  cases hl : loadForUpdate file with
  | error e => exact Or.inl ⟨e, rfl⟩
  | ok rs =>
    rw [load_of_loadForUpdate hl]
    dsimp only
    cases rs.find? fun r => r.id == some keyId with
    | none => exact Or.inl ⟨_, rfl⟩
    | some r =>
      dsimp only
      split_ifs with hrev
      · exact Or.inr ⟨r, rfl, Or.inl ⟨hrev, rfl⟩⟩
      · cases outcome with
        | written => exact Or.inr ⟨r, rfl, Or.inr rfl⟩
        | failedBeforeReplace => exact Or.inl ⟨_, rfl⟩
        | failedAfterReplace => exact Or.inr ⟨r, rfl, Or.inr rfl⟩

theorem load_revoke (keyId : String) :
    (revoke outcome keyId file).1.load = file.load ∨
      (revoke outcome keyId file).1.load = modifyFirst (fun r => r.id == some keyId)
        (fun r => { r with status := .revoked }) file.load := by
  obtain ⟨e, h⟩ | ⟨r, -, ⟨-, h⟩ | h⟩ := revoke_cases outcome file keyId
  · exact Or.inl (by rw [h])
  · exact Or.inl (by rw [h])
  · exact Or.inr (by rw [h]; rfl)

theorem load_loadSyntheticRecords (synthetic : List KeyRecord) :
    (loadSyntheticRecords outcome synthetic file).1.load = file.load ∨
      (loadSyntheticRecords outcome synthetic file).1.load =
        file.load.filter KeyRecord.managed ++ synthetic := by
  unfold loadSyntheticRecords
  cases hl : loadForUpdate file with
  | error e => exact Or.inl rfl
  | ok rs =>
    rw [load_of_loadForUpdate hl]
    cases outcome with
    | written => exact Or.inr rfl
    | failedBeforeReplace => exact Or.inl (load_of_loadForUpdate hl)
    | failedAfterReplace => exact Or.inr rfl

/-- **A rotation that returns has published the rotated records**, and one that
raises has left the file. -/
theorem recordRotation_cases (call : RotationCall) :
    (∃ e, recordRotation hashToken outcome call file = (file, .error e)) ∨
      ∃ result, result.newToken = call.newToken ∧ recordRotation hashToken outcome call file =
        (.records (rotated hashToken call file.load), .ok result) := by
  unfold recordRotation
  cases hl : loadForUpdate file with
  | error e => exact Or.inl ⟨e, rfl⟩
  | ok rs =>
    rw [load_of_loadForUpdate hl]
    cases outcome with
    | written => exact Or.inr ⟨_, rfl, rfl⟩
    | failedBeforeReplace => exact Or.inl ⟨_, rfl⟩
    | failedAfterReplace => exact Or.inr ⟨_, rfl, rfl⟩

end ArchonSearch.Keys
