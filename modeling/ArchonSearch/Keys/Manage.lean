import ArchonSearch.Keys.Authenticate
import ArchonSearch.Keys.Rotation
import ArchonSearch.Lib.Async

/-!
# The requests that manage keys

Keys are created, listed, revoked and rotated over REST (`routes_keys`) and over MCP (the key tools
of `mcp`). Each request first authenticates its token; the identity that the middleware stamps on
it then goes through `services.authz`, which both transports share, and what is allowed goes on to
`KeyStore`.

A request is a coroutine (`dispatch`), whose operations are those of the three places that hold
keys: `keys.json`, the key file and the memory of the server. Any number of requests run side by
side, and between any two steps the server may be restarted with another configuration, which ends
the requests that are running (`step`). The locks of `KeyStore` are left out: a request that waits
for one is a request whose step comes later, and rotations, which exclude each other, may overlap
here.
-/

namespace ArchonSearch.Keys.Manage

open Lib Async Function

/-! ### Operations -/

/-- The arguments of `KeyStore.create`. -/
structure CreateArgs where
  ns : String
  label : Option String
  expiresAt : Option Datetime
  admin : Bool

inductive Op where
  /-- `authenticate_token`, and the stamp on the request. -/
  | authenticate : (token : String) → Op
  /-- `KeyStore.list_keys`. -/
  | listKeys
  /-- `KeyStore.create`. -/
  | create : CreateArgs → Op
  /-- `KeyStore.revoke`. -/
  | revoke : (keyId : String) → Op
  | readCurrentToken
  /-- `KeyStore.verify_readable`. -/
  | verifyReadable
  /-- A token is drawn, and `_write_key_file`. -/
  | writeKeyFile
  /-- `KeyStore.record_rotation`. -/
  | recordRotation : (currentToken : String) → (graceSeconds : ℤ) → (newToken : String) → Op
  /-- `publish_new_token`. -/
  | publish : (newToken : String) → Op

/-- It belongs to `_commit_rotation`, which runs behind `asyncio.shield`. -/
def Op.isShielded : Op → Bool
  | .writeKeyFile | .recordRotation _ _ _ | .publish _ => true
  | _ => false

abbrev Ans : Op → Type
  | .authenticate _ => AuthResult
  | .listKeys => List KeyRecord
  | .create _ => CreatedKey
  | .readCurrentToken | .writeKeyFile => String
  | .recordRotation _ _ _ => RotationOutcome
  | .revoke _ | .verifyReadable | .publish _ => Unit

abbrev ops : Signature := ⟨Op, Ans⟩

inductive Raised where
  | store : KeyStoreError → Raised
  | rotation : Rotation.RotationError → Raised
  /-- `CancelledError`. -/
  | cancelled

abbrev Program (α : Type) : Type := Async ops Raised α

abbrev ask (op : Op) : Program (Ans op) := @perform ops Raised op

structure Library where
  hashToken : String → String
  /-- `str.isprintable` of one character. -/
  isPrintable : Char → Bool
  /-- `datetime.fromisoformat`; a `ValueError` with its text. -/
  fromisoformat : String → Except String Datetime

/-! ### `services.authz` -/

/-- `ADMIN_REQUIRED_DETAIL`. -/
def adminRequiredDetail : String := "this operation requires an admin API key"

/-- `ADMIN_KEY_GRANT_DETAIL`. -/
def adminKeyGrantDetail : String := "only an admin API key can create an admin key"

/-- `FOREIGN_NAMESPACE_DETAIL`. -/
def foreignNamespaceDetail : String :=
  "a non-admin API key can only manage keys in its own namespace"

/-- `require_admin`. -/
def requireAdmin : Option AuthIdentity → Except String Unit
  | some identity => if identity.admin then .ok () else .error adminRequiredDetail
  | none => .error adminRequiredDetail

/-- `authorize_key_create`. -/
def authorizeKeyCreate (identity : AuthIdentity) (ns : String) (admin : Bool) :
    Except String Unit :=
  if identity.admin then .ok ()
  else if admin then .error adminKeyGrantDetail
  else if ns ≠ identity.ns then .error foreignNamespaceDetail
  else .ok ()

/-- `authorize_key_listing_namespace`. -/
def authorizeKeyListingNamespace (identity : AuthIdentity) (ns : Option String) :
    Except String (Option String) :=
  if identity.admin then .ok ns
  else if ns ≠ none ∧ ns ≠ some identity.ns then .error foreignNamespaceDetail
  else .ok (some identity.ns)

/-- `can_manage_key`. -/
def canManageKey (identity : AuthIdentity) (record : KeyRecord) : Bool :=
  identity.admin || (record.ns == identity.ns && !record.admin)

/-- `caller_may_revoke`. -/
def callerMayRevoke (identity : AuthIdentity) (keyId : String) : Program Bool :=
  if identity.admin then pure true
  else do
    let records ← ask .listKeys
    pure (records.any fun r => r.id == some keyId && canManageKey identity r)

/-- `identity_of`, of what is stamped on the request. -/
def identityOf : Option AuthIdentity → Option AuthIdentity
  | some stamped => if stamped.ns = "" then none else some stamped
  | none => none

/-- `_validate_namespace`, with the text of its `ValueError`. -/
def validateNamespace (lib : Library) (name : String) : Except String Unit :=
  if name = "deny-all" then .error "Namespace name 'deny-all' is reserved and cannot be used."
  else if Acl.namespaceRe name = false then
    .error ("Invalid namespace " ++ Py.reprStr lib.isPrintable name ++
      ": must match ^[a-zA-Z0-9][a-zA-Z0-9_-]\x7b0,63\x7d$")
  else if name.toList.getLast? = some '_' then
    .error ("Invalid namespace " ++ Py.reprStr lib.isPrintable name ++ ": must not end with '_'")
  else if ['_', '_'] <:+: name.toList then
    .error ("Invalid namespace " ++ Py.reprStr lib.isPrintable name ++
      ": must not contain consecutive underscores '__'")
  else .ok ()

/-! ### Answers -/

/-- `KeyResponse`. -/
structure KeyResponse where
  id : Option String
  /-- `namespace`. -/
  ns : String
  label : Option String
  createdAt : ℤ
  expiresAt : Option ℤ
  status : KeyStatus
  admin : Bool

/-- `_key_record_to_response`. -/
def keyRecordToResponse (record : KeyRecord) : KeyResponse where
  id := record.id
  ns := record.ns
  label := record.label
  createdAt := record.createdAt
  expiresAt := record.expiresAt
  status := record.status
  admin := record.admin

/-- `KeyCreateResponse`. -/
structure KeyCreateResponse where
  (id token : String)
  /-- `namespace`. -/
  ns : String
  label : Option String
  createdAt : ℤ
  expiresAt : Option ℤ
  status : KeyStatus := .active
  admin : Bool

/-- `KeyListResponse`. -/
structure KeyListResponse where
  keys : List KeyResponse
  hiddenRevokedCount : ℕ

/-- `KeyRevokeResponse`. -/
structure KeyRevokeResponse where
  id : String
  status : KeyStatus := .revoked

/-- `KeyRotateResponse`. -/
structure KeyRotateResponse where
  (newKeyId token : String)
  status : KeyStatus := .active
  oldKeyId : Option String
  oldKeyExpiresAt : Option ℤ
  oldKeyStatus : Option KeyStatus

inductive Refusal where
  /-- An `HTTPException`. -/
  | http (status : ℕ) (detail : String)
  /-- An `McpErrorResponse`. -/
  | mcp (code error : String)
  /-- A `ToolError`. -/
  | tool (detail : String)

inductive Answer where
  | unasked
  /-- To `create_key`. -/
  | created : KeyCreateResponse → Answer
  /-- To `list_keys`. -/
  | listed : KeyListResponse → Answer
  /-- To `revoke_key`. -/
  | revoked : KeyRevokeResponse → Answer
  /-- To `rotate_key`. -/
  | rotated : KeyRotateResponse → Answer
  | refused : Refusal → Answer

/-- `try: … except …: …`, where the exceptions that are caught are answered. -/
def caught (p : Program Answer) (answers : Raised → Option Refusal) : Program Answer :=
  tryCatch p fun e =>
    match answers e with
    | some refusal => pure (.refused refusal)
    | none => raise e

def keyCreated (ns : String) (label : Option String) (expiresAt : Option ℤ) (admin : Bool)
    (created : CreatedKey) : Answer :=
  .created
    { id := created.id
      token := created.token
      ns := ns
      label := label
      createdAt := created.createdAt
      expiresAt := expiresAt
      admin := admin }

/-- The `status` of a listing. -/
inductive StatusFilter where
  | active
  | revoked
  | all

def scope (identity : AuthIdentity) (ns : Option String) (records : List KeyRecord) :
    List KeyRecord :=
  let allRecords := records.filter (canManageKey identity)
  match ns with
  | some ns => allRecords.filter fun r => r.ns == ns
  | none => allRecords

/-- What both transports make of the records: those of the scope that have this status. -/
def listing (identity : AuthIdentity) (ns : Option String) (status : StatusFilter)
    (records : List KeyRecord) : KeyListResponse :=
  let scope := scope identity ns records
  match status with
  | .active =>
    { keys := (scope.filter fun r => r.status == .active).map keyRecordToResponse
      hiddenRevokedCount := scope.countP fun r => r.status == .revoked }
  | .revoked =>
    { keys := (scope.filter fun r => r.status == .revoked).map keyRecordToResponse
      hiddenRevokedCount := 0 }
  | .all => { keys := scope.map keyRecordToResponse, hiddenRevokedCount := 0 }

/-! ### Rotations -/

/-- `KEY_STORE_UNREADABLE_DETAIL`. -/
def keyStoreUnreadableDetail : String :=
  "keys.json could not be read; no key changes were made; see the server log for details"

/-- `ROTATE_WRITE_FAILED_DETAIL`. -/
def rotateWriteFailedDetail : String :=
  "Failed to write .search.env — rotation aborted; keys.json unchanged."

/-- `ROTATE_KEYS_JSON_FAILED_DETAIL`. -/
def rotateKeysJsonFailedDetail : String :=
  "Rotation incomplete: .search.env holds the new key but keys.json was not updated; " ++
    "see the server log for details"

/-- The text of the `KeyRotationInputError` of `validate_rotation_grace`. -/
def rotationInputText (graceSeconds : ℤ) : String :=
  if graceSeconds < 0 then s!"grace_seconds must be >= 0, got {graceSeconds}"
  else s!"grace_seconds must be <= {Rotation.maxRotateGraceSeconds}, got {graceSeconds}"

/-- The text of `BlankCurrentKeyError`. -/
def blankCurrentKeyText : String := "current_token must not be empty"

/-- What both transports answer while `ARCHON_SEARCH_API_KEY` is set. -/
def envVarConflict : String :=
  "Cannot rotate: ARCHON_SEARCH_API_KEY env var is set; " ++
    "unset it first and restart the server to use managed key rotation."

/-- `rotate_and_persist_default_key`, for a caller that is not cancelled. -/
def rotateAndPersistDefaultKey (graceSeconds : ℤ) : Program RotationOutcome :=
  if Rotation.validateRotationGrace graceSeconds = false then raise (.rotation .input)
  else do
    let currentToken ← ask .readCurrentToken
    if Rotation.validateCurrentToken currentToken = false then
      raise (.rotation .blankCurrentKey)
    else
      ask .verifyReadable
      -- `_commit_rotation`
      let newToken ← ask .writeKeyFile
      let result ← tryCatch (ask (.recordRotation currentToken graceSeconds newToken)) fun _ =>
        raise (.rotation .incomplete)
      if result.newToken ≠ newToken then raise (.rotation .incomplete)
      else
        ask (.publish newToken)
        pure result

def keyRotated (result : RotationOutcome) : Answer :=
  .rotated
    { newKeyId := result.newKeyId
      token := result.newToken
      oldKeyId := result.oldRecord.bind KeyRecord.id
      oldKeyExpiresAt := result.oldRecord.bind KeyRecord.expiresAt
      oldKeyStatus := result.oldRecord.map KeyRecord.status }

structure Config where
  /-- `ARCHON_SEARCH_API_KEY` is set. -/
  envVar : Bool
  /-- `auth.rotate_grace_seconds`. -/
  rotateGraceSeconds : ℤ

/-- What both transports answer to an id that is `null`. -/
def tomlKeyHint : String :=
  "This key is managed via archon-search.toml [namespaces] — " ++
    "remove it from the config file and restart the server."

def keyNotFound (lib : Library) (keyId : String) : String :=
  "Key not found: " ++ Py.reprStr lib.isPrintable keyId

/-! ### REST -/

/-- `KeyCreateRequest`. -/
structure KeyCreateRequest where
  /-- `namespace`. -/
  ns : String
  label : Option String
  /-- `expires_at`, which has a time zone. -/
  expiresAt : Option ℤ
  admin : Bool

namespace Rest

/-- `caller_identity`, and what is done with it. -/
def withCaller (stamped : Option AuthIdentity) (f : AuthIdentity → Program Answer) :
    Program Answer :=
  match identityOf stamped with
  | none => pure (.refused (.http 401 "authentication required"))
  | some identity => f identity

/-- `POST /keys`. -/
def createKey (lib : Library) (stamped : Option AuthIdentity) (body : KeyCreateRequest) :
    Program Answer :=
  withCaller stamped fun identity =>
    match authorizeKeyCreate identity body.ns body.admin with
    | .error detail => pure (.refused (.http 403 detail))
    | .ok () =>
      match validateNamespace lib body.ns with
      | .error detail => pure (.refused (.http 422 detail))
      | .ok () =>
        caught
          (do
            let created ← ask (.create ⟨body.ns, body.label, body.expiresAt.map .aware, body.admin⟩)
            pure (keyCreated body.ns body.label body.expiresAt body.admin created))
          fun
            | .store .unreadable => some (.http 500 keyStoreUnreadableDetail)
            | _ => none

/-- `GET /keys`. -/
def listKeys (stamped : Option AuthIdentity) (status : StatusFilter) (ns : Option String) :
    Program Answer :=
  withCaller stamped fun identity =>
    match authorizeKeyListingNamespace identity ns with
    | .error detail => pure (.refused (.http 403 detail))
    | .ok ns => do
      let records ← ask .listKeys
      pure (.listed (listing identity ns status records))

/-- `DELETE /keys/{key_id}`. -/
def revokeKey (lib : Library) (stamped : Option AuthIdentity) (keyId : String) :
    Program Answer :=
  withCaller stamped fun identity =>
    if keyId = "null" then pure (.refused (.http 404 tomlKeyHint))
    else do
      match ← callerMayRevoke identity keyId with
      | false => pure (.refused (.http 404 (keyNotFound lib keyId)))
      | true =>
        caught
          (do
            ask (.revoke keyId)
            pure (.revoked { id := keyId }))
          fun
            | .store (.unknownKey _) => some (.http 404 (keyNotFound lib keyId))
            | .store .unreadable => some (.http 500 keyStoreUnreadableDetail)
            | _ => none

/-- `POST /keys/rotate`. -/
def rotateKey (config : Config) (stamped : Option AuthIdentity) (graceSeconds : Option ℤ) :
    Program Answer :=
  match requireAdmin (identityOf stamped) with
  | .error detail => pure (.refused (.http 403 detail))
  | .ok () =>
    if config.envVar then pure (.refused (.http 409 envVarConflict))
    else
      let grace := graceSeconds.getD config.rotateGraceSeconds
      caught
        (do
          let result ← rotateAndPersistDefaultKey grace
          pure (keyRotated result))
        fun
          | .rotation .blankCurrentKey => some (.http 500 blankCurrentKeyText)
          | .rotation .input => some (.http 500 (rotationInputText grace))
          | .store .unreadable => some (.http 500 keyStoreUnreadableDetail)
          | .rotation .keyFileWrite => some (.http 500 rotateWriteFailedDetail)
          | .rotation .incomplete => some (.http 500 rotateKeysJsonFailedDetail)
          | _ => none

end Rest

/-! ### MCP -/

/-- `INTERNAL_ERROR_DETAIL`. -/
def internalErrorDetail : String := "internal error; see the server log for details"

/-- `CREATE_KEY_FAILED_DETAIL`. -/
def createKeyFailedDetail : String := "key creation failed; see the server log for details"

/-- `NO_AUTH_CONTEXT_DETAIL`. -/
def noAuthContextDetail : String :=
  "unauthenticated: this tool call carries no authenticated namespace"

namespace Mcp

/-- `_get_request_identity`, and what is done with it. -/
def withCaller (stamped : Option AuthIdentity) (f : AuthIdentity → Program Answer) :
    Program Answer :=
  match identityOf stamped with
  | none => pure (.refused (.tool noAuthContextDetail))
  | some identity => f identity

/-- `_forbidden`. -/
def forbidden (detail : String) : Answer := .refused (.mcp "forbidden" detail)

/-- What `except Exception` answers to the exceptions that are not told apart before it. -/
def otherwise (refusal : Refusal) : Raised → Option Refusal
  | .cancelled => none
  | _ => some refusal

/-- `expires_at` of the tool: a point in time, or why it is none. -/
def parseExpiresAt (lib : Library) : Option String → Except String (Option ℤ)
  | none => .ok none
  | some text =>
    match lib.fromisoformat text with
    | .error e => .error ("invalid expires_at: " ++ e)
    | .ok (.naive _) => .error "expires_at must be timezone-aware (include UTC offset or Z suffix)"
    | .ok (.aware t) => .ok (some t)

/-- `create_key`. -/
def createKey (lib : Library) (stamped : Option AuthIdentity) (ns : String)
    (label expiresAt : Option String) (admin : Bool) : Program Answer :=
  withCaller stamped fun identity =>
    match authorizeKeyCreate identity ns admin with
    | .error detail => pure (forbidden detail)
    | .ok () =>
      match validateNamespace lib ns with
      | .error detail => pure (.refused (.mcp "validation_error" detail))
      | .ok () =>
        match parseExpiresAt lib expiresAt with
        | .error detail => pure (.refused (.mcp "validation_error" detail))
        | .ok parsedExpiresAt =>
          caught
            (do
              let created ← ask (.create ⟨ns, label, parsedExpiresAt.map .aware, admin⟩)
              pure (keyCreated ns label parsedExpiresAt admin created))
            fun
              | .store .unreadable => some (.mcp "internal_error" keyStoreUnreadableDetail)
              | e => otherwise (.mcp "internal_error" createKeyFailedDetail) e

/-- The `status` argument of `list_keys`. -/
def statusFilter : String → Option StatusFilter
  | "active" => some .active
  | "revoked" => some .revoked
  | "all" => some .all
  | _ => none

/-- `list_keys`. -/
def listKeys (stamped : Option AuthIdentity) (status : String) (ns : Option String) :
    Program Answer :=
  match statusFilter status with
  | none =>
    pure (.refused (.mcp "validation_error" "status must be 'active', 'revoked', or 'all'"))
  | some status =>
    withCaller stamped fun identity =>
      match authorizeKeyListingNamespace identity ns with
      | .error detail => pure (forbidden detail)
      | .ok ns => do
        let records ← ask .listKeys
        pure (.listed (listing identity ns status records))

/-- `revoke_key`. -/
def revokeKey (lib : Library) (stamped : Option AuthIdentity) (keyId : String) :
    Program Answer :=
  withCaller stamped fun identity =>
    if keyId = "null" then pure (.refused (.mcp "not_found" tomlKeyHint))
    else do
      match ← callerMayRevoke identity keyId with
      | false => pure (.refused (.mcp "not_found" (keyNotFound lib keyId)))
      | true =>
        caught
          (do
            ask (.revoke keyId)
            pure (.revoked { id := keyId }))
          fun
            | .store (.unknownKey _) => some (.mcp "not_found" (keyNotFound lib keyId))
            | .store .unreadable => some (.mcp "internal_error" keyStoreUnreadableDetail)
            | e => otherwise (.mcp "internal_error" internalErrorDetail) e

/-- `rotate_key`, where the server holds the default key. -/
def rotateKey (config : Config) (stamped : Option AuthIdentity) (graceSeconds : Option ℤ) :
    Program Answer :=
  withCaller stamped fun identity =>
    match requireAdmin (some identity) with
    | .error detail => pure (forbidden detail)
    | .ok () =>
      let grace := graceSeconds.getD config.rotateGraceSeconds
      if config.envVar then pure (.refused (.mcp "conflict" envVarConflict))
      else
        caught
          (do
            let result ← rotateAndPersistDefaultKey grace
            pure (keyRotated result))
          fun
            | .rotation .blankCurrentKey => some (.mcp "internal_error" blankCurrentKeyText)
            | .rotation .input => some (.mcp "validation_error" (rotationInputText grace))
            | .store .unreadable => some (.mcp "internal_error" keyStoreUnreadableDetail)
            | .rotation .keyFileWrite => some (.mcp "internal_error" rotateWriteFailedDetail)
            | .rotation .incomplete => some (.mcp "internal_error" rotateKeysJsonFailedDetail)
            | e => otherwise (.mcp "internal_error" internalErrorDetail) e

end Mcp

/-! ### Requests -/

inductive Request where
  /-- `POST /keys`. -/
  | restCreate : KeyCreateRequest → Request
  /-- `GET /keys`. -/
  | restList : StatusFilter → (ns : Option String) → Request
  /-- `DELETE /keys/{key_id}`. -/
  | restRevoke : (keyId : String) → Request
  /-- `POST /keys/rotate`. -/
  | restRotate : (graceSeconds : Option ℤ) → Request
  /-- `create_key`. -/
  | mcpCreate : (ns : String) → (label expiresAt : Option String) → (admin : Bool) → Request
  /-- `list_keys`. -/
  | mcpList : (status : String) → (ns : Option String) → Request
  /-- `revoke_key`. -/
  | mcpRevoke : (keyId : String) → Request
  /-- `rotate_key`. -/
  | mcpRotate : (graceSeconds : Option ℤ) → Request

def Request.handler (lib : Library) (config : Config) (stamped : Option AuthIdentity) :
    Request → Program Answer
  | .restCreate body => Rest.createKey lib stamped body
  | .restList status ns => Rest.listKeys stamped status ns
  | .restRevoke keyId => Rest.revokeKey lib stamped keyId
  | .restRotate graceSeconds => Rest.rotateKey config stamped graceSeconds
  | .mcpCreate ns label expiresAt admin => Mcp.createKey lib stamped ns label expiresAt admin
  | .mcpList status ns => Mcp.listKeys stamped status ns
  | .mcpRevoke keyId => Mcp.revokeKey lib stamped keyId
  | .mcpRotate graceSeconds => Mcp.rotateKey config stamped graceSeconds

/-- `APIKeyMiddleware.dispatch`, for a bearer token. -/
def dispatch (lib : Library) (config : Config) (token : String) (request : Request) :
    Program Answer := do
  match ← ask (.authenticate token) with
  | .refused => pure (.refused (.http 401 ""))
  | .invalidNamespace => pure (.refused (.http 500 ""))
  | .identity identity => request.handler lib config (some identity)

/-! ### The server -/

inductive Owner where
  | operator
  | key : AuthIdentity → Owner
  deriving DecidableEq

structure World (ι : Type) where
  /-- `keys.json`. -/
  file : KeysFile
  keyFile : Option String
  /-- `app.state.api_key`. -/
  apiKey : String
  /-- The `[namespaces]` of the TOML file. -/
  namespaces : Namespaces
  config : Config
  /-- `request.state` of each request. -/
  stamped : ι → Option AuthIdentity
  called : ι → Bool
  ledger : String → Option Owner

structure Startup where
  /-- `api_key`, from the environment or the key file. -/
  apiKey : String
  keyFile : Option String
  /-- `config.namespaces`. -/
  namespaces : Namespaces
  config : Config
  /-- `datetime.now(UTC)`. -/
  now : ℤ
  outcome : WriteOutcome

inductive Reply where
  /-- The clock, at both readings of `authenticate_token`. -/
  | clocks : (first second : ℤ) → Reply
  | done
  /-- What `create` draws, and what comes of its write. -/
  | created : (keyId rawToken : String) → (now : ℤ) → WriteOutcome → Reply
  | wrote : WriteOutcome → Reply
  | token : (newToken : String) → WriteOutcome → Reply
  /-- What `record_rotation` draws, and what comes of its write. -/
  | rotated : Rotation.Draw → WriteOutcome → Reply
  | cancel

inductive Event (ι : Type) where
  | call : ι → (token : String) → Request → Event ι
  | step : ι → Reply → Event ι
  | restart : Startup → Event ι

abbrev State (ι : Type) : Type := World ι × (ι → Program Answer)

section Server

variable {ι : Type} (lib : Library)

/-- `_synthetic_records`. -/
def Startup.syntheticRecords (up : Startup) : List KeyRecord :=
  up.namespaces.items.map fun entry =>
    { id := none
      tokenHash := lib.hashToken entry.1
      ns := entry.2
      label := some entry.2
      createdAt := up.now }

def Startup.hashes (up : Startup) : List String :=
  lib.hashToken up.apiKey :: up.namespaces.items.map fun entry => lib.hashToken entry.1

/-- `create_app`, and what the server does before the first request. -/
def World.start (w : World ι) (up : Startup) : World ι :=
  { w with
    file := (loadSyntheticRecords up.outcome (up.syntheticRecords lib) w.file).1
    keyFile := up.keyFile
    apiKey := up.apiKey
    namespaces := up.namespaces
    config := up.config
    ledger := fun h => if h ∈ up.hashes lib then some .operator else w.ledger h }

/-- A first server, with no `keys.json`. -/
def World.init (up : Startup) : World ι :=
  World.start lib
    { file := .missing
      keyFile := up.keyFile
      apiKey := up.apiKey
      namespaces := up.namespaces
      config := up.config
      stamped := fun _ => none
      called := fun _ => false
      ledger := fun _ => none } up

def interrupt : Program Answer → Program Answer
  | .await _ _ => raise .cancelled
  | p => p

/-- `authenticate_token`, at these times. -/
def World.authenticate (w : World ι) (token : String) (first second : ℤ) : AuthResult :=
  authenticateToken lib.hashToken token w.apiKey w.namespaces
    (some (⟨w.file, first⟩, ⟨w.file, second⟩))

variable [DecidableEq ι]

omit lib in
/-- `request.state.namespace = …; request.state.admin = …`. -/
def World.stamp (w : World ι) (i : ι) : AuthResult → World ι
  | .identity identity => { w with stamped := update w.stamped i (some identity) }
  | _ => w

omit lib in
def World.draw (w : World ι) (h : String) (owner : Owner) : World ι :=
  { w with ledger := update w.ledger h (some owner) }

/-- A call of `create`, with what it draws. -/
def CreateArgs.call (args : CreateArgs) (keyId rawToken : String) (now : ℤ) : CreateCall where
  ns := args.ns
  label := args.label
  expiresAt := args.expiresAt
  admin := args.admin
  keyId := keyId
  rawToken := rawToken
  now := now

/-- A call of `record_rotation`, with what it draws. -/
def rotationCall (currentToken : String) (graceSeconds : ℤ) (newToken : String)
    (draw : Rotation.Draw) : RotationCall where
  currentToken := currentToken
  graceSeconds := graceSeconds
  newToken := newToken
  now := draw.now
  graceId := draw.graceId
  newKeyId := draw.newKeyId

def World.exec (i : ι) (op : Op) (reply : Reply) (w : World ι) :
    Option (Except Raised (Ans op) × World ι) :=
  match op, reply with
  | .authenticate token, .clocks first second =>
    let result := w.authenticate lib token first second
    some (.ok result, w.stamp i result)
  | .listKeys, .done => some (.ok w.file.load, w)
  | .create args, .created keyId rawToken now outcome =>
    let result := create lib.hashToken outcome (args.call keyId rawToken now) w.file
    some (result.2.mapError .store, { w.draw (lib.hashToken rawToken)
      (.key ⟨args.ns, args.admin⟩) with file := result.1 })
  | .revoke keyId, .wrote outcome =>
    let result := revoke outcome keyId w.file
    some (result.2.mapError .store, { w with file := result.1 })
  | .readCurrentToken, .done => some (.ok w.apiKey, w)
  | .verifyReadable, .done =>
    some (match loadForUpdate w.file with
      | .ok _ => .ok ()
      | .error e => .error (.store e), w)
  | .writeKeyFile, .token newToken outcome =>
    let drawn := w.draw (lib.hashToken newToken) .operator
    match outcome with
    | .failedBeforeReplace => some (.error (.rotation .keyFileWrite), drawn)
    | _ => some (.ok newToken, { drawn with keyFile := some (Rotation.keyFileContent newToken) })
  | .recordRotation currentToken graceSeconds newToken, .rotated draw outcome =>
    let result := recordRotation lib.hashToken outcome
      (rotationCall currentToken graceSeconds newToken draw) w.file
    some (result.2.mapError .store, { w with file := result.1 })
  | .publish newToken, .done => some (.ok (), { w with apiKey := newToken })
  | op, .cancel => if op.isShielded then none else some (.error .cancelled, w)
  | _, _ => none

def step (s : State ι) : Event ι → Option (State ι)
  | .call i token request =>
    if s.1.called i then none
    else some ({ s.1 with called := update s.1.called i true },
      update s.2 i (dispatch lib s.1.config token request))
  | .step i reply => advance (World.exec lib) s i reply
  | .restart up => some (s.1.start lib up, fun i => interrupt (s.2 i))

omit [DecidableEq ι] in
def State.init (up : Startup) : State ι := (World.init lib up, fun _ => .ret .unasked)

end Server

end ArchonSearch.Keys.Manage
