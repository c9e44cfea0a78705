import Mathlib.Data.Rat.Floor
import ArchonSearch.Identifiers
import ArchonSearch.Keys.Authenticate
import ArchonSearch.Py.Base64
import ArchonSearch.Py.Int
import ArchonSearch.Py.Utf8

/-!
# What a view token opens

A browser cannot send a key with a page navigation, so that `graph_view_token` mints tokens that go
into the URL. A token is `gv1`, a payload and a signature, with full stops between; the payload is
the URL-safe base64 text of a namespace, a collection and an expiry, with a NUL between; and the
signature is a digest of the payload under a secret of the process. Nothing is stored: what a token
opens is read from the token itself.

The digest is a parameter here, as is the sum of two clock values, which the interpreter rounds.
That nobody else can sign is `Unforged`: of a log of the tokens that were minted, it says that a
token whose signature is right carries a payload of the log. Under it a token opens what it was
minted for, and opens it until it expires (`verifyViewToken_grants`). The payload alone opens
nothing: with another signature it is refused (`payload_alone_is_refused`).
-/

namespace ArchonSearch.Keys.ViewToken

open Py List Option

/-! ### The functions -/

/-- `GRAPH_VIEW_TOKEN_TTL_SECONDS`. -/
def graphViewTokenTtlSeconds : ℚ := 60

/-- `_TOKEN_PREFIX`. -/
def tokenPrefix : String := "gv1"

/-- `bytes.hex()`. -/
def hexOfBytes (bytes : List ℕ) : String :=
  String.ofList (bytes.flatMap fun b => [Nat.digitChar (b / 16 % 16), Nat.digitChar (b % 16)])

/-- `int` of a float: what is left of the point. -/
def intOfFloat (x : ℚ) : ℤ := if 0 ≤ x then ⌊x⌋ else ⌈x⌉

variable (digest : List ℕ → List ℕ) (plus : ℚ → ℚ → ℚ)

/-- `_sign`; the parameter is `hmac.digest` with the secret and SHA-256. -/
def sign (payload : List ℕ) : String := hexOfBytes (digest payload)

def payloadText (ns collection : String) (expiresAt : ℤ) : String :=
  ns ++ "\x00" ++ collection ++ "\x00" ++ toString expiresAt

def tokenOf (payload : List ℕ) (signature : String) : String :=
  tokenPrefix ++ "." ++ stripPadding (urlsafeB64encode payload) ++ "." ++ signature

def expiresAt (now : ℚ) : ℤ := intOfFloat (plus now graphViewTokenTtlSeconds)

/-- `mint_view_token`. -/
def mintViewToken (ns collection : String) (now : ℚ) : String :=
  let payload := encodeUtf8 (payloadText ns collection (expiresAt plus now))
  tokenOf payload (sign digest payload)

def tokenSegments (token : String) : Option (String × String) :=
  match reSplit (· = '.') token with
  | [first, body, signature] =>
    if first ≠ tokenPrefix ∨ isAscii token = false then none else some (body, signature)
  | _ => none

def payloadFields (payload : List ℕ) : Option (String × String × ℤ) := do
  let text ← decodeUtf8 payload
  match reSplit (· = '\x00') text with
  | [ns, collection, expiresAt] => (intOfStr expiresAt).map fun expiry => (ns, collection, expiry)
  | _ => none

/-- `verify_view_token`. -/
def verifyViewToken (token collection : String) (now : ℚ) : Option String := do
  let (body, signature) ← tokenSegments token
  let payload ← urlsafeB64decode (restorePadding body)
  if sign digest payload ≠ signature then none
  else
    let (ns, tokenCollection, expiry) ← payloadFields payload
    if tokenCollection ≠ collection ∨ (expiry : ℚ) ≤ now then none
    else if isNamespaceValid ns then some ns
    else none

/-! ### What was minted -/

/-- A call of `mint_view_token`, with the clock of the call. -/
structure Mint where
  (ns collection : String)
  now : ℚ

def Mint.expiresAt (mint : Mint) : ℤ := ViewToken.expiresAt plus mint.now

def Mint.payload (mint : Mint) : List ℕ :=
  encodeUtf8 (payloadText mint.ns mint.collection (mint.expiresAt plus))

def Mint.token (mint : Mint) : String :=
  mintViewToken digest plus mint.ns mint.collection mint.now

def DecodesTo (token : String) (payload : List ℕ) : Prop :=
  ∃ body signature, tokenSegments token = some (body, signature) ∧
    urlsafeB64decode (restorePadding body) = some payload

/-- The body of the token decodes to this payload, and the token has the payload's signature. -/
def Carries (token : String) (payload : List ℕ) : Prop :=
  ∃ body, tokenSegments token = some (body, sign digest payload) ∧
    urlsafeB64decode (restorePadding body) = some payload

/-- **The token is no forgery**: a payload that it carries the signature of was signed for a token
of the log. The secret signs nothing else, and who does not have it cannot sign. -/
def Unforged (minted : Set Mint) (token : String) : Prop :=
  ∀ payload, Carries digest token payload → ∃ mint ∈ minted, mint.payload plus = payload

/-! ### What a payload and a token say -/

section Segments

variable {digest plus} {token body signature ns collection x : String} {payload : List ℕ} {n e : ℤ}

/-- A token that is minted has the three segments that it was put together of. -/
theorem tokenSegments_tokenOf (hpayl : ∀ b ∈ payload, b < 256)
    (hsig : ∀ c ∈ signature.toList, c.toNat < 128 ∧ c ≠ '.') :
    tokenSegments (tokenOf payload signature) =
      some (stripPadding (urlsafeB64encode payload), signature) := by
  have hbody : ∀ c ∈ (stripPadding (urlsafeB64encode payload)).toList, c.toNat < 128 ∧ c ≠ '.' := by
    intro c hc
    rw [stripPadding, String.toList_ofList] at hc
    exact mem_urlsafeB64encode hpayl (( rdropWhile_prefix _ _).subset hc)
  have htoList : (tokenOf payload signature).toList = tokenPrefix.toList ++ '.' ::
      ((stripPadding (urlsafeB64encode payload)).toList ++ '.' :: signature.toList) := by
    simp [tokenOf]
  have hasc : isAscii (tokenOf payload signature) = true := by
    rw [isAscii, htoList, List.all_eq_true]
    simp only [mem_append, mem_cons, decide_eq_true_eq]
    rintro c (hc | rfl | hc | rfl | hc)
    · have hpre : tokenPrefix.toList = ['g', 'v', '1'] := rfl
      simp only [hpre, mem_cons, not_mem_nil, or_false] at hc
      rcases hc with rfl | rfl | rfl <;> decide
    · decide
    · exact (hbody c hc).1
    · decide
    · exact (hsig c hc).1
  rw [tokenSegments, (reSplit_eq_three_iff htoList).mpr ⟨⟨rfl, by decide⟩,
    ⟨rfl, fun h => (hbody _ h).2 rfl⟩, ⟨rfl, fun h => (hsig _ h).2 rfl⟩⟩]
  simp [hasc]

theorem nul_not_mem_toString : '\x00' ∉ (toString n).toList := by
  intro h
  rcases isDigit_or_of_mem_toString h with h | h <;> exact absurd h (by decide)

/-- **The fields of a payload are read back**, exactly if neither name holds a NUL. -/
theorem payloadFields_eq_some_iff {fields : String × String × ℤ} :
    payloadFields (encodeUtf8 (payloadText ns collection n)) = some fields ↔
      ('\x00' ∉ ns.toList ∧ '\x00' ∉ collection.toList) ∧ fields = (ns, collection, n) := by
  have htoList : (payloadText ns collection n).toList = ns.toList ++ '\x00' ::
      (collection.toList ++ '\x00' :: (toString n).toList) := by
    simp [payloadText]
  rw [payloadFields, decodeUtf8_encodeUtf8, bind_eq_bind, bind_some]
  constructor
  · intro h
    split at h
    · rename_i x y z hsplit
      obtain ⟨⟨rfl, hns⟩, ⟨rfl, hcoll⟩, rfl, -⟩ := (reSplit_eq_three_iff htoList).mp hsplit
      rw [intOfStr_toString, map_some] at h
      exact ⟨⟨hns, hcoll⟩, (some.inj h).symm⟩
    · exact absurd h (by simp)
  · rintro ⟨⟨hns, hcoll⟩, rfl⟩
    rw [(reSplit_eq_three_iff htoList).mpr ⟨⟨rfl, hns⟩, ⟨rfl, hcoll⟩, ⟨rfl, nul_not_mem_toString⟩⟩]
    simp only [intOfStr_toString, map_some]

end Segments

/-! ### What a token opens -/

section Verify

variable {digest plus} {token collection ns : String} {now : ℚ} {payload : List ℕ} {mint : Mint}
  {minted : Set Mint}

/-- Hexadecimal text is ASCII and has no full stop. -/
theorem mem_sign {c : Char} (h : c ∈ (sign digest payload).toList) : c.toNat < 128 ∧ c ≠ '.' := by
  have hdig : ∀ v : Fin 16, (Nat.digitChar v).toNat < 128 ∧ Nat.digitChar v ≠ '.' := by decide
  rw [sign, hexOfBytes, String.toList_ofList] at h
  obtain ⟨b, -, hc⟩ := mem_flatMap.mp h
  rw [mem_pair] at hc
  rcases hc with rfl | rfl
  · exact hdig ⟨b / 16 % 16, Nat.mod_lt _ (by omega)⟩
  · exact hdig ⟨b % 16, Nat.mod_lt _ (by omega)⟩

/-- **What it takes to be let in**: a payload under its own signature, for the collection that is
asked for and a namespace that is valid, with an expiry that is still to come. -/
theorem verifyViewToken_eq_some_iff :
    verifyViewToken digest token collection now = some ns ↔ ∃ payload, ∃ expiry : ℤ,
      Carries digest token payload ∧ payloadFields payload = some (ns, collection, expiry) ∧
        now < expiry ∧ isNamespaceValid ns = true := by
  simp only [verifyViewToken, bind_eq_bind, bind_eq_some_iff, Prod.exists, Carries,
    ite_none_left_eq_some, ite_none_right_eq_some, not_or, not_le, not_not,
    some_inj]
  constructor
  · rintro ⟨body, signature, hseg, payload, hbody, rfl, found, foundCollection, expiry,
      hflds, ⟨rfl, hnow⟩, hval, rfl⟩
    exact ⟨payload, expiry, ⟨body, hseg, hbody⟩, hflds, hnow, hval⟩
  · rintro ⟨payload, expiry, ⟨body, hseg, hbody⟩, hflds, hnow, hval⟩
    exact ⟨body, _, hseg, payload, hbody, rfl, ns, collection, expiry, hflds, ⟨rfl, hnow⟩,
      hval, rfl⟩

/-- A token carries no other payload than the one it decodes to. -/
theorem Carries.unique {other : List ℕ} (h : DecodesTo token other)
    (hcar : Carries digest token payload) : payload = other := by
  obtain ⟨body, signature, hseg, hoth⟩ := h
  obtain ⟨body', hseg', hpayl⟩ := hcar
  obtain ⟨rfl, -⟩ := Prod.mk.inj (some.inj (hseg.symm.trans hseg'))
  exact some.inj (hpayl.symm.trans hoth)

/-- The token of a payload decodes to it, whatever it is signed with. -/
theorem decodesTo_tokenOf {signature : String} (hpayl : ∀ b ∈ payload, b < 256)
    (hsig : ∀ c ∈ signature.toList, c.toNat < 128 ∧ c ≠ '.') :
    DecodesTo (tokenOf payload signature) payload :=
  ⟨_, _, tokenSegments_tokenOf hpayl hsig, urlsafeB64decode_restorePadding hpayl⟩

theorem Mint.carries (mint : Mint) : Carries digest (mint.token digest plus) (mint.payload plus) :=
  ⟨_, tokenSegments_tokenOf lt_of_mem_encodeUtf8 fun _ => mem_sign,
    urlsafeB64decode_restorePadding lt_of_mem_encodeUtf8⟩

theorem Mint.decodesTo (mint : Mint) :
    DecodesTo (mint.token digest plus) (mint.payload plus) :=
  decodesTo_tokenOf lt_of_mem_encodeUtf8 fun _ => mem_sign

theorem nul_not_mem_of_isValidCollectionName
    (h : Identifiers.isValidCollectionName collection = true) : '\x00' ∉ collection.toList := by
  intro hnul
  rw [Identifiers.isValidCollectionName, Identifiers.collectionRe, Acl.namespaceRe] at h
  rcases hlist : collection.toList with - | ⟨c, cs⟩
  · simp [hlist] at hnul
  · simp only [hlist, Bool.and_eq_true, List.all_eq_true] at h hnul
    rcases mem_cons.mp hnul with rfl | hnul
    · exact absurd h.1.1 (by decide)
    · exact absurd (h.1.2 _ hnul) (by decide)

theorem nul_not_mem_of_isNamespaceValid (h : isNamespaceValid ns = true) :
    '\x00' ∉ ns.toList := by
  rw [isNamespaceValid, Bool.and_eq_true, Bool.and_eq_true] at h
  exact nul_not_mem_of_isValidCollectionName h.1.2

/-- **What a token that carries the payload of a mint opens.** -/
theorem verifyViewToken_of_decodesTo (h : DecodesTo token (mint.payload plus)) :
    verifyViewToken digest token collection now = some ns ↔
      Carries digest token (mint.payload plus) ∧ mint.ns = ns ∧ mint.collection = collection ∧
        now < mint.expiresAt plus ∧ isNamespaceValid ns = true ∧ '\x00' ∉ collection.toList := by
  rw [verifyViewToken_eq_some_iff]
  constructor
  · rintro ⟨payload, expiry, hcar, hflds, hnow, hval⟩
    obtain rfl := hcar.unique h
    obtain ⟨⟨-, hcoll⟩, heq⟩ := payloadFields_eq_some_iff.mp hflds
    obtain ⟨rfl, rfl, rfl⟩ := by simpa only [Prod.mk.injEq] using heq
    exact ⟨hcar, rfl, rfl, hnow, hval, hcoll⟩
  · rintro ⟨hcar, rfl, rfl, hnow, hval, hcoll⟩
    exact ⟨_, _, hcar, payloadFields_eq_some_iff.mpr
      ⟨⟨nul_not_mem_of_isNamespaceValid hval, hcoll⟩, rfl⟩, hnow, hval⟩

end Verify

/-! ### The results -/

section Results

variable {digest plus} {token collection ns : String} {now : ℚ} {minted : Set Mint}

/-- **A view token opens what it was minted for.** A token that is no forgery lets somebody in
exactly if it carries the payload of a token of the log for this namespace and collection, under
that payload's signature, which has not expired; the namespace has to be valid, and the collection
free of NULs. A token that is minted for valid names opens its collection until it expires and then
no more, and it never opens another collection or another namespace. -/
theorem verifyViewToken_grants (hforged : Unforged digest plus minted token) :
    (verifyViewToken digest token collection now = some ns ↔
      (isNamespaceValid ns = true ∧ '\x00' ∉ collection.toList) ∧
        ∃ mint ∈ minted, mint.ns = ns ∧ mint.collection = collection ∧
          Carries digest token (mint.payload plus) ∧ now < mint.expiresAt plus) ∧
    (∀ (mint : Mint) (later : ℚ), isNamespaceValid mint.ns = true →
      Identifiers.isValidCollectionName mint.collection = true →
      verifyViewToken digest (mint.token digest plus) mint.collection later =
        if later < mint.expiresAt plus then some mint.ns else none) ∧
    ∀ (mint : Mint) (other : String) (later : ℚ) (opened : String),
      verifyViewToken digest (mint.token digest plus) other later = some opened →
      opened = mint.ns ∧ other = mint.collection := by
  refine ⟨⟨fun h => ?_, ?_⟩, fun mint later hns hcoll => ?_, fun mint other later opened h => ?_⟩
  · obtain ⟨payload, expiry, hcar, -⟩ := verifyViewToken_eq_some_iff.mp h
    obtain ⟨mint, hmint, rfl⟩ := hforged payload hcar
    have hdec : DecodesTo token (mint.payload plus) := by
      obtain ⟨body, hseg, hbody⟩ := hcar
      exact ⟨body, _, hseg, hbody⟩
    obtain ⟨-, hns, hcoll, hnow, hval, hnul⟩ := (verifyViewToken_of_decodesTo hdec).mp h
    exact ⟨⟨hval, hnul⟩, mint, hmint, hns, hcoll, hcar, hnow⟩
  · rintro ⟨⟨hval, hnul⟩, mint, -, hns, hcoll, hcar, hnow⟩
    obtain ⟨body, hseg, hbody⟩ := id hcar
    exact (verifyViewToken_of_decodesTo ⟨body, _, hseg, hbody⟩).mpr
      ⟨hcar, hns, hcoll, hnow, hval, hnul⟩
  · split_ifs with hlat
    · exact (verifyViewToken_of_decodesTo mint.decodesTo).mpr ⟨mint.carries, rfl, rfl, hlat, hns,
        nul_not_mem_of_isValidCollectionName hcoll⟩
    · refine eq_none_iff_forall_ne_some.mpr fun opened h => hlat ?_
      exact ((verifyViewToken_of_decodesTo mint.decodesTo).mp h).2.2.2.1
  · obtain ⟨-, hns, hcoll, -⟩ := (verifyViewToken_of_decodesTo mint.decodesTo).mp h
    exact ⟨hns.symm, hcoll.symm⟩

end Results

/-- A token for the collection `docs`, minted when the clock starts. -/
def teamDocs : Mint := ⟨"team", "docs", 0⟩

/-- `hmac.digest` under a secret of 32 zero bytes, as far as the token of `teamDocs` needs it. -/
def zeroSecretDigest (payload : List ℕ) : List ℕ :=
  if payload = [116, 101, 97, 109, 0, 100, 111, 99, 115, 0, 54, 48] then
    [213, 47, 251, 34, 130, 182, 69, 95, 66, 243, 116, 149, 51, 85, 127, 25, 215, 89, 106, 105,
      25, 83, 182, 135, 65, 178, 241, 180, 227, 176, 83, 226]
  else List.replicate 32 0

/-- Where the log has this mint alone, a token of its payload is no forgery. -/
theorem unforged_teamDocs {token : String} (h : DecodesTo token (teamDocs.payload (· + ·))) :
    Unforged zeroSecretDigest (· + ·) {teamDocs} token :=
  fun _ hcar => ⟨teamDocs, rfl, (hcar.unique h).symm⟩

theorem verifyViewToken_grants_teamDocs :
    verifyViewToken zeroSecretDigest (teamDocs.token zeroSecretDigest (· + ·)) "docs" 0 =
      some "team" :=
  (verifyViewToken_grants (unforged_teamDocs teamDocs.decodesTo)).1.mpr
    ⟨⟨by decide, by decide⟩, teamDocs, rfl, rfl, rfl, teamDocs.carries, by decide +kernel⟩

/-- **The payload alone is refused**: with another signature, a payload that was minted for this
namespace and collection opens nothing. -/
theorem payload_alone_is_refused :
    Unforged zeroSecretDigest (· + ·) {teamDocs} "gv1.dGVhbQBkb2NzADYw.00" ∧
      ¬(verifyViewToken zeroSecretDigest "gv1.dGVhbQBkb2NzADYw.00" "docs" 0 = some "team" ↔
        ∃ mint ∈ ({teamDocs} : Set Mint), mint.ns = "team" ∧ mint.collection = "docs" ∧
          DecodesTo "gv1.dGVhbQBkb2NzADYw.00" (mint.payload (· + ·)) ∧
            0 < mint.expiresAt (· + ·)) := by
  have hdec : DecodesTo "gv1.dGVhbQBkb2NzADYw.00" (teamDocs.payload (· + ·)) :=
    ⟨"dGVhbQBkb2NzADYw", "00", by decide +kernel, by decide +kernel⟩
  have href : verifyViewToken zeroSecretDigest "gv1.dGVhbQBkb2NzADYw.00" "docs" 0 = none := by
    decide +kernel
  refine ⟨unforged_teamDocs hdec, fun h => ?_⟩
  have hopened := h.mpr ⟨teamDocs, rfl, rfl, rfl, hdec, by decide +kernel⟩
  exact absurd (href.symm.trans hopened) (by simp)

end ArchonSearch.Keys.ViewToken
